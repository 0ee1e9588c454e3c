import DynamicObjects.Bytes.Hex
import Mathlib.Tactic.IntervalCases

/-!
The grammar of hexadecimal text: blanks, and then pairs of adjacent digits with blanks behind each. Every
text follows the grammar, or breaks off inside a pair, or has a first character at which it cannot go on;
reading tells these apart, and on texts of the grammar it is the inverse of writing up to blanks and case.
-/
namespace DynamicObjects.Bytes

def hexAlphabet : List Char := "0123456789abcdefABCDEF".toList

def Blank (w : List Char) : Prop := ∀ c ∈ w, Text.isBlank c = true

theorem blank_nil : Blank [] := List.forall_mem_nil _

structure HexGroup where
  high : Char
  low : Char
  gap : List Char
  high_mem : high ∈ hexAlphabet
  low_mem : low ∈ hexAlphabet
  gap_blank : Blank gap

def HexGroup.chars (g : HexGroup) : List Char := g.high :: g.low :: g.gap

def IsHexText (t : List Char) : Prop :=
  ∃ (lead : List Char) (groups : List HexGroup), Blank lead ∧ t = lead ++ groups.flatMap HexGroup.chars

def IsHexHalf (t : List Char) : Prop :=
  ∃ u h, t = u ++ [h] ∧ IsHexText u ∧ h ∈ hexAlphabet

/-- Up to a position nothing is wrong, but the character there is no digit and cannot stand there: neither
the second digit of a pair nor the beginning of a pair or a blank. -/
def HexFaultAt (t : List Char) (position : Nat) : Prop :=
  ∃ u c v, t = u ++ c :: v ∧ u.length = position ∧ c ∉ hexAlphabet ∧
    (IsHexText u ∧ Text.isBlank c = false ∨ IsHexHalf u)

section Digits

variable {c : Char} {n : Nat}

theorem isBlank_of_mem (digit : c ∈ hexAlphabet) : Text.isBlank c = false := by
  -- `List.all` goes through the digits only, and not through all characters.
  have all : hexAlphabet.all (!Text.isBlank ·) = true := by decide
  simpa using List.all_eq_true.mp all c digit

theorem exists_hexValue (digit : c ∈ hexAlphabet) :
    ∃ n < 16, hexValue? c = some n ∧ hexDigit n = c.toLower := by
  have all : (hexAlphabet.all fun c => decide (∃ n : Nat, n < 16 ∧ hexValue? c = some n ∧
      hexDigit n = c.toLower)) = true := by decide
  exact of_decide_eq_true (List.all_eq_true.mp all c digit)

theorem hexValue?_hexDigit (h : n < 16) : hexValue? (hexDigit n) = some n := by
  have all : ∀ n < 16, hexValue? (hexDigit n) = some n := by decide
  exact all n h

theorem hexDigit_mem (h : n < 16) : hexDigit n ∈ hexAlphabet := by
  have all : ∀ n < 16, hexDigit n ∈ hexAlphabet := by decide
  exact all n h

theorem hexValue?_eq_none_iff : hexValue? c = none ↔ c ∉ hexAlphabet := by
  constructor
  · intro none digit
    obtain ⟨n, -, some, -⟩ := exists_hexValue digit
    cases none.symm.trans some
  · intro other
    by_contra value
    have code : 48 ≤ c.toNat ∧ c.toNat ≤ 57 ∨ 97 ≤ c.toNat ∧ c.toNat ≤ 102 ∨
        65 ≤ c.toNat ∧ c.toNat ≤ 70 := by
      by_contra outside
      simp only [not_or] at outside
      simp [hexValue?, outside] at value
    apply other
    rw [← Char.ofNat_toNat c]
    rcases code with ⟨low, high⟩ | ⟨low, high⟩ | ⟨low, high⟩
    all_goals
      generalize c.toNat = n at low high
      interval_cases n <;> decide

theorem mem_of_hexValue? (h : hexValue? c = some n) : c ∈ hexAlphabet := by
  by_contra other
  cases h.symm.trans (hexValue?_eq_none_iff.mpr other)

end Digits

namespace HexGroup

def byte (g : HexGroup) : UInt8 :=
  UInt8.ofNat (16 * (hexValue? g.high).getD 0 + (hexValue? g.low).getD 0)

theorem hexPair_byte (g : HexGroup) : hexPair g.byte = [g.high.toLower, g.low.toLower] := by
  obtain ⟨h, h_lt, high, upper⟩ := exists_hexValue g.high_mem
  obtain ⟨l, l_lt, low, lower⟩ := exists_hexValue g.low_mem
  have value : g.byte.toNat = 16 * h + l := by
    simp only [byte, high, low, Option.getD_some, UInt8.toNat_ofNat']
    omega
  rw [hexPair, value, ← upper, ← lower]
  congr 2
  · omega
  · congr 1
    omega

end HexGroup

section Reading

variable {position : Nat} {lead t : List Char} {groups : List HexGroup}

theorem ofHexChars_blank {c : Char} (blank : Text.isBlank c = true) (rest : List Char) :
    ofHexChars position (c :: rest) = ofHexChars (position + 1) rest := by
  rw [ofHexChars.eq_def]
  exact if_pos blank

theorem ofHexChars_lead (blank : Blank lead) (rest : List Char) :
    ofHexChars position (lead ++ rest) = ofHexChars (position + lead.length) rest := by
  induction lead generalizing position with
  | nil => rfl
  | cons c lead ih =>
    obtain ⟨here, behind⟩ := List.forall_mem_cons.mp blank
    rw [List.cons_append, ofHexChars_blank here, ih behind, List.length_cons, Nat.add_assoc,
      Nat.add_comm 1]

theorem ofHexChars_group (g : HexGroup) (rest : List Char) :
    ofHexChars position (g.chars ++ rest) =
      (ofHexChars (position + g.chars.length) rest).map (g.byte :: ·) := by
  obtain ⟨h, -, high, -⟩ := exists_hexValue g.high_mem
  obtain ⟨l, -, low, -⟩ := exists_hexValue g.low_mem
  have length : position + g.chars.length = position + 2 + g.gap.length := by
    simp [HexGroup.chars]
    omega
  rw [length, ← ofHexChars_lead g.gap_blank]
  simp [HexGroup.chars, HexGroup.byte, ofHexChars, isBlank_of_mem g.high_mem, high, low]

/-- Between the pairs reading remembers nothing but the bytes so far and the position. -/
theorem ofHexChars_append (blank : Blank lead) (groups : List HexGroup) (rest : List Char) :
    ofHexChars position (lead ++ groups.flatMap HexGroup.chars ++ rest) =
      (ofHexChars (position + (lead ++ groups.flatMap HexGroup.chars).length) rest).map
        (groups.map HexGroup.byte ++ ·) := by
  rw [List.append_assoc, ofHexChars_lead blank, List.length_append, ← Nat.add_assoc]
  generalize position + lead.length = position
  induction groups generalizing position with
  | nil =>
    rw [List.flatMap_nil, List.nil_append, List.length_nil, Nat.add_zero]
    cases ofHexChars position rest <;> rfl
  | cons g groups ih =>
    rw [List.flatMap_cons, List.append_assoc, ofHexChars_group, ih, List.length_append, ← Nat.add_assoc]
    generalize ofHexChars _ rest = result
    cases result <;> rfl

theorem ofHexChars_text (blank : Blank lead) (groups : List HexGroup) :
    ofHexChars 0 (lead ++ groups.flatMap HexGroup.chars) = .ok (groups.map HexGroup.byte) := by
  rw [← List.append_nil (lead ++ _), ofHexChars_append blank groups]
  simp [ofHexChars, Except.map]

theorem ofHexChars_half (half : IsHexHalf t) : ofHexChars 0 t = .error .hexOddDigits := by
  obtain ⟨_, h, rfl, ⟨lead, groups, blank, rfl⟩, digit⟩ := half
  obtain ⟨n, -, value, -⟩ := exists_hexValue digit
  rw [ofHexChars_append blank groups]
  simp [ofHexChars, isBlank_of_mem digit, value, Except.map]

theorem ofHexChars_fault (fault : HexFaultAt t position) :
    ofHexChars 0 t = .error (.hexDigitAt position) := by
  obtain ⟨_, c, v, rfl, rfl, other, ⟨⟨lead, groups, blank, rfl⟩, solid⟩ |
    ⟨_, h, rfl, ⟨lead, groups, blank, rfl⟩, digit⟩⟩ := fault
  · rw [ofHexChars_append blank groups]
    simp [ofHexChars, solid, hexValue?_eq_none_iff.mpr other, Except.map]
  · obtain ⟨n, -, value, -⟩ := exists_hexValue digit
    rw [List.append_assoc, ofHexChars_append blank groups]
    simp [ofHexChars, isBlank_of_mem digit, value, hexValue?_eq_none_iff.mpr other, Except.map, Nat.add_assoc]

theorem IsHexText.cons_blank {c : Char} (blank : Text.isBlank c = true) (rest : IsHexText t) :
    IsHexText ([c] ++ t) := by
  obtain ⟨lead, groups, blanks, rfl⟩ := rest
  exact ⟨c :: lead, groups, List.forall_mem_cons.mpr ⟨blank, blanks⟩, rfl⟩

theorem IsHexText.cons_pair {high low : Char} (high_mem : high ∈ hexAlphabet)
    (low_mem : low ∈ hexAlphabet) (rest : IsHexText t) : IsHexText ([high, low] ++ t) := by
  obtain ⟨lead, groups, blanks, rfl⟩ := rest
  exact ⟨[], ⟨high, low, lead, high_mem, low_mem, blanks⟩ :: groups, blank_nil, rfl⟩

inductive HexVerdict (t : List Char) : Prop
  | text (whole : IsHexText t)
  | half (half : IsHexHalf t)
  | fault (position : Nat) (fault : HexFaultAt t position)

theorem HexVerdict.behind {front : List Char}
    (keeps : ∀ u, IsHexText u → IsHexText (front ++ u)) (verdict : HexVerdict t) :
    HexVerdict (front ++ t) := by
  have half (u : List Char) (h : IsHexHalf u) : IsHexHalf (front ++ u) := by
    obtain ⟨u, h, rfl, whole, digit⟩ := h
    exact ⟨front ++ u, h, by simp, keeps u whole, digit⟩
  cases verdict with
  | text whole => exact .text (keeps t whole)
  | half broken => exact .half (half t broken)
  | fault position fault =>
    obtain ⟨u, c, v, rfl, -, other, before⟩ := fault
    exact .fault (front ++ u).length ⟨front ++ u, c, v, by simp, rfl, other,
      before.imp (And.imp_left (keeps u)) (half u)⟩

theorem hexVerdict (t : List Char) : HexVerdict t := by
  have empty : IsHexText [] := ⟨[], [], blank_nil, rfl⟩
  fun_induction ofHexChars 0 t with
  | case1 => exact .text empty
  | case2 _ c rest blank ih => exact ih.behind fun _ => .cons_blank blank
  | case3 _ c rest solid value =>
    exact .fault 0 ⟨[], c, rest, rfl, rfl, hexValue?_eq_none_iff.mp value,
      .inl ⟨empty, Bool.eq_false_iff.mpr solid⟩⟩
  | case4 _ h solid n value => exact .half ⟨[], h, rfl, empty, mem_of_hexValue? value⟩
  | case5 _ h solid n c rest digit value =>
    exact .fault 1 ⟨[h], c, rest, rfl, rfl, hexValue?_eq_none_iff.mp value,
      .inr ⟨[], h, rfl, empty, mem_of_hexValue? digit⟩⟩
  | case6 _ h solid n l rest high m low ih =>
    exact ih.behind fun _ => .cons_pair (mem_of_hexValue? high) (mem_of_hexValue? low)

theorem ofHexChars_eq_ok_iff : (∃ data, ofHexChars 0 t = .ok data) ↔ IsHexText t := by
  constructor
  · rintro ⟨data, read⟩
    cases hexVerdict t with
    | text whole => exact whole
    | half half => cases read.symm.trans (ofHexChars_half half)
    | fault position fault => cases read.symm.trans (ofHexChars_fault fault)
  · rintro ⟨lead, groups, blank, rfl⟩
    exact ⟨_, ofHexChars_text blank groups⟩

theorem ofHexChars_eq_fault_iff :
    ofHexChars 0 t = .error (.hexDigitAt position) ↔ HexFaultAt t position := by
  refine ⟨fun read => ?_, ofHexChars_fault⟩
  cases hexVerdict t with
  | text whole =>
    obtain ⟨data, read'⟩ := ofHexChars_eq_ok_iff.mpr whole
    cases read.symm.trans read'
  | half half => cases read.symm.trans (ofHexChars_half half)
  | fault position' fault =>
    cases read.symm.trans (ofHexChars_fault fault)
    exact fault

theorem ofHexChars_eq_half_iff : ofHexChars 0 t = .error .hexOddDigits ↔ IsHexHalf t := by
  refine ⟨fun read => ?_, ofHexChars_half⟩
  cases hexVerdict t with
  | text whole =>
    obtain ⟨data, read'⟩ := ofHexChars_eq_ok_iff.mpr whole
    cases read.symm.trans read'
  | half half => exact half
  | fault position fault => cases read.symm.trans (ofHexChars_fault fault)

end Reading

theorem hexChars_nil_sep (data : Bytes) : hexChars [] data = data.flatMap hexPair := by
  fun_induction hexChars [] data with
  | case1 => rfl
  | case2 b => simp
  | case3 b rest _ ih => simp [ih]

def HexGroup.ofByte (b : UInt8) (gap : List Char) (blank : Blank gap) : HexGroup where
  high := hexDigit (b.toNat / 16)
  low := hexDigit (b.toNat % 16)
  gap
  high_mem := hexDigit_mem (by have := b.toNat_lt; omega)
  low_mem := hexDigit_mem (Nat.mod_lt _ (by decide))
  gap_blank := blank

theorem HexGroup.byte_ofByte (b : UInt8) (gap : List Char) (blank : Blank gap) :
    (ofByte b gap blank).byte = b := by
  have high : b.toNat / 16 < 16 := by
    have := b.toNat_lt
    omega
  have low : b.toNat % 16 < 16 := Nat.mod_lt _ (by decide)
  simp only [byte, ofByte, hexValue?_hexDigit high, hexValue?_hexDigit low, Option.getD_some]
  rw [Nat.div_add_mod, UInt8.ofNat_toNat]

theorem exists_groups {sep : List Char} (blank : Blank sep) (data : Bytes) :
    ∃ groups : List HexGroup, hexChars sep data = groups.flatMap HexGroup.chars ∧
      groups.map HexGroup.byte = data := by
  fun_induction hexChars sep data with
  | case1 => exact ⟨[], rfl, rfl⟩
  | case2 b =>
    exact ⟨[.ofByte b [] blank_nil], rfl, by simp [HexGroup.byte_ofByte]⟩
  | case3 b rest _ ih =>
    obtain ⟨groups, written, bytes⟩ := ih
    refine ⟨.ofByte b sep blank :: groups, ?_, by simp [HexGroup.byte_ofByte, bytes]⟩
    rw [written]
    simp [HexGroup.ofByte, HexGroup.chars, hexPair]

theorem ofHexChars_hexChars {sep : List Char} (blank : Blank sep) (data : Bytes) :
    ofHexChars 0 (hexChars sep data) = .ok data := by
  obtain ⟨groups, written, bytes⟩ := exists_groups blank data
  rw [written, ← bytes]
  exact ofHexChars_text blank_nil groups

theorem hexChars_ofHexChars {t : List Char} {data : Bytes} (read : ofHexChars 0 t = .ok data) :
    hexChars [] data = (t.filter (!Text.isBlank ·)).map Char.toLower := by
  obtain ⟨lead, groups, blank, rfl⟩ := ofHexChars_eq_ok_iff.mp ⟨data, read⟩
  have skips (w : List Char) (blank : Blank w) : w.filter (!Text.isBlank ·) = [] := by
    simpa [List.filter_eq_nil_iff, Blank] using blank
  obtain rfl : groups.map HexGroup.byte = data := by
    rw [ofHexChars_text blank groups] at read
    exact Except.ok.inj read
  rw [hexChars_nil_sep, List.filter_append, skips lead blank, List.nil_append]
  clear read
  induction groups with
  | nil => rfl
  | cons g groups ih =>
    simp [HexGroup.hexPair_byte, HexGroup.chars, skips g.gap g.gap_blank, isBlank_of_mem g.high_mem,
      isBlank_of_mem g.low_mem, ih]

/-- Reading undoes writing when blanks or nothing stand between the bytes; it succeeds exactly on texts of
the grammar, from which writing gives the digits in lower case; and it fails at the first character that is
no digit where one is due, which the error names, or else since the text breaks off inside a pair. -/
theorem hex_texts :
    (∀ (data : Bytes) (sep : String), (∀ c ∈ sep.toList, Text.isBlank c = true) →
      ofHex (toHex data sep) = .ok data) ∧
    ∀ text : String,
      ((∃ data, ofHex text = .ok data) ↔ IsHexText text.toList) ∧
      (∀ data, ofHex text = .ok data →
        (toHex data "").toList = (text.toList.filter (!Text.isBlank ·)).map Char.toLower) ∧
      (∀ position, ofHex text = .error (.hexDigitAt position) ↔ HexFaultAt text.toList position) ∧
      (ofHex text = .error .hexOddDigits ↔ IsHexHalf text.toList) ∧
      (¬ IsHexText text.toList → ofHex text = .error .hexOddDigits ∨
        ∃ position, ofHex text = .error (.hexDigitAt position) ∧
          (Error.hexDigitAt position).message? =
            some ("non-hexadecimal number found in fromhex() arg at position " ++ toString position)) := by
  refine ⟨fun data sep blank => ?_, fun text => ⟨ofHexChars_eq_ok_iff, fun data read => ?_,
    fun _ => ofHexChars_eq_fault_iff, ofHexChars_eq_half_iff, fun other => ?_⟩⟩
  · rw [ofHex, toHex, String.toList_ofList]
    exact ofHexChars_hexChars blank data
  · rw [toHex, String.toList_ofList]
    exact hexChars_ofHexChars read
  · cases hexVerdict text.toList with
    | text whole => exact absurd whole other
    | half half => exact .inl (ofHexChars_half half)
    | fault position fault => exact .inr ⟨position, ofHexChars_fault fault, rfl⟩

/-- Digits of either case with blanks of several kinds, and a blank inside a pair. -/
theorem hex_texts_spaced :
    ofHex (toHex [222, 173] " \t") = .ok [222, 173] ∧
    (toHex [222, 173] "").toList = ("\n dE\u2003aD".toList.filter (!Text.isBlank ·)).map Char.toLower ∧
    HexFaultAt "de a d".toList 4 ∧
    (ofHex "de a d" = .error .hexOddDigits ∨
      ∃ position, ofHex "de a d" = .error (.hexDigitAt position) ∧
        (Error.hexDigitAt position).message? =
          some ("non-hexadecimal number found in fromhex() arg at position " ++ toString position)) := by
  have fails : ofHex "de a d" = .error (.hexDigitAt 4) := by cbv
  obtain ⟨reads, -, faults, -, names⟩ := hex_texts.2 "de a d"
  refine ⟨hex_texts.1 _ _ (List.all_eq_true.mp (by decide)), (hex_texts.2 "\n dE\u2003aD").2.1 _ (by cbv),
    (faults 4).mp fails, names fun whole => ?_⟩
  obtain ⟨data, read⟩ := reads.mpr whole
  cases fails.symm.trans read

end DynamicObjects.Bytes
