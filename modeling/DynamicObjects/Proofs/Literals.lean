import DynamicObjects.Text.Quoted
import DynamicObjects.Proofs.Bytes.Hexadecimal
import DynamicObjects.Proofs.Codecs.Utf8

/-!
Quoted forms as literals. The form of a text or of a byte string is a quote, a body and the same quote, which
is the first one behind the opening quote that no backslash escapes; and undoing the escapes of the body gives
what was written, so that different things have different forms. Both kinds of forms are made unit by unit,
and a unit stands in a body in one of three ways; all laws are by cases on these.
-/
namespace DynamicObjects

/-- The number of the character that a backslash and this character stand for. -/
def escapeValue? (c : Char) : Option Nat :=
  match c with
  | '\\' => some 92
  | 't' => some 9
  | 'n' => some 10
  | 'r' => some 13
  | '\'' => some 39
  | '"' => some 34
  | _ => none

def unescape? {α : Type} (unit : Nat → α) : List Char → Option (List α)
  | [] => some []
  | c :: rest =>
    if c = '\\' then
      match rest with
      | [] => none
      | e :: rest =>
        if e = 'x' then
          match rest with
          | high :: low :: rest =>
            match Bytes.hexValue? high, Bytes.hexValue? low with
            | some h, some l => (unescape? unit rest).map (unit (16 * h + l) :: ·)
            | _, _ => none
          | _ => none
        else
          match escapeValue? e with
          | some n => (unescape? unit rest).map (unit n :: ·)
          | none => none
    else (unescape? unit rest).map (unit c.toNat :: ·)

/-- Whether the character at a position is escaped: backslashes escape each other from the left, so it is
when an odd number of them stands right in front of it. -/
def Escaped (t : List Char) (i : Nat) : Prop :=
  ((t.take i).reverse.takeWhile (· == '\\')).length % 2 = 1

/-- The quote that ends a body is the first one that is not escaped. -/
structure Closes (quote : Char) (t : List Char) (i : Nat) : Prop where
  quoted : t[i]? = some quote
  free : ¬ Escaped t i
  first : ∀ j < i, t[j]? = some quote → Escaped t j

/-- A quote, a body that stands for the units and in which that quote is always escaped, and the quote again,
whatever follows. -/
def IsLiteral {α : Type} (unit : Nat → α) (quote : Char) (units : List α) (t : List Char) : Prop :=
  ∃ body, t = quote :: body ++ [quote] ∧ unescape? unit body = some units ∧
    ∀ rest, Closes quote (body ++ quote :: rest) body.length

/-- The forms in which the unit of a number stands between quotes. -/
inductive Written (quote : Char) : List Char → Nat → Prop
  | plain {c : Char} (no_escape : c ≠ '\\') (no_quote : c ≠ quote) : Written quote [c] c.toNat
  | escaped {c : Char} {n : Nat} (value : escapeValue? c = some n) : Written quote ['\\', c] n
  | numbered (b : UInt8) : Written quote (Text.escapeByte b) b.toNat

def IsQuote (c : Char) : Prop := c = '\'' ∨ c = '"'

theorem isQuote_quoteFor (hasSingle hasDouble : Bool) : IsQuote (quoteFor hasSingle hasDouble) := by
  cases hasSingle <;> cases hasDouble <;> simp [IsQuote, quoteFor]

theorem IsQuote.ne_backslash {quote : Char} (h : IsQuote quote) : quote ≠ '\\' := by
  rcases h with rfl | rfl <;> decide

theorem IsQuote.not_mem_hexAlphabet {quote : Char} (h : IsQuote quote) : quote ∉ Bytes.hexAlphabet := by
  rcases h with rfl | rfl <;> decide

section Units

variable {α : Type} {quote : Char} {u t : List Char} {n i : Nat}

theorem written_escapeChar (quoted : IsQuote quote) (c : Char) :
    Written quote (Text.escapeChar quote c) c.toNat := by
  unfold Text.escapeChar
  split
  next h => subst h; exact .escaped rfl
  split
  next h => subst h; exact .escaped rfl
  split
  next h => subst h; exact .escaped rfl
  split
  next h => subst h; exact .escaped rfl
  split
  next h =>
    subst h
    rcases quoted with rfl | rfl
    · exact .escaped rfl
    · exact .escaped rfl
  split
  next control =>
    have byte : (UInt8.ofNat c.toNat).toNat = c.toNat := by
      rw [UInt8.toNat_ofNat']
      omega
    have numbered : Written quote _ _ := .numbered (UInt8.ofNat c.toNat)
    rwa [byte] at numbered
  next no_escape _ _ _ no_quote _ => exact .plain no_escape no_quote

theorem written_escapeByte (quoted : IsQuote quote) (b : UInt8) :
    Written quote (Bytes.escapeByte quote b) b.toNat := by
  unfold Bytes.escapeByte
  split
  next h => exact h ▸ .escaped rfl
  split
  next h => exact h ▸ .escaped rfl
  split
  next h => exact h ▸ .escaped rfl
  split
  next h => exact h ▸ .escaped rfl
  split
  next h =>
    rw [h]
    rcases quoted with rfl | rfl
    · exact .escaped rfl
    · exact .escaped rfl
  split
  next no_escape _ _ _ no_quote printable =>
    have code := Utf8.toNat_char b
    have plain : Written quote [Char.ofNat b.toNat] (Char.ofNat b.toNat).toNat := by
      refine .plain (fun h => ?_) (fun h => ?_)
      · exact no_escape (UInt8.toNat_inj.mp (code.symm.trans (congrArg Char.toNat h)))
      · exact no_quote (code.symm.trans (congrArg Char.toNat h))
    rwa [code] at plain
  next => exact .numbered b

theorem unescape?_written (written : Written quote u n) (unit : Nat → α) (rest : List Char) :
    unescape? unit (u ++ rest) = (unescape? unit rest).map (unit n :: ·) := by
  cases written with
  | plain no_escape =>
    rw [List.singleton_append, unescape?.eq_def]
    exact if_neg no_escape
  | @escaped c n value =>
    have single : c ≠ 'x' := by
      rintro rfl
      cases value
    rw [List.cons_append, List.singleton_append, unescape?.eq_def]
    simp [single, value]
  | numbered b =>
    have high := Bytes.hexValue?_hexDigit (n := b.toNat / 16) (by have := b.toNat_lt; omega)
    have low := Bytes.hexValue?_hexDigit (n := b.toNat % 16) (Nat.mod_lt _ (by decide))
    simp [Text.escapeByte, Bytes.hexPair, unescape?, high, low, Nat.div_add_mod]

theorem escaped_append (even : ¬ Escaped u u.length) :
    Escaped (u ++ t) (u.length + i) ↔ Escaped t i := by
  unfold Escaped at even ⊢
  rw [List.take_length] at even
  rw [List.take_length_add_append, List.reverse_append, List.takeWhile_append]
  split
  next whole =>
    rw [List.length_append]
    omega
  next => rfl

theorem Written.even (written : Written quote u n) : ¬ Escaped u u.length := by
  cases written with
  | plain no_escape => simp [Escaped, no_escape]
  | @escaped c n value => by_cases h : c = '\\' <;> simp [Escaped, h]
  | numbered b =>
    have digit := Bytes.hexDigit_mem (n := b.toNat % 16) (Nat.mod_lt _ (by decide))
    have other : Bytes.hexDigit (b.toNat % 16) ≠ '\\' := by
      intro h
      rw [h] at digit
      revert digit
      decide
    simp [Escaped, Text.escapeByte, Bytes.hexPair, other]

theorem Written.escaped_of_quote (quoted : IsQuote quote) (written : Written quote u n) (inside : i < u.length)
    (here : (u ++ t)[i]? = some quote) : Escaped (u ++ t) i := by
  rw [List.getElem?_append_left inside] at here
  have second (v : List Char) : Escaped ('\\' :: v) 1 := by simp [Escaped]
  cases written with
  | plain no_escape no_quote =>
    obtain rfl : i = 0 := by simpa using inside
    exact absurd (Option.some.inj here) no_quote
  | escaped value =>
    match i with
    | 0 => exact absurd (Option.some.inj here).symm quoted.ne_backslash
    | 1 => exact second _
  | numbered b =>
    have digit (n : Nat) (small : n < 16) : Bytes.hexDigit n ≠ quote := by
      rintro rfl
      exact quoted.not_mem_hexAlphabet (Bytes.hexDigit_mem small)
    match i with
    | 0 => exact absurd (Option.some.inj here).symm quoted.ne_backslash
    | 1 => exact second _
    | 2 => exact absurd (Option.some.inj here) (digit _ (by have := b.toNat_lt; omega))
    | 3 => exact absurd (Option.some.inj here) (digit _ (Nat.mod_lt _ (by decide)))

theorem Closes.behind (quoted : IsQuote quote) (written : Written quote u n) (closes : Closes quote t i) :
    Closes quote (u ++ t) (u.length + i) where
  quoted := by
    rw [List.getElem?_append_right (Nat.le_add_right _ _), Nat.add_sub_cancel_left]
    exact closes.quoted
  free := fun escaped => closes.free ((escaped_append (written.even)).mp escaped)
  first := fun j before here => by
    rcases Nat.lt_or_ge j u.length with inside | behind
    · exact written.escaped_of_quote quoted inside here
    · obtain ⟨k, rfl⟩ := Nat.exists_eq_add_of_le behind
      rw [List.getElem?_append_right behind, Nat.add_sub_cancel_left] at here
      exact (escaped_append (written.even)).mpr (closes.first k (by omega) here)

variable {form : α → List Char} {code : α → Nat}

theorem unescape?_flatMap (written : ∀ x, Written quote (form x) (code x)) {unit : Nat → α}
    (unit_code : ∀ x, unit (code x) = x) (units : List α) : unescape? unit (units.flatMap form) = some units := by
  induction units with
  | nil => rfl
  | cons x units ih => rw [List.flatMap_cons, unescape?_written (written x), ih, Option.map_some, unit_code]

theorem closes_flatMap (quoted : IsQuote quote) (written : ∀ x, Written quote (form x) (code x)) (units : List α)
    (rest : List Char) : Closes quote (units.flatMap form ++ quote :: rest) (units.flatMap form).length := by
  induction units with
  | nil => exact ⟨rfl, by simp [Escaped], fun j before => absurd before (Nat.not_lt_zero j)⟩
  | cons x units ih =>
    rw [List.flatMap_cons, List.append_assoc, List.length_append]
    exact ih.behind quoted (written x)

theorem isLiteral_flatMap (quoted : IsQuote quote) (written : ∀ x, Written quote (form x) (code x))
    {unit : Nat → α} (unit_code : ∀ x, unit (code x) = x) (units : List α) :
    IsLiteral unit quote units (quote :: units.flatMap form ++ [quote]) :=
  ⟨_, rfl, unescape?_flatMap written unit_code units, closes_flatMap quoted written units⟩

theorem IsLiteral.unique {unit : Nat → α} {quote' : Char} {units units' : List α}
    (this : IsLiteral unit quote units t) (that : IsLiteral unit quote' units' t) : units = units' := by
  obtain ⟨body, rfl, reads, -⟩ := this
  obtain ⟨body', same, reads', -⟩ := that
  obtain ⟨rfl, rest⟩ := List.cons.inj same
  rw [List.append_cancel_right rest] at reads
  exact Option.some.inj (reads.symm.trans reads')

end Units

theorem quoteFor_eq_double_iff (hasSingle hasDouble : Bool) :
    quoteFor hasSingle hasDouble = '"' ↔ hasSingle = true ∧ hasDouble = false := by
  cases hasSingle <;> cases hasDouble <;> simp [quoteFor]

theorem Text.isLiteral_quoted (text : String) :
    IsLiteral Char.ofNat (quoteFor (text.toList.contains '\'') (text.toList.contains '"')) text.toList
      (quoted text).toList := by
  rw [quoted, String.toList_ofList]
  exact isLiteral_flatMap (isQuote_quoteFor _ _) (written_escapeChar (isQuote_quoteFor _ _)) Char.ofNat_toNat _

namespace Bytes

theorem isLiteral_tail_quoted (data : Bytes) :
    IsLiteral UInt8.ofNat (quoteFor (data.contains 39) (data.contains 34)) data (quoted data).toList.tail := by
  rw [quoted, String.toList_ofList]
  exact isLiteral_flatMap (isQuote_quoteFor _ _) (written_escapeByte (isQuote_quoteFor _ _))
    (fun _ => UInt8.ofNat_toNat) data

def Printable (c : Char) : Prop := 0x20 ≤ c.toNat ∧ c.toNat ≤ 0x7e

instance (c : Char) : Decidable (Printable c) :=
  inferInstanceAs (Decidable (_ ∧ _))

theorem printable_of_isQuote {c : Char} (h : IsQuote c) : Printable c := by
  rcases h with rfl | rfl <;> decide

theorem printable_numbered {c : Char} {b : UInt8} (h : c ∈ Text.escapeByte b) : Printable c := by
  have digit : ∀ n < 16, Printable (hexDigit n) := by decide
  have high := digit (b.toNat / 16) (by have := b.toNat_lt; omega)
  have low := digit (b.toNat % 16) (Nat.mod_lt _ (by decide))
  simp only [Text.escapeByte, hexPair, List.mem_cons, List.not_mem_nil, or_false] at h
  rcases h with rfl | rfl | rfl | rfl
  · decide
  · decide
  · exact high
  · exact low

theorem printable_escapeByte {quote c : Char} (quoted : IsQuote quote) {b : UInt8}
    (h : c ∈ escapeByte quote b) : Printable c := by
  have short : ∀ e ∈ ['\\', 't', 'n', 'r'], ∀ c ∈ ['\\', e], Printable c := by simp [Printable]
  unfold escapeByte at h
  split at h
  · exact short '\\' (by decide) c h
  split at h
  · exact short 't' (by decide) c h
  split at h
  · exact short 'n' (by decide) c h
  split at h
  · exact short 'r' (by decide) c h
  split at h
  · rcases List.mem_cons.mp h with rfl | h
    · decide
    · obtain rfl := List.mem_singleton.mp h
      exact printable_of_isQuote quoted
  split at h
  next printable =>
    obtain rfl := List.mem_singleton.mp h
    rw [Printable, Utf8.toNat_char]
    exact printable
  next => exact printable_numbered h

theorem printable_quoted {c : Char} {data : Bytes} (h : c ∈ (quoted data).toList) : Printable c := by
  have quoted := isQuote_quoteFor (data.contains 39) (data.contains 34)
  simp only [Bytes.quoted, String.toList_ofList, quotedChars, List.cons_append, List.mem_cons, List.mem_append,
    List.mem_flatMap, List.not_mem_nil, or_false] at h
  rcases h with rfl | rfl | ⟨b, -, h⟩ | rfl
  · decide
  · exact printable_of_isQuote quoted
  · exact printable_escapeByte quoted h
  · exact printable_of_isQuote quoted

end Bytes

/-- The form of every text and of every byte string is a literal: it ends at the first quote of its kind that is
not escaped, and undoing the escapes in front of that gives the text or the bytes. So no two texts and no two
byte strings have the same form. Those of byte strings are printable. -/
theorem quoted_forms_read_back :
    (∀ text : String, ∃ quote, (quote = '\'' ∨ quote = '"') ∧
      (quote = '"' ↔ '\'' ∈ text.toList ∧ '"' ∉ text.toList) ∧
      IsLiteral Char.ofNat quote text.toList (Text.quoted text).toList) ∧
    Function.Injective Text.quoted ∧
    (∀ data : Bytes, ∃ quote t, (quote = '\'' ∨ quote = '"') ∧
      (quote = '"' ↔ 39 ∈ data ∧ 34 ∉ data) ∧
      (Bytes.quoted data).toList = 'b' :: t ∧ IsLiteral UInt8.ofNat quote data t ∧
      ∀ c ∈ (Bytes.quoted data).toList, 0x20 ≤ c.toNat ∧ c.toNat ≤ 0x7e) ∧
    Function.Injective Bytes.quoted := by
  refine ⟨fun text => ⟨quoteFor (text.toList.contains '\'') (text.toList.contains '"'), isQuote_quoteFor _ _,
      by simp [quoteFor_eq_double_iff], Text.isLiteral_quoted text⟩,
    fun text text' same => ?_,
    fun data => ⟨quoteFor (data.contains 39) (data.contains 34), (Bytes.quoted data).toList.tail,
      isQuote_quoteFor _ _, by simp [quoteFor_eq_double_iff], ?_, Bytes.isLiteral_tail_quoted data,
      fun c => Bytes.printable_quoted⟩,
    fun data data' same => ?_⟩
  · have literal := Text.isLiteral_quoted text
    rw [same] at literal
    exact String.toList_injective (literal.unique (Text.isLiteral_quoted text'))
  · rw [Bytes.quoted, String.toList_ofList]
    rfl
  · have literal := Bytes.isLiteral_tail_quoted data
    rw [same] at literal
    exact literal.unique (Bytes.isLiteral_tail_quoted data')

end DynamicObjects
