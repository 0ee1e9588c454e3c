import DynamicObjects.Codec
import DynamicObjects.Proofs.Bytes.Windows
import DynamicObjects.Proofs.Codecs.Utf8
import Mathlib.Data.List.Forall2

/-!
Encoding and decoding by the same name are inverse to each other. A codec of one byte for each character keeps
the numbers, so that only a number outside its range is refused; the first one is named, by its position among
the characters or among the bytes.
-/
namespace DynamicObjects.Codec

variable {codec : Codec}

/-- A name may be written in letters of either case, and with an underscore for a hyphen. -/
def Spells (encoding name : String) : Prop :=
  List.Forall₂ (fun c n => c.toLower = n ∨ c = '_' ∧ n = '-') encoding.toList name.toList

theorem spells_iff {encoding name : String} (plain : '_' ∉ name.toList) :
    Spells encoding name ↔ normalizeName encoding = name := by
  rw [Spells, normalizeName, ← String.toList_inj, String.toList_map]
  generalize encoding.toList = letters
  generalize name.toList = normal at plain
  induction letters generalizing normal with
  | nil => cases normal <;> simp
  | cons c letters ih =>
    cases normal with
    | nil => simp
    | cons n normal =>
      rw [List.mem_cons, not_or] at plain
      have here : (c.toLower = n ∨ c = '_' ∧ n = '-') ↔ (if c = '_' then '-' else c.toLower) = n := by
        split
        next h =>
          subst h
          have lower : ¬ '_'.toLower = n := plain.1
          rw [or_iff_right lower, and_iff_right rfl, eq_comm]
        next h => simp [h]
      rw [List.forall₂_cons, ih _ plain.2, here, List.map_cons, List.cons.injEq]

theorem eq_of_mem_aliases {codec' : Codec} {name : String} (known : name ∈ codec.aliases)
    (known' : name ∈ codec'.aliases) : codec = codec' := by
  have apart : ∀ name ∈ codec.aliases, name ∈ codec'.aliases → codec = codec' := by
    cases codec <;> cases codec' <;> decide
  exact apart name known known'

theorem lookup_eq_ok_iff {encoding : String} :
    lookup encoding = .ok codec ↔ ∃ name ∈ codec.aliases, Spells encoding name := by
  have plain : ∀ name ∈ codec.aliases, '_' ∉ name.toList := by
    cases codec <;> decide
  have named : (∃ name ∈ codec.aliases, Spells encoding name) ↔ normalizeName encoding ∈ codec.aliases := by
    constructor
    · rintro ⟨name, known, spells⟩
      rwa [(spells_iff (plain name known)).mp spells]
    · exact fun known => ⟨_, known, (spells_iff (plain _ known)).mpr rfl⟩
  rw [named, lookup]
  split
  next found first =>
    have known : normalizeName encoding ∈ found.aliases := by simpa using List.find?_some first
    constructor
    · exact fun same => Except.ok.inj same ▸ known
    · exact fun known' => congrArg Except.ok (eq_of_mem_aliases known known')
  next missing =>
    refine ⟨nofun, fun known => ?_⟩
    have listed : codec ∈ [utf8, ascii, latin1] := by
      cases codec <;> decide
    exact absurd (List.contains_iff_mem.mpr known) (List.find?_eq_none.mp missing codec listed)

theorem range_le (codec : Codec) : codec.range ≤ 256 := by
  cases codec <;> decide

/-- The character at a position is the first one that the codec does not know. -/
theorem encodeSingle_eq (codec : Codec) (position : Nat) (text : List Char) :
    codec.encodeSingle position text =
      match text.findIdx? (codec.range ≤ ·.toNat) with
      | some i => .error (.unencodable codec.name (characterText (text.getD i 'x')) (position + i) codec.range)
      | none => .ok (text.map fun c => UInt8.ofNat c.toNat) := by
  induction text generalizing position with
  | nil => rfl
  | cons c text ih =>
    rw [encodeSingle, List.findIdx?_cons]
    by_cases known : c.toNat < codec.range
    · have stays : ¬ codec.range ≤ c.toNat := Nat.not_le_of_lt known
      rw [if_pos known, ih]
      cases text.findIdx? (codec.range ≤ ·.toNat) with
      | none => simp [stays, Except.map]
      | some i => simp [stays, Except.map, Nat.add_assoc, Nat.add_comm 1]
    · simp [known, Nat.le_of_not_lt known]

theorem findIdx?_outside_eq_none {α : Type} {number : α → Nat} {xs : List α} :
    xs.findIdx? (codec.range ≤ number ·) = none ↔ ∀ x ∈ xs, number x < codec.range := by
  simp [List.findIdx?_eq_none_iff]

theorem encodeSingle_eq_ok_iff {position : Nat} {text : List Char} {data : Bytes} :
    codec.encodeSingle position text = .ok data ↔
      text.map Char.toNat = data.map UInt8.toNat ∧ ∀ c ∈ text, c.toNat < codec.range := by
  rw [encodeSingle_eq, ← findIdx?_outside_eq_none]
  constructor
  · intro done
    split at done
    next => cases done
    next within =>
      obtain rfl := Except.ok.inj done
      refine ⟨?_, within⟩
      rw [List.map_map]
      refine List.map_congr_left fun c here => (UInt8.toNat_ofNat_of_lt' ?_).symm
      exact Nat.lt_of_lt_of_le (findIdx?_outside_eq_none.mp within c here) codec.range_le
  · rintro ⟨same, within⟩
    rw [within]
    calc Except.ok (text.map fun c => UInt8.ofNat c.toNat)
      _ = Except.ok ((text.map Char.toNat).map UInt8.ofNat) := by rw [List.map_map]; rfl
      _ = Except.ok data := by
        rw [same, List.map_map]
        exact congrArg Except.ok ((List.map_congr_left fun b _ => UInt8.ofNat_toNat).trans (List.map_id data))

theorem decodeSingle_eq_ok_iff {data : Bytes} {text : String} :
    codec.decodeSingle data = .ok text ↔
      text.toList.map Char.toNat = data.map UInt8.toNat ∧ ∀ b ∈ data, b.toNat < codec.range := by
  rw [decodeSingle, ← findIdx?_outside_eq_none]
  have numbers (data : Bytes) : (data.map decodeByte).map Char.toNat = data.map UInt8.toNat := by
    rw [List.map_map]
    exact List.map_congr_left fun b _ => Utf8.toNat_char b
  constructor
  · intro done
    split at done
    next => cases done
    next within =>
      obtain rfl := Except.ok.inj done
      rw [String.toList_ofList]
      exact ⟨numbers data, within⟩
  · rintro ⟨same, within⟩
    rw [within]
    rw [← numbers] at same
    refine congrArg Except.ok (String.toList_injective ?_)
    rw [String.toList_ofList]
    exact (List.map_injective_iff.mpr (fun _ _ => Char.toNat_inj.mp) same).symm

theorem single_inverse {text : String} {data : Bytes} :
    codec.encodeSingle 0 text.toList = .ok data ↔ codec.decodeSingle data = .ok text := by
  rw [encodeSingle_eq_ok_iff, decodeSingle_eq_ok_iff]
  refine and_congr_right fun same => ?_
  rw [← List.forall_mem_map (f := Char.toNat) (P := (· < codec.range)), same, List.forall_mem_map]

theorem inverse {text : String} {data : Bytes} : codec.encode text = .ok data ↔ codec.decode data = .ok text := by
  cases codec with
  | utf8 =>
    show Except.ok (Utf8.encode text) = .ok data ↔ decodeUtf8 data = .ok text
    rw [Except.ok.injEq, ← Utf8.decode_eq_ok_iff, decodeUtf8]
    cases Utf8.decode data with
    | ok read => simp only [Except.ok.injEq]
    | error fault => exact ⟨nofun, nofun⟩
  | ascii => exact single_inverse
  | latin1 => exact single_inverse

def FirstOutside {α : Type} (range : Nat) (number : α → Nat) (xs : List α) (position : Nat) : Prop :=
  IsLeast {i | ∃ x, xs[i]? = some x ∧ range ≤ number x} position

theorem findIdx?_outside_eq_some {α : Type} {number : α → Nat} {xs : List α} {position : Nat} :
    xs.findIdx? (codec.range ≤ number ·) = some position ↔ FirstOutside codec.range number xs position := by
  simpa [FirstOutside] using (Bytes.findIdx?_spots (codec.range ≤ number ·) xs).least_iff (i := position)

/-- There is a result exactly when all numbers are within the range, and otherwise an error that names the first
one that is not, and its position. -/
structure RefusesOutside {α β : Type} (range : Nat) (number : α → Nat) (xs : List α) (error : α → Nat → Error)
    (message : α → Nat → String) (result : Except Error β) : Prop where
  fails_iff : (∃ e, result = .error e) ↔ ∃ x ∈ xs, range ≤ number x
  names_first : ∀ position x, FirstOutside range number xs position → xs[position]? = some x →
    result = .error (error x position) ∧ (error x position).message? = some (message x position)

theorem refusesOutside (codec : Codec) {α β : Type} {number : α → Nat} {xs : List α} {error : α → Nat → Error}
    {message : α → Nat → String} {result : Except Error β} (other : α) {done : β}
    (searched : result = match xs.findIdx? (codec.range ≤ number ·) with
      | some i => .error (error (xs.getD i other) i)
      | none => .ok done)
    (told : ∀ x position, (error x position).message? = some (message x position)) :
    RefusesOutside codec.range number xs error message result where
  fails_iff := by
    rw [searched]
    cases found : xs.findIdx? (codec.range ≤ number ·) with
    | none =>
      have within := findIdx?_outside_eq_none.mp found
      exact ⟨nofun, fun ⟨x, here, outside⟩ => absurd (within x here) (Nat.not_lt_of_le outside)⟩
    | some i =>
      obtain ⟨x, item, outside⟩ := (findIdx?_outside_eq_some.mp found).1
      exact ⟨fun _ => ⟨x, List.mem_of_getElem? item, outside⟩, fun _ => ⟨_, rfl⟩⟩
  names_first := fun position x first item => by
    refine ⟨?_, told x position⟩
    rw [searched, findIdx?_outside_eq_some.mpr first]
    show Except.error (error (xs.getD position other) position) = _
    rw [List.getD_eq_getElem?_getD, item, Option.getD_some]

end DynamicObjects.Codec

namespace DynamicObjects

open Codec

/-- By whichever spelling of a known name, encoding and decoding are inverse to each other: what one of them makes
the other takes back. Every text can be written in UTF-8 and all bytes can be read as Latin-1; the other directions
of the codecs of one byte for each character fail exactly on numbers that are out of range. -/
theorem codecs_inverse :
    (∀ encoding codec, lookup encoding = .ok codec ↔ ∃ name ∈ codec.aliases, Spells encoding name) ∧
    ∀ encoding codec, lookup encoding = .ok codec →
      (∀ text data, Bytes.ofText text encoding = .ok data ↔ Bytes.decode data encoding = .ok text) ∧
      (codec = utf8 → ∀ text, ∃ data, Bytes.ofText text encoding = .ok data) ∧
      (codec = latin1 → ∀ data, ∃ text, Bytes.decode data encoding = .ok text) ∧
      (codec ≠ utf8 → ∀ text, RefusesOutside codec.range Char.toNat text.toList
        (fun c position => .unencodable codec.name (characterText c) position codec.range)
        (fun c position => "'" ++ codec.name ++ "' codec can't encode character '" ++ characterText c ++
          "' in position " ++ toString position ++ ": " ++ ("ordinal not in range(" ++ toString codec.range ++ ")"))
        (Bytes.ofText text encoding)) ∧
      (codec = ascii → ∀ data, RefusesOutside 128 UInt8.toNat data
        (fun b position => .undecodable "ascii" (byteText b) position "ordinal not in range(128)")
        (fun b position => "'ascii' codec can't decode byte " ++ byteText b ++ " in position " ++ toString position ++
          ": " ++ "ordinal not in range(128)")
        (Bytes.decode data encoding)) := by
  refine ⟨fun _ _ => lookup_eq_ok_iff, fun encoding codec known => ?_⟩
  have encodes (text : String) : Bytes.ofText text encoding = codec.encode text := by
    rw [Bytes.ofText, known]
    rfl
  have decodes (data : Bytes) : Bytes.decode data encoding = codec.decode data := by
    rw [Bytes.decode, known]
    rfl
  simp only [encodes, decodes]
  refine ⟨fun _ _ => inverse, ?_, ?_, ?_, ?_⟩
  · rintro rfl text
    exact ⟨_, rfl⟩
  · rintro rfl data
    have within (b : UInt8) (_ : b ∈ data) : b.toNat < latin1.range := b.toNat_lt
    show ∃ text, latin1.decodeSingle data = .ok text
    rw [decodeSingle, findIdx?_outside_eq_none.mpr within]
    exact ⟨_, rfl⟩
  · intro single text
    have searched := encodeSingle_eq codec 0 text.toList
    simp only [Nat.zero_add] at searched
    have unfolded : codec.encode text = codec.encodeSingle 0 text.toList := by
      cases codec with
      | utf8 => exact absurd rfl single
      | ascii => rfl
      | latin1 => rfl
    exact refusesOutside codec 'x' (unfolded.trans searched) fun c position => rfl
  · rintro rfl data
    exact refusesOutside ascii 0 rfl fun b position => rfl

/-- The names in other spellings. The second character is out of range, and so is the second byte. -/
theorem codecs_inverse_spellings :
    lookup "US_ascii" = .ok ascii ∧ lookup "Latin_1" = .ok latin1 ∧ lookup "UTF_8" = .ok utf8 ∧
    Bytes.decode [97, 98] "US_ascii" = .ok "ab" ∧
    Bytes.ofText "aé" "US_ascii" = .error (.unencodable "ascii" (characterText 'é') 1 128) ∧
    Bytes.decode [97, 233] "US_ascii" =
      .error (.undecodable "ascii" (byteText 233) 1 "ordinal not in range(128)") ∧
    Bytes.decode [97, 233] "Latin_1" = .ok "aé" ∧
    (∃ text, Bytes.decode [97, 233] "Latin_1" = .ok text) ∧ ∃ data, Bytes.ofText "aé" "UTF_8" = .ok data := by
  have second {α : Type} {number : α → Nat} {a b : α} (low : ¬ 128 ≤ number a) (high : 128 ≤ number b) :
      FirstOutside 128 number [a, b] 1 := by
    refine ⟨⟨b, rfl, high⟩, fun i ⟨x, item, outside⟩ => Nat.one_le_iff_ne_zero.mpr ?_⟩
    rintro rfl
    exact low (Option.some.inj item ▸ outside)
  have usual : lookup "US_ascii" = .ok ascii := (codecs_inverse.1 _ _).mpr ⟨"us-ascii", by decide, by simp [Spells]⟩
  have wide : lookup "Latin_1" = .ok latin1 := (codecs_inverse.1 _ _).mpr ⟨"latin-1", by decide, by simp [Spells]⟩
  have whole : lookup "UTF_8" = .ok utf8 := (codecs_inverse.1 _ _).mpr ⟨"utf-8", by decide, by simp [Spells]⟩
  obtain ⟨inverse, -, -, encodes, decodes⟩ := codecs_inverse.2 _ _ usual
  obtain ⟨inverse', -, total, -⟩ := codecs_inverse.2 _ _ wide
  exact ⟨usual, wide, whole, (inverse _ _).mp (by decide +kernel),
    ((encodes nofun "aé").names_first 1 'é' (@second _ Char.toNat 'a' 'é' (by decide) (by decide)) rfl).1,
    ((decodes rfl [97, 233]).names_first 1 233 (@second _ UInt8.toNat 97 233 (by decide) (by decide)) rfl).1,
    (inverse' _ _).mp (by decide +kernel), total rfl _, (codecs_inverse.2 _ _ whole).2.1 rfl _⟩

end DynamicObjects
