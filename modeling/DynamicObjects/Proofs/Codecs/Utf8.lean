import DynamicObjects.Codec.Utf8

/-!
Reading and writing UTF-8 are inverse to each other. The sequences of bytes that reading takes for one
character are those that writing makes of one, and both go through the text character by character.
-/
namespace DynamicObjects.Utf8

/-- The sequences that stand for a character, with its number: shortest forms of numbers of characters. -/
inductive Sequence : Bytes → Nat → Prop
  | one {b0 : UInt8} (first : b0 < 0x80) : Sequence [b0] b0.toNat
  | two {b0 b1 : UInt8} (first : 0xC2 ≤ b0 ∧ b0 ≤ 0xDF) (second : isContinuation b1 = true) :
      Sequence [b0, b1] (b0.toNat % 32 * 64 + low6 b1)
  | three {b0 b1 b2 : UInt8} (first : 0xE0 ≤ b0 ∧ b0 ≤ 0xEF) (second : isSecondOfThree b0 b1 = true)
      (third : isContinuation b2 = true) :
      Sequence [b0, b1, b2] ((b0.toNat % 16 * 64 + low6 b1) * 64 + low6 b2)
  | four {b0 b1 b2 b3 : UInt8} (first : 0xF0 ≤ b0 ∧ b0 ≤ 0xF4) (second : isSecondOfFour b0 b1 = true)
      (third : isContinuation b2 = true) (fourth : isContinuation b3 = true) :
      Sequence [b0, b1, b2, b3] (((b0.toNat % 8 * 64 + low6 b1) * 64 + low6 b2) * 64 + low6 b3)

section Ranges

variable {b0 b1 low high lo hi : UInt8}

theorem isContinuation_iff : isContinuation b1 = true ↔ 0x80 ≤ b1.toNat ∧ b1.toNat ≤ 0xBF := by
  simp [isContinuation, UInt8.le_iff_toNat_le]

theorem low6_of_between (h : 0x80 ≤ b1.toNat ∧ b1.toNat ≤ 0xBF) : b1.toNat = 0x80 + low6 b1 ∧ low6 b1 < 64 := by
  unfold low6
  omega

/-- Second bytes are continuations, of which the lowest and the highest first byte take a part only. -/
theorem narrowed_iff (distinct : low ≠ high) (lo_le : 0x80 ≤ lo.toNat) (le_hi : hi.toNat ≤ 0xBF) :
    (if b0 = low then decide (lo ≤ b1) && decide (b1 ≤ 0xBF)
      else if b0 = high then decide (0x80 ≤ b1) && decide (b1 ≤ hi) else isContinuation b1) = true ↔
    (0x80 ≤ b1.toNat ∧ b1.toNat ≤ 0xBF) ∧ (b0.toNat = low.toNat → lo.toNat ≤ b1.toNat) ∧
      (b0.toNat = high.toNat → b1.toNat ≤ hi.toNat) := by
  have bound : (0xBF : UInt8).toNat = 0xBF ∧ (0x80 : UInt8).toNat = 0x80 := ⟨rfl, rfl⟩
  rw [ne_eq, ← UInt8.toNat_inj] at distinct
  simp only [← UInt8.toNat_inj (a := b0)]
  split
  next => simp only [Bool.and_eq_true, decide_eq_true_eq, UInt8.le_iff_toNat_le]; omega
  split
  next => simp only [Bool.and_eq_true, decide_eq_true_eq, UInt8.le_iff_toNat_le]; omega
  next => rw [isContinuation_iff]; omega

theorem isSecondOfThree_iff : isSecondOfThree b0 b1 = true ↔
    (0x80 ≤ b1.toNat ∧ b1.toNat ≤ 0xBF) ∧ (b0.toNat = 0xE0 → 0xA0 ≤ b1.toNat) ∧
      (b0.toNat = 0xED → b1.toNat ≤ 0x9F) :=
  narrowed_iff (by decide) (by decide) (by decide)

theorem isSecondOfFour_iff : isSecondOfFour b0 b1 = true ↔
    (0x80 ≤ b1.toNat ∧ b1.toNat ≤ 0xBF) ∧ (b0.toNat = 0xF0 → 0x90 ≤ b1.toNat) ∧
      (b0.toNat = 0xF4 → b1.toNat ≤ 0x8F) :=
  narrowed_iff (by decide) (by decide) (by decide)

theorem between_iff : lo ≤ b0 ∧ b0 ≤ hi ↔ lo.toNat ≤ b0.toNat ∧ b0.toNat ≤ hi.toNat := by
  rw [UInt8.le_iff_toNat_le, UInt8.le_iff_toNat_le]

theorem beyond (least : lo ≤ b0) (x : UInt8) (below : x < lo) : ¬ b0 < x ∧ ¬ b0 ≤ x := by
  rw [UInt8.lt_iff_toNat_lt, UInt8.le_iff_toNat_le] at *
  omega

end Ranges

theorem toNat_ofNat {code : Nat} (valid : code.isValidChar) : (Char.ofNat code).toNat = code := by
  rw [Char.ofNat, dif_pos valid]
  rfl

theorem toNat_char (b : UInt8) : (Char.ofNat b.toNat).toNat = b.toNat :=
  toNat_ofNat (.inl (by have := b.toNat_lt; omega))

section Sequences

variable {u rest : Bytes} {n position : Nat}

theorem Sequence.decodeFrom (sequence : Sequence u n) :
    decodeFrom position (u ++ rest) = put n (decodeFrom (position + u.length) rest) := by
  cases sequence with
  | one first =>
    rw [List.singleton_append, decodeFrom.eq_def]
    exact if_pos first
  | @two b0 b1 first second =>
    have notOne := (beyond first.1 0x80 (by decide)).1
    rw [List.cons_append, List.singleton_append, decodeFrom.eq_def]
    simp [notOne, first, second]
  | @three b0 b1 b2 first second third =>
    have notOne := (beyond first.1 0x80 (by decide)).1
    have notTwo := (beyond first.1 0xDF (by decide)).2
    rw [List.cons_append, List.cons_append, List.singleton_append, decodeFrom.eq_def]
    simp [notOne, notTwo, first, second, third]
  | @four b0 b1 b2 b3 first second third fourth =>
    have notOne := (beyond first.1 0x80 (by decide)).1
    have notTwo := (beyond first.1 0xDF (by decide)).2
    have notThree := (beyond first.1 0xEF (by decide)).2
    rw [List.cons_append, List.cons_append, List.cons_append, List.singleton_append, decodeFrom.eq_def]
    simp [notOne, notTwo, notThree, first, second, third, fourth]

theorem Sequence.written (sequence : Sequence u n) :
    n.isValidChar ∧ ∀ c : Char, c.toNat = n → String.utf8EncodeChar c = u := by
  unfold Nat.isValidChar String.utf8EncodeChar
  cases sequence with
  | one first =>
    replace first := UInt8.lt_iff_toNat_lt.mp first
    simp only [UInt8.reduceToNat] at first
    refine ⟨by omega, fun c (code : c.val.toNat = _) => ?_⟩
    rw [code, if_pos (by omega), UInt8.ofNat_toNat]
  | two first second =>
    replace first := between_iff.mp first
    have bits1 := low6_of_between (isContinuation_iff.mp second)
    simp only [UInt8.reduceToNat] at first
    refine ⟨by omega, fun c (code : c.val.toNat = _) => ?_⟩
    rw [code, if_neg (by omega), if_pos (by omega)]
    simp only [List.cons.injEq, ← UInt8.toNat_inj, UInt8.toNat_ofNat', and_true]
    omega
  | three first second third =>
    replace first := between_iff.mp first
    replace second := isSecondOfThree_iff.mp second
    have bits1 := low6_of_between second.1
    have bits2 := low6_of_between (isContinuation_iff.mp third)
    simp only [UInt8.reduceToNat] at first
    refine ⟨by omega, fun c (code : c.val.toNat = _) => ?_⟩
    rw [code, if_neg (by omega), if_neg (by omega), if_pos (by omega)]
    simp only [List.cons.injEq, ← UInt8.toNat_inj, UInt8.toNat_ofNat', and_true]
    omega
  | four first second third fourth =>
    replace first := between_iff.mp first
    replace second := isSecondOfFour_iff.mp second
    have bits1 := low6_of_between second.1
    have bits2 := low6_of_between (isContinuation_iff.mp third)
    have bits3 := low6_of_between (isContinuation_iff.mp fourth)
    simp only [UInt8.reduceToNat] at first
    refine ⟨by omega, fun c (code : c.val.toNat = _) => ?_⟩
    rw [code, if_neg (by omega), if_neg (by omega), if_neg (by omega)]
    simp only [List.cons.injEq, ← UInt8.toNat_inj, UInt8.toNat_ofNat', and_true]
    omega

theorem continuation_bits (x : Nat) :
    (UInt8.ofNat (x % 64 + 0x80)).toNat = x % 64 + 0x80 ∧
      isContinuation (UInt8.ofNat (x % 64 + 0x80)) = true ∧ low6 (UInt8.ofNat (x % 64 + 0x80)) = x % 64 := by
  have value : (UInt8.ofNat (x % 64 + 0x80)).toNat = x % 64 + 0x80 := UInt8.toNat_ofNat_of_lt' (show _ < 256 by omega)
  rw [isContinuation_iff, low6, value]
  omega

theorem sequence_utf8EncodeChar (c : Char) : Sequence (String.utf8EncodeChar c) c.toNat := by
  have valid : c.val.toNat < 0xD800 ∨ 0xDFFF < c.val.toNat ∧ c.val.toNat < 0x110000 := c.valid
  unfold String.utf8EncodeChar
  show Sequence _ c.val.toNat
  generalize c.val.toNat = n at valid
  have numbered {u : Bytes} {m : Nat} (h : Sequence u m) (same : m = n) : Sequence u n := same ▸ h
  dsimp only
  split
  next one =>
    have first : (UInt8.ofNat n).toNat = n := UInt8.toNat_ofNat_of_lt' (show _ < 256 by omega)
    refine numbered (.one ?_) first
    rw [UInt8.lt_iff_toNat_lt, first]
    exact Nat.lt_succ_of_le one
  split
  next two =>
    have first : (UInt8.ofNat (n / 64 % 32 + 0xC0)).toNat = n / 64 % 32 + 0xC0 :=
      UInt8.toNat_ofNat_of_lt' (show _ < 256 by omega)
    obtain ⟨-, second, bits1⟩ := continuation_bits n
    refine numbered (.two ?_ second) ?_
    · rw [between_iff, first]
      simp only [UInt8.reduceToNat]
      omega
    · rw [first, bits1]
      omega
  split
  next three =>
    have first : (UInt8.ofNat (n / 4096 % 16 + 0xE0)).toNat = n / 4096 % 16 + 0xE0 :=
      UInt8.toNat_ofNat_of_lt' (show _ < 256 by omega)
    obtain ⟨second, -, bits1⟩ := continuation_bits (n / 64)
    obtain ⟨-, third, bits2⟩ := continuation_bits n
    refine numbered (.three ?_ ?_ third) ?_
    · rw [between_iff, first]
      simp only [UInt8.reduceToNat]
      omega
    · rw [isSecondOfThree_iff, first, second]
      omega
    · rw [first, bits1, bits2]
      omega
  next four =>
    have first : (UInt8.ofNat (n / 262144 % 8 + 0xF0)).toNat = n / 262144 % 8 + 0xF0 :=
      UInt8.toNat_ofNat_of_lt' (show _ < 256 by omega)
    obtain ⟨second, -, bits1⟩ := continuation_bits (n / 4096)
    obtain ⟨-, third, bits2⟩ := continuation_bits (n / 64)
    obtain ⟨-, fourth, bits3⟩ := continuation_bits n
    refine numbered (.four ?_ ?_ third fourth) ?_
    · rw [between_iff, first]
      simp only [UInt8.reduceToNat]
      omega
    · rw [isSecondOfFour_iff, first, second]
      omega
    · rw [first, bits1, bits2, bits3]
      omega

theorem exists_of_map_ok {ε α β : Type} {f : α → β} {result : Except ε α} {y : β} (done : result.map f = .ok y) :
    ∃ x, result = .ok x ∧ f x = y := by
  cases result with
  | error fault => cases done
  | ok x => exact ⟨x, rfl, Except.ok.inj done⟩

theorem Sequence.joins {result : Except Fault (List Char)} {text : List Char} (sequence : Sequence u n)
    (done : put n result = .ok text)
    (behind : ∀ {text}, result = .ok text → rest = text.flatMap String.utf8EncodeChar) :
    u ++ rest = text.flatMap String.utf8EncodeChar := by
  obtain ⟨text, read, rfl⟩ := exists_of_map_ok done
  obtain ⟨valid, written⟩ := sequence.written
  rw [List.flatMap_cons, written _ (toNat_ofNat valid), behind read]

theorem decodeFrom_sound {data : Bytes} {text : List Char} (read : decodeFrom position data = .ok text) :
    data = text.flatMap String.utf8EncodeChar := by
  have refused {fault : Fault} {text : List Char} (read : Except.error fault = Except.ok text) : False := nomatch read
  fun_induction decodeFrom position data generalizing text with
  | case1 =>
    obtain rfl := Except.ok.inj read
    rfl
  | case2 position b0 rest first ih => exact (Sequence.one first).joins read ih
  | case4 position b0 _ first b1 rest second ih => exact (Sequence.two first second).joins read ih
  | case9 position b0 _ _ first b1 b2 rest further ih =>
    obtain ⟨second, third⟩ := Bool.and_eq_true_iff.mp further
    exact (Sequence.three first second third).joins read ih
  | case16 position b0 _ _ _ first b1 b2 b3 rest further ih =>
    obtain ⟨further, fourth⟩ := Bool.and_eq_true_iff.mp further
    obtain ⟨second, third⟩ := Bool.and_eq_true_iff.mp further
    exact (Sequence.four first second third fourth).joins read ih
  | _ => exact (refused read).elim

theorem decodeFrom_complete (position : Nat) (text : List Char) :
    decodeFrom position (text.flatMap String.utf8EncodeChar) = .ok text := by
  induction text generalizing position with
  | nil => simp [Utf8.decodeFrom]
  | cons c text ih =>
    rw [List.flatMap_cons, (sequence_utf8EncodeChar c).decodeFrom, ih, put, Char.ofNat_toNat]
    rfl

end Sequences

theorem toList_loop (data : ByteArray) (i : Nat) (front : List UInt8) :
    ByteArray.toList.loop data i front = front.reverse ++ data.data.toList.drop i := by
  fun_induction ByteArray.toList.loop data i front with
  | case1 i front inside ih =>
    have item : data.get! i = data.data.toList[i] := getElem!_pos data.data i inside
    rw [ih, item, List.reverse_cons, List.append_assoc, List.singleton_append]
    exact congrArg (front.reverse ++ ·) (List.drop_eq_getElem_cons inside).symm
  | case2 i front outside =>
    rw [List.drop_eq_nil_of_le (Nat.le_of_not_lt outside), List.append_nil]

theorem encode_eq (text : String) : encode text = text.toList.flatMap String.utf8EncodeChar := by
  rw [encode, ByteArray.toList, toList_loop]
  show text.toByteArray.data.toList = _
  rw [← String.ofList_toList (s := text), String.toByteArray_ofList, String.toList_ofList]
  exact List.toList_data_toByteArray

theorem decode_eq_ok_iff {data : Bytes} {text : String} : decode data = .ok text ↔ encode text = data := by
  rw [encode_eq]
  constructor
  · intro read
    obtain ⟨characters, sound, rfl⟩ := exists_of_map_ok read
    rw [String.toList_ofList]
    exact (decodeFrom_sound sound).symm
  · rintro rfl
    rw [decode, decodeFrom_complete]
    exact congrArg Except.ok String.ofList_toList

end DynamicObjects.Utf8
