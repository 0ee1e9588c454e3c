import DynamicObjects.Proofs.Lists.Room
import DynamicObjects.Proofs.Slices.Sequences

/-!
Repetition of lists, byte arrays, byte strings, tuples and texts. The result is always copies in a row,
whether a fresh sequence is filled or a buffer copies itself behind itself in blocks that double. What is
refused differs: lists, byte arrays and byte strings count the bytes of the result and refuse what no
allocation can hold, tuples and texts only what is not even a size.
-/
namespace DynamicObjects

namespace Buffer

variable {α : Type}

theorem copies_eq (xs : List α) (count : Nat) : copies xs count = (List.replicate count xs).flatten := by
  unfold copies
  rw [Array.emptyWithCapacity_eq]
  induction count with
  | zero => rfl
  | succ count ih =>
    rw [Nat.repeat, Array.toList_append, ih, List.replicate_succ', List.flatten_append,
      List.flatten_singleton]

theorem length_copies (xs : List α) (count : Nat) :
    ((List.replicate count xs).flatten).length = xs.length * count := by
  rw [List.length_flatten, List.map_replicate, List.sum_replicate_nat, Nat.mul_comm]

theorem take_copies (xs : List α) {k n : Nat} (fewer : k ≤ n) :
    ((List.replicate n xs).flatten).take (xs.length * k) = (List.replicate k xs).flatten := by
  obtain ⟨rest, rfl⟩ := Nat.exists_eq_add_of_le fewer
  rw [List.replicate_add, List.flatten_append]
  exact List.take_left' (length_copies xs k)

/-- The blocks are whole copies: as many as there are already, or as many as are still missing. -/
theorem toList_extendTo {unit : List α} (some : unit ≠ []) {items : Array α} {m n : Nat} (first : 0 < m)
    (fits : m ≤ n) (held : items.toList = (List.replicate m unit).flatten) :
    (extendTo items (unit.length * n)).toList = (List.replicate n unit).flatten := by
  have positive : 0 < unit.length := List.length_pos_iff.mpr some
  have counted {items : Array α} {m : Nat} (held : items.toList = (List.replicate m unit).flatten) :
      items.size = unit.length * m := by
    rw [← Array.length_toList, held, length_copies]
  fun_induction extendTo items (unit.length * n) generalizing m with
  | case1 items more ih =>
    have missing : unit.length * n - items.size = unit.length * (n - m) := by
      rw [counted held, Nat.mul_sub]
    have block : (items.extract 0 (unit.length * n - items.size)).toList =
        (List.replicate (min m (n - m)) unit).flatten := by
      rw [missing, Array.toList_extract, held]
      simp only [List.extract_eq_take_drop, List.drop_zero, Nat.sub_zero]
      rcases Nat.le_total m (n - m) with all | part
      · rw [Nat.min_eq_left all, List.take_of_length_le]
        rw [length_copies]
        exact Nat.mul_le_mul_left _ all
      · rw [Nat.min_eq_right part, take_copies unit part]
    refine ih (Nat.lt_of_lt_of_le first (Nat.le_add_right m (min m (n - m)))) (by omega) ?_
    rw [Array.toList_append, held, block, List.replicate_add, List.flatten_append]
  | case2 items done =>
    have size := counted held
    have whole : unit.length * n ≤ unit.length * m := by
      rw [← size]
      have : 0 < unit.length * m := Nat.mul_pos positive first
      omega
    rw [held, Nat.le_antisymm fits (Nat.le_of_mul_le_mul_left whole positive)]

variable [ItemSize α]

def mostItems (α : Type) [ItemSize α] : Nat := Word.allocationMax / max (ItemSize.bytes α) 1

theorem le_mostItems_iff (length : Nat) :
    length ≤ mostItems α ↔ length * max (ItemSize.bytes α) 1 ≤ Word.allocationMax :=
  Nat.le_div_iff_mul_le (Nat.lt_of_lt_of_le Nat.zero_lt_one (Nat.le_max_right _ _))

theorem mostItems_lt_sizeMax : mostItems α < Word.sizeMax :=
  Nat.lt_of_le_of_lt (Nat.div_le_self _ _) (by decide)

theorem toList_repeatInPlace (b : Buffer α) {count : Int} (fits : b.size * count.toNat ≤ mostItems α) :
    ∃ b', b.repeatInPlace count = .ok b' ∧
      b'.toList = (List.replicate count.toNat b.toList).flatten := by
  have size : b.size = b.toList.length := by simp [Buffer.size, toList]
  have length : repeatLength α b.size count.toNat = .ok (b.size * count.toNat) := if_pos fits
  unfold repeatInPlace
  split
  next none =>
    rw [Int.toNat_of_nonpos none]
    exact ⟨b.clear, rfl, rfl⟩
  next positive =>
    rw [length]
    dsimp only
    split
    next trivial =>
      refine ⟨b, rfl, ?_⟩
      rcases trivial with empty | one
      · have nil : b.toList = [] := List.length_eq_zero_iff.mp (size.symm.trans empty)
        simp [nil]
      · simp [one]
    next several =>
      have some : b.toList ≠ [] := by
        intro nil
        rw [nil] at size
        exact several (.inl size)
      refine ⟨_, rfl, ?_⟩
      show (extendTo b.items (b.size * count.toNat)).toList = _
      rw [size]
      exact toList_extendTo some Nat.zero_lt_one (by omega) (by simp [toList])

theorem repeatInPlace_refused (b : Buffer α) {count : Int} (many : mostItems α < b.size * count.toNat) :
    b.repeatInPlace count = .error .repeatOverflow := by
  have length : repeatLength α b.size count.toNat = .error .repeatOverflow :=
    if_neg (Nat.not_le.mpr many)
  have positive : ¬ count ≤ 0 := by
    intro none
    rw [Int.toNat_of_nonpos none] at many
    exact Nat.not_lt_zero _ many
  rw [repeatInPlace, if_neg positive, length]

theorem toList_repeated (b : Buffer α) {count : Int} (fits : b.size * count.toNat ≤ mostItems α) :
    ∃ b', b.repeated count = .ok b' ∧ b'.toList = (List.replicate count.toNat b.toList).flatten ∧
      b'.capacity = Growth.grown b.size b.size (b.size * count.toNat) := by
  have length : repeatLength α b.size count.toNat = .ok (b.size * count.toNat) := if_pos fits
  have covers := Growth.grown_covers b.size b.size (b.size * count.toNat)
  rw [Nat.min_eq_left (Nat.le_of_lt (Nat.lt_of_le_of_lt fits mostItems_lt_sizeMax))] at covers
  unfold repeated
  rw [length]
  dsimp only
  split
  next zero =>
    refine ⟨_, rfl, (List.eq_nil_of_length_eq_zero ?_).symm, rfl⟩
    rw [length_copies, ← zero]
    simp [Buffer.size, toList]
  next =>
    generalize made : (⟨b.items, _, _⟩ : Buffer α) = room
    have same : room.items = b.items := by rw [← made]
    have capacity : room.capacity = Growth.grown b.size b.size (b.size * count.toNat) := by
      rw [← made]
      rfl
    have size : room.size = b.size := by rw [Buffer.size, same, Buffer.size]
    rw [← size] at fits
    obtain ⟨b', ran, holds⟩ := toList_repeatInPlace room fits
    refine ⟨b', ran, by rw [holds, toList, same, toList], ?_⟩
    unfold repeatInPlace at ran
    rw [size, length] at ran
    rw [← capacity]
    split at ran
    · obtain rfl := Except.ok.inj ran
      rfl
    · dsimp only at ran
      split at ran
      · obtain rfl := Except.ok.inj ran
        rfl
      · obtain rfl := Except.ok.inj ran
        show (room.ensure (b.size * count.toNat)).capacity = _
        rw [ensure, if_pos (capacity ▸ covers)]

theorem repeated_refused (b : Buffer α) {count : Int} (many : mostItems α < b.size * count.toNat) :
    b.repeated count = .error .repeatOverflow := by
  have length : repeatLength α b.size count.toNat = .error .repeatOverflow :=
    if_neg (Nat.not_le.mpr many)
  rw [repeated, length]

end Buffer

namespace Items

def repeated (count : Nat) : Items → Items
  | values xs => values (List.replicate count xs).flatten
  | bytes xs => bytes (List.replicate count xs).flatten
  | characters xs => characters (List.replicate count xs).flatten

/-- The length that a repetition multiplies: of a text, its length in bytes. -/
def extent : Items → Nat
  | values xs => xs.length
  | bytes xs => xs.length
  | characters xs => (String.ofList xs).utf8ByteSize

end Items

/-- The largest extent that a repetition of a sequence of this kind may have. -/
def Kind.mostRepeated : Kind → Nat
  | .list => Buffer.mostItems Value
  | .byteArray => Buffer.mostItems UInt8
  | .bytes => Word.allocationMax
  | _ => Word.sizeMax

/-- How many bytes a sequence of this kind takes for each unit of its extent. -/
def Kind.unitBytes : Kind → Nat
  | .list | .tuple => ItemSize.bytes Value
  | _ => 1

/-- Whether a sequence of this kind and extent is small enough to be allocated. -/
def Kind.Allocates (kind : Kind) (extent : Nat) : Prop :=
  extent * kind.unitBytes ≤ Word.allocationMax

instance (kind : Kind) (extent : Nat) : Decidable (kind.Allocates extent) :=
  inferInstanceAs (Decidable (_ ≤ _))

namespace Run

/-- From one state, the run makes a sequence of a kind out of some items, and whatever was there is still
there. -/
def MakesFrom (w : World) (kind : Kind) (items : Items) (x : Run Value) : Prop :=
  ∃ v w', x w = (.ok v, w') ∧ v.kind = kind ∧ w'.store.items? v = some items ∧ w.store.Retains w'.store

theorem Makes.from {kind : Kind} {items : Items} {x y : Run Value} (makes : Makes kind items y) {w : World}
    (same : x w = y w) : MakesFrom w kind items x := by
  obtain ⟨v, w', ran, of_kind, holds, retains⟩ := makes w
  exact ⟨v, w', same.trans ran, of_kind, holds, retains⟩

end Run

theorem ite_lt_eq_ite_le {α : Type} (most extent : Nat) (refused made : α) :
    (if most < extent then refused else made) = if extent ≤ most then made else refused := by
  rcases Nat.lt_or_ge most extent with many | fits
  · rw [if_pos many, if_neg (Nat.not_le.mpr many)]
  · rw [if_neg (Nat.not_lt.mpr fits), if_pos fits]

theorem ByteSequence.repeated_eq (data : Bytes) (count : Int) :
    repeated data count = if data.length * count.toNat ≤ Word.allocationMax then
      .ok (List.replicate count.toNat data).flatten else .error .repeatOverflow := by
  unfold repeated
  rw [ite_lt_eq_ite_le]
  cases data <;> simp

theorem Tuple.repeated_eq (items : List Value) (count : Int) :
    repeated items count = if items.length * count.toNat ≤ Word.sizeMax then
      .ok (List.replicate count.toNat items).flatten else .error .repeatOverflow := by
  unfold repeated
  rw [Buffer.copies_eq, ite_lt_eq_ite_le]
  cases items <;> simp

theorem Text.repeated_eq (text : String) (count : Int) :
    repeated text count = if text.utf8ByteSize * count.toNat ≤ Word.sizeMax then
      .ok (String.ofList (List.replicate count.toNat text.toList).flatten)
      else .error .repeatOverflow := by
  unfold repeated
  rw [Buffer.copies_eq, ite_lt_eq_ite_le]
  by_cases empty : text = "" <;> simp [empty]

/-- What a repetition does: it makes the copies, or it refuses because there would be too many. -/
def Repeats (h : Hooks) (w : World) (v count : Value) (items : Items) (times : Nat) : Prop :=
  ∃ mul, v.kind.slot? (.binary .mul) = some mul ∧
    if items.extent * times ≤ v.kind.mostRepeated then
      Run.MakesFrom w v.kind (items.repeated times) (mul h [v, count])
    else mul h [v, count] w = (.error .repeatOverflow, w)

def Value.counting (count : Value) (body : Int → Run Value) : Run Value :=
  match count.asInt? with
  | .some n => body n.toInt
  | .none => return .notImplemented

theorem Value.counting_eq {count : Value} {n : Int64} (times : count.asInt? = some n)
    (body : Int → Run Value) : count.counting body = body n.toInt := by
  rw [counting, times]

section Kinds

variable {h : Hooks} {w : World} {v count : Value} {items : Items} {n : Int64}

theorem repeats_of {α : Type} {mul : Slot} {x : Except Error α} {make : α → Run Value} {times : Nat}
    (slot : v.kind.slot? (.binary .mul) = some mul)
    (ran : mul h [v, count] w = (Run.ofExcept x >>= make) w)
    (made : items.extent * times ≤ v.kind.mostRepeated →
      ∃ a, x = .ok a ∧ Run.Makes v.kind (items.repeated times) (make a))
    (refused : v.kind.mostRepeated < items.extent * times → x = .error .repeatOverflow) :
    Repeats h w v count items times := by
  refine ⟨mul, slot, ?_⟩
  split
  next fits =>
    obtain ⟨a, rfl, makes⟩ := made fits
    exact makes.from ran
  next many =>
    rw [ran, refused (Nat.not_le.mp many)]
    rfl

theorem repeats (h : Hooks) (held : w.store.items? v = some items) (times : count.asInt? = some n) :
    Repeats h w v count items n.toInt.toNat := by
  cases v <;> simp only [Store.items?, Option.map_eq_some_iff, Option.some.injEq, reduceCtorEq] at held
  case list r =>
    obtain ⟨o, live, rfl⟩ := held
    have size : o.buffer.toList.length = o.buffer.size := Array.length_toList
    have ran : ListRef.mulSlot h [.list r, count] w =
        (Run.ofExcept (o.buffer.repeated n.toInt) >>= Run.newList) w := by
      have slot : ListRef.mulSlot h [.list r, count] = count.counting r.repeated := rfl
      rw [slot, Value.counting_eq times]
      exact Run.bind_ok (ListRef.buffer_apply live)
    refine repeats_of rfl ran (fun fits => ?_) fun many => ?_
    · rw [Items.extent, size] at fits
      obtain ⟨b, made, holds, -⟩ := o.buffer.toList_repeated fits
      refine ⟨b, made, ?_⟩
      rw [Items.repeated, ← holds]
      exact Run.newList_makes b
    · rw [Items.extent, size] at many
      exact o.buffer.repeated_refused many
  case byteArray r =>
    obtain ⟨o, live, rfl⟩ := held
    have size : o.buffer.toList.length = o.buffer.size := Array.length_toList
    have ran : ByteArrayRef.mulSlot h [.byteArray r, count] w =
        (Run.ofExcept (o.buffer.repeated n.toInt) >>= Run.newByteArray) w := by
      have slot : ByteArrayRef.mulSlot h [.byteArray r, count] = count.counting r.repeated := rfl
      rw [slot, Value.counting_eq times]
      exact Run.bind_ok (ByteArrayRef.buffer_apply live)
    refine repeats_of rfl ran (fun fits => ?_) fun many => ?_
    · rw [Items.extent, size] at fits
      obtain ⟨b, made, holds, -⟩ := o.buffer.toList_repeated fits
      refine ⟨b, made, ?_⟩
      rw [Items.repeated, ← holds]
      exact Run.newByteArray_makes b
    · rw [Items.extent, size] at many
      exact o.buffer.repeated_refused many
  case bytes id data =>
    subst held
    have ran : ByteSequence.mulSlot h [.bytes id data, count] w =
        (Run.ofExcept (ByteSequence.repeated data n.toInt) >>= Run.newBytes) w := by
      have slot : ByteSequence.mulSlot h [.bytes id data, count] = count.counting fun n =>
          Run.ofExcept (ByteSequence.repeated data n) >>= Run.newBytes := rfl
      rw [slot, Value.counting_eq times]
    refine repeats_of rfl ran (fun fits => ?_) fun many => ?_
    · exact ⟨_, (ByteSequence.repeated_eq data _).trans (if_pos fits), Run.newBytes_makes _⟩
    · exact (ByteSequence.repeated_eq data _).trans (if_neg (Nat.not_le.mpr many))
  case tuple id data =>
    subst held
    have ran : Tuple.mulSlot h [.tuple id data, count] w =
        (Run.ofExcept (Tuple.repeated data n.toInt) >>= Run.newTuple) w := by
      have slot : Tuple.mulSlot h [.tuple id data, count] = count.counting fun n =>
          Run.ofExcept (Tuple.repeated data n) >>= Run.newTuple := rfl
      rw [slot, Value.counting_eq times]
    refine repeats_of rfl ran (fun fits => ?_) fun many => ?_
    · exact ⟨_, (Tuple.repeated_eq data _).trans (if_pos fits), Run.newTuple_makes _⟩
    · exact (Tuple.repeated_eq data _).trans (if_neg (Nat.not_le.mpr many))
  case str id text =>
    subst held
    have ran : Text.mulSlot h [.str id text, count] w =
        (Run.ofExcept (Text.repeated text n.toInt) >>= Run.newText) w := by
      have slot : Text.mulSlot h [.str id text, count] = count.counting fun n =>
          Run.ofExcept (Text.repeated text n) >>= Run.newText := rfl
      rw [slot, Value.counting_eq times]
    refine repeats_of rfl ran (fun fits => ?_) fun many => ?_
    · rw [Items.extent, String.ofList_toList] at fits
      refine ⟨_, (Text.repeated_eq text _).trans (if_pos fits), ?_⟩
      have makes := Run.newText_makes (String.ofList (List.replicate n.toInt.toNat text.toList).flatten)
      rwa [String.toList_ofList] at makes
    · rw [Items.extent, String.ofList_toList] at many
      exact (Text.repeated_eq text _).trans (if_neg (Nat.not_le.mpr many))

end Kinds

theorem mostRepeated_allocates {kind : Kind} (checked : kind = .list ∨ kind = .byteArray ∨ kind = .bytes)
    (extent : Nat) : extent ≤ kind.mostRepeated ↔ kind.Allocates extent := by
  rcases checked with rfl | rfl | rfl
  · exact Buffer.le_mostItems_iff extent
  · exact Buffer.le_mostItems_iff extent
  · show _ ↔ extent * 1 ≤ Word.allocationMax
    rw [Nat.mul_one]
    rfl

/-- Sequences of this kind and extent are sometimes repeated into what cannot be allocated. -/
def Kind.Exceeds (kind : Kind) (extent : Nat) : Prop :=
  ∃ n : Int64, extent * n.toInt.toNat ≤ kind.mostRepeated ∧ ¬ kind.Allocates (extent * n.toInt.toNat)

theorem Kind.exceeds_of {kind : Kind} {extent limit : Nat}
    (word : limit / extent ≤ Word.allocationMax) (accepted : limit ≤ kind.mostRepeated)
    (large : ¬ kind.Allocates (extent * (limit / extent))) : kind.Exceeds extent := by
  have fits : Word.Fits (limit / extent : Nat) :=
    ⟨Int.le_trans (by decide) (Int.natCast_nonneg _), Int.ofNat_le.mpr word⟩
  refine ⟨Int64.ofInt (limit / extent : Nat), ?_⟩
  rw [Word.toInt_ofInt fits, Int.toNat_natCast]
  exact ⟨Nat.le_trans (Nat.mul_div_le limit extent) accepted, large⟩

theorem lt_mul_div_add {extent : Nat} (some : 0 < extent) (limit : Nat) :
    limit < extent * (limit / extent) + extent := by
  have rest := Nat.mod_lt limit some
  have whole := Nat.div_add_mod limit extent
  omega

theorem exceeds_tuple {extent : Nat} (some : 0 < extent) (held : extent ≤ Word.allocationMax) :
    Kind.tuple.Exceeds extent := by
  refine Kind.exceeds_of (Nat.div_le_self Word.allocationMax extent) (by decide) ?_
  have once : extent ≤ extent * (Word.allocationMax / extent) :=
    Nat.le_mul_of_pos_right _ (Nat.div_pos held some)
  have most := lt_mul_div_add some Word.allocationMax
  show ¬ _ * 48 ≤ Word.allocationMax
  omega

/-- A text of one byte is not repeated so often. -/
theorem exceeds_str {extent : Nat} (several : 2 ≤ extent) (held : extent ≤ Word.allocationMax) :
    Kind.str.Exceeds extent := by
  have word : Word.sizeMax / extent ≤ Word.allocationMax :=
    Nat.le_trans (Nat.div_le_div_left several (by decide)) (by decide)
  refine Kind.exceeds_of word (by decide) ?_
  have most := lt_mul_div_add (Nat.lt_of_lt_of_le Nat.zero_lt_two several) Word.sizeMax
  have twice : Word.sizeMax = 2 * Word.allocationMax + 1 := by decide
  show ¬ _ * 1 ≤ Word.allocationMax
  omega

/-- How far the repetition of a sequence may go. -/
structure RepetitionLimits (h : Hooks) (w : World) (v count : Value) (items : Items) (times : Nat) : Prop where
  repeats : Repeats h w v count items times
  checked : v.kind = .list ∨ v.kind = .byteArray ∨ v.kind = .bytes →
    (items.extent * times ≤ v.kind.mostRepeated ↔ v.kind.Allocates (items.extent * times))
  /-- The length of a tuple and the number of bytes of a text only have to be sizes. -/
  unchecked : v.kind = .tuple ∧ 1 ≤ items.extent ∨ v.kind = .str ∧ 2 ≤ items.extent →
    items.extent ≤ Word.allocationMax → v.kind.Exceeds items.extent

/-- Every sequence, and every count. -/
theorem repetition_limits (h : Hooks) {w : World} {v count : Value} {items : Items} {n : Int64}
    (held : w.store.items? v = some items) (times : count.asInt? = some n) :
    RepetitionLimits h w v count items n.toInt.toNat where
  repeats := repeats h held times
  checked checked := mostRepeated_allocates checked _
  unchecked := by
    rintro (⟨kind, some⟩ | ⟨kind, several⟩) bound
    · rw [kind]
      exact exceeds_tuple some bound
    · rw [kind]
      exact exceeds_str several bound

theorem repetition_limits_pair :
    let pair : Value := .tuple 2 [.int 1, .int 2]
    World.blank.store.items? pair = some (.values [.int 1, .int 2]) ∧ (Value.int 3).asInt? = some 3 ∧
      RepetitionLimits Hooks.silent World.blank pair (.int 3) (.values [.int 1, .int 2])
        (3 : Int64).toInt.toNat :=
  ⟨rfl, rfl, repetition_limits Hooks.silent rfl rfl⟩

theorem Repeats.accepted {h : Hooks} {w : World} {v count : Value} {items : Items} {times : Nat} {mul : Slot}
    (repeats : Repeats h w v count items times) (slot : v.kind.slot? (.binary .mul) = some mul)
    (fits : items.extent * times ≤ v.kind.mostRepeated) :
    Run.MakesFrom w v.kind (items.repeated times) (mul h [v, count]) := by
  obtain ⟨mul', slot', result⟩ := repeats
  obtain rfl := Option.some.inj (slot.symm.trans slot')
  rwa [if_pos fits] at result

/-- A tuple of two, repeated 2^62 times, and a text of two bytes, repeated as often as a word can say: both
are more than an allocation can hold, and neither is refused. A byte array of one byte can be repeated so
often that the bytes are few enough, but not the room that is asked for with them. -/
theorem repetition_unallocatable :
    (Run.MakesFrom World.blank .tuple ((Items.values [.int 1, .int 2]).repeated 4611686018427387904)
        (Tuple.mulSlot Hooks.silent [.tuple 2 [.int 1, .int 2], .int 4611686018427387904]) ∧
      ¬ Kind.tuple.Allocates (2 * 4611686018427387904)) ∧
    (Run.MakesFrom World.blank .str ((Items.characters ['a', 'b']).repeated 9223372036854775807)
        (Text.mulSlot Hooks.silent [.str 2 "ab", .int 9223372036854775807]) ∧
      ¬ Kind.str.Allocates (2 * 9223372036854775807)) ∧
    ∃ b, (Buffer.ofArray #[(0 : UInt8)]).repeated 6917529027641081857 = .ok b ∧
      Kind.byteArray.Allocates 6917529027641081857 ∧ ¬ Kind.byteArray.Allocates b.capacity := by
  have pair : World.blank.store.items? (.tuple 2 [.int 1, .int 2]) = some (.values [.int 1, .int 2]) := rfl
  have text : World.blank.store.items? (.str 2 "ab") = some (.characters ['a', 'b']) := rfl
  refine ⟨⟨?_, by decide⟩, ⟨?_, by decide⟩, ?_⟩
  · have many : (Value.int 4611686018427387904).asInt? = some 4611686018427387904 := rfl
    exact (repeats Hooks.silent pair many).accepted rfl (by decide)
  · have many : (Value.int 9223372036854775807).asInt? = some 9223372036854775807 := rfl
    exact (repeats Hooks.silent text many).accepted rfl (by decide)
  · have fits : (Buffer.ofArray #[(0 : UInt8)]).size * (6917529027641081857 : Int).toNat ≤
        Buffer.mostItems UInt8 := by decide
    obtain ⟨b, made, -, capacity⟩ := (Buffer.ofArray #[(0 : UInt8)]).toList_repeated fits
    have room : Growth.grown 1 1 6917529027641081857 = 11529215046068469760 := by decide +kernel
    refine ⟨b, made, by decide, ?_⟩
    rw [capacity.trans room]
    decide

end DynamicObjects
