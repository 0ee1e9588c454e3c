import DynamicObjects.Proofs.InPlace.Dicts
import DynamicObjects.Proofs.Lists.Capacity

/-!
Every operator that lists, byte arrays and dictionaries have in two forms, as one statement. What the
plain form makes and what the form in place leaves behind is the same, and the two fail alike. Of the keys
of dictionaries this needs that they are steady: if comparing keys looks at the dictionary that is being
changed, a union can differ from the union in place.
-/
namespace DynamicObjects

namespace Buffer

variable {α : Type} [ItemSize α]

/-- What a repetition holds, unless an allocation could not. -/
def repetition (b : Buffer α) (count : Int) : Except Error (List α) :=
  if b.size * count.toNat * max (ItemSize.bytes α) 1 ≤ Word.allocationMax then
    .ok (List.replicate count.toNat b.toList).flatten
  else .error .repeatOverflow

theorem map_repetition (b : Buffer α) (count : Int) {x : Except Error (Buffer α)}
    (made : b.size * count.toNat ≤ mostItems α →
      ∃ b', x = .ok b' ∧ b'.toList = (List.replicate count.toNat b.toList).flatten)
    (refused : mostItems α < b.size * count.toNat → x = .error .repeatOverflow) :
    x.map toList = b.repetition count := by
  unfold repetition
  split
  next fits =>
    obtain ⟨b', rfl, holds⟩ := made ((le_mostItems_iff _).mpr fits)
    exact congrArg Except.ok holds
  next many =>
    rw [refused (Nat.not_le.mp fun fits => many ((le_mostItems_iff _).mp fits))]
    rfl

theorem map_repeated (b : Buffer α) (count : Int) : (b.repeated count).map toList = b.repetition count := by
  refine b.map_repetition count (fun fits => ?_) b.repeated_refused
  obtain ⟨b', made, holds, -⟩ := b.toList_repeated fits
  exact ⟨b', made, holds⟩

theorem map_repeatInPlace (b : Buffer α) (count : Int) :
    (b.repeatInPlace count).map toList = b.repetition count :=
  b.map_repetition count b.toList_repeatInPlace b.repeatInPlace_refused

end Buffer

/-- What the operators and their forms in place come to in one state. -/
structure InPlaceAgrees (code : UserCode) (n : Nat) (w : World) : Prop where
  lists : ∀ {r r' : ListRef} {xs ys : List Value}, w.store.items? (.list r) = some (.values xs) →
    w.store.items? (.list r') = some (.values ys) →
    OperatorAgrees code n w .add (.list r) (.list r') (.values (xs ++ ys))
  /-- The other operand is a byte array or a byte string. -/
  byteArrays : ∀ {r : ByteArrayRef} {b : Value} {xs ys : Bytes},
    w.store.items? (.byteArray r) = some (.bytes xs) → w.store.items? b = some (.bytes ys) →
    OperatorAgrees code n w .add (.byteArray r) b (.bytes (xs ++ ys))
  repetitions : ∀ {a count : Value} {items : Items} {times : Int64}, a.IsSequence →
    w.store.items? a = some items → count.asInt? = some times →
    a.kind.Allocates (items.extent * times.toInt.toNat) →
    OperatorAgrees code n w .mul a count (items.repeated times.toInt.toNat)
  refusals : ∀ {a count : Value} {items : Items} {times : Int64}, a.IsSequence →
    w.store.items? a = some items → count.asInt? = some times →
    ¬ a.kind.Allocates (items.extent * times.toInt.toNat) →
    OperatorRefuses code n w .mul a count .repeatOverflow ∧
      Error.repeatOverflow.errorClass? = some .overflowError
  buffers : ∀ {α : Type} [ItemSize α] (b : Buffer α) (count : Int),
    (b.repeated count).map Buffer.toList = b.repetition count ∧
    (b.repeatInPlace count).map Buffer.toList = b.repetition count
  /-- The length of a sequence that is really there is always a word. -/
  whole : ∀ (h : Hooks) {a : Value} {items : Items}, a.IsSequence → w.store.items? a = some items →
    (items.length : Int) ≤ Word.greatest →
    ∃ set w', a.kind.slot? .setItem = some set ∧
      set h [a, .slice Slice.whole, a] w = (.ok .none, w') ∧ w'.store.items? a = some items ∧
      ∀ u, u ≠ a → w'.store.items? u = w.store.items? u
  unions : ∀ {k : KeyOutcomes} {calm : World → Prop} {IsKey : Value → Prop} {r r' : DictRef}
    {o o' : DictObject}, SteadyKeys k (code.hooks UserCode.plain n) calm IsKey (fun d =>
      d = r ∨ d = ⟨w.store.dicts.size⟩) →
    w.dict? r = some o → w.dict? r' = some o' → (∀ stored ∈ o.table.keys, IsKey stored) →
    (∀ stored ∈ o'.table.keys, IsKey stored) →
    UnionOperatorsAgree code n calm w r r' (k.setAll o.table o'.table.pairs)

theorem Value.IsSequence.limit {a : Value} (sequence : a.IsSequence) (extent : Nat) :
    extent ≤ a.kind.mostRepeated ↔ a.kind.Allocates extent :=
  mostRepeated_allocates (sequence.imp_right .inl) extent

theorem in_place_agrees (code : UserCode) (n : Nat) (w : World) : InPlaceAgrees code n w where
  lists := list_add_agrees
  byteArrays := byteArray_add_agrees
  repetitions sequence held counts fits :=
    (mul_agrees sequence held counts).1 ((sequence.limit _).mpr fits)
  refusals sequence held counts many :=
    ⟨(mul_agrees sequence held counts).2 (Nat.not_le.mp (mt (sequence.limit _).mp many)), rfl⟩
  buffers b count := ⟨b.map_repeated count, b.map_repeatInPlace count⟩
  whole h _ _ := assigns_whole h
  unions steady live live' held held' := union_operators_agree steady live live' held held'

/-- A list of two numbers, a byte array of two bytes, and a dictionary with one entry. -/
def World.containers : World :=
  let lists := (Store.empty.addList (.ofArray #[.int 1, .int 2])).2
  let entries : Table Value Value := Table.empty.insertNew (HashCode.ofInt 7) (.int 7) .none
  { World.blank with
    store := ((lists.addByteArray (.ofArray #[104, 105])).2.addDict entries).2
    dispatcher := .initial ⟨#[], [], true⟩ {} {} false }

/-- The list is added to itself, repeated three times, and repeated too often; a byte string is added to
the byte array, the list is assigned to the whole of itself, and the dictionary is united with itself. -/
theorem in_place_agrees_containers :
    let w := World.containers
    let h := UserCode.declining.hooks UserCode.plain 1
    let list : Value := .list ⟨0⟩
    let bytes : Value := .byteArray ⟨0⟩
    let dict : Value := .dict ⟨0⟩
    let numbers : List Value := [.int 1, .int 2]
    Agree w list (.values (numbers ++ numbers)) (Protocol.binary h .add list list)
        (Protocol.inPlace h .add list list) ∧
      Agree w list (.values (numbers ++ numbers ++ numbers)) (Protocol.binary h .mul list (.int 3))
        (Protocol.inPlace h .mul list (.int 3)) ∧
      BothRefuse w .repeatOverflow (Protocol.binary h .mul list (.int 4611686018427387904))
        (Protocol.inPlace h .mul list (.int 4611686018427387904)) ∧
      Agree w bytes (.bytes [104, 105, 33]) (Protocol.binary h .add bytes (.bytes 34 [33]))
        (Protocol.inPlace h .add bytes (.bytes 34 [33])) ∧
      (∃ set w', Kind.list.slot? .setItem = some set ∧
        set h [list, .slice Slice.whole, list] w = (.ok .none, w') ∧
        w'.store.items? list = some (.values numbers)) ∧
      ∃ merged, merged.map Table.pairs = .ok [(.int 7, .none)] ∧
        UnionsAgree w ⟨0⟩ merged (Protocol.binary h .or dict dict) (Protocol.inPlace h .or dict dict) := by
  intro w h list bytes dict numbers
  have agrees : InPlaceAgrees .declining 0 w := in_place_agrees .declining 0 w
  have reached : w.dispatcher.Reached := .initial _ {} {} false
  have room : w.HasRoom := by
    intro limit within
    obtain rfl := Option.some.inj within
    decide
  have held : w.store.items? list = some (.values numbers) := rfl
  have sequence : list.IsSequence := .inl rfl
  have three : (Value.int 3).asInt? = some 3 := rfl
  have thrice := agrees.repetitions sequence held three (by decide)
  have many : (Value.int 4611686018427387904).asInt? = some 4611686018427387904 := rfl
  have often := agrees.refusals sequence held many (by decide +kernel)
  have filled : w.store.items? bytes = some (.bytes [104, 105]) := rfl
  have mark : w.store.items? (.bytes 34 [33]) = some (.bytes [33]) := rfl
  obtain ⟨set, w', slot, ran, holds, -⟩ := agrees.whole h sequence held (by decide)
  have live : w.dict? ⟨0⟩ = some (w.store.dict ⟨0⟩) := rfl
  have keys : ∀ stored ∈ (w.store.dict ⟨0⟩).table.keys, KeySpace.integers.IsKey stored := by
    intro stored mem
    obtain rfl := List.mem_singleton.mp (mem : stored ∈ [Value.int 7])
    rfl
  have unions := agrees.unions ((pureKeys_integers _).steady _) live live keys keys
  refine ⟨(agrees.lists held held).operators reached room, thrice.operators reached room,
    often.1.operators reached room, (agrees.byteArrays filled mark).operators reached room,
    ⟨set, w', slot, ran, holds⟩, _, ?_, unions.operators reached room trivial trivial⟩
  rfl

def Outcome.dict? : Outcome Value → Option DictRef
  | .ok (.dict r) => some r
  | _ => none

namespace UserCode

/-- Keys with one hash code, which are all equal as soon as the first dictionary has entries. -/
def fickle : UserCode where
  invoke
    | _, .native _ "hash" _, _ => return .int 0
    | _, _, _ => return .bool ((← DictRef.size ⟨0⟩) != 0)
  enumerate _ _ := return []
  invoke_orderly n f args w reached := by
    split <;> exact .refl reached
  enumerate_orderly _ _ _ reached := .refl reached

def fickleWorld : World :=
  let code := HashCode.ofInt 0
  let entries : Table Value Value := Table.empty.insertNew code (.object 300 0 .none) (.int 1)
  { World.blank with
    store := ((Store.empty.addDict .empty).2.addDict (entries.insertNew code (.object 301 0 .none) (.int 2))).2
    dispatcher := .initial
      ⟨#[⟨some "Key", [("__hash__", .native 1 "hash" []), ("__eq__", .native 2 "eq" [])]⟩], [], true⟩ {} {}
      false }

/-- The union has both entries. In place, the second key is equal to the first once that is there. -/
theorem union_in_place_differs :
    let h := fickle.hooks plain 9
    let united := Protocol.binary h .or (.dict ⟨0⟩) (.dict ⟨1⟩) fickleWorld
    let inPlace := Protocol.inPlace h .or (.dict ⟨0⟩) (.dict ⟨1⟩) united.2
    united.1.dict? = some ⟨2⟩ ∧ inPlace.1.dict? = some ⟨0⟩ ∧
      (united.2.store.dict ⟨2⟩).table.pairs ≠ (inPlace.2.store.dict ⟨0⟩).table.pairs := by
  intro h united inPlace
  have many : (united.2.store.dict ⟨2⟩).table.pairs.length = 2 := by decide +kernel
  have one : (inPlace.2.store.dict ⟨0⟩).table.pairs.length = 1 := by decide +kernel
  refine ⟨by decide +kernel, by decide +kernel, fun same => ?_⟩
  rw [same, one] at many
  cases many

end UserCode

end DynamicObjects
