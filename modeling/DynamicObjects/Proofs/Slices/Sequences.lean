import DynamicObjects.Proofs.Conduct.Basic
import DynamicObjects.Proofs.Lists.Changes
import DynamicObjects.Proofs.Slices.Paths

/-!
Slices of lists, tuples, texts, byte strings and byte arrays. A slice reads the same selection from each
of them and makes a sequence of the same kind from it; lists and byte arrays can also be assigned to. An
assignment reads its source to the end first, whatever that does, and then looks at the sequence. No other
sequence changes.
-/
namespace DynamicObjects

/-- What a sequence is made of: values, bytes or characters. -/
inductive Items
  | values (xs : List Value)
  | bytes (xs : List UInt8)
  | characters (xs : List Char)

namespace Items

def length : Items → Nat
  | values xs => xs.length
  | bytes xs => xs.length
  | characters xs => xs.length

/-- Items that are those of another sequence at given places, in their order. -/
inductive Picked (places : List Nat) : Items → Items → Prop
  | values {xs ys : List Value} (picks : Picks xs places ys) : Picked places (values xs) (values ys)
  | bytes {xs ys : List UInt8} (picks : Picks xs places ys) : Picked places (bytes xs) (bytes ys)
  | characters {xs ys : List Char} (picks : Picks xs places ys) :
    Picked places (characters xs) (characters ys)

theorem Picked.unique {places : List Nat} {items picked picked' : Items} (h : Picked places items picked)
    (h' : Picked places items picked') : picked = picked' := by
  cases h <;> cases h' <;> exact congrArg _ (Picks.unique ‹_› ‹_›)

/-- What the items become when others are assigned to the places of a progression. -/
inductive Assigned (p : Progression) : Items → Items → Items → Prop
  | values {xs given ys : List Value} (assigned : p.Assigned xs given ys) :
    Assigned p (values xs) (values given) (values ys)
  | bytes {xs given ys : List UInt8} (assigned : p.Assigned xs given ys) :
    Assigned p (bytes xs) (bytes given) (bytes ys)

end Items

/-! ## Sequences in the store -/

namespace Store

variable {s s' : Store} {u : Value} {items : Items}

def items? (s : Store) : Value → Option Items
  | .list r => s.lists[r.number]?.map fun o => .values o.buffer.toList
  | .byteArray r => s.byteArrays[r.number]?.map fun o => .bytes o.buffer.toList
  | .bytes _ data => some (.bytes data)
  | .tuple _ items => some (.values items)
  | .str _ text => some (.characters text.toList)
  | _ => none

theorem bytesLike?_of_items? {data : Bytes} (held : s.items? u = some (.bytes data)) :
    s.bytesLike? u = some data := by
  cases u <;> simp only [items?, Option.map_eq_some_iff, Option.some.injEq, reduceCtorEq, and_false,
    exists_false, Items.bytes.injEq] at held
  case byteArray r =>
    obtain ⟨o, live, rfl⟩ := held
    simp [bytesLike?, bytesOf, byteArray, Array.getD_eq_getD_getElem?, live]
  case bytes id data' => exact congrArg some held

theorem Retains.items? (h : s.Retains s') (held : s.items? u = some items) : s'.items? u = some items := by
  cases u
  case list r =>
    obtain ⟨o, live, rfl⟩ := Option.map_eq_some_iff.mp held
    obtain ⟨version, live'⟩ := h.lists live
    exact Option.map_eq_some_iff.mpr ⟨_, live', rfl⟩
  case byteArray r =>
    obtain ⟨o, live, rfl⟩ := Option.map_eq_some_iff.mp held
    exact Option.map_eq_some_iff.mpr ⟨_, h.byteArrays live, rfl⟩
  all_goals exact held

end Store

namespace World

variable {w : World} {u : Value}

theorem items?_putList {r : ListRef} {o : ListObject} (live : w.list? r = some o) (o' : ListObject) :
    (w.putList r o').store.items? (.list r) = some (.values o'.buffer.toList) :=
  congrArg (Option.map _) (list?_putList live o')

theorem items?_putByteArray {r : ByteArrayRef} {o : ByteArrayObject} (live : w.byteArray? r = some o)
    (o' : ByteArrayObject) :
    (w.putByteArray r o').store.items? (.byteArray r) = some (.bytes o'.buffer.toList) :=
  congrArg (Option.map _) (byteArray?_putByteArray live o')

theorem items?_putList_of_ne {r : ListRef} (o : ListObject) (other : u ≠ .list r) :
    (w.putList r o).store.items? u = w.store.items? u := by
  cases u
  case list r' =>
    have apart : r.number ≠ r'.number := fun same => other (congrArg (fun n => Value.list ⟨n⟩) same.symm)
    simp only [Store.items?, putList, Array.getElem?_setIfInBounds_ne apart]
  all_goals rfl

theorem items?_putByteArray_of_ne {r : ByteArrayRef} (o : ByteArrayObject) (other : u ≠ .byteArray r) :
    (w.putByteArray r o).store.items? u = w.store.items? u := by
  cases u
  case byteArray r' =>
    have apart : r.number ≠ r'.number := fun same => other (congrArg (fun n => Value.byteArray ⟨n⟩) same.symm)
    simp only [Store.items?, putByteArray, Array.getElem?_setIfInBounds_ne apart]
  all_goals rfl

end World

namespace Run

/-- The run makes a sequence of a kind out of some items, and whatever was there is still there. -/
def Makes (kind : Kind) (items : Items) (x : Run Value) : Prop :=
  ∀ w, ∃ v w', x w = (.ok v, w') ∧ v.kind = kind ∧ w'.store.items? v = some items ∧ w.store.Retains w'.store

theorem newList_makes (b : Buffer Value) : Makes .list (.values b.toList) (newList b) := by
  intro w
  refine ⟨_, _, rfl, rfl, ?_, w.store.retains_addList b⟩
  simp [Store.items?]

theorem newByteArray_makes (b : Buffer UInt8) : Makes .byteArray (.bytes b.toList) (newByteArray b) := by
  intro w
  refine ⟨_, _, rfl, rfl, ?_, w.store.retains_addByteArray b⟩
  simp [Store.items?]

theorem newTuple_makes (items : List Value) : Makes .tuple (.values items) (newTuple items) :=
  fun w => ⟨_, _, rfl, rfl, rfl, w.store.retains_fresh⟩

theorem newText_makes (text : String) : Makes .str (.characters text.toList) (newText text) :=
  fun w => ⟨_, _, rfl, rfl, rfl, w.store.retains_fresh⟩

/-- Also a byte string that is always there holds its bytes. -/
theorem newBytes_makes (data : Bytes) : Makes .bytes (.bytes data) (newBytes data) := by
  intro w
  match data with
  | [] => exact ⟨_, _, rfl, rfl, rfl, .refl _⟩
  | [b] => exact ⟨_, _, rfl, rfl, rfl, .refl _⟩
  | b :: b' :: rest => exact ⟨_, _, rfl, rfl, rfl, w.store.retains_fresh⟩

end Run

namespace ListRef

variable {w : World} {r : ListRef} {o : ListObject} {s : Slice} {p : Progression}

theorem size_apply (h : w.list? r = some o) : r.size w = (.ok o.buffer.size, w) := by
  simp [size, Run.readStore, Run.read, World.list_of_list? h]

theorem getSlice_apply (h : w.list? r = some o) (resolved : s.indices o.buffer.size = .ok p) :
    r.getSlice s w = Run.newList (o.buffer.copySlice p) w := by
  refine (Run.bind_ok (buffer_apply h)).trans ?_
  rw [resolved]
  rfl

theorem tryUpdate_apply (h : w.list? r = some o) (f : Buffer Value → Except Error (Buffer Value)) :
    r.tryUpdate f w = match f o.buffer with
      | .ok b => (.ok (), w.putList r (o.holding b))
      | .error e => (.error e, w.putList r (o.holding o.buffer)) := by
  refine (Run.bind_ok (buffer_apply h)).trans ?_
  cases f o.buffer with
  | ok b => exact write_apply h b
  | error e => exact Run.bind_ok (update_apply h id)

theorem setItemSlot_apply {h : Hooks} {source : Value} {xs : List Value} {w₁ : World}
    (drained : Protocol.collect h source w = (.ok xs, w₁)) (live : w₁.list? r = some o)
    (resolved : s.indices o.buffer.size = .ok p) :
    setItemSlot h [.list r, .slice s, source] w =
      (do r.tryUpdate (·.assignSlice p xs); return Value.none) w₁ := by
  show (setSlice h r s source >>= _) w = _
  rw [setSlice, Run.bind_bind, Run.bind_ok drained, Run.bind_bind, Run.bind_ok (size_apply live), resolved]
  rfl

end ListRef

namespace ByteArrayRef

variable {w : World} {r : ByteArrayRef} {o : ByteArrayObject} {s : Slice} {p : Progression}

theorem buffer_apply (h : w.byteArray? r = some o) : r.buffer w = (.ok o.buffer, w) := by
  simp [buffer, Run.readStore, Run.read, World.byteArray_of_byteArray? h]

theorem size_apply (h : w.byteArray? r = some o) : r.size w = (.ok o.buffer.size, w) :=
  Run.bind_ok (buffer_apply h)

theorem update_apply (h : w.byteArray? r = some o) (f : Buffer UInt8 → Buffer UInt8) :
    r.update f w = (.ok (), w.putByteArray r { o with buffer := f o.buffer }) :=
  congrArg (Prod.mk _) (World.modifyByteArray_eq_putByteArray h _)

theorem getSlice_apply (h : w.byteArray? r = some o) (resolved : s.indices o.buffer.size = .ok p) :
    r.getSlice s w = Run.newByteArray (o.buffer.copySlice p) w := by
  refine (Run.bind_ok (buffer_apply h)).trans ?_
  rw [resolved]
  rfl

theorem tryUpdate_apply (h : w.byteArray? r = some o) (f : Buffer UInt8 → Except Error (Buffer UInt8)) :
    r.tryUpdate f w = match f o.buffer with
      | .ok buffer => (.ok (), w.putByteArray r { o with buffer })
      | .error e => (.error e, w) := by
  refine (Run.bind_ok (buffer_apply h)).trans ?_
  cases f o.buffer with
  | ok b => exact update_apply h fun _ => b
  | error e => rfl

theorem setItemSlot_apply {h : Hooks} {source : Value} {xs : Bytes} {w₁ : World}
    (admitted : source.asInt? = none) (drained : ByteSequence.bytesFrom h source w = (.ok xs, w₁))
    (live : w₁.byteArray? r = some o) (resolved : s.indices o.buffer.size = .ok p) :
    setItemSlot h [.byteArray r, .slice s, source] w =
      (do r.tryUpdate (·.assignSlice p xs); return Value.none) w₁ := by
  have admits : setSlice h r s source = (do
      let data ← ByteSequence.bytesFrom h source
      let p ← Run.ofExcept (s.indices (← r.size))
      r.tryUpdate (·.assignSlice p data)) := by
    cases source <;> first | rfl | cases admitted
  show (setSlice h r s source >>= _) w = _
  rw [admits, Run.bind_bind, Run.bind_ok drained, Run.bind_bind, Run.bind_ok (size_apply live), resolved]
  rfl

end ByteArrayRef

/-! ## Reading -/

namespace Slice

variable {s : Slice} {h : Hooks} {w w₁ : World} {v source : Value} {items given : Items} {p : Progression}

def Reads (s : Slice) (h : Hooks) (w : World) (v : Value) (items : Items) (p : Progression) : Prop :=
  ∃ get picked v' w', v.kind.slot? .getItem = some get ∧ get h [v, .slice s] w = (.ok v', w') ∧
    v'.kind = v.kind ∧ w'.store.items? v' = some picked ∧ items.Picked p.positions picked ∧
    w.store.Retains w'.store

theorem reads (h : Hooks) (held : w.store.items? v = some items)
    (resolved : s.indices items.length = .ok p) : s.Reads h w v items p := by
  have inside := inside_any resolved
  have made {kind : Kind} {picked : Items} {get : Slot} {x : Run Value} (makes : Run.Makes kind picked x)
      (same : v.kind = kind) (slot : v.kind.slot? .getItem = some get) (ran : get h [v, .slice s] w = x w)
      (picks : items.Picked p.positions picked) : s.Reads h w v items p := by
    obtain ⟨v', w', done, of_kind, holds, retains⟩ := makes w
    exact ⟨get, picked, v', w', slot, ran.trans done, of_kind.trans same.symm, holds, picks, retains⟩
  cases v <;> simp only [Store.items?, Option.map_eq_some_iff, Option.some.injEq, reduceCtorEq] at held
  case list r =>
    obtain ⟨o, live, rfl⟩ := held
    exact made (Run.newList_makes _) rfl rfl (ListRef.getSlice_apply live resolved)
      (.values (Buffer.picks_select inside))
  case byteArray r =>
    obtain ⟨o, live, rfl⟩ := held
    exact made (Run.newByteArray_makes _) rfl rfl (ByteArrayRef.getSlice_apply live resolved)
      (.bytes (Buffer.picks_select inside))
  case bytes id data =>
    subst held
    refine made (Run.newBytes_makes (Buffer.select data.toArray p)) rfl rfl ?_
      (.bytes (Buffer.picks_select inside))
    show (Run.ofExcept (s.indices data.length) >>= _) w = _
    rw [show s.indices data.length = .ok p from resolved]
    rfl
  case tuple id xs =>
    subst held
    refine made (Run.newTuple_makes (Buffer.select xs.toArray p)) rfl rfl ?_
      (.values (Buffer.picks_select inside))
    show (Run.ofExcept (s.indices xs.length) >>= _) w = _
    rw [show s.indices xs.length = .ok p from resolved]
    rfl
  case str id text =>
    subst held
    have picks : Picks text.toList p.positions (String.ofList (Buffer.select text.toList.toArray p)).toList := by
      rw [String.toList_ofList]
      exact Buffer.picks_select inside
    refine made (Run.newText_makes _) rfl rfl ?_ (.characters picks)
    show (Run.ofExcept (s.indices text.toList.toArray.size) >>= _) w = _
    rw [show s.indices text.toList.toArray.size = .ok p from resolved]
    rfl

/-! ## Assigning -/

/-- A source gives items to a list or a byte array; other code may run until the source is at its end. -/
inductive Gives (h : Hooks) (source : Value) (w : World) : Value → Items → World → Prop
  | values {r : ListRef} {xs : List Value} {w₁ : World}
    (ran : Protocol.collect h source w = (.ok xs, w₁)) : Gives h source w (.list r) (.values xs) w₁
  | bytes {r : ByteArrayRef} {xs : List UInt8} {w₁ : World} (admitted : source.asInt? = none)
    (ran : ByteSequence.bytesFrom h source w = (.ok xs, w₁)) :
    Gives h source w (.byteArray r) (.bytes xs) w₁

theorem gives_values {xs : List Value} (h : Hooks) (r : ListRef)
    (held : w.store.items? source = some (.values xs)) : Gives h source w (.list r) (.values xs) w := by
  refine .values ?_
  cases source <;> simp only [Store.items?, Option.map_eq_some_iff, Option.some.injEq, reduceCtorEq,
    and_false, exists_false, Items.values.injEq] at held
  case list r' =>
    obtain ⟨o, live, rfl⟩ := held
    exact ListRef.items_apply live
  case tuple id ys =>
    subst held
    rfl

theorem gives_bytes {xs : List UInt8} (h : Hooks) (r : ByteArrayRef)
    (held : w.store.items? source = some (.bytes xs)) : Gives h source w (.byteArray r) (.bytes xs) w := by
  have admitted : source.asInt? = none := by
    cases source <;> first | rfl | cases held
  have read : ByteSequence.bytesLike? source w = (.ok (some xs), w) := by
    rw [← Store.bytesLike?_of_items? held]
    rfl
  exact .bytes admitted (Run.bind_ok read)

/-- How an assignment ends, and what the sequence holds then. With unit step it always succeeds, and
otherwise exactly if there is one item for each place. -/
inductive AssignmentEnds (p : Progression) (items given : Items) : Outcome Value → Items → Prop
  | done {after : Items} (fits : p.step = 1 ∨ given.length = p.count)
    (assigned : items.Assigned p given after) : AssignmentEnds p items given (.ok .none) after
  | refused (apart : p.step ≠ 1) (differs : given.length ≠ p.count) :
    AssignmentEnds p items given (.error (.extendedSliceSize given.length p.count)) items

/-- Assigning looks at the sequence after the source has been read; no other sequence changes then, and
what was assigned to places that lie apart can be read there. -/
def Assigns (s : Slice) (h : Hooks) (w : World) (v source : Value) (items given : Items) (w₁ : World)
    (p : Progression) : Prop :=
  ∃ set outcome after w₂, v.kind.slot? .setItem = some set ∧
    set h [v, .slice s, source] w = (outcome, w₂) ∧ AssignmentEnds p items given outcome after ∧
    w₂.store.items? v = some after ∧ (∀ u, u ≠ v → w₂.store.items? u = w₁.store.items? u) ∧
    (p.step ≠ 1 → given.length = p.count →
      ∃ get v' w₃, v.kind.slot? .getItem = some get ∧ get h [v, .slice s] w₂ = (.ok v', w₃) ∧
        w₃.store.items? v' = some given)

theorem read_back {after : Items} (h : Hooks) (resolved : s.indices items.length = .ok p)
    (assigned : items.Assigned p given after) (held : w.store.items? v = some after) (apart : p.step ≠ 1) :
    ∃ get v' w', v.kind.slot? .getItem = some get ∧ get h [v, .slice s] w = (.ok v', w') ∧
      w'.store.items? v' = some given := by
  have same : after.length = items.length ∧ after.Picked p.positions given := by
    cases assigned with
    | values assigned => exact ⟨assigned.length apart, .values (assigned.picks apart)⟩
    | bytes assigned => exact ⟨assigned.length apart, .bytes (assigned.picks apart)⟩
  obtain ⟨get, picked, v', w', slot, ran, _, holds, picks, _⟩ := reads h held (same.1 ▸ resolved)
  exact ⟨get, v', w', slot, ran, picks.unique same.2 ▸ holds⟩

theorem assigns (gives : Gives h source w v given w₁) (held : w₁.store.items? v = some items)
    (resolved : s.indices items.length = .ok p) : s.Assigns h w v source items given w₁ p := by
  have inside := inside_any resolved
  have ended {set : Slot} {outcome : Outcome Value} {after : Items} {w₂ : World}
      (slot : v.kind.slot? .setItem = some set) (ran : set h [v, .slice s, source] w = (outcome, w₂))
      (ends : AssignmentEnds p items given outcome after) (holds : w₂.store.items? v = some after)
      (others : ∀ u, u ≠ v → w₂.store.items? u = w₁.store.items? u) :
      s.Assigns h w v source items given w₁ p := by
    refine ⟨set, outcome, after, w₂, slot, ran, ends, holds, others, fun apart same => ?_⟩
    cases ends with
    | done _ assigned => exact read_back h resolved assigned holds apart
    | refused _ differs => exact absurd same differs
  cases gives with
  | @values r xs _ drained =>
    obtain ⟨o, live, rfl⟩ := Option.map_eq_some_iff.mp held
    have ran := ListRef.setItemSlot_apply drained live resolved
    have tried := ListRef.tryUpdate_apply live (·.assignSlice p xs)
    have others (o' : ListObject) (u : Value) : u ≠ .list r →
        (w₁.putList r o').store.items? u = w₁.store.items? u := World.items?_putList_of_ne o'
    cases done : o.buffer.assignSlice p xs with
    | ok b =>
      rw [done] at tried
      refine ended rfl (ran.trans (Run.bind_ok tried)) (.done ?_ (.values ?_))
        (World.items?_putList live _) (others _)
      · exact Buffer.assignSlice_ok done
      · exact Buffer.assigned_of_assignSlice inside done
    | error e =>
      obtain ⟨apart, differs, rfl⟩ := Buffer.assignSlice_error done
      rw [done] at tried
      exact ended rfl (ran.trans (Run.bind_error tried)) (.refused apart differs)
        (World.items?_putList live _) (others _)
  | @bytes r xs _ admitted drained =>
    obtain ⟨o, live, rfl⟩ := Option.map_eq_some_iff.mp held
    have ran := ByteArrayRef.setItemSlot_apply admitted drained live resolved
    have tried := ByteArrayRef.tryUpdate_apply live (·.assignSlice p xs)
    cases done : o.buffer.assignSlice p xs with
    | ok b =>
      rw [done] at tried
      refine ended rfl (ran.trans (Run.bind_ok tried)) (.done ?_ (.bytes ?_))
        (World.items?_putByteArray live _) fun u => World.items?_putByteArray_of_ne _
      · exact Buffer.assignSlice_ok done
      · exact Buffer.assigned_of_assignSlice inside done
    | error e =>
      obtain ⟨apart, differs, rfl⟩ := Buffer.assignSlice_error done
      rw [done] at tried
      exact ended rfl (ran.trans (Run.bind_error tried)) (.refused apart differs) held fun _ _ => rfl

/-- Assigning to a slice what it reads changes nothing, and only counts as a change. -/
def Restores (s : Slice) (h : Hooks) (w : World) (v : Value) : Prop :=
  ∃ get set read w₁ w₂, v.kind.slot? .getItem = some get ∧ v.kind.slot? .setItem = some set ∧
    get h [v, .slice s] w = (.ok read, w₁) ∧ set h [v, .slice s, read] w₁ = (.ok .none, w₂) ∧
    w.store.Retains w₂.store

theorem restores_list {r : ListRef} {o : ListObject} (h : Hooks) (live : w.list? r = some o)
    (resolved : s.indices o.buffer.size = .ok p) : s.Restores h w (.list r) := by
  obtain ⟨v', w₁, made, -, holds, retains⟩ := Run.newList_makes (o.buffer.copySlice p) w
  obtain ⟨version, live₁⟩ := retains.lists live
  have drained : Protocol.collect h v' w₁ = (.ok (o.buffer.copySlice p).toList, w₁) :=
    match gives_values h r holds with | .values ran => ran
  have tried := ListRef.tryUpdate_apply live₁ (·.assignSlice p (o.buffer.copySlice p).toList)
  rw [show o.buffer.assignSlice p (o.buffer.copySlice p).toList = .ok o.buffer from
    Buffer.assignSlice_copySlice resolved] at tried
  refine ⟨_, _, v', w₁, _, rfl, rfl, (ListRef.getSlice_apply live resolved).trans made,
    (ListRef.setItemSlot_apply drained live₁ resolved).trans (Run.bind_ok tried), retains.trans ?_⟩
  have counted := World.modifyList_eq_putList live₁ fun o => o.holding o.buffer
  rw [← counted]
  exact w₁.store.retains_modifyList fun o => ⟨o.version + 1, rfl⟩

theorem restores_byteArray {r : ByteArrayRef} {o : ByteArrayObject} (h : Hooks)
    (live : w.byteArray? r = some o) (resolved : s.indices o.buffer.size = .ok p) :
    s.Restores h w (.byteArray r) := by
  obtain ⟨v', w₁, made, of_array, holds, retains⟩ := Run.newByteArray_makes (o.buffer.copySlice p) w
  have live₁ : w₁.byteArray? r = some o := retains.byteArrays live
  have admitted : v'.asInt? = none := by
    cases v' <;> first | rfl | cases of_array
  have drained : ByteSequence.bytesFrom h v' w₁ = (.ok (o.buffer.copySlice p).toList, w₁) :=
    match gives_bytes h r holds with | .bytes _ ran => ran
  have tried := ByteArrayRef.tryUpdate_apply live₁ (·.assignSlice p (o.buffer.copySlice p).toList)
  rw [show o.buffer.assignSlice p (o.buffer.copySlice p).toList = .ok o.buffer from
    Buffer.assignSlice_copySlice resolved] at tried
  refine ⟨_, _, v', w₁, _, rfl, rfl, (ByteArrayRef.getSlice_apply live resolved).trans made,
    (ByteArrayRef.setItemSlot_apply admitted drained live₁ resolved).trans (Run.bind_ok tried), ?_⟩
  rwa [World.putByteArray_same live₁]

theorem restores (h : Hooks) (kind : v.kind = .list ∨ v.kind = .byteArray)
    (held : w.store.items? v = some items) (resolved : s.indices items.length = .ok p) : s.Restores h w v := by
  cases v <;> simp only [Value.kind, reduceCtorEq, or_false, or_true, or_self] at kind
  case list r =>
    obtain ⟨o, live, rfl⟩ := Option.map_eq_some_iff.mp held
    exact restores_list h live resolved
  case byteArray r =>
    obtain ⟨o, live, rfl⟩ := Option.map_eq_some_iff.mp held
    exact restores_byteArray h live resolved

/-! ## Slices on buffers and in the store -/

structure Transfer {α : Type} (s : Slice) (b : Buffer α) (values : List α) (p : Progression) : Prop where
  places : (b.size : Int) ≤ Word.greatest → p.positions.map Int.ofNat = s.places b.size
  read : Picks b.toList p.positions (b.copySlice p).toList
  oneByOne : (b.copySlice p).toList = p.positions.filterMap fun i => b.items[i]?
  bounds : p.step = 1 → 0 ≤ p.start ∧ p.count = (p.stop - p.start).toNat ∧ p.start.toNat + p.count ≤ b.size
  succeeds : (∃ b', b.assignSlice p values = .ok b') ↔ p.step = 1 ∨ values.length = p.count
  assigned : ∀ b', b.assignSlice p values = .ok b' → p.Assigned b.toList values b'.toList
  refused : ∀ e, b.assignSlice p values = .error e → e = .extendedSliceSize values.length p.count
  restored : b.assignSlice p (b.copySlice p).toList = .ok b
  readBack : p.step ≠ 1 → ∀ b', b.assignSlice p values = .ok b' →
    s.indices b'.size = .ok p ∧ (b'.copySlice p).toList = values
  words : (b.size : Int) ≤ Word.greatest → (values.length : Int) ≤ Word.greatest →
    ∃ q, s.indices? b.size = some q ∧ b.copySlice? q = some (b.copySlice p) ∧
      b.assignSlice? q values = some (b.assignSlice p values)

theorem transfer {α : Type} {b : Buffer α} (nonzero : s.step ≠ some 0) (resolved : s.indices b.size = .ok p)
    (values : List α) : s.Transfer b values p := by
  have inside := inside_any resolved
  have step := fits_step resolved
  constructor
  case places =>
    intro fits
    have places := inside.positions_eq
    rw [indices_eq nonzero fits, Except.ok.injEq] at resolved
    subst resolved
    rw [places, places_eq s fits, walk_eq (stride_ne_zero nonzero)]
  case read => exact Buffer.picks_select inside
  case oneByOne => exact Buffer.select_eq inside
  case bounds =>
    intro unit
    obtain ⟨nonneg, count⟩ := unit_bounds resolved unit
    exact ⟨nonneg, count, unit_inside resolved (Buffer.isContiguous_iff.mpr unit)⟩
  case succeeds =>
    refine ⟨fun ⟨b', done⟩ => Buffer.assignSlice_ok done, fun fits => ?_⟩
    cases done : b.assignSlice p values with
    | ok b' => exact ⟨b', rfl⟩
    | error e =>
      obtain ⟨apart, differs, -⟩ := Buffer.assignSlice_error done
      exact absurd fits (by simp [apart, differs])
  case assigned => exact fun b' done => Buffer.assigned_of_assignSlice inside done
  case refused => exact fun e failed => (Buffer.assignSlice_error failed).2.2
  case restored => exact Buffer.assignSlice_copySlice resolved
  case readBack =>
    intro apart b' done
    have assigned := Buffer.assigned_of_assignSlice inside done
    have size : b'.size = b.size := by simpa [Buffer.toList, Buffer.size] using assigned.length apart
    have inside' : p.Inside b'.size := by rwa [size]
    exact ⟨by rwa [size], (Buffer.picks_select inside').unique (assigned.picks apart)⟩
  case words =>
    intro fits few
    have word : Word.Fits p.step := ⟨by unfold Word.least Word.greatest at *; omega, step.2⟩
    refine ⟨.ofExact p, (words_of_indices nonzero fits resolved).1,
      Buffer.copySlice?_eq inside fits word, Buffer.assignSlice?_eq inside fits word values few ?_⟩
    intro unit
    exact ⟨(unit_bounds resolved unit).1, unit_inside resolved (Buffer.isContiguous_iff.mpr unit)⟩

/-- What a slice reads from the sequences of a state, and what it assigns to those that can change. -/
structure Serves (s : Slice) (h : Hooks) (w : World) : Prop where
  reads : ∀ v items, w.store.items? v = some items →
    ∃ p, s.indices items.length = .ok p ∧ s.Reads h w v items p
  givesValues : ∀ source xs r, w.store.items? source = some (.values xs) →
    Gives h source w (.list r) (.values xs) w
  givesBytes : ∀ source xs r, w.store.items? source = some (.bytes xs) →
    Gives h source w (.byteArray r) (.bytes xs) w
  assigns : ∀ v source items given w₁, Gives h source w v given w₁ → w₁.store.items? v = some items →
    ∃ p, s.indices items.length = .ok p ∧ s.Assigns h w v source items given w₁ p
  restores : ∀ v items, v.kind = .list ∨ v.kind = .byteArray → w.store.items? v = some items →
    s.Restores h w v

/-- A slice whose step is not zero reads the items at its places, in its order, from buffers and from
sequences of all kinds; it assigns any number of items in the place of neighbours, and to places that lie
apart one for each; and what it reads can be assigned to it without a change. -/
theorem slices_transfer {s : Slice} (nonzero : s.step ≠ some 0) :
    (∀ {α : Type} (b : Buffer α) (values : List α),
      ∃ p, s.indices b.size = .ok p ∧ s.Transfer b values p) ∧
    ∀ h w, s.Serves h w := by
  have resolved (len : Nat) : ∃ p, s.indices len = .ok p := by
    cases resolved : s.indices len with
    | ok p => exact ⟨p, rfl⟩
    | error e => exact absurd ((indices_eq_error_iff s len).mp ⟨e, resolved⟩) nonzero
  refine ⟨fun b values => ?_, fun h w => ?_⟩
  · obtain ⟨p, resolved⟩ := resolved b.size
    exact ⟨p, resolved, transfer nonzero resolved values⟩
  constructor
  case reads =>
    intro v items held
    obtain ⟨p, resolved⟩ := resolved items.length
    exact ⟨p, resolved, reads h held resolved⟩
  case givesValues => exact fun source xs r held => gives_values h r held
  case givesBytes => exact fun source xs r held => gives_bytes h r held
  case assigns =>
    intro v source items given w₁ gives held
    obtain ⟨p, resolved⟩ := resolved items.length
    exact ⟨p, resolved, assigns gives held resolved⟩
  case restores =>
    intro v items kind held
    obtain ⟨p, resolved⟩ := resolved items.length
    exact restores h kind held resolved

/-- Every third place from the last but one down, of ten. -/
theorem slices_transfer_third :
    (⟨some 8, some 1, some (-3)⟩ : Slice).step ≠ some 0 ∧
      (∃ p, (⟨some 8, some 1, some (-3)⟩ : Slice).indices 10 = .ok p ∧
        Transfer ⟨some 8, some 1, some (-3)⟩ (.ofArray #[0, 1, 2, 3, 4, 5, 6, 7, 8, 9]) [20, 21, 22] p ∧
        ∃ b, Buffer.assignSlice (.ofArray #[0, 1, 2, 3, 4, 5, 6, 7, 8, 9]) p [20, 21, 22] = .ok b ∧
          b.toList = [0, 1, 22, 3, 4, 21, 6, 7, 20, 9]) ∧
      ∀ h w, Serves ⟨some 8, some 1, some (-3)⟩ h w := by
  obtain ⟨buffers, sequences⟩ := slices_transfer (s := ⟨some 8, some 1, some (-3)⟩) (by decide)
  refine ⟨by decide, ?_, sequences⟩
  obtain ⟨p, resolved, transfer⟩ := buffers (.ofArray #[0, 1, 2, 3, 4, 5, 6, 7, 8, 9]) [20, 21, 22]
  have three : p = ⟨8, 1, -3, 3⟩ := Except.ok.inj (resolved.symm.trans (by decide))
  obtain ⟨b, done⟩ := transfer.succeeds.mpr (.inr (by rw [three]; rfl))
  refine ⟨p, resolved, transfer, b, done, ?_⟩
  subst three
  obtain rfl := Except.ok.inj done
  decide

end Slice

end DynamicObjects
