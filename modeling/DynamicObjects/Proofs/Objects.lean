import DynamicObjects.Run

/-!
One list, dictionary or byte array of the store. A reference that is live names an object, and putting
an object in its place changes nothing else.
-/
namespace DynamicObjects

section Arrays

variable {α : Type} {xs : Array α} {i : Nat} {x : α}

theorem modify_eq_setIfInBounds (h : xs[i]? = some x) (f : α → α) :
    xs.modify i f = xs.setIfInBounds i (f x) := by
  apply Array.ext_getElem?
  intro j
  rw [Array.getElem?_modify, Array.getElem?_setIfInBounds]
  by_cases same : i = j
  · subst same
    obtain ⟨bound, value⟩ := Array.getElem?_eq_some_iff.mp h
    simp [bound, value]
  · simp [same]

theorem setIfInBounds_same (h : xs[i]? = some x) : xs.setIfInBounds i x = xs := by
  obtain ⟨bound, rfl⟩ := Array.getElem?_eq_some_iff.mp h
  simp [Array.setIfInBounds, bound]

end Arrays

namespace World

/-- A state with nothing in it. -/
def blank : World where
  store := .empty
  dispatcher := .make ⟨#[], [], false⟩ {} {}

variable {w w' : World}

section Dicts

variable {r : DictRef} {o : DictObject}

def dict? (w : World) (r : DictRef) : Option DictObject := w.store.dicts[r.number]?

def putDict (w : World) (r : DictRef) (o : DictObject) : World :=
  { w with store := { w.store with dicts := w.store.dicts.setIfInBounds r.number o } }

theorem dict?_of_dicts_eq (same : w'.store.dicts = w.store.dicts) : w'.dict? r = w.dict? r := by
  rw [dict?, same, dict?]

theorem dict_of_dict? (h : w.dict? r = some o) : w.store.dict r = o := by
  unfold dict? at h
  simp [Store.dict, Array.getD_eq_getD_getElem?, h]

theorem dict?_putDict (h : w.dict? r = some o) (o' : DictObject) :
    (w.putDict r o').dict? r = some o' := by
  have bound := (Array.getElem?_eq_some_iff.mp h).1
  simp [dict?, putDict, bound]

theorem putDict_same (h : w.dict? r = some o) : w.putDict r o = w := by
  unfold putDict
  rw [setIfInBounds_same h]

end Dicts

section Lists

variable {r : ListRef} {o : ListObject}

def list? (w : World) (r : ListRef) : Option ListObject := w.store.lists[r.number]?

def putList (w : World) (r : ListRef) (o : ListObject) : World :=
  { w with store := { w.store with lists := w.store.lists.setIfInBounds r.number o } }

theorem list?_of_lists_eq (same : w'.store.lists = w.store.lists) : w'.list? r = w.list? r := by
  rw [list?, same, list?]

theorem list_of_list? (h : w.list? r = some o) : w.store.list r = o := by
  unfold list? at h
  simp [Store.list, Array.getD_eq_getD_getElem?, h]

theorem list?_putList (h : w.list? r = some o) (o' : ListObject) :
    (w.putList r o').list? r = some o' := by
  have bound := (Array.getElem?_eq_some_iff.mp h).1
  simp [list?, putList, bound]

theorem modifyList_eq_putList (h : w.list? r = some o) (f : ListObject → ListObject) :
    { w with store := w.store.modifyList r f } = w.putList r (f o) := by
  simp only [putList, Store.modifyList, modify_eq_setIfInBounds h f]

theorem list?_modifyList_of_ne {r' : ListRef} (h : r' ≠ r) (f : ListObject → ListObject) :
    World.list? { w with store := w.store.modifyList r' f } r = w.list? r := by
  have other : r'.number ≠ r.number := by
    intro same
    obtain ⟨number⟩ := r
    obtain ⟨number'⟩ := r'
    exact h (congrArg ListRef.mk same)
  simp [list?, Store.modifyList, Array.getElem?_modify, other]

end Lists

section ByteArrays

variable {r : ByteArrayRef} {o : ByteArrayObject}

def byteArray? (w : World) (r : ByteArrayRef) : Option ByteArrayObject := w.store.byteArrays[r.number]?

def putByteArray (w : World) (r : ByteArrayRef) (o : ByteArrayObject) : World :=
  { w with store := { w.store with byteArrays := w.store.byteArrays.setIfInBounds r.number o } }

theorem byteArray_of_byteArray? (h : w.byteArray? r = some o) : w.store.byteArray r = o := by
  unfold byteArray? at h
  simp [Store.byteArray, Array.getD_eq_getD_getElem?, h]

theorem byteArray?_putByteArray (h : w.byteArray? r = some o) (o' : ByteArrayObject) :
    (w.putByteArray r o').byteArray? r = some o' := by
  have bound := (Array.getElem?_eq_some_iff.mp h).1
  simp [byteArray?, putByteArray, bound]

theorem putByteArray_same (h : w.byteArray? r = some o) : w.putByteArray r o = w := by
  unfold putByteArray
  rw [setIfInBounds_same h]

theorem modifyByteArray_eq_putByteArray (h : w.byteArray? r = some o)
    (f : ByteArrayObject → ByteArrayObject) :
    { w with store := w.store.modifyByteArray r f } = w.putByteArray r (f o) := by
  simp only [putByteArray, Store.modifyByteArray, modify_eq_setIfInBounds h f]

end ByteArrays

end World

end DynamicObjects
