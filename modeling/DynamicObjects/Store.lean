import DynamicObjects.Value

/-!
The store: everything that can change behind a reference, and the counter that identities come from.
Each list and each dictionary counts its changes, so that code which has let other code run can tell
whether its view of the object still holds.
-/
namespace DynamicObjects

structure ListObject where
  id : Identity
  buffer : Buffer Value
  /-- Counts the changes. Fewer than `2^64` are assumed, so the count never wraps. -/
  version : Nat

structure DictObject where
  id : Identity
  table : Table Value Value
  /-- Counts the changes. Fewer than `2^64` are assumed, so the count never wraps. -/
  version : Nat

structure ByteArrayObject where
  id : Identity
  buffer : Buffer UInt8

structure Store where
  nextId : Identity
  lists : Array ListObject
  dicts : Array DictObject
  byteArrays : Array ByteArrayObject

namespace Store

/-- The empty byte string and the 256 strings of one byte have the identities below the first one
that is given out. -/
def empty : Store := ⟨257, #[], #[], #[]⟩

def list (s : Store) (r : ListRef) : ListObject :=
  s.lists.getD r.number ⟨0, .empty, 0⟩

def dict (s : Store) (r : DictRef) : DictObject :=
  s.dicts.getD r.number ⟨0, .empty, 0⟩

def byteArray (s : Store) (r : ByteArrayRef) : ByteArrayObject :=
  s.byteArrays.getD r.number ⟨0, .empty⟩

def modifyList (s : Store) (r : ListRef) (f : ListObject → ListObject) : Store :=
  { s with lists := s.lists.modify r.number f }

def modifyDict (s : Store) (r : DictRef) (f : DictObject → DictObject) : Store :=
  { s with dicts := s.dicts.modify r.number f }

def modifyByteArray (s : Store) (r : ByteArrayRef) (f : ByteArrayObject → ByteArrayObject) :
    Store :=
  { s with byteArrays := s.byteArrays.modify r.number f }

def fresh (s : Store) : Identity × Store := (s.nextId, { s with nextId := s.nextId + 1 })

def addList (s : Store) (buffer : Buffer Value) : ListRef × Store :=
  (⟨s.lists.size⟩,
    { s with nextId := s.nextId + 1, lists := s.lists.push ⟨s.nextId, buffer, 0⟩ })

def addDict (s : Store) (table : Table Value Value) : DictRef × Store :=
  (⟨s.dicts.size⟩,
    { s with nextId := s.nextId + 1, dicts := s.dicts.push ⟨s.nextId, table, 0⟩ })

def addByteArray (s : Store) (buffer : Buffer UInt8) : ByteArrayRef × Store :=
  (⟨s.byteArrays.size⟩,
    { s with nextId := s.nextId + 1, byteArrays := s.byteArrays.push ⟨s.nextId, buffer⟩ })

def bytesOf (s : Store) (r : ByteArrayRef) : Bytes := (s.byteArray r).buffer.toList

/-- The identity of a value, if it has one; views share that of their dictionary. -/
def identity? (s : Store) : Value → Option Identity
  | .str id _ | .bytes id _ | .tuple id _ | .frozenSet id _ | .native id .. | .object id .. => some id
  | .byteArray r => some (s.byteArray r).id
  | .list r => some (s.list r).id
  | .dict r | .dictKeys r | .dictValues r | .dictItems r => some (s.dict r).id
  | _ => none

def bytesLike? (s : Store) : Value → Option Bytes
  | .bytes _ data => some data
  | .byteArray r => some (s.bytesOf r)
  | _ => none

/-- The order that values have by themselves, with no operation asked: text, bytes and numbers
each among themselves. The inner option is empty when a NaN leaves them unordered. -/
def intrinsicCompare? (s : Store) (a b : Value) : Option (Option Ordering) :=
  match a, b with
  | .str _ x, .str _ y => some (some (Bytes.order x.toUTF8.toList y.toUTF8.toList))
  | _, _ =>
    match s.bytesLike? a, s.bytesLike? b with
    | some x, some y => some (some (Bytes.order x y))
    | _, _ =>
      match a.asNumber?, b.asNumber? with
      | some x, some y => some (x.compare? y)
      | _, _ => none

def isSetLike : Value → Bool
  | .dictKeys _ | .dictItems _ | .frozenSet .. => true
  | _ => false

/-- Equality where no element has to be compared; nothing where an operation has to decide. -/
def intrinsicEq? (s : Store) (a b : Value) : Option Bool :=
  match s.intrinsicCompare? a b with
  | some order => some (order == some .eq)
  | none =>
    match a, b with
    | .object .., _ | _, .object .. => none
    | .tuple .., .tuple .. | .list _, .list _ | .dict _, .dict _ => none
    | _, _ => if isSetLike a && isSetLike b then none else some (a.isSame b)

end Store

end DynamicObjects
