import DynamicObjects.Store

/-!
Iterators as data. Those over lists and byte arrays read the live object at each step; those over
dictionaries remember its size and layout and notice a change; all others walk over elements that
were fixed when they were opened.
-/
namespace DynamicObjects

inductive DictPart
  | keys
  | values
  | items
  deriving DecidableEq

inductive Iterator
  | elements (rest : List Value)
  | list (ref : ListRef) (cursor : Nat)
  | listBackwards (ref : ListRef) (cursor : Nat)
  | byteArray (ref : ByteArrayRef) (cursor : Nat)
  | dict (ref : DictRef) (part : DictPart) (position size layout : Nat) (finished : Bool)
  /-- The elements that a class enumerates; functions among them are called when they are reached. -/
  | enumerated (rest : List Value)

namespace Iterator

def ofList (r : ListRef) : Iterator := .list r 0

def ofListBackwards (s : Store) (r : ListRef) : Iterator :=
  .listBackwards r (s.list r).buffer.size

def ofByteArray (r : ByteArrayRef) : Iterator := .byteArray r 0

def ofDict (s : Store) (r : DictRef) (part : DictPart) : Iterator :=
  let t := (s.dict r).table
  .dict r part 0 t.size t.layout false

end Iterator

/-- One step of a walk over a dictionary: the position and the entry that come next. A changed
size is reported before a changed layout. -/
def Table.step {κ ν : Type} (t : Table κ ν) (position size layout : Nat) :
    Except Error (Option (Nat × Entry κ ν)) :=
  if t.size ≠ size then .error .dictChangedSize
  else if t.layout ≠ layout then .error .dictKeysChanged
  else .ok (t.nextFrom position)

end DynamicObjects
