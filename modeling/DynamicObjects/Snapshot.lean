import DynamicObjects.Store

/-!
Values written out as finite trees, so that they can be shown. A container that is being written
already stands as a mark of its kind, and so does one that lies too deep.
-/
namespace DynamicObjects

inductive Snapshot
  | none
  | notImplemented
  | bool (b : Bool)
  | int (n : Int64)
  | float (d : Double)
  | str (text : String)
  | bytes (data : Bytes)
  | byteArray (data : Bytes)
  | tuple (items : List Snapshot)
  | list (items : List Snapshot)
  | dict (pairs : List (Snapshot × Snapshot))
  | dictKeys (items : List Snapshot)
  | dictValues (items : List Snapshot)
  /-- Each item is a tuple of a key and a value. -/
  | dictItems (items : List Snapshot)
  | frozenSet (items : List Snapshot)
  | slice (s : Slice)
  | native (name : String)
  | object (number : Nat) (payload : Snapshot)
  /-- A container that is being written further up. -/
  | again (kind : Kind)
  /-- A container below the deepest level that is written. -/
  | deep (kind : Kind)

namespace Snapshot

/-- How many containers may be open around another one that is written. -/
def depthLimit : Nat := 24

/-- Writes a value with `levels` more containers allowed inside those that are open. A view counts
as its dictionary. The items of a view are tuples made on the spot: they take a level, and none of
them can be open already. -/
def take (s : Store) : Nat → List Identity → Value → Snapshot
  | levels, opened, v =>
    let inside (id : Identity) (write : (Value → Snapshot) → Snapshot) : Snapshot :=
      if opened.contains id then again v.kind
      else
        match levels with
        | 0 => deep v.kind
        | levels + 1 => write (take s levels (id :: opened))
    let both (write : Value → Snapshot) (p : Value × Value) := (write p.1, write p.2)
    match v with
    | .none => none
    | .notImplemented => notImplemented
    | .bool b => bool b
    | .int n => int n
    | .float d => float d
    | .str _ text => str text
    | .bytes _ data => bytes data
    | .byteArray r => byteArray (s.bytesOf r)
    | .slice x => slice x
    | .native _ name _ => native name
    | .tuple id items => inside id fun write => tuple (items.map write)
    | .frozenSet id t => inside id fun write => frozenSet (t.keys.map write)
    | .object id number payload => inside id fun write => object number (write payload)
    | .list r => inside (s.list r).id fun write => list ((s.list r).buffer.toList.map write)
    | .dict r => inside (s.dict r).id fun write => dict ((s.dict r).table.pairs.map (both write))
    | .dictKeys r => inside (s.dict r).id fun write => dictKeys ((s.dict r).table.keys.map write)
    | .dictValues r =>
      inside (s.dict r).id fun write => dictValues ((s.dict r).table.values.map write)
    | .dictItems r =>
      let id := (s.dict r).id
      let pairs := (s.dict r).table.pairs
      if opened.contains id then again .dictItems
      else
        match levels with
        | 0 => deep .dictItems
        | 1 => dictItems (pairs.map fun _ => deep .tuple)
        | levels + 2 =>
          let write := take s levels (id :: opened)
          dictItems (pairs.map fun p => tuple [write p.1, write p.2])

def ofValue (s : Store) (v : Value) : Snapshot := take s depthLimit [] v

end Snapshot

end DynamicObjects
