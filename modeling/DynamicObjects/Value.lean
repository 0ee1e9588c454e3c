import DynamicObjects.Script.Program
import DynamicObjects.HashCode
import DynamicObjects.Table
import DynamicObjects.Buffer

/-!
Values. Scalars are themselves; what can change lives in a store and is named by a reference; every
other value that a program can tell apart from its equals carries an identity. Immutable containers
hold their elements directly, so a cycle always passes through a reference.
-/
namespace DynamicObjects

/-- A number given out once, in the order of creation. -/
abbrev Identity := Nat

structure ListRef where
  number : Nat
  deriving DecidableEq

structure DictRef where
  number : Nat
  deriving DecidableEq

structure ByteArrayRef where
  number : Nat
  deriving DecidableEq

inductive Value
  | none
  | notImplemented
  | bool (b : Bool)
  | int (n : Int64)
  | float (d : Double)
  | str (id : Identity) (text : String)
  | bytes (id : Identity) (data : Bytes)
  | byteArray (ref : ByteArrayRef)
  | tuple (id : Identity) (items : List Value)
  | list (ref : ListRef)
  | dict (ref : DictRef)
  | dictKeys (ref : DictRef)
  | dictValues (ref : DictRef)
  | dictItems (ref : DictRef)
  | frozenSet (id : Identity) (table : Table Value Unit)
  | slice (s : Slice)
  | native (id : Identity) (name : String) (body : List Script.Step)
  | object (id : Identity) (number : Nat) (payload : Value)

instance : Inhabited Value := ⟨.none⟩

/-- A value takes 48 bytes: the widest one is a slice with its three optional words. -/
instance : ItemSize Value := ⟨48⟩

abbrev SetTable := Table Value Unit

namespace Value

def kind : Value → Kind
  | none => .noneType
  | notImplemented => .notImplementedType
  | bool _ => .bool
  | int _ => .int
  | float _ => .float
  | str .. => .str
  | bytes .. => .bytes
  | byteArray _ => .byteArray
  | tuple .. => .tuple
  | list _ => .list
  | dict _ => .dict
  | dictKeys _ => .dictKeys
  | dictValues _ => .dictValues
  | dictItems _ => .dictItems
  | frozenSet .. => .frozenSet
  | slice _ => .slice
  | native .. => .builtinFunction
  | object .. => .object

def typeKey : Value → TypeKey
  | object _ number _ => .userClass number
  | v => .builtin v.kind

def hasIdentity : Value → Bool
  | none | notImplemented | bool _ | int _ | float _ | slice _ => false
  | _ => true

/-- Whether two values are one object. Scalars and slices are when they look alike, numbers bit by
bit; views are when they are views of one kind of one dictionary. -/
def isSame : Value → Value → Bool
  | none, none => true
  | notImplemented, notImplemented => true
  | bool a, bool b => a == b
  | int a, int b => a == b
  | float a, float b => a == b
  | slice a, slice b => a == b
  | str a _, str b _ => a == b
  | bytes a _, bytes b _ => a == b
  | byteArray a, byteArray b => a == b
  | tuple a _, tuple b _ => a == b
  | list a, list b => a == b
  | dict a, dict b => a == b
  | dictKeys a, dictKeys b => a == b
  | dictValues a, dictValues b => a == b
  | dictItems a, dictItems b => a == b
  | frozenSet a _, frozenSet b _ => a == b
  | native a _ _, native b _ _ => a == b
  | object a _ _, object b _ _ => a == b
  | _, _ => false

def asInt? : Value → Option Int64
  | bool b => some (Word.ofBool b)
  | int n => some n
  | _ => .none

def asIndex (v : Value) : Except Error Int64 :=
  match v.asInt? with
  | some n => .ok n
  | .none => .error (.notInteger v.kind.name)

def asText? : Value → Option String
  | str _ text => some text
  | _ => .none

def ofNat (n : Nat) : Value := int (Word.ofSize n)

theorem isSame_refl (v : Value) : v.isSame v = true := by
  cases v <;> simp [isSame]

end Value

inductive Number
  | int (n : Int64)
  | float (d : Double)

def Value.asNumber? : Value → Option Number
  | .bool b => some (.int (Word.ofBool b))
  | .int n => some (.int n)
  | .float d => some (.float d)
  | _ => .none

namespace Number

def toDouble : Number → Double
  | int n => Double.ofInt64 n
  | float d => d

/-- The exact order of two numbers; a NaN has none. -/
def compare? : Number → Number → Option Ordering
  | int a, int b => some (compare a.toInt b.toInt)
  | float a, float b => a.compare? b
  | int a, float b => Double.compareInt? a b
  | float a, int b => (Double.compareInt? b a).map Ordering.swap

end Number

end DynamicObjects
