/-!
The kinds of built-in values, and the keys under which operations are looked up: a built-in kind or
the number of a class that programs define.
-/
namespace DynamicObjects

inductive Kind
  | noneType
  | notImplementedType
  | bool
  | int
  | float
  | str
  | bytes
  | byteArray
  | tuple
  | list
  | dict
  | dictKeys
  | dictValues
  | dictItems
  | frozenSet
  | slice
  | builtinFunction
  | object
  deriving DecidableEq

namespace Kind

def all : List Kind :=
  [noneType, notImplementedType, bool, int, float, str, bytes, byteArray, tuple, list, dict,
    dictKeys, dictValues, dictItems, frozenSet, slice, builtinFunction, object]

def name : Kind → String
  | noneType => "NoneType"
  | notImplementedType => "NotImplementedType"
  | bool => "bool"
  | int => "int"
  | float => "float"
  | str => "str"
  | bytes => "bytes"
  | byteArray => "bytearray"
  | tuple => "tuple"
  | list => "list"
  | dict => "dict"
  | dictKeys => "dict_keys"
  | dictValues => "dict_values"
  | dictItems => "dict_items"
  | frozenSet => "frozenset"
  | slice => "slice"
  | builtinFunction => "builtin_function_or_method"
  | object => "object"

def tag : Kind → String
  | noneType => "NoneType"
  | notImplementedType => "NotImplementedType"
  | bool => "Bool"
  | int => "Int"
  | float => "Float"
  | str => "Str"
  | bytes => "Bytes"
  | byteArray => "Bytearray"
  | tuple => "Tuple"
  | list => "List"
  | dict => "Dict"
  | dictKeys => "DictKeys"
  | dictValues => "DictValues"
  | dictItems => "DictItems"
  | frozenSet => "Frozenset"
  | slice => "Slice"
  | builtinFunction => "BuiltinFunction"
  | object => "Object"

def ofName? (text : String) : Option Kind := all.find? (·.name == text)

def ofTag? (text : String) : Option Kind := all.find? (·.tag == text)

/-- Whether values of the kind may be keys without a class being asked. -/
def isHashable : Kind → Bool
  | list | dict | byteArray | dictKeys | dictItems => false
  | _ => true

end Kind

inductive TypeKey
  | builtin (kind : Kind)
  | userClass (number : Nat)
  deriving DecidableEq

def defaultClassName (number : Nat) : String := s!"object<{number}>"

end DynamicObjects
