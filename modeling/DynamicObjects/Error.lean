/-!
Failures of the object layer. An error is a cause; its class, its kind and its wording are three
functions of the cause, so that no two places can word one cause differently. Two causes stand
apart: `custom`, an exception made by a program, and `internal`, a broken promise of the library.
-/
namespace DynamicObjects

inductive ErrorClass
  | exception
  | lookupError
  | indexError
  | keyError
  | runtimeError
  | notImplementedError
  | recursionError
  | arithmeticError
  | overflowError
  | zeroDivisionError
  | valueError
  | unicodeDecodeError
  | unicodeEncodeError
  | attributeError
  | memoryError
  | stopIteration
  | typeError
  deriving DecidableEq

namespace ErrorClass

def all : List ErrorClass :=
  [exception, lookupError, indexError, keyError, runtimeError, notImplementedError, recursionError,
    arithmeticError, overflowError, zeroDivisionError, valueError, unicodeDecodeError,
    unicodeEncodeError, attributeError, memoryError, stopIteration, typeError]

def name : ErrorClass → String
  | exception => "Exception"
  | lookupError => "LookupError"
  | indexError => "IndexError"
  | keyError => "KeyError"
  | runtimeError => "RuntimeError"
  | notImplementedError => "NotImplementedError"
  | recursionError => "RecursionError"
  | arithmeticError => "ArithmeticError"
  | overflowError => "OverflowError"
  | zeroDivisionError => "ZeroDivisionError"
  | valueError => "ValueError"
  | unicodeDecodeError => "UnicodeDecodeError"
  | unicodeEncodeError => "UnicodeEncodeError"
  | attributeError => "AttributeError"
  | memoryError => "MemoryError"
  | stopIteration => "StopIteration"
  | typeError => "TypeError"

def ofName? (text : String) : Option ErrorClass :=
  all.find? (·.name == text)

def parent? : ErrorClass → Option ErrorClass
  | indexError | keyError => some lookupError
  | notImplementedError | recursionError => some runtimeError
  | overflowError | zeroDivisionError => some arithmeticError
  | unicodeDecodeError | unicodeEncodeError => some valueError
  | _ => none

def isSubclassOf (c handler : ErrorClass) : Bool :=
  c == handler || handler == exception || c.parent? == some handler

end ErrorClass

/-- Which promise was broken, whatever class reports it. -/
inductive ErrorKind
  | indexOutOfRange
  | valueNotFound
  | keyMissing
  | typeMismatch
  | invalidArgument
  | mutatedDuringIteration
  | recursion
  | other
  deriving DecidableEq

namespace ErrorKind

def all : List ErrorKind :=
  [indexOutOfRange, valueNotFound, keyMissing, typeMismatch, invalidArgument,
    mutatedDuringIteration, recursion, other]

def name : ErrorKind → String
  | indexOutOfRange => "IndexOutOfRange"
  | valueNotFound => "ValueNotFound"
  | keyMissing => "KeyMissing"
  | typeMismatch => "TypeMismatch"
  | invalidArgument => "InvalidArgument"
  | mutatedDuringIteration => "ContainerMutatedDuringIteration"
  | recursion => "Recursion"
  | other => "Other"

def ofName? (text : String) : Option ErrorKind :=
  all.find? (·.name == text)

end ErrorKind

/-- The kind an error has when nothing but its class is known. -/
def ErrorClass.kind : ErrorClass → ErrorKind
  | .indexError => .indexOutOfRange
  | .keyError => .keyMissing
  | .typeError | .attributeError => .typeMismatch
  | .valueError | .unicodeDecodeError | .unicodeEncodeError | .overflowError => .invalidArgument
  | .recursionError => .recursion
  | _ => .other

/-- What a program can catch: a class, a kind and an optional text. -/
structure Exception where
  errorClass : ErrorClass
  kind : ErrorKind
  message : Option String
  deriving DecidableEq

def Exception.ofClass (c : ErrorClass) (message : Option String) : Exception :=
  ⟨c, c.kind, message⟩

def Exception.describe (e : Exception) : String :=
  match e.message with
  | some text => e.errorClass.name ++ ": " ++ text
  | none => e.errorClass.name

inductive Error
  | internal (text : String)
  | custom (e : Exception)
  -- arguments
  | takesNoArguments (name : String) (given : Nat)
  | argumentCount (name : String) (expected given : Nat)
  | tooFewArguments (name : String) (least given : Nat)
  | tooManyArguments (name : String) (most given : Nat)
  -- missing operations
  | unhashable (typeName : String)
  | notCallable (typeName : String)
  | notIterable (typeName : String)
  | notInteger (typeName : String)
  | notSubscriptable (typeName : String)
  | noItemAssignment (typeName : String)
  | noItemDeletion (typeName : String)
  | noLength (typeName : String)
  | notSearchable (typeName : String)
  | noSlot (typeName slot : String)
  | noAttribute (typeName member : String)
  | unsupportedOperands (symbol left right : String)
  | badOperand (symbol typeName : String)
  | notOrdered (symbol left right : String)
  -- answers of user code
  | hashNotInteger
  | truthNotBool (typeName : String)
  | reprNotText (typeName : String)
  | negativeLength
  -- indices and slices
  | badIndexType (sequence typeName : String)
  | badTextIndexType (typeName : String)
  | sliceStepZero
  | extendedSliceSize (given expected : Nat)
  | listIndex
  | listAssignmentIndex
  | tupleIndex
  | textIndex
  | bytesIndex
  | byteArrayIndex
  | popEmptyList
  | popEmptyByteArray
  | popIndex
  -- absent values
  | notInList
  | removeNotInList
  | notInTuple
  | notInByteArray
  | subsectionNotFound
  | keyMissing (repr : String)
  | popitemEmpty
  -- mutation while at work
  | mutatedDuringSort
  | mutatedDeterminingKeys
  | dictChangedSize
  | dictKeysChanged
  -- numbers
  | intOverflow
  | repeatOverflow
  | divisionByZero
  | intDivisionByZero
  | intModuloByZero
  | floatDivisionByZero
  | floatFloorDivisionByZero
  | floatModuloByZero
  | zeroToNegativePower
  | negativeShift
  | recursionLimit
  -- bytes and text
  | byteRange
  | emptySeparator
  | fillByte (method : String)
  | translateTable
  | bytesLikeRequired (typeName : String)
  | textWithoutEncoding
  | negativeCount
  | affixType (method typeName : String)
  | joinItem (index : Nat) (typeName : String)
  | hexSeparatorType
  | hexTextType (typeName : String)
  | hexOddDigits
  | hexDigitAt (position : Nat)
  | maketransLength
  | encodingType (method typeName : String)
  | unknownEncoding (name : String)
  | undecodable (codec : String) (byte : String) (position : Nat) (reason : String)
  | unencodable (codec : String) (character : String) (position limit : Nat)
  | sliceSourceType
  | extendText
  | extendNumber (typeName : String)
  | textMembership (typeName : String)
  -- dictionaries
  | updateElementType (index : Nat)
  | updateElementLength (index length : Nat)
  deriving DecidableEq

namespace Error

def errorClass? : Error → Option ErrorClass
  | internal _ => none
  | custom e => some e.errorClass
  | noAttribute .. => some .attributeError
  | negativeLength | sliceStepZero | extendedSliceSize .. | notInList | removeNotInList
  | notInTuple | notInByteArray | subsectionNotFound | mutatedDuringSort
  | mutatedDeterminingKeys | negativeShift | byteRange | emptySeparator | translateTable
  | negativeCount | hexOddDigits | hexDigitAt _ | maketransLength | updateElementLength .. =>
    some .valueError
  | listIndex | listAssignmentIndex | tupleIndex | textIndex | bytesIndex | byteArrayIndex
  | popEmptyList | popEmptyByteArray | popIndex => some .indexError
  | keyMissing _ | popitemEmpty => some .keyError
  | dictChangedSize | dictKeysChanged => some .runtimeError
  | intOverflow | repeatOverflow => some .overflowError
  | divisionByZero | intDivisionByZero | intModuloByZero | floatDivisionByZero
  | floatFloorDivisionByZero | floatModuloByZero | zeroToNegativePower => some .zeroDivisionError
  | recursionLimit => some .recursionError
  | unknownEncoding _ => some .lookupError
  | undecodable .. => some .unicodeDecodeError
  | unencodable .. => some .unicodeEncodeError
  | _ => some .typeError

def kind : Error → ErrorKind
  | custom e => e.kind
  | notInList | removeNotInList | notInByteArray | subsectionNotFound => .valueNotFound
  | translateTable => .typeMismatch
  | mutatedDuringSort | mutatedDeterminingKeys | dictChangedSize | dictKeysChanged =>
    .mutatedDuringIteration
  | e => (e.errorClass?.map ErrorClass.kind).getD .other

def argumentNoun (n : Nat) : String :=
  if n = 1 then "argument" else "arguments"

def message? : Error → Option String
  | internal text => some text
  | custom e => e.message
  | takesNoArguments name given => some s!"{name}() takes no arguments ({given} given)"
  | argumentCount name 1 given => some s!"{name}() takes exactly one argument ({given} given)"
  | argumentCount name expected given => some s!"{name} expected {expected} arguments, got {given}"
  | tooFewArguments name least given =>
    some s!"{name} expected at least {least} {argumentNoun least}, got {given}"
  | tooManyArguments name most given =>
    some s!"{name} expected at most {most} {argumentNoun most}, got {given}"
  | unhashable t => some s!"unhashable type: '{t}'"
  | notCallable t => some s!"'{t}' object is not callable"
  | notIterable t => some s!"'{t}' object is not iterable"
  | notInteger t => some s!"'{t}' object cannot be interpreted as an integer"
  | notSubscriptable t => some s!"'{t}' object is not subscriptable"
  | noItemAssignment t => some s!"'{t}' object does not support item assignment"
  | noItemDeletion t => some s!"'{t}' object doesn't support item deletion"
  | noLength t => some s!"object of type '{t}' has no len()"
  | notSearchable t => some s!"argument of type '{t}' is not iterable"
  | noSlot t slot => some s!"'{t}' object has no {slot}"
  | noAttribute t member => some s!"'{t}' object has no attribute '{member}'"
  | unsupportedOperands op l r => some s!"unsupported operand type(s) for {op}: '{l}' and '{r}'"
  | badOperand op t => some s!"bad operand type for unary {op}: '{t}'"
  | notOrdered op l r => some s!"'{op}' not supported between instances of '{l}' and '{r}'"
  | hashNotInteger => some "__hash__ method should return an integer"
  | truthNotBool t => some s!"__bool__ should return bool, returned {t}"
  | reprNotText t => some s!"__repr__ returned non-string (type {t})"
  | negativeLength => some "__len__() should return >= 0"
  | badIndexType sequence t => some s!"{sequence} indices must be integers or slices, not {t}"
  | badTextIndexType t => some s!"string indices must be integers, not '{t}'"
  | sliceStepZero => some "slice step cannot be zero"
  | extendedSliceSize given expected =>
    some s!"attempt to assign sequence of size {given} to extended slice of size {expected}"
  | listIndex => some "list index out of range"
  | listAssignmentIndex => some "list assignment index out of range"
  | tupleIndex => some "tuple index out of range"
  | textIndex => some "string index out of range"
  | bytesIndex => some "index out of range"
  | byteArrayIndex => some "bytearray index out of range"
  | popEmptyList => some "pop from empty list"
  | popEmptyByteArray => some "pop from empty bytearray"
  | popIndex => some "pop index out of range"
  | notInList => some "list.index(x): x not in list"
  | removeNotInList => some "list.remove(x): x not in list"
  | notInTuple => some "tuple.index(x): x not in tuple"
  | notInByteArray => some "value not found in bytearray"
  | subsectionNotFound => some "subsection not found"
  | keyMissing repr => some repr
  | popitemEmpty => some "'popitem(): dictionary is empty'"
  | mutatedDuringSort => some "list mutated during sort"
  | mutatedDeterminingKeys => some "list mutated while determining keys"
  | dictChangedSize => some "dictionary changed size during iteration"
  | dictKeysChanged => some "dictionary keys changed during iteration"
  | intOverflow => some "integer result out of range"
  | repeatOverflow => some "cannot fit 'int' into an index-sized integer"
  | divisionByZero => some "division by zero"
  | intDivisionByZero => some "integer division or modulo by zero"
  | intModuloByZero => some "integer modulo by zero"
  | floatDivisionByZero => some "float division by zero"
  | floatFloorDivisionByZero => some "float floor division by zero"
  | floatModuloByZero => some "float modulo"
  | zeroToNegativePower => some "0.0 cannot be raised to a negative power"
  | negativeShift => some "negative shift count"
  | recursionLimit => some "maximum recursion depth exceeded"
  | byteRange => some "byte must be in range(0, 256)"
  | emptySeparator => some "empty separator"
  | fillByte method =>
    some s!"{method}() argument 2 must be a byte string of length 1, not bytes"
  | translateTable => some "translation table must be 256 characters long"
  | bytesLikeRequired t => some s!"a bytes-like object is required, not '{t}'"
  | textWithoutEncoding => some "string argument without an encoding"
  | negativeCount => some "negative count"
  | affixType method t => some s!"{method} first arg must be bytes or a tuple of bytes, not {t}"
  | joinItem index t => some s!"sequence item {index}: expected a bytes-like object, {t} found"
  | hexSeparatorType => some "sep must be str or bytes."
  | hexTextType t => some s!"fromhex() argument must be str, not {t}"
  | hexOddDigits => some "fromhex() arg must contain an even number of hexadecimal digits"
  | hexDigitAt position =>
    some s!"non-hexadecimal number found in fromhex() arg at position {position}"
  | maketransLength => some "maketrans arguments must have same length"
  | encodingType method t => some s!"{method}() argument 'encoding' must be str, not {t}"
  | unknownEncoding name => some s!"unknown encoding: {name}"
  | undecodable codec byte position reason =>
    some s!"'{codec}' codec can't decode byte {byte} in position {position}: {reason}"
  | unencodable codec character position limit =>
    some (s!"'{codec}' codec can't encode character '{character}' in position {position}: "
      ++ s!"ordinal not in range({limit})")
  | sliceSourceType => some "can assign only bytes, buffers, or iterables of ints in range(0, 256)"
  | extendText => some "expected iterable of integers; got: 'str'"
  | extendNumber t => some s!"can't extend bytearray with {t}"
  | textMembership t => some s!"'in <string>' requires string as left operand, not {t}"
  | updateElementType index =>
    some s!"cannot convert dictionary update sequence element #{index} to a sequence"
  | updateElementLength index length =>
    some s!"dictionary update sequence element #{index} has length {length}; 2 is required"

def exception? (e : Error) : Option Exception :=
  e.errorClass?.map fun c => ⟨c, e.kind, e.message?⟩

def isOfClass (e : Error) (c : ErrorClass) : Bool :=
  e.errorClass? == some c

def describe (e : Error) : String :=
  match e.exception? with
  | some x => x.describe
  | none => "internal error in strata: " ++ e.message?.getD ""

end Error

end DynamicObjects
