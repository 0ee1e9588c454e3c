/-!
The operations that values may implement. Each has a slot name, under which a class defines it, and
operators have the symbol that error texts show.
-/
namespace DynamicObjects

inductive BinaryOp
  | add
  | sub
  | mul
  | trueDiv
  | floorDiv
  | mod
  | pow
  | shiftLeft
  | shiftRight
  | and
  | or
  | xor
  | matMul
  deriving DecidableEq

namespace BinaryOp

def all : List BinaryOp :=
  [add, sub, mul, trueDiv, floorDiv, mod, pow, shiftLeft, shiftRight, and, or, xor, matMul]

def stem : BinaryOp → String
  | add => "add"
  | sub => "sub"
  | mul => "mul"
  | trueDiv => "truediv"
  | floorDiv => "floordiv"
  | mod => "mod"
  | pow => "pow"
  | shiftLeft => "lshift"
  | shiftRight => "rshift"
  | and => "and"
  | or => "or"
  | xor => "xor"
  | matMul => "matmul"

def tag : BinaryOp → String
  | add => "Add"
  | sub => "Sub"
  | mul => "Mul"
  | trueDiv => "TrueDiv"
  | floorDiv => "FloorDiv"
  | mod => "Mod"
  | pow => "Pow"
  | shiftLeft => "LShift"
  | shiftRight => "RShift"
  | and => "And"
  | or => "Or"
  | xor => "Xor"
  | matMul => "MatMul"

def ofStem? (text : String) : Option BinaryOp := all.find? (·.stem == text)

def ofTag? (text : String) : Option BinaryOp := all.find? (·.tag == text)

def slotName (op : BinaryOp) : String := "__" ++ op.stem ++ "__"

def reflectedName (op : BinaryOp) : String := "__r" ++ op.stem ++ "__"

def inPlaceName (op : BinaryOp) : String := "__i" ++ op.stem ++ "__"

def symbol : BinaryOp → String
  | add => "+"
  | sub => "-"
  | mul => "*"
  | trueDiv => "/"
  | floorDiv => "//"
  | mod => "%"
  | pow => "** or pow()"
  | shiftLeft => "<<"
  | shiftRight => ">>"
  | and => "&"
  | or => "|"
  | xor => "^"
  | matMul => "@"

def inPlaceSymbol : BinaryOp → String
  | pow => "**="
  | op => op.symbol ++ "="

end BinaryOp

inductive UnaryOp
  | neg
  | pos
  | invert
  deriving DecidableEq

namespace UnaryOp

def all : List UnaryOp := [neg, pos, invert]

def stem : UnaryOp → String
  | neg => "neg"
  | pos => "pos"
  | invert => "invert"

def tag : UnaryOp → String
  | neg => "Neg"
  | pos => "Pos"
  | invert => "Invert"

def ofStem? (text : String) : Option UnaryOp := all.find? (·.stem == text)

def ofTag? (text : String) : Option UnaryOp := all.find? (·.tag == text)

def slotName (op : UnaryOp) : String := "__" ++ op.stem ++ "__"

def symbol : UnaryOp → String
  | neg => "-"
  | pos => "+"
  | invert => "~"

end UnaryOp

inductive CompareOp
  | lt
  | le
  | eq
  | ne
  | gt
  | ge
  deriving DecidableEq

namespace CompareOp

def all : List CompareOp := [lt, le, eq, ne, gt, ge]

def stem : CompareOp → String
  | lt => "lt"
  | le => "le"
  | eq => "eq"
  | ne => "ne"
  | gt => "gt"
  | ge => "ge"

def tag : CompareOp → String
  | lt => "Lt"
  | le => "Le"
  | eq => "Eq"
  | ne => "Ne"
  | gt => "Gt"
  | ge => "Ge"

def ofStem? (text : String) : Option CompareOp := all.find? (·.stem == text)

def ofTag? (text : String) : Option CompareOp := all.find? (·.tag == text)

def slotName (op : CompareOp) : String := "__" ++ op.stem ++ "__"

def symbol : CompareOp → String
  | lt => "<"
  | le => "<="
  | eq => "=="
  | ne => "!="
  | gt => ">"
  | ge => ">="

def reflected : CompareOp → CompareOp
  | lt => gt
  | le => ge
  | gt => lt
  | ge => le
  | eq => eq
  | ne => ne

def holds : CompareOp → Ordering → Bool
  | lt, o => o == .lt
  | le, o => o != .gt
  | eq, o => o == .eq
  | ne, o => o != .eq
  | gt, o => o == .gt
  | ge, o => o != .lt

theorem holds_reflected (op : CompareOp) (o : Ordering) :
    op.reflected.holds o.swap = op.holds o := by
  cases op <;> cases o <;> rfl

end CompareOp

inductive Operation
  | binary (op : BinaryOp)
  | reflectedBinary (op : BinaryOp)
  | inPlace (op : BinaryOp)
  | unary (op : UnaryOp)
  | compare (op : CompareOp)
  | getItem
  | setItem
  | delItem
  | contains
  | len
  | truth
  | hash
  | repr
  | call
  | getMember (name : String)
  | invokeMember (name : String)
  deriving DecidableEq

namespace Operation

def slotName : Operation → String
  | binary op => op.slotName
  | reflectedBinary op => op.reflectedName
  | inPlace op => op.inPlaceName
  | unary op => op.slotName
  | compare op => op.slotName
  | getItem => "__getitem__"
  | setItem => "__setitem__"
  | delItem => "__delitem__"
  | contains => "__contains__"
  | len => "__len__"
  | truth => "__bool__"
  | hash => "__hash__"
  | repr => "__repr__"
  | call => "__call__"
  | getMember name => name
  | invokeMember name => name

/-- Whether an absent implementation is an answer, so that another operand may be asked. -/
def mayDecline : Operation → Bool
  | binary _ | reflectedBinary _ | inPlace _ | compare _ => true
  | _ => false

end Operation

end DynamicObjects
