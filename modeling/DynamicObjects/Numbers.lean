import DynamicObjects.Arguments

/-!
Arithmetic on truth values, integers and floating-point numbers. Integers are words and overflow is an
error; as soon as one operand is a floating-point number the other becomes one.
-/
namespace DynamicObjects.Number

def checked : Option Int64 → Except Error Value
  | some n => .ok (.int n)
  | none => .error .intOverflow

def floatArithmetic (op : BinaryOp) (x y : Double) : Except Error Value :=
  match op with
  | .add => .ok (.float (x.add y))
  | .sub => .ok (.float (x.sub y))
  | .mul => .ok (.float (x.mul y))
  | .trueDiv => if y.isZero then .error .floatDivisionByZero else .ok (.float (x.div y))
  | .floorDiv =>
    if y.isZero then .error .floatFloorDivisionByZero else .ok (.float (x.div y).floor)
  | .mod => if y.isZero then .error .floatModuloByZero else .ok (.float (x.floorMod y))
  | .pow =>
    if x.isZero && y.compare? ⟨0⟩ == some .lt then .error .zeroToNegativePower
    else .ok (.float (x.pow y))
  | _ => .ok .notImplemented

def exponentMax : Nat := 4294967295

def intPower (x y : Int64) : Except Error Value :=
  if y.toInt < 0 then floatArithmetic .pow (Double.ofInt64 x) (Double.ofInt64 y)
  else if y.toInt ≤ exponentMax then checked (Word.power? x y.toInt.toNat)
  else .error .intOverflow

def intArithmetic (op : BinaryOp) (x y : Int64) : Except Error Value :=
  match op with
  | .add => checked (Word.add? x y)
  | .sub => checked (Word.sub? x y)
  | .mul => checked (Word.mul? x y)
  | .trueDiv =>
    if y = 0 then .error .divisionByZero
    else floatArithmetic .trueDiv (Double.ofInt64 x) (Double.ofInt64 y)
  | .floorDiv => if y = 0 then .error .intDivisionByZero else checked (Word.floorDiv? x y)
  | .mod => if y = 0 then .error .intModuloByZero else checked (Word.floorMod? x y)
  | .pow => intPower x y
  | .shiftLeft =>
    if y.toInt < 0 then .error .negativeShift else checked (Word.shiftLeft? x y.toInt.toNat)
  | .shiftRight =>
    if y.toInt < 0 then .error .negativeShift else .ok (.int (Word.shiftRight x y.toInt.toNat))
  | .and => .ok (.int (x &&& y))
  | .or => .ok (.int (x ||| y))
  | .xor => .ok (.int (x ^^^ y))
  | .matMul => .ok .notImplemented

def arithmetic (op : BinaryOp) (a b : Value) : Except Error Value :=
  match a.asNumber?, b.asNumber? with
  | some (.int x), some (.int y) => intArithmetic op x y
  | some x, some y => floatArithmetic op x.toDouble y.toDouble
  | _, _ => .ok .notImplemented

def boolOperator (op : BinaryOp) (x y : Bool) : Bool :=
  match op with
  | .and => x && y
  | .or => x || y
  | _ => x != y

def forward (op : BinaryOp) (a b : Value) : Except Error Value :=
  match op, a, b with
  | .and, .bool x, .bool y | .or, .bool x, .bool y | .xor, .bool x, .bool y =>
    .ok (.bool (boolOperator op x y))
  | _, _, _ => arithmetic op a b

def operands (op : BinaryOp) (args : List Value) : Except Error (Value × Value) := do
  let (receiver, rest) ← Arguments.split args
  return (receiver, ← Arguments.one op.slotName rest)

def forwardSlot (op : BinaryOp) : Slot := fun _ args => do
  let (a, b) ← operands op args
  forward op a b

def reflectedSlot (op : BinaryOp) : Slot := fun _ args => do
  let (b, a) ← operands op args
  arithmetic op a b

def negSlot : Slot := fun _ args =>
  match (args.head?).bind Value.asNumber? with
  | some (.int n) => liftM (checked (Word.neg? n))
  | some (.float d) => return .float d.neg
  | none => return .notImplemented

def posSlot : Slot := fun _ args =>
  match (args.head?).bind Value.asNumber? with
  | some (.int n) => return .int n
  | some (.float d) => return .float d
  | none => return .notImplemented

def invertSlot : Slot := fun _ args =>
  match (args.head?).bind Value.asNumber? with
  | some (.int n) => return .int (~~~n)
  | _ => return .notImplemented

def isReflected : BinaryOp → Bool
  | .add | .sub | .mul | .trueDiv | .floorDiv | .mod | .pow => true
  | _ => false

def operation? : Operation → Option Slot
  | .binary .matMul => none
  | .binary op => some (forwardSlot op)
  | .reflectedBinary op => if isReflected op then some (reflectedSlot op) else none
  | .unary .neg => some negSlot
  | .unary .pos => some posSlot
  | .unary .invert => some invertSlot
  | _ => none

end DynamicObjects.Number
