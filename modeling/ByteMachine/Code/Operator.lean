import ByteMachine.Binary64.Host
import ByteMachine.Value

/-! Operators on two values of one type. Byte and int arithmetic wraps around, int division
rounds toward zero, and division by zero is undefined except for floats. Float arithmetic is that
of the host. -/
namespace ByteMachine

inductive ArithOp where
  | add
  | sub
  | mul
  | div
deriving DecidableEq

def ArithOp.eval [FloatUnit] (op : ArithOp) : (t : Ty) → t.Val → t.Val → Option t.Val
  | .byte, a, b =>
    match op with
    | .add => some (a + b)
    | .sub => some (a - b)
    | .mul => some (a * b)
    | .div => if b = 0 then none else some (a / b)
  | .int, a, b =>
    match op with
    | .add => some (a + b)
    | .sub => some (a - b)
    | .mul => some (a * b)
    | .div => if b = 0 then none else some (a / b)
  | .float, a, b =>
    match op with
    | .add => some (FloatUnit.add a b)
    | .sub => some (FloatUnit.sub a b)
    | .mul => some (FloatUnit.mul a b)
    | .div => some (FloatUnit.div a b)

/-- Bytes compare unsigned, ints signed. -/
def Ty.beq : (t : Ty) → t.Val → t.Val → Bool
  | byte, a, b => a == b
  | int, a, b => a == b
  | float, a, b => a.beq b

def Ty.blt : (t : Ty) → t.Val → t.Val → Bool
  | byte, a, b => a < b
  | int, a, b => a < b
  | float, a, b => a.blt b

inductive CompareOp where
  | equal
  | unequal
  | greater
  | smaller
deriving DecidableEq

def CompareOp.eval (op : CompareOp) (t : Ty) (a b : t.Val) : Bool :=
  match op with
  | equal => t.beq a b
  | unequal => !t.beq a b
  | greater => t.blt b a
  | smaller => t.blt a b

inductive BitOp where
  | and
  | or
  | xor
deriving DecidableEq

def BitOp.eval : BitOp → UInt8 → UInt8 → UInt8
  | and, a, b => a &&& b
  | or, a, b => a ||| b
  | xor, a, b => a ^^^ b

inductive Condition where
  | zero
  | nonZero
deriving DecidableEq

def Condition.holds (c : Condition) (isZero : Bool) : Bool :=
  match c with
  | zero => isZero
  | nonZero => !isZero

end ByteMachine
