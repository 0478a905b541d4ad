import ByteMachine.Binary64.Basic

/-! Arithmetic on binary64 numbers as the host provides it. The operations act on all 64 bits,
since hosts differ in the NaN that comes out: in its sign, and in the payload that it keeps. -/
namespace ByteMachine

class FloatUnit where
  add : Binary64 → Binary64 → Binary64
  sub : Binary64 → Binary64 → Binary64
  mul : Binary64 → Binary64 → Binary64
  div : Binary64 → Binary64 → Binary64

namespace FloatUnit

/-- A signaling NaN becomes quiet; its payload and its sign stay. -/
def quiet (x : Binary64) : Binary64 := ⟨x.bits ||| 0x8000000000000⟩

/-- The NaN of an operation that has no result, such as zero divided by zero. -/
def indefinite : Binary64 := ⟨0xFFF8000000000000⟩

/-- The NaNs are those of x86-64: of the left operand, of the right one, or the indefinite one. -/
def lift (op : Float → Float → Float) (x y : Binary64) : Binary64 :=
  if x.isNaN then quiet x
  else if y.isNaN then quiet y
  else
    let r := op (Float.ofBits x.bits) (Float.ofBits y.bits)
    if r.isNaN then indefinite else ⟨r.toBits⟩

instance native : FloatUnit where
  add := lift (· + ·)
  sub := lift (· - ·)
  mul := lift (· * ·)
  div := lift (· / ·)

end FloatUnit
end ByteMachine
