/-! Binary64 numbers as their 64 bits: sign, eleven bits of exponent, 52 of fraction.
Two numbers are the same when their bits are, so a NaN keeps its payload wherever it is
moved. Comparison follows the order of the bits; arithmetic is left to the host. -/
namespace ByteMachine

structure Binary64 where
  bits : UInt64
deriving DecidableEq

namespace Binary64

def signBit : Nat := 0x8000000000000000

/-- The bits below the sign. Among numbers that are not NaN it grows with the absolute value. -/
def magnitude (x : Binary64) : Nat := x.bits.toNat % signBit

def isNegative (x : Binary64) : Bool := decide (signBit ≤ x.bits.toNat)

/-- The magnitude of both infinities; beyond it all are NaN. -/
def infinity : Nat := 0x7FF0000000000000

def isNaN (x : Binary64) : Bool := decide (infinity < x.magnitude)

/-- Both zeros count, NaN does not. -/
def isZero (x : Binary64) : Bool := x.magnitude == 0

/-- The place of a number in the order. The two zeros share theirs. -/
def rank (x : Binary64) : Int := if x.isNegative then -x.magnitude else x.magnitude

/-- Holds for no NaN, not even against itself. -/
def beq (x y : Binary64) : Bool := !x.isNaN && !y.isNaN && x.rank == y.rank

def blt (x y : Binary64) : Bool := !x.isNaN && !y.isNaN && decide (x.rank < y.rank)

theorem beq_comm (x y : Binary64) : x.beq y = y.beq x := by
  simp only [beq, Bool.and_comm !x.isNaN, BEq.comm (a := x.rank)]

theorem isZero_iff_rank (x : Binary64) : x.isZero = true ↔ x.rank = 0 := by
  simp only [isZero, rank, beq_iff_eq]
  split <;> omega

end Binary64
end ByteMachine
