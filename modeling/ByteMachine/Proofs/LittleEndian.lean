import ByteMachine.Value
import Mathlib.Algebra.Group.Nat.Defs

/-! Values as little-endian words: which number the bytes of a value are the digits of. -/
namespace ByteMachine

theorem Bytes.bound_eq (width : Nat) : bound width = 256 ^ width := by
  induction width with
  | zero => rfl
  | succ width ih => rw [bound, ih, Nat.pow_succ']

namespace Value

/-- The unsigned number of as many bits as the value has. -/
def word : Value → Nat
  | @mk .byte b => b.toNat
  | @mk .int n => n.toUInt64.toNat
  | @mk .float x => x.bits.toNat

/-- The bytes of a value, the least significant one first. -/
def digit (v : Value) (k : Nat) : UInt8 := UInt8.ofNat (v.word / 256 ^ k)

theorem getElem?_encode (v : Value) (k : Nat) :
    v.encode[k]? = if k < v.ty.width then some (v.digit k) else none := by
  by_cases inside : k < v.ty.width
  · have length := v.length_encode
    rw [if_pos inside, List.getElem?_eq_getElem (by omega)]
    apply congrArg some
    obtain @⟨ty, val⟩ := v
    cases ty with
    | byte =>
      obtain rfl : k = 0 := Nat.lt_one_iff.1 inside
      simp [encode, Ty.encode, digit, word]
    | int | float =>
      unfold encode Ty.encode digit word
      rw [Bytes.getElem_ofNat, Bytes.bound_eq]
  · rw [if_neg inside, List.getElem?_eq_none]
    rw [v.length_encode]
    exact Nat.le_of_not_lt inside

end Value
end ByteMachine
