import ByteMachine.Code.Operator

/-! The integers that values stand for. A comparison or a test for zero depends on nothing else: two
zeros of different sign are one number, and NaN is none. -/
namespace ByteMachine

namespace Binary64

/-- The number itself, counted in the least positive one. -/
def scaled (x : Binary64) : Int := if x.isNegative then -quanta x.magnitude else quanta x.magnitude

theorem shiftLeft_lt {h a b e f : Nat} (fraction : a < h) (lt : e < f) :
    (h + a) <<< e < (h + b) <<< f := by
  rw [Nat.shiftLeft_eq, Nat.shiftLeft_eq]
  calc (h + a) * 2 ^ e
      < h * 2 * 2 ^ e := Nat.mul_lt_mul_of_pos_right (by omega) (Nat.two_pow_pos e)
    _ = h * 2 ^ (e + 1) := by rw [Nat.pow_succ', Nat.mul_assoc]
    _ ≤ h * 2 ^ f := Nat.mul_le_mul_left _ (Nat.pow_le_pow_right (by decide) lt)
    _ ≤ (h + b) * 2 ^ f := Nat.mul_le_mul_right _ (Nat.le_add_right _ _)

theorem quanta_lt_quanta {m n : Nat} (lt : m < n) : quanta m < quanta n := by
  unfold quanta
  by_cases small : n < fractionSize
  · rw [if_pos small, if_pos (Nat.lt_trans lt small)]
    exact lt
  · rw [if_neg small]
    by_cases below : m < fractionSize
    · rw [if_pos below, Nat.shiftLeft_eq]
      calc m < fractionSize + n % fractionSize := Nat.lt_of_lt_of_le below (Nat.le_add_right _ _)
        _ ≤ (fractionSize + n % fractionSize) * 2 ^ (n / fractionSize - 1) :=
          Nat.le_mul_of_pos_right _ (Nat.two_pow_pos _)
    · rw [if_neg below]
      have fraction : m % fractionSize < fractionSize := Nat.mod_lt _ (by decide)
      have m_split := Nat.div_add_mod m fractionSize
      have n_split := Nat.div_add_mod n fractionSize
      have le : m / fractionSize ≤ n / fractionSize := Nat.div_le_div_right (Nat.le_of_lt lt)
      obtain less | same := Nat.lt_or_eq_of_le le
      · have normal : 0 < m / fractionSize := Nat.div_pos (Nat.le_of_not_lt below) (by decide)
        exact shiftLeft_lt fraction (by omega)
      · rw [same] at m_split
        rw [same, Nat.shiftLeft_eq, Nat.shiftLeft_eq]
        exact Nat.mul_lt_mul_of_pos_right (by omega) (Nat.two_pow_pos _)

theorem quanta_lt_iff {m n : Nat} : quanta m < quanta n ↔ m < n := by
  constructor
  · intro lt
    apply Nat.lt_of_not_le
    intro le
    obtain less | rfl := Nat.lt_or_eq_of_le le
    · exact Nat.lt_asymm lt (quanta_lt_quanta less)
    · exact Nat.lt_irrefl _ lt
  · exact quanta_lt_quanta

theorem rank_lt_iff (x y : Binary64) : x.rank < y.rank ↔ x.scaled < y.scaled := by
  have zero : quanta 0 = 0 := rfl
  have below := quanta_lt_iff (m := x.magnitude) (n := y.magnitude)
  have above := quanta_lt_iff (m := y.magnitude) (n := x.magnitude)
  have x_zero := quanta_lt_iff (m := 0) (n := x.magnitude)
  have y_zero := quanta_lt_iff (m := 0) (n := y.magnitude)
  unfold rank scaled
  split <;> split <;> omega

theorem rank_eq_iff (x y : Binary64) : x.rank = y.rank ↔ x.scaled = y.scaled := by
  have below := rank_lt_iff x y
  have above := rank_lt_iff y x
  omega

theorem isZero_iff_scaled (x : Binary64) : x.isZero = true ↔ x.scaled = 0 := by
  have zero : (⟨0⟩ : Binary64).scaled = 0 := by decide
  have rank : (⟨0⟩ : Binary64).rank = 0 := by decide
  have same := rank_eq_iff x ⟨0⟩
  rw [rank, zero] at same
  rw [isZero_iff_rank, same]

theorem not_isNaN_of_isZero {x : Binary64} (h : x.isZero = true) : x.isNaN = false := by
  rw [isZero, beq_iff_eq] at h
  rw [isNaN, h]
  rfl

end Binary64

/-- The number that a value stands for, floats counted in the least positive one. -/
def Ty.number? : (t : Ty) → t.Val → Option Int
  | byte, b => some b.toNat
  | int, n => some n.toInt
  | float, x => if x.isNaN then none else some x.scaled

namespace Ty

variable {t : Ty} {a b : t.Val}

theorem beq_iff : t.beq a b = true ↔ ∃ n, t.number? a = some n ∧ t.number? b = some n := by
  cases t with
  | byte =>
    simp only [beq, beq_iff_eq, number?, Option.some.injEq, exists_eq_left', ← UInt8.toNat_inj]
    omega
  | int => simp [beq, number?, Int64.toInt_inj, @eq_comm _ b a]
  | float =>
    have rank := Binary64.rank_eq_iff a b
    cases x : a.isNaN <;> cases y : b.isNaN <;>
      simp [beq, number?, Binary64.beq, x, y, rank, @eq_comm _ b.scaled]

theorem blt_iff :
    t.blt a b = true ↔ ∃ m n, t.number? a = some m ∧ t.number? b = some n ∧ m < n := by
  cases t with
  | byte => simp [blt, number?, UInt8.lt_iff_toNat_lt]
  | int => simp [blt, number?, Int64.lt_iff_toInt_lt]
  | float =>
    cases x : a.isNaN <;> cases y : b.isNaN <;>
      simp [blt, number?, Binary64.blt, x, y, Binary64.rank_lt_iff]

theorem isZero_iff : t.isZero a = true ↔ t.number? a = some 0 := by
  cases t with
  | byte => simp [isZero, number?, ← UInt8.toNat_inj]
  | int => simp [isZero, number?, ← Int64.toInt_inj]
  | float =>
    rw [isZero, number?, Option.ite_none_left_eq_some, Option.some.injEq,
      ← Binary64.isZero_iff_scaled]
    constructor
    · intro zero
      exact ⟨by simp [Binary64.not_isNaN_of_isZero zero], zero⟩
    · exact And.right

end Ty

/-- What a comparison asks of the numbers. -/
def CompareOp.Holds (op : CompareOp) (t : Ty) (a b : t.Val) : Prop :=
  match op with
  | equal => ∃ n, t.number? a = some n ∧ t.number? b = some n
  | unequal => ¬ ∃ n, t.number? a = some n ∧ t.number? b = some n
  | greater => ∃ m n, t.number? a = some m ∧ t.number? b = some n ∧ n < m
  | smaller => ∃ m n, t.number? a = some m ∧ t.number? b = some n ∧ m < n

theorem CompareOp.eval_iff {op : CompareOp} {t : Ty} {a b : t.Val} :
    op.eval t a b = true ↔ op.Holds t a b := by
  cases op with
  | equal => exact Ty.beq_iff
  | unequal => rw [eval, Bool.not_eq_true', ← Bool.not_eq_true, Ty.beq_iff, Holds]
  | greater =>
    rw [eval, Ty.blt_iff, Holds, exists_comm]
    simp only [and_left_comm]
  | smaller => exact Ty.blt_iff

end ByteMachine
