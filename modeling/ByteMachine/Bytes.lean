/-! Natural numbers as a fixed number of bytes, least significant first. -/
namespace ByteMachine.Bytes

/-- Bits beyond the width are dropped. -/
def ofNat : Nat → Nat → List UInt8
  | 0, _ => []
  | width + 1, n => UInt8.ofNat (n % 256) :: ofNat width (n / 256)

def toNat : List UInt8 → Nat
  | [] => 0
  | b :: bs => b.toNat + 256 * toNat bs

/-- How many numbers fit in a width. -/
def bound : Nat → Nat
  | 0 => 1
  | width + 1 => 256 * bound width

@[simp] theorem length_ofNat (width n : Nat) : (ofNat width n).length = width := by
  induction width generalizing n with
  | zero => rfl
  | succ width ih => simp [ofNat, ih]

theorem toNat_ofNat (width n : Nat) : toNat (ofNat width n) = n % bound width := by
  induction width generalizing n with
  | zero => exact (Nat.mod_one n).symm
  | succ width ih =>
    have low : (UInt8.ofNat (n % 256)).toNat = n % 256 := by rw [UInt8.toNat_ofNat']; omega
    rw [ofNat, toNat, ih, low, bound, Nat.mod_mul]

theorem toNat_lt (bs : List UInt8) : toNat bs < bound bs.length := by
  induction bs with
  | nil => decide
  | cons b bs ih =>
    have := b.toNat_lt
    simp only [toNat, List.length_cons, bound]
    omega

theorem ofNat_toNat (bs : List UInt8) : ofNat bs.length (toNat bs) = bs := by
  induction bs with
  | nil => rfl
  | cons b bs ih =>
    have low : (b.toNat + 256 * toNat bs) % 256 = b.toNat := by have := b.toNat_lt; omega
    have high : (b.toNat + 256 * toNat bs) / 256 = toNat bs := by have := b.toNat_lt; omega
    simp [ofNat, toNat, low, high, ih]

/-- Byte `k` holds bits `8 k` to `8 k + 7`. -/
theorem getElem_ofNat {width k : Nat} (n : Nat) (h : k < (ofNat width n).length) :
    (ofNat width n)[k] = UInt8.ofNat (n / bound k) := by
  induction width generalizing n k with
  | zero => simp at h
  | succ width ih =>
    cases k with
    | zero => apply UInt8.toNat_inj.1; simp [ofNat, bound]
    | succ k =>
      simp only [ofNat, List.getElem_cons_succ, bound]
      rw [ih, Nat.div_div_eq_div_mul]

end ByteMachine.Bytes
