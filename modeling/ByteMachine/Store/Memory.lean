import ByteMachine.Value

/-! Byte memory of a fixed size. An access that is not wholly inside fails and writes nothing. -/
namespace ByteMachine

structure Memory where
  bytes : Array UInt8
deriving DecidableEq

/-- The limit is the size of the range that the access had to stay in. -/
structure MemoryError where
  address : Int
  width : Nat
  limit : Nat
deriving DecidableEq

def MemoryError.message (e : MemoryError) : String :=
  s!"access of {e.width} bytes at {e.address} outside [0, {e.limit})"

namespace Memory

/-- Addresses are nonnegative ints, so they end here. -/
def addressLimit : Nat := 0x8000000000000000

def zero (size : Nat) : Memory := ⟨Array.replicate size 0⟩

def size (m : Memory) : Nat := m.bytes.size

def slice (m : Memory) (start width : Nat) : List UInt8 :=
  (m.bytes.extract start (start + width)).toList

/-- Bytes that fall beyond the end are dropped. -/
def overwrite (m : Memory) (start : Nat) : List UInt8 → Memory
  | [] => m
  | b :: bs => overwrite ⟨m.bytes.setIfInBounds start b⟩ (start + 1) bs

/-- Where an access begins, if it lies inside. -/
@[inline] def locate (m : Memory) (address : Int) (width : Nat) : Except MemoryError Nat :=
  if 0 ≤ address ∧ address + width ≤ m.size then .ok address.toNat
  else .error ⟨address, width, m.size⟩

@[inline] def get (m : Memory) (t : Ty) (address : Int) : Except MemoryError t.Val :=
  match m.locate address t.width with
  | .ok start => .ok (t.decode (m.slice start t.width))
  | .error e => .error e

@[inline] def writeBytes (m : Memory) (address : Int) (data : List UInt8) :
    Except MemoryError Memory :=
  match m.locate address data.length with
  | .ok start => .ok (m.overwrite start data)
  | .error e => .error e

@[inline] def put (m : Memory) {t : Ty} (address : Int) (v : t.Val) : Except MemoryError Memory :=
  m.writeBytes address (t.encode v)

@[simp] theorem size_zero (n : Nat) : (zero n).size = n := by simp [zero, size]

@[simp] theorem size_overwrite (m : Memory) (start : Nat) (data : List UInt8) :
    (m.overwrite start data).size = m.size := by
  induction data generalizing m start with
  | nil => rfl
  | cons b bs ih => rw [overwrite, ih]; simp [size]

theorem getElem?_overwrite (m : Memory) (start : Nat) (data : List UInt8) (k : Nat) :
    (m.overwrite start data).bytes[k]? =
      if start ≤ k ∧ k < start + data.length ∧ k < m.size then data[k - start]?
      else m.bytes[k]? := by
  induction data generalizing m start with
  | nil =>
    rw [if_neg (by simp only [List.length_nil]; omega)]
    rfl
  | cons b bs ih =>
    have size_set : size ⟨m.bytes.setIfInBounds start b⟩ = m.size := by simp [size]
    rw [overwrite, ih, size_set, List.length_cons]
    by_cases eq : k = start
    · subst eq
      rw [if_neg (by omega), Array.getElem?_setIfInBounds_self]
      by_cases inside : k < m.size
      · rw [if_pos (show k < m.bytes.size from inside), if_pos (by omega), Nat.sub_self]
        rfl
      · rw [if_neg (show ¬k < m.bytes.size from inside), if_neg (by omega),
          Array.getElem?_eq_none (Nat.le_of_not_lt inside)]
    · rw [Array.getElem?_setIfInBounds_ne (by omega)]
      by_cases later : start + 1 ≤ k ∧ k < start + 1 + bs.length ∧ k < m.size
      · rw [if_pos later, if_pos (by omega), show k - start = k - (start + 1) + 1 by omega]
        rfl
      · rw [if_neg later, if_neg (by omega)]

theorem length_slice {m : Memory} {start width : Nat} (h : start + width ≤ m.size) :
    (m.slice start width).length = width := by
  simp only [size] at h
  simp only [slice, Array.length_toList, Array.size_extract]
  omega

theorem locate_eq_ok_iff {m : Memory} {address : Int} {width start : Nat} :
    m.locate address width = .ok start ↔ address = start ∧ start + width ≤ m.size := by
  unfold locate
  split
  · simp only [Except.ok.injEq]; omega
  · simp only [reduceCtorEq, false_iff]; omega

theorem locate_eq_error_iff {m : Memory} {address : Int} {width : Nat} {e : MemoryError} :
    m.locate address width = .error e ↔
      ¬ (0 ≤ address ∧ address + width ≤ m.size) ∧ e = ⟨address, width, m.size⟩ := by
  unfold locate
  split <;> simp_all [eq_comm]

end Memory
end ByteMachine
