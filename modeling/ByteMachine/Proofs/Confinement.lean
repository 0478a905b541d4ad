import ByteMachine.Proofs.Fetch
import ByteMachine.Proofs.Layout

/-! Listings that no run can leave: programs that store only on the stack and jump only to offsets
of their own listing. As long as the code is intact, the listing tells what is fetched. -/
namespace ByteMachine

namespace Instruction

/-- The target that stands in the instruction itself. -/
def target? : Instruction → Option Int64
  | jmp target | branchAddress _ _ target | callAddress target => some target
  | _ => none

/-- Whether the instruction stores nothing at an address and jumps to none off the stack. -/
def isConfined : Instruction → Bool
  | put _ | putAddress _ _ | ret | call | branch _ _ => false
  | _ => true

variable {i : Instruction} {s : Store}

theorem base_le_place (h : i.isConfined) : s.stack.base ≤ i.place s := by
  cases i with
  | put _ | putAddress _ _ => cases h
  | _ => exact Nat.le_add_right _ _

theorem flow_of_isConfined (h : i.isConfined) (s : Store) :
    i = .halt ∧ i.flow s = .halt ∨ i ≠ .halt ∧ i.flow s = .next ∨
      ∃ target, i.target? = some target ∧ i.flow s = .jump target.toInt.toNat := by
  cases i with
  | halt => exact .inl ⟨rfl, rfl⟩
  | jmp target | callAddress target => exact .inr (.inr ⟨target, rfl, rfl⟩)
  | branchAddress c t target =>
    simp only [flow]
    split
    · exact .inr (.inr ⟨target, rfl, rfl⟩)
    · exact .inr (.inl ⟨by simp, rfl⟩)
  | ret | call | branch _ _ | put _ | putAddress _ _ => cases h
  | _ => exact .inr (.inl ⟨by simp, rfl⟩)

theorem astray_of_check? (h : i.isConfined) {address : Int}
    (astray : i.check? s = some (.illegalAddress address)) :
    ∃ target, i.target? = some target ∧ s.astray? target = some (.illegalAddress address) := by
  cases i with
  | jmp target | branchAddress _ _ target | callAddress target => exact ⟨target, rfl, astray⟩
  | ret | call | branch _ _ => cases h
  | getStack _ _ | putStack _ _ =>
    obtain ⟨e, eq⟩ := Store.outsideWindow?_eq_some astray
    cases eq
  | get _ | put _ | getAddress _ _ | putAddress _ _ =>
    cases (Store.outside?_eq_some_iff.1 astray).2
  | arith op t =>
    simp only [check?] at astray
    split at astray <;> cases astray
  | halt | push _ _ | pop _ | compare _ _ | bitwise _ | not => cases astray

end Instruction

/-- Errors of a machine that has lost its way. -/
def MachineError.isStray : MachineError → Bool
  | blocked _ | illegalAddress _ _ | unknownOpcode _ _ => true
  | _ => false

namespace Memory

variable {p : List UInt8} {m : Memory}

theorem prefix_overwrite {start : Nat} (data : List UInt8) (h : p <+: m.bytes.toList)
    (le : p.length ≤ start) : p <+: (m.overwrite start data).bytes.toList := by
  rw [List.prefix_iff_getElem?] at h ⊢
  intro k inside
  rw [Array.getElem?_toList, getElem?_overwrite, if_neg (by omega), ← Array.getElem?_toList]
  exact h k inside

theorem prefix_overwrite_zero (le : p.length ≤ m.size) :
    p <+: (m.overwrite 0 p).bytes.toList := by
  rw [List.prefix_iff_getElem?]
  intro k inside
  rw [Array.getElem?_toList, getElem?_overwrite, if_pos (by omega), Nat.sub_zero,
    List.getElem?_eq_getElem inside]

end Memory

/-- A listing that no run of its program can leave. -/
structure Image.Confined (p : Image) (l : List (Nat × Instruction)) : Prop where
  listed : p.disassemble = .ok l
  halts : ∃ offset, l.getLast? = some (offset, .halt)
  confined : ∀ x ∈ l, x.2.isConfined
  targets : ∀ x ∈ l, ∀ target ∈ x.2.target?, ∃ y ∈ l, target.toInt = y.1

namespace Image.Confined

variable {p : Image} {l : List (Nat × Instruction)} {i : Instruction} {offset k : Nat}

theorem offset_lt (closed : p.Confined l) (mem : (offset, i) ∈ l) : offset < p.length := by
  obtain ⟨before, after, rfl, rfl⟩ := encode_of_mem closed.listed mem
  have positive := i.size_pos
  simp only [List.length_append, i.length_encode]
  omega

theorem fetch_of_mem (closed : p.Confined l) {m : Memory} (code : p <+: m.bytes.toList)
    (small : p.length ≤ Memory.addressLimit) (mem : (offset, i) ∈ l) :
    Machine.fetch m offset = .ok i := by
  have lt := closed.offset_lt mem
  obtain ⟨before, after, rfl, rfl⟩ := encode_of_mem closed.listed mem
  obtain ⟨rest, eq⟩ := code
  rw [Machine.fetch_eq_decode (Nat.lt_of_lt_of_le lt small), ← eq, Nat.zero_add,
    List.append_assoc _ after rest, Instruction.decode_encode]
  rfl

theorem first (closed : p.Confined l) : ∃ i, l[0]? = some (0, i) := by
  obtain ⟨last, eq⟩ := closed.halts
  cases l with
  | nil => cases eq
  | cons x l =>
    obtain ⟨offset, i⟩ := x
    obtain rfl := getElem?_zero closed.listed rfl
    exact ⟨i, rfl⟩

theorem next (closed : p.Confined l) (this : l[k]? = some (offset, i)) (going : i ≠ .halt) :
    ∃ j, l[k + 1]? = some (offset + i.size, j) := by
  cases that : l[k + 1]? with
  | none =>
    obtain ⟨last, eq⟩ := closed.halts
    have inside := (List.getElem?_eq_some_iff.1 this).1
    have beyond := List.getElem?_eq_none_iff.1 that
    have is_last : l.length - 1 = k := by omega
    rw [List.getLast?_eq_getElem?, is_last, this] at eq
    cases eq
    exact absurd rfl going
  | some y =>
    obtain ⟨-, eq⟩ := getElem?_succ closed.listed this that
    exact ⟨y.2, by rw [← eq]⟩

theorem last (closed : p.Confined l) (this : l[k]? = some (offset, .halt)) :
    k + 1 = l.length := succ_eq_length_of_halt closed.listed this

end Image.Confined
end ByteMachine
