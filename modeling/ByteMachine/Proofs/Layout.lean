import ByteMachine.Code.Image
import ByteMachine.Proofs.Decoding

/-! Listings of an image: every instruction is encoded at its offset, each offset follows from the
one before, and only the last instruction can be `halt`. -/
namespace ByteMachine.Image

variable {address offset k : Nat} {bytes : List UInt8} {i : Instruction}
  {l : List (Nat × Instruction)}

theorem disassembleFrom_encode (address : Nat) (i : Instruction) (rest : List UInt8) :
    disassembleFrom address (i.encode ++ rest) =
      if i = .halt then .ok [(address, i)]
      else (disassembleFrom (address + i.size) rest).map ((address, i) :: ·) := by
  have read := Instruction.front_encode address i rest
  have drop : (i.encode ++ rest).drop i.size = rest := by
    rw [← i.length_encode, List.drop_left]
  unfold Instruction.encode at read drop ⊢
  rw [List.cons_append, disassembleFrom, ← List.cons_append, read]
  dsimp only
  rw [drop]

theorem disassembleFrom_inv (h : disassembleFrom address bytes = .ok l) :
    bytes = [] ∧ l = [] ∨ ∃ i rest tail, bytes = i.encode ++ rest ∧ l = (address, i) :: tail ∧
      (i = .halt ∧ tail = [] ∨
        i ≠ .halt ∧ disassembleFrom (address + i.size) rest = .ok tail) := by
  cases bytes with
  | nil =>
    rw [disassembleFrom] at h
    exact .inl ⟨rfl, (Except.ok.inj h).symm⟩
  | cons b bs =>
    cases read : Instruction.front address (b :: bs) with
    | error e =>
      rw [disassembleFrom, read] at h
      cases h
    | ok i =>
      obtain ⟨rest, eq⟩ := Instruction.front_eq_ok read
      rw [eq, disassembleFrom_encode] at h
      refine .inr ⟨i, rest, ?_⟩
      by_cases last : i = .halt
      · rw [if_pos last] at h
        exact ⟨[], eq, (Except.ok.inj h).symm, .inl ⟨last, rfl⟩⟩
      · rw [if_neg last] at h
        cases more : disassembleFrom (address + i.size) rest with
        | error e =>
          rw [more] at h
          cases h
        | ok tail =>
          rw [more] at h
          exact ⟨tail, eq, (Except.ok.inj h).symm, .inr ⟨last, rfl⟩⟩

theorem encode_of_mem (h : disassembleFrom address bytes = .ok l) (mem : (offset, i) ∈ l) :
    ∃ before after, bytes = before ++ i.encode ++ after ∧ offset = address + before.length := by
  induction l generalizing address bytes with
  | nil => cases mem
  | cons x l ih =>
    obtain ⟨-, eq⟩ | ⟨j, rest, tail, rfl, eq, more⟩ := disassembleFrom_inv h
    · cases eq
    · cases eq
      cases mem with
      | head => exact ⟨[], rest, rfl, rfl⟩
      | tail _ mem =>
        obtain ⟨-, rfl⟩ | ⟨-, more⟩ := more
        · cases mem
        · obtain ⟨before, after, rfl, rfl⟩ := ih more mem
          refine ⟨j.encode ++ before, after, ?_, ?_⟩
          · simp only [List.append_assoc]
          · rw [List.length_append, j.length_encode, Nat.add_assoc]

theorem getElem?_zero (h : disassembleFrom address bytes = .ok l)
    (first : l[0]? = some (offset, i)) : offset = address := by
  obtain ⟨-, rfl⟩ | ⟨j, rest, tail, rfl, rfl, -⟩ := disassembleFrom_inv h
  · cases first
  · cases first
    rfl

theorem getElem?_succ (h : disassembleFrom address bytes = .ok l)
    (this : l[k]? = some (offset, i)) {next : Nat × Instruction} (that : l[k + 1]? = some next) :
    i ≠ .halt ∧ next.1 = offset + i.size := by
  induction l generalizing address bytes k with
  | nil => cases this
  | cons x l ih =>
    obtain ⟨-, eq⟩ | ⟨j, rest, tail, rfl, eq, more⟩ := disassembleFrom_inv h
    · cases eq
    · cases eq
      obtain ⟨-, rfl⟩ | ⟨going, more⟩ := more
      · cases that
      · cases k with
        | zero =>
          cases this
          exact ⟨going, getElem?_zero more that⟩
        | succ k => exact ih more this that

theorem succ_eq_length_of_halt (h : disassembleFrom address bytes = .ok l)
    (this : l[k]? = some (offset, .halt)) : k + 1 = l.length := by
  have inside := (List.getElem?_eq_some_iff.1 this).1
  cases that : l[k + 1]? with
  | none =>
    have beyond := List.getElem?_eq_none_iff.1 that
    omega
  | some next => exact absurd rfl (getElem?_succ h this that).1

end ByteMachine.Image
