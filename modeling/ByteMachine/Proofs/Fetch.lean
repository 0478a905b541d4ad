import ByteMachine.Proofs.Invariant

/-! Fetching from memory and decoding an image are the same reading of the same bytes: the same
instruction at the same place, and the same complaint if there is none. -/
namespace ByteMachine

/-- What a machine says of bytes that cannot be decoded. -/
def DecodeError.fault (limit : Nat) : DecodeError → Fault
  | unknownOpcode b | invalidInstruction _ b => .unknownOpcode b
  | truncated address width => .memory ⟨address, width, limit⟩

namespace Memory

theorem length_toList (m : Memory) : m.bytes.toList.length = m.size := Array.length_toList

theorem get_eq_operandAt (m : Memory) (t : Ty) {start : Nat} (h : start ≤ m.size) :
    (m.get t (start : Int)).mapError .memory =
      (Instruction.operandAt start (m.bytes.toList.drop start) t).mapError
        (DecodeError.fault m.size) := by
  have length : ((m.bytes.toList.drop start).take t.width).length =
      min t.width (m.size - start) := by
    rw [List.length_take, List.length_drop, length_toList]
  simp only [Instruction.operandAt, length]
  by_cases inside : start + t.width ≤ m.size
  · rw [get_of_le inside, if_pos (by omega), slice_eq_take_drop]
    rfl
  · rw [get_of_not (by omega), if_neg (by omega)]
    rfl

end Memory

namespace Machine

theorem fetch_eq_decode {m : Memory} {pc : Nat} (h : pc < Memory.addressLimit) :
    fetch m pc =
      (Instruction.decode m.bytes.toList pc).mapError (DecodeError.fault m.size) := by
  unfold fetch
  rw [if_neg (Nat.not_le.2 h)]
  by_cases inside : pc < m.size
  · have cut := List.drop_eq_getElem_cons (m.length_toList.symm ▸ inside)
    have opcode : m.get .byte (pc : Int) = .ok m.bytes.toList[pc] := by
      rw [Memory.get_of_le inside, Memory.slice_eq_take_drop, cut]
      rfl
    have operand : (fun t => (m.get t (pc + 1 : Int)).mapError .memory) = fun t =>
        (Instruction.operandAt (pc + 1) (m.bytes.toList.drop (pc + 1)) t).mapError
          (DecodeError.fault m.size) := by
      funext t
      exact m.get_eq_operandAt t inside
    unfold Instruction.decode
    rw [opcode, operand, cut, Instruction.front]
    dsimp only
    cases Opcode.ofByte? m.bytes.toList[pc] with
    | none => rfl
    | some op => exact op.withOperand_mapError _ _
  · rw [Instruction.decode_of_le (by rw [m.length_toList]; omega),
      Memory.get_of_not (by simp only [Ty.width]; omega)]
    rfl

theorem fetch_of_limit_le {m : Memory} {pc : Nat} (h : Memory.addressLimit ≤ pc) :
    fetch m pc = .error (.memory ⟨Memory.addressLimit - 1, 1, m.size⟩) := by
  unfold fetch
  exact if_pos h

theorem fetch_at_end {m : Memory} (h : m.size < Memory.addressLimit) :
    fetch m m.size = .error (.memory ⟨m.size, 1, m.size⟩) := by
  unfold fetch
  rw [if_neg (Nat.not_le.2 h), Memory.get_of_not (by simp only [Ty.width]; omega)]
  rfl

theorem size_le_of_fetch {m : Memory} {pc : Nat} {i : Instruction} (h : fetch m pc = .ok i) :
    pc + i.size ≤ m.size := by
  by_cases far : Memory.addressLimit ≤ pc
  · rw [fetch_of_limit_le far] at h
    cases h
  · rw [fetch_eq_decode (Nat.lt_of_not_le far)] at h
    cases decoded : Instruction.decode m.bytes.toList pc with
    | error e =>
      rw [decoded] at h
      cases h
    | ok j =>
      rw [decoded] at h
      cases h
      rw [← m.length_toList]
      exact (Instruction.encode_of_decode decoded).1

end Machine

namespace Session

theorem fetch_agrees_with_decode [FloatUnit] {c : Config} {s : Session} (reached : Reachable c s)
    (n pc : Nat) :
    let memory := (s.advance n).machine.memory
    (∀ i, Instruction.decode memory.bytes.toList pc = .ok i → Machine.fetch memory pc = .ok i) ∧
    (∀ address b,
      Instruction.decode memory.bytes.toList pc = .error (.invalidInstruction address b) →
      address = pc ∧ Machine.fetch memory pc = .error (.unknownOpcode b)) ∧
    (∀ address width, pc < Memory.addressLimit →
      Instruction.decode memory.bytes.toList pc = .error (.truncated address width) →
      Machine.fetch memory pc = .error (.memory ⟨address, width, c.memorySize⟩)) ∧
    (Memory.addressLimit ≤ pc → Machine.fetch memory pc =
      .error (.memory ⟨Memory.addressLimit - 1, 1, c.memorySize⟩)) ∧
    ∀ b, Instruction.decode memory.bytes.toList pc ≠ .error (.unknownOpcode b) := by
  intro memory
  have sound := (reached.advance n).sound
  have size : memory.size = c.memorySize := sound.memory_size
  have near {r : Except DecodeError Instruction}
      (h : Instruction.decode memory.bytes.toList pc = r)
      (ne : ∀ address width, r ≠ .error (.truncated address width)) :
      pc < Memory.addressLimit := by
    apply Nat.lt_of_not_le
    intro far
    have beyond : memory.bytes.toList.length ≤ pc := by
      rw [memory.length_toList, size]
      exact Nat.le_trans (Nat.le_of_lt sound.addressable) far
    exact ne pc 1 (h.symm.trans (Instruction.decode_of_le beyond))
  refine ⟨?ok, ?invalid, ?truncated, ?far, ?unknown⟩
  case ok =>
    intro i decoded
    rw [Machine.fetch_eq_decode (near decoded nofun), decoded]
    rfl
  case invalid =>
    intro address b invalid
    obtain ⟨b', eq⟩ | ⟨start, width, eq⟩ := Instruction.front_eq_error invalid
    · cases eq
      rw [Machine.fetch_eq_decode (near invalid nofun), invalid]
      exact ⟨rfl, rfl⟩
    · cases eq
  case truncated =>
    intro address width lt truncated
    rw [Machine.fetch_eq_decode lt, truncated, ← size]
    rfl
  case far =>
    intro far
    rw [Machine.fetch_of_limit_le far, size]
  case unknown =>
    intro b unknown
    obtain ⟨b', eq⟩ | ⟨start, width, eq⟩ := Instruction.front_eq_error unknown
    · cases eq
    · cases eq

/-- A program that writes `0xAB`, which is no opcode, over what would be its third instruction. -/
theorem fetch_agrees_after_overwrite : ∃ s, Reachable ⟨64, 16, none⟩ s ∧
    Instruction.decode (s.advance 2).machine.memory.bytes.toList 11 =
      .error (.invalidInstruction 11 0xAB) ∧
    Machine.fetch (s.advance 2).machine.memory 11 = .error (.unknownOpcode 0xAB) := by
  have reached : Reachable ⟨64, 16, none⟩ _ :=
    Reachable.loaded [0x08, 0xAB, 0x28, 11, 0, 0, 0, 0, 0, 0, 0, 0x00] .silent rfl rfl
  refine ⟨_, reached, ?invalid,
    ((fetch_agrees_with_decode reached 2 11).2.1 11 0xAB ?invalid).2⟩
  case invalid =>
    -- The byte is still to be seen in the slot that it was popped from.
    have front : Instruction.front 11
        (0xAB :: (List.replicate 36 0 ++ 0xAB :: List.replicate 15 0)) =
      .error (.invalidInstruction 11 0xAB) := rfl
    refine (congrArg (Instruction.front 11) ?_).trans front
    decide +kernel

end Session
end ByteMachine
