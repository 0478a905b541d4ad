import ByteMachine.Proofs.RoundTrip

/-! Images that cannot be disassembled. Reading fails exactly where it comes to bytes that begin no
instruction, and says which of two things is wrong with them: an opcode that is not assigned, or
an operand that is cut off. -/
namespace ByteMachine

/-- The error of the same bytes, `n` further on. -/
def DecodeError.shift (n : Nat) : DecodeError → DecodeError
  | unknownOpcode b => .unknownOpcode b
  | invalidInstruction address b => .invalidInstruction (n + address) b
  | truncated address width => .truncated (n + address) width

/-- Bytes at `address` that begin no instruction, and what is wrong with them. -/
inductive Undecodable (address : Nat) : List UInt8 → DecodeError → Prop
  | unassigned {b : UInt8} {rest : List UInt8} : Opcode.ofByte? b = none →
      Undecodable address (b :: rest) (.invalidInstruction address b)
  | cut {b : UInt8} {rest : List UInt8} {op : Opcode} : Opcode.ofByte? b = some op →
      (b :: rest).length < 1 + op.operand.width →
      Undecodable address (b :: rest) (.truncated (address + 1) op.operand.width)

theorem Instruction.width_operand (i : Instruction) :
    i.opcode.operand.width = i.operand?.elim 0 (·.ty.width) := by
  rw [Operand.width, ← i.operand?_ty]
  cases i.operand? <;> rfl

variable {address n : Nat} {bytes : List UInt8} {e : DecodeError}

namespace Instruction

/-- What an opcode with bytes behind it lacks can only be a part of its operand. -/
theorem withOperand_eq_error_iff {op : Opcode} :
    op.withOperand (operandAt address bytes) = .error e ↔
      bytes.length < op.operand.width ∧ e = .truncated address op.operand.width := by
  obtain ⟨i, ⟨rfl, operand⟩, eq⟩ | ⟨t, f, fits, eq⟩ := op.withOperand_cases
  · rw [eq, i.width_operand, operand]
    exact iff_of_false nofun fun h => absurd h.1 (Nat.not_lt_zero _)
  · obtain ⟨opcode, operand⟩ := fits (t.decode [])
    have width : op.operand.width = t.width := by
      rw [← opcode, width_operand, operand]
      rfl
    rw [eq, width, ← operandAt_eq_error_iff]
    cases operandAt address bytes t with
    | ok v => exact iff_of_false nofun nofun
    | error e' => simp only [Except.map, Except.error.injEq]

theorem front_cons_eq_error_iff {b : UInt8} {rest : List UInt8} :
    front address (b :: rest) = .error e ↔ Undecodable address (b :: rest) e := by
  rw [front]
  cases known : Opcode.ofByte? b with
  | none =>
    constructor
    · intro h
      obtain rfl := Except.error.inj h
      exact .unassigned known
    · intro h
      cases h with
      | unassigned _ => rfl
      | cut assigned _ => cases known.symm.trans assigned
  | some op =>
    dsimp only
    rw [withOperand_eq_error_iff]
    constructor
    · intro h
      obtain ⟨short, rfl⟩ := h
      exact .cut known (by rw [List.length_cons]; omega)
    · intro h
      cases h with
      | unassigned unknown => cases known.symm.trans unknown
      | cut assigned short =>
        obtain rfl := Option.some.inj (known.symm.trans assigned)
        rw [List.length_cons] at short
        exact ⟨by omega, rfl⟩

theorem operandAt_add (n address : Nat) (bytes : List UInt8) (t : Ty) :
    operandAt (n + address) bytes t = (operandAt address bytes t).mapError (.shift n) := by
  simp only [operandAt]
  split <;> rfl

theorem front_add (n address : Nat) (bytes : List UInt8) :
    front (n + address) bytes = (front address bytes).mapError (.shift n) := by
  unfold front
  cases bytes with
  | nil => rfl
  | cons b rest =>
    have operand : operandAt (n + address + 1) rest = fun t =>
        (operandAt (address + 1) rest t).mapError (.shift n) := by
      funext t
      rw [Nat.add_assoc, operandAt_add]
    dsimp only
    rw [operand]
    cases Opcode.ofByte? b with
    | none => rfl
    | some op => exact op.withOperand_mapError _ _

end Instruction

namespace Image

variable {is : List Instruction} {l : List (Nat × Instruction)}

theorem disassembleFrom_of_undecodable (h : Undecodable address bytes e) :
    disassembleFrom address bytes = .error e := by
  have nonempty : ∃ b rest, bytes = b :: rest := by cases h <;> exact ⟨_, _, rfl⟩
  obtain ⟨b, rest, rfl⟩ := nonempty
  rw [disassembleFrom, Instruction.front_cons_eq_error_iff.2 h]

theorem disassembleFrom_eq_error_iff : disassembleFrom address bytes = .error e ↔
    ∃ is rest, .halt ∉ is ∧ bytes = ofInstructions is ++ rest ∧
      Undecodable (address + (ofInstructions is).length) rest e := by
  constructor
  · intro h
    fun_induction disassembleFrom address bytes with
    | case1 => cases h
    | case2 address b rest e' failed =>
      obtain rfl := Except.error.inj h
      exact ⟨[], b :: rest, List.not_mem_nil, rfl, Instruction.front_cons_eq_error_iff.1 failed⟩
    | case3 => cases h
    | case4 address b rest i read going ih =>
      obtain ⟨after, eq⟩ := Instruction.front_eq_ok read
      have drop : (b :: rest).drop i.size = after := by
        rw [eq, ← i.length_encode, List.drop_left]
      rw [drop] at ih h
      cases more : disassembleFrom (address + i.size) after with
      | ok l =>
        rw [more] at h
        cases h
      | error e' =>
        rw [more] at h
        obtain rfl := Except.error.inj h
        obtain ⟨is, rest', clear, rfl, bad⟩ := ih more
        refine ⟨i :: is, rest', by simp [clear, Ne.symm going], ?_, ?_⟩
        · rw [eq, ofInstructions_cons, List.append_assoc]
        · rwa [ofInstructions_cons, List.length_append, i.length_encode, ← Nat.add_assoc]
  · intro h
    obtain ⟨is, rest, going, rfl, bad⟩ := h
    rw [disassembleFrom_append address rest going, disassembleFrom_of_undecodable bad]
    rfl

theorem ne_unknownOpcode_of_disassembleFrom (h : disassembleFrom address bytes = .error e)
    (b : UInt8) : e ≠ .unknownOpcode b := by
  obtain ⟨is, rest, -, -, bad⟩ := disassembleFrom_eq_error_iff.1 h
  cases bad <;> exact nofun

theorem lt_of_truncated {start width : Nat}
    (h : disassembleFrom address bytes = .error (.truncated start width)) : address < start := by
  obtain ⟨is, rest, -, -, bad⟩ := disassembleFrom_eq_error_iff.1 h
  cases bad
  omega

theorem disassembleFrom_add (n address : Nat) (bytes : List UInt8) :
    disassembleFrom (n + address) bytes =
      ((disassembleFrom address bytes).map (List.map (Prod.map (n + ·) id))).mapError
        (.shift n) := by
  fun_induction disassembleFrom address bytes with
  | case1 =>
    rw [disassembleFrom]
    rfl
  | case2 address b rest e failed =>
    rw [disassembleFrom, Instruction.front_add, failed]
    rfl
  | case3 address b rest read =>
    rw [disassembleFrom, Instruction.front_add, read]
    rfl
  | case4 address b rest i read going ih =>
    rw [disassembleFrom, Instruction.front_add, read]
    dsimp only [Except.mapError]
    rw [if_neg going, Nat.add_assoc, ih]
    cases disassembleFrom (address + i.size) ((b :: rest).drop i.size) <;> rfl

theorem disassemble_append {a : Image} (read : a.disassemble = .ok l)
    (going : ∀ x ∈ l, x.2 ≠ .halt) (b : Image) :
    disassemble (a ++ b) = ((disassemble b).map fun more =>
      l ++ more.map (Prod.map (a.length + ·) id)).mapError (.shift a.length) := by
  obtain ⟨laid, rest, eq, ends⟩ := layout_of_disassembleFrom read
  have clear : .halt ∉ l.map (·.2) := by
    intro halts
    obtain ⟨x, mem, halt⟩ := List.mem_map.1 halts
    exact going x mem halt
  obtain rfl : rest = [] := by
    refine ends.resolve_right fun halted => ?_
    obtain ⟨offset, last⟩ := halted
    exact going _ (List.mem_of_getLast? last) rfl
  rw [List.append_nil] at eq
  unfold disassemble
  conv => lhs; rw [eq]
  rw [disassembleFrom_append 0 b clear, ← eq, ← laid, Nat.zero_add, ← Nat.add_zero a.length,
    disassembleFrom_add, Nat.add_zero]
  cases disassembleFrom 0 b <;> rfl

theorem disassemble_fails_at_undecodable :
    (∀ bytes e, disassemble bytes = .error e ↔ ∃ is rest, .halt ∉ is ∧
      bytes = ofInstructions is ++ rest ∧ Undecodable (ofInstructions is).length rest e) ∧
    (∀ bytes e, disassemble bytes = .error e → (∀ b, e ≠ .unknownOpcode b) ∧
      ∀ is rest width, bytes = ofInstructions is ++ rest →
        e ≠ .truncated (ofInstructions is).length width) ∧
    (∀ is rest, .halt ∈ is → disassemble (ofInstructions is ++ rest) =
      .ok (layout 0 (is.take (is.idxOf .halt + 1)))) ∧
    ∀ a b l, disassemble a = .ok l → (∀ x ∈ l, x.2 ≠ .halt) →
      disassemble (a ++ b) = ((disassemble b).map fun more =>
        l ++ more.map (Prod.map (a.length + ·) id)).mapError (.shift a.length) := by
  refine ⟨?exactly, ?kinds, ?halted, ?appended⟩
  case exactly =>
    intro bytes e
    unfold disassemble
    simp only [disassembleFrom_eq_error_iff, Nat.zero_add]
  case kinds =>
    intro bytes e failed
    refine ⟨ne_unknownOpcode_of_disassembleFrom failed, ?_⟩
    rintro is rest width rfl rfl
    by_cases halts : .halt ∈ is
    · exact nomatch failed.symm.trans (disassembleFrom_of_halt_mem 0 rest halts)
    · rw [disassemble, disassembleFrom_append 0 rest halts, Nat.zero_add] at failed
      cases more : disassembleFrom (ofInstructions is).length rest with
      | ok l =>
        rw [more] at failed
        cases failed
      | error e =>
        rw [more] at failed
        obtain rfl := Except.error.inj failed
        exact Nat.lt_irrefl _ (lt_of_truncated more)
  case halted => exact fun is rest halts => disassembleFrom_of_halt_mem 0 rest halts
  case appended => exact fun a b l read going => disassemble_append read going b

/-- After a push of one byte, two of the eight bytes of an int. -/
theorem cut_int_undecodable : ∃ a b : Image, a = [0x08, 5] ∧ b = [0x09, 1, 2] ∧
    disassemble (a ++ b) = .error (.truncated 3 8) ∧
    (∀ width, DecodeError.truncated 3 8 ≠ .truncated 2 width) ∧
    a.disassemble = .ok [(0, .push .byte 5)] ∧
    (∀ c, disassemble (a ++ c) = ((disassemble c).map fun more =>
      [(0, .push .byte 5)] ++ more.map (Prod.map (2 + ·) id)).mapError (.shift 2)) ∧
    ∀ rest, disassemble (ofInstructions [.push .byte 5, .halt] ++ rest) =
      .ok [(0, .push .byte 5), (2, .halt)] := by
  obtain ⟨exactly, kinds, halted, appended⟩ := disassemble_fails_at_undecodable
  have assigned : Opcode.ofByte? 0x09 = some (.push .int) := rfl
  have failed : disassemble ([0x08, 5] ++ [0x09, 1, 2]) = .error (.truncated 3 8) :=
    (exactly _ _).2 ⟨[.push .byte 5], [0x09, 1, 2], by decide, rfl, .cut assigned (by decide)⟩
  have read : disassemble [0x08, 5] = .ok [(0, .push .byte 5)] :=
    disassembleFrom_ofInstructions 0 [.push .byte 5]
  exact ⟨_, _, rfl, rfl, failed,
    fun width => (kinds _ _ failed).2 [.push .byte 5] [0x09, 1, 2] width rfl, read,
    fun c => appended _ c _ read (by decide), fun rest => halted _ rest (by decide)⟩

end Image
end ByteMachine
