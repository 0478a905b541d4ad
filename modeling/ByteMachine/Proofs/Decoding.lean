import ByteMachine.Code.Decode

/-! Decoding accepts exactly the encodings, whatever follows them, and each of its complaints
names the place of the bytes that are bad or missing. -/
namespace ByteMachine

theorem Opcode.withOperand_cases (op : Opcode) :
    (∃ i : Instruction, (i.opcode = op ∧ i.operand? = none) ∧
      ∀ (ε : Type) (source : (t : Ty) → Except ε t.Val), op.withOperand source = .ok i) ∨
    ∃ (t : Ty) (f : t.Val → Instruction), (∀ v, (f v).opcode = op ∧ (f v).operand? = some ⟨v⟩) ∧
      ∀ (ε : Type) (source : (t : Ty) → Except ε t.Val),
        op.withOperand source = (source t).map f := by
  cases op with
  | push t =>
    refine .inr ⟨t, _, ?_, fun _ _ => rfl⟩
    exact fun _ => ⟨rfl, rfl⟩
  | getAddress _ | putAddress _ | getStack _ | putStack _ | jmp | branchAddress _ _ | callAddress =>
    refine .inr ⟨.int, _, ?_, fun _ _ => rfl⟩
    exact fun _ => ⟨rfl, rfl⟩
  | _ =>
    refine .inl ⟨_, ?_, fun _ _ => rfl⟩
    exact ⟨rfl, rfl⟩

namespace Opcode

variable {ε : Type} {op : Opcode} {source : (t : Ty) → Except ε t.Val}

theorem withOperand_eq_error {e : ε} (h : op.withOperand source = .error e) :
    ∃ t, source t = .error e := by
  obtain ⟨i, -, eq⟩ | ⟨t, f, -, eq⟩ := op.withOperand_cases
  · rw [eq] at h
    cases h
  · rw [eq] at h
    cases read : source t with
    | error e' =>
      rw [read] at h
      exact ⟨t, read.trans (congrArg _ (Except.error.inj h))⟩
    | ok v =>
      rw [read] at h
      cases h

theorem withOperand_eq_ok {i : Instruction} (h : op.withOperand source = .ok i) :
    i.opcode = op ∧ ∀ v, i.operand? = some v → source v.ty = .ok v.val := by
  obtain ⟨j, fits, eq⟩ | ⟨t, f, fits, eq⟩ := op.withOperand_cases
  · obtain rfl := Except.ok.inj ((eq ε source).symm.trans h)
    refine ⟨fits.1, ?_⟩
    intro v some
    exact nomatch fits.2.symm.trans some
  · rw [eq] at h
    cases read : source t with
    | error e =>
      rw [read] at h
      cases h
    | ok v =>
      rw [read] at h
      obtain rfl := Except.ok.inj h
      refine ⟨(fits v).1, ?_⟩
      intro w some
      obtain rfl := Option.some.inj ((fits v).2.symm.trans some)
      exact read

theorem withOperand_mapError {ε' : Type} (op : Opcode) (f : ε → ε')
    (source : (t : Ty) → Except ε t.Val) :
    op.withOperand (fun t => (source t).mapError f) = (op.withOperand source).mapError f := by
  obtain ⟨i, -, eq⟩ | ⟨t, g, -, eq⟩ := op.withOperand_cases
  · rw [eq, eq]
    rfl
  · rw [eq, eq]
    cases source t <;> rfl

end Opcode

namespace Instruction

variable {address : Nat} {bytes : List UInt8}

theorem operandAt_eq_ok {t : Ty} {v : t.Val} (h : operandAt address bytes t = .ok v) :
    ∃ rest, bytes = t.encode v ++ rest := by
  simp only [operandAt] at h
  split at h
  · next length =>
    obtain rfl := Except.ok.inj h
    refine ⟨bytes.drop t.width, ?_⟩
    rw [Ty.encode_decode length, List.take_append_drop]
  · cases h

theorem operandAt_eq_error_iff {t : Ty} {e : DecodeError} :
    operandAt address bytes t = .error e ↔
      bytes.length < t.width ∧ e = .truncated address t.width := by
  have length : (bytes.take t.width).length = t.width ↔ ¬ bytes.length < t.width := by
    rw [List.length_take]
    omega
  simp only [operandAt, length]
  split
  · next enough =>
    refine iff_of_false (fun ok => ?_) fun h => enough h.1
    cases ok
  · next short =>
    rw [and_iff_right (Decidable.not_not.1 short), Except.error.injEq]
    exact eq_comm

theorem front_eq_ok {i : Instruction} (h : front address bytes = .ok i) :
    ∃ rest, bytes = i.encode ++ rest := by
  unfold front at h
  split at h
  · cases h
  · next b rest =>
    split at h
    · cases h
    · next op known =>
      obtain ⟨opcode, operand⟩ := Opcode.withOperand_eq_ok h
      have first : i.opcode.toByte = b := by rw [opcode, Opcode.toByte_of_ofByte? known]
      unfold encode
      rw [first]
      cases given : i.operand? with
      | none => exact ⟨rest, rfl⟩
      | some v =>
        obtain ⟨after, eq⟩ := operandAt_eq_ok (operand v given)
        exact ⟨after, congrArg (b :: ·) eq⟩

theorem front_eq_error {e : DecodeError} (h : front address bytes = .error e) :
    (∃ b, e = .invalidInstruction address b) ∨ ∃ start width, e = .truncated start width := by
  unfold front at h
  split at h
  · cases h
    exact .inr ⟨_, _, rfl⟩
  · split at h
    · cases h
      exact .inl ⟨_, rfl⟩
    · obtain ⟨t, truncated⟩ := Opcode.withOperand_eq_error h
      exact .inr ⟨_, _, (operandAt_eq_error_iff.1 truncated).2⟩

theorem decode_encode (before after : List UInt8) (i : Instruction) :
    decode (before ++ i.encode ++ after) before.length = .ok i := by
  unfold decode
  rw [List.append_assoc, List.drop_left, front_encode]

theorem encode_of_decode {i : Instruction} (h : decode bytes address = .ok i) :
    address + i.size ≤ bytes.length ∧ (bytes.drop address).take i.size = i.encode := by
  obtain ⟨rest, eq⟩ := front_eq_ok h
  have length := congrArg List.length eq
  have positive := i.size_pos
  simp only [List.length_drop, List.length_append, i.length_encode] at length
  constructor
  · omega
  · rw [eq, ← i.length_encode, List.take_left]

theorem decode_of_le (h : bytes.length ≤ address) :
    decode bytes address = .error (.truncated address 1) := by
  unfold decode
  rw [List.drop_eq_nil_of_le h, front]

end Instruction
end ByteMachine
