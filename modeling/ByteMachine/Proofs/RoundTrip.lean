import ByteMachine.Proofs.Layout

/-! Encoding and decoding are inverse. An instruction is read back from among any other bytes, and
what is read is encoded where it was read. An image of instructions is read back as their layout,
up to the first `halt`, and what is read of an image is the layout of a part of it or of all. -/
namespace ByteMachine.Image

/-- Instructions one after the other, each with the address that it comes to stand at. -/
def layout (address : Nat) : List Instruction → List (Nat × Instruction)
  | [] => []
  | i :: is => (address, i) :: layout (address + i.size) is

@[simp] theorem ofInstructions_nil : ofInstructions [] = [] := rfl

@[simp] theorem ofInstructions_cons (i : Instruction) (is : List Instruction) :
    ofInstructions (i :: is) = i.encode ++ ofInstructions is := rfl

theorem getElem?_layout (address : Nat) (is : List Instruction) (k : Nat) :
    (layout address is)[k]? = is[k]?.map (address + (ofInstructions (is.take k)).length, ·) := by
  induction is generalizing address k with
  | nil => simp [layout]
  | cons i is ih =>
    cases k with
    | zero => simp [layout]
    | succ k => simp [layout, ih, i.length_encode, Nat.add_assoc]

variable {address : Nat} {bytes : List UInt8} {is : List Instruction} {l : List (Nat × Instruction)}

theorem disassembleFrom_append (address : Nat) (rest : List UInt8) (going : .halt ∉ is) :
    disassembleFrom address (ofInstructions is ++ rest) =
      (disassembleFrom (address + (ofInstructions is).length) rest).map
        (layout address is ++ ·) := by
  induction is generalizing address with
  | nil =>
    simp only [ofInstructions_nil, List.nil_append, List.length_nil, Nat.add_zero, layout]
    cases disassembleFrom address rest <;> rfl
  | cons i is ih =>
    simp only [List.mem_cons, not_or] at going
    have next : address + i.size + (ofInstructions is).length =
        address + (i.encode ++ ofInstructions is).length := by
      simp [i.length_encode, Nat.add_assoc]
    rw [ofInstructions_cons, List.append_assoc, disassembleFrom_encode, if_neg (Ne.symm going.1),
      ih (address + i.size) going.2, next]
    cases disassembleFrom (address + (i.encode ++ ofInstructions is).length) rest <;> rfl

theorem disassembleFrom_of_halt_mem (address : Nat) (rest : List UInt8) (halts : .halt ∈ is) :
    disassembleFrom address (ofInstructions is ++ rest) =
      .ok (layout address (is.take (is.idxOf .halt + 1))) := by
  induction is generalizing address with
  | nil => simp at halts
  | cons i is ih =>
    rw [ofInstructions_cons, List.append_assoc, disassembleFrom_encode]
    by_cases last : i = .halt
    · simp [last, layout]
    · have later : .halt ∈ is := by simpa [Ne.symm last] using halts
      rw [if_neg last, ih (address + i.size) later, List.idxOf_cons, beq_false_of_ne last]
      rfl

theorem disassembleFrom_ofInstructions (address : Nat) (is : List Instruction) :
    disassembleFrom address (ofInstructions is) =
      .ok (layout address (is.take (is.idxOf .halt + 1))) := by
  have whole := List.append_nil (ofInstructions is)
  by_cases halts : .halt ∈ is
  · rw [← whole, disassembleFrom_of_halt_mem address [] halts]
  · have all : is.take (is.idxOf .halt + 1) = is := by
      apply List.take_of_length_le
      rw [List.idxOf_eq_length halts]
      omega
    rw [← whole, disassembleFrom_append address [] halts, all, disassembleFrom]
    simp [Except.map]

/-- What is read of an image is the layout of its beginning, and of all of it unless a `halt` was
reached. -/
theorem layout_of_disassembleFrom (h : disassembleFrom address bytes = .ok l) :
    l = layout address (l.map (·.2)) ∧ ∃ rest, bytes = ofInstructions (l.map (·.2)) ++ rest ∧
      (rest = [] ∨ ∃ offset, l.getLast? = some (offset, .halt)) := by
  induction l generalizing address bytes with
  | nil =>
    obtain ⟨rfl, -⟩ | ⟨i, rest, tail, -, eq, -⟩ := disassembleFrom_inv h
    · exact ⟨rfl, [], rfl, .inl rfl⟩
    · cases eq
  | cons x l ih =>
    obtain ⟨-, eq⟩ | ⟨i, rest, tail, rfl, eq, more⟩ := disassembleFrom_inv h
    · cases eq
    · cases eq
      obtain ⟨rfl, rfl⟩ | ⟨-, more⟩ := more
      · exact ⟨rfl, rest, by simp, .inr ⟨address, rfl⟩⟩
      · obtain ⟨laid, after, rfl, ends⟩ := ih more
        refine ⟨?_, after, by simp, ?_⟩
        · simp only [List.map_cons, layout]
          rw [← laid]
        · apply ends.imp_right
          intro halted
          obtain ⟨offset, last⟩ := halted
          exact ⟨offset, by simp [List.getLast?_cons, last]⟩

theorem encoding_round_trip :
    (∀ (i : Instruction) (before after : Image),
      before.edit (.emit i) = before ++ i.encode ∧ i.encode.length = i.size ∧
        Instruction.decode (before ++ i.encode ++ after) before.length = .ok i) ∧
    (∀ (i : Instruction) (bytes : Image) (address : Nat),
      Instruction.decode bytes address = .ok i →
        address + i.size ≤ bytes.length ∧ (bytes.drop address).take i.size = i.encode) ∧
    (∀ (is : List Instruction) (rest : Image),
      (∀ k, (layout 0 is)[k]? = is[k]?.map ((ofInstructions (is.take k)).length, ·)) ∧
        (build (is.map .emit)).disassemble = .ok (layout 0 (is.take (is.idxOf .halt + 1))) ∧
        (.halt ∈ is → disassemble (build (is.map .emit) ++ rest) =
          (build (is.map .emit)).disassemble)) ∧
    ∀ (bytes : Image) (l : List (Nat × Instruction)), bytes.disassemble = .ok l →
      l = layout 0 (l.map (·.2)) ∧ ofInstructions (l.map (·.2)) <+: bytes ∧
        (∀ k offset, l[k]? = some (offset, .halt) → k + 1 = l.length) ∧
        ((∀ offset, l.getLast? ≠ some (offset, .halt)) → ofInstructions (l.map (·.2)) = bytes) := by
  refine ⟨?instruction, ?decoded, ?built, ?disassembled⟩
  case instruction =>
    intro i before after
    exact ⟨rfl, i.length_encode, i.decode_encode before after⟩
  case decoded =>
    intro i bytes address h
    exact Instruction.encode_of_decode h
  case built =>
    intro is rest
    have whole := disassembleFrom_ofInstructions 0 is
    rw [build_emit]
    refine ⟨?_, whole, ?_⟩
    · intro k
      rw [getElem?_layout]
      simp only [Nat.zero_add]
    · intro halts
      exact (disassembleFrom_of_halt_mem 0 rest halts).trans whole.symm
  case disassembled =>
    intro bytes l h
    obtain ⟨laid, rest, eq, ends⟩ := layout_of_disassembleFrom h
    refine ⟨laid, ⟨rest, eq.symm⟩, fun k offset this => succ_eq_length_of_halt h this, ?_⟩
    intro unhalted
    obtain rfl | ⟨offset, last⟩ := ends
    · rw [eq, List.append_nil]
    · exact absurd last (unhalted offset)

/-- The bits of a NaN come back as they were, and two bytes of data after the `halt` are not
read. -/
theorem nan_round_trip : ∃ (is : List Instruction) (bytes : Image),
    is = [.push .float ⟨0xFFF8000000000001⟩, .halt] ∧
    bytes = build (is.map .emit) ++ [0xAB, 0xCD] ∧ .halt ∈ is ∧
    Instruction.decode bytes 0 = .ok (.push .float ⟨0xFFF8000000000001⟩) ∧ 0 + 9 ≤ bytes.length ∧
    bytes.disassemble = .ok [(0, .push .float ⟨0xFFF8000000000001⟩), (9, .halt)] ∧
    ofInstructions is <+: bytes := by
  have listed := (encoding_round_trip.2.2.1
    [.push .float ⟨0xFFF8000000000001⟩, .halt] [0xAB, 0xCD]).2.2 (by decide)
  rw [(encoding_round_trip.2.2.1 [.push .float ⟨0xFFF8000000000001⟩, .halt] []).2.1] at listed
  have decoded :=
    (encoding_round_trip.1 (.push .float ⟨0xFFF8000000000001⟩) [] [0x00, 0xAB, 0xCD]).2.2
  exact ⟨_, _, rfl, rfl, by decide, decoded, (encoding_round_trip.2.1 _ _ _ decoded).1, listed,
    (encoding_round_trip.2.2.2 _ _ listed).2.1⟩

end ByteMachine.Image
