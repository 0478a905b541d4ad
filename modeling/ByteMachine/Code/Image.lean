import ByteMachine.Code.Decode

/-! Program images: bytes that are appended and patched, and read back in order.

Reading stops after the first `halt`, since data may follow it. -/
namespace ByteMachine

abbrev Image := List UInt8

inductive Edit where
  | emit (i : Instruction)
  | opcode (op : Opcode)
  | value (v : Value)
  | patch (address : Nat) (n : Int64)

/-- A patch overwrites an int that lies within the image, and is refused elsewhere. -/
def Edit.perform? (e : Edit) (bytes : Image) : Option Image :=
  match e with
  | emit i => some (bytes ++ i.encode)
  | opcode op => some (bytes ++ [op.toByte])
  | value v => some (bytes ++ v.encode)
  | patch address n =>
    if address + 8 ≤ bytes.length then
      some (bytes.take address ++ Ty.int.encode n ++ bytes.drop (address + 8))
    else none

namespace Image

/-- A refused patch changes nothing. -/
def edit (bytes : Image) (e : Edit) : Image := (e.perform? bytes).getD bytes

def build (es : List Edit) : Image := es.foldl edit []

def ofInstructions (is : List Instruction) : Image := is.flatMap Instruction.encode

/-- Each instruction with its offset; the bytes given start at `address`. -/
def disassembleFrom (address : Nat) : Image → Except DecodeError (List (Nat × Instruction))
  | [] => .ok []
  | b :: rest =>
    match Instruction.front address (b :: rest) with
    | .error e => .error e
    | .ok i =>
      if i = .halt then .ok [(address, i)]
      else (disassembleFrom (address + i.size) ((b :: rest).drop i.size)).map ((address, i) :: ·)
termination_by bytes => bytes.length
decreasing_by
  have := i.size_pos
  simp only [List.length_drop, List.length_cons]
  omega

def disassemble (bytes : Image) : Except DecodeError (List (Nat × Instruction)) :=
  disassembleFrom 0 bytes

theorem build_emit (is : List Instruction) : build (is.map .emit) = ofInstructions is := by
  have from_ (bytes : Image) : (is.map .emit).foldl edit bytes = bytes ++ ofInstructions is := by
    induction is generalizing bytes with
    | nil => simp [ofInstructions]
    | cons i is ih =>
      rw [List.map_cons, List.foldl_cons, ih]
      simp [edit, Edit.perform?, ofInstructions]
  exact (from_ []).trans (List.nil_append _)

theorem length_patch {bytes patched : Image} {address : Nat} {n : Int64}
    (h : (Edit.patch address n).perform? bytes = some patched) : patched.length = bytes.length := by
  simp only [Edit.perform?, Option.ite_none_right_eq_some, Option.some.injEq] at h
  obtain ⟨le, rfl⟩ := h
  have := Ty.length_encode (t := .int) n
  simp only [List.length_append, List.length_take, List.length_drop, this, Ty.width]
  omega

end Image
end ByteMachine
