import ByteMachine.Code.Instruction

/-! Reading instructions back from an image. -/
namespace ByteMachine

inductive DecodeError where
  /-- A byte looked up on its own. -/
  | unknownOpcode (byte : UInt8)
  | invalidInstruction (address : Nat) (byte : UInt8)
  | truncated (address width : Nat)
deriving DecidableEq

namespace DecodeError

def message : DecodeError → String
  | unknownOpcode byte => s!"unknown opcode: 0x{Numeral.hex 2 byte.toNat}"
  | invalidInstruction address byte =>
    s!"unknown opcode 0x{Numeral.hex 2 byte.toNat} at address {address}"
  | truncated address width => s!"truncated operand at address {address}: {width} bytes needed"

end DecodeError

def Opcode.ofByte (b : UInt8) : Except DecodeError Opcode :=
  match ofByte? b with
  | some op => .ok op
  | none => .error (.unknownOpcode b)

namespace Instruction

/-- The operand of type `t` at the front of the bytes found at `address`. -/
def operandAt (address : Nat) (bytes : List UInt8) (t : Ty) : Except DecodeError t.Val :=
  let front := bytes.take t.width
  if front.length = t.width then .ok (t.decode front) else .error (.truncated address t.width)

/-- The instruction at the front of the bytes found at `address`. -/
def front (address : Nat) : List UInt8 → Except DecodeError Instruction
  | [] => .error (.truncated address 1)
  | b :: rest =>
    match Opcode.ofByte? b with
    | none => .error (.invalidInstruction address b)
    | some op => op.withOperand (operandAt (address + 1) rest)

/-- A position beyond the end counts as an instruction that lacks its first byte. -/
def decode (bytes : List UInt8) (address : Nat) : Except DecodeError Instruction :=
  front address (bytes.drop address)

theorem operandAt_encode (address : Nat) {t : Ty} (v : t.Val) (rest : List UInt8) :
    operandAt address (t.encode v ++ rest) t = .ok v := by
  have len := Ty.length_encode v
  rw [operandAt, List.take_append_of_le_length (by omega), List.take_of_length_le (by omega)]
  simp only [len, if_true, Ty.decode_encode]

theorem front_encode (address : Nat) (i : Instruction) (rest : List UInt8) :
    front address (i.encode ++ rest) = .ok i := by
  cases i <;>
    simp [encode, front, opcode, operand?, Opcode.ofByte?_toByte, Opcode.withOperand,
      Value.encode, operandAt_encode, Except.map]

end Instruction
end ByteMachine
