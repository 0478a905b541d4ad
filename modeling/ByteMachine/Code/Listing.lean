import ByteMachine.Code.Image

/-! A listing has one line for each instruction: offset, bytes and text, two blanks apart. -/
namespace ByteMachine.Listing

/-- The byte column is as wide as the longest instruction. -/
def columnWidth : Nat := 26

def bytePairs (bs : List UInt8) : List Char :=
  List.intercalate [' '] (bs.map fun b => Numeral.padded 16 2 b.toNat)

def line (bytes : Image) (address : Nat) (i : Instruction) : List Char :=
  Numeral.padded 16 4 address ++ [' ', ' '] ++
  (bytePairs ((bytes.drop address).take i.size)).rightpad columnWidth ' ' ++ [' ', ' '] ++
  i.text.toList ++ ['\n']

def render (bytes : Image) : Except DecodeError String :=
  bytes.disassemble.map fun l => String.ofList (l.flatMap fun (address, i) => line bytes address i)

end ByteMachine.Listing
