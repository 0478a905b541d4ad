import ByteMachine.Store.Stack

/-! Hexadecimal dumps: a centred title and rows of sixteen bytes, one cell of which may be marked. -/
namespace ByteMachine.Dump

def rowSize : Nat := 16

def lineWidth : Nat := 70

/-- An odd blank goes to the right. -/
def title (text : String) : List Char :=
  let blanks := lineWidth - text.length
  List.replicate (blanks / 2) ' ' ++ text.toList ++ List.replicate (blanks - blanks / 2) ' ' ++
    ['\n']

def cell (marked : Bool) (b : UInt8) : List Char :=
  let digits := Numeral.padded 16 2 b.toNat
  if marked then '[' :: digits ++ [']'] else ' ' :: digits ++ [' ']

/-- Row `r` of some bytes. Its label counts from `origin`, the mark from the first byte. -/
def row (origin mark : Nat) (bytes : Array UInt8) (r : Nat) : List Char :=
  let start := rowSize * r
  Numeral.padded 16 4 (origin + start) ++ [':', ' '] ++
    ((bytes.extract start (start + rowSize)).toList.zipIdx start).flatMap
      (fun (b, k) => cell (k == mark) b) ++ ['\n']

def rows (origin mark : Nat) (bytes : Array UInt8) : List Char :=
  (List.range ((bytes.size + (rowSize - 1)) / rowSize)).flatMap (row origin mark bytes)

def memory (m : Memory) (pc : Nat) : String :=
  String.ofList (title "Memory" ++ rows 0 pc m.bytes)

def stackTitle : Latch → String
  | .active => "Stack"
  | .overflowed => "Stack (overflow)"
  | .underflowed => "Stack (underflow)"

def stack (s : Stack) (m : Memory) : String :=
  String.ofList (title (stackTitle s.latch) ++ rows s.base s.pointer (s.window m))

theorem not_mem_cell {c : Char} (other : ∀ d < 16, c ≠ d.digitChar) (plain : c ∉ [' ', '[', ']'])
    (marked : Bool) (b : UInt8) : c ∉ cell marked b := by
  have digits := Numeral.not_mem_padded other 2 b.toNat
  cases marked <;> simp_all [cell]

end ByteMachine.Dump
