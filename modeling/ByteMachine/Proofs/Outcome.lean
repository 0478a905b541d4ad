import ByteMachine.Proofs.Window

/-! What an instruction does, as a table: how many bytes it pops and pushes, the checks that it
makes and their order, where it goes on, and the one range of memory that it writes. On a live
store the effect of an instruction is exactly its line. -/
namespace ByteMachine

namespace Instruction

/-- How many bytes the instruction takes off the stack. -/
def pops : Instruction → Nat
  | pop t | putAddress t _ | putStack t _ | branchAddress _ t _ => t.width
  | get _ | ret | call => 8
  | put t | branch _ t => 8 + t.width
  | arith _ t | compare _ t => 2 * t.width
  | bitwise _ => 2
  | not => 1
  | halt | push _ _ | getAddress _ _ | getStack _ _ | jmp _ | callAddress _ => 0

/-- How many bytes it leaves there instead. -/
def pushes : Instruction → Nat
  | push t _ | get t | getAddress t _ | getStack t _ | arith _ t => t.width
  | compare _ _ | bitwise _ | not => 1
  | call | callAddress _ => 8
  | halt | pop _ | put _ | putAddress _ _ | putStack _ _ | ret | jmp _ | branch _ _
  | branchAddress _ _ _ => 0

/-- The check of an instruction that finds its operands. -/
def check? (i : Instruction) (s : Store) : Option Fault :=
  match i with
  | get t | put t => s.outside? (s.operand .int 8).toInt t.width
  | getAddress t address | putAddress t address => s.outside? address.toInt t.width
  | getStack t offset => s.outsideWindow? offset t.width
  | putStack t offset => (s.drop t.width).outsideWindow? offset t.width
  | arith op t =>
    if op = .div ∧ t ≠ .float ∧ t.isZero (s.operand t t.width) then some .divisionByZero else none
  | ret | branch _ _ | call => s.astray? (s.operand .int 8)
  | jmp address | branchAddress _ _ address | callAddress address => s.astray? address
  | halt | push _ _ | pop _ | compare _ _ | bitwise _ | not => none

/-- The first check that fails: the operands, then what is done with them, then the result. -/
def fault? (i : Instruction) (s : Store) : Option Fault :=
  (s.lacks? i.pops).or ((i.check? s).or ((s.drop i.pops).lacksRoom? i.pushes))

def flow (i : Instruction) (s : Store) : Flow :=
  match i with
  | halt => .halt
  | ret | call => .jump (s.operand .int 8).toInt.toNat
  | jmp address | callAddress address => .jump address.toInt.toNat
  | branch c t =>
    if c.holds (t.isZero (s.operand t (8 + t.width))) then .jump (s.operand .int 8).toInt.toNat
    else .next
  | branchAddress c t address =>
    if c.holds (t.isZero (s.operand t t.width)) then .jump address.toInt.toNat else .next
  | _ => .next

/-- Where the instruction writes: at the slots that it pushes, unless it stores a value. -/
def place (i : Instruction) (s : Store) : Nat :=
  match i with
  | put _ => (s.operand .int 8).toInt.toNat
  | putAddress _ address => address.toInt.toNat
  | putStack t offset =>
    s.stack.base + ((s.stack.pointer - t.width : Nat) + offset.toInt : Int).toNat
  | _ => s.stack.base + (s.stack.pointer - i.pops)

/-- The bytes that it writes there. -/
def data [FloatUnit] (i : Instruction) (pc : Nat) (s : Store) : List UInt8 :=
  match i with
  | push t v => t.encode v
  | get t => t.encode (s.valueAt t (s.operand .int 8).toInt.toNat)
  | put t => t.encode (s.operand t (8 + t.width))
  | getAddress t address => t.encode (s.valueAt t address.toInt.toNat)
  | putAddress t _ | putStack t _ => t.encode (s.operand t t.width)
  | getStack t offset =>
    t.encode (s.valueAt t (s.stack.base + (s.stack.pointer + offset.toInt : Int).toNat))
  | arith op t =>
    (op.eval t (s.operand t (2 * t.width)) (s.operand t t.width)).elim [] t.encode
  | compare op t => [Effect.flag (op.eval t (s.operand t (2 * t.width)) (s.operand t t.width))]
  | bitwise op => [op.eval (s.operand .byte 2) (s.operand .byte 1)]
  | not => [~~~s.operand .byte 1]
  | call => Ty.int.encode (Int64.ofNat (pc + 1))
  | callAddress _ => Ty.int.encode (Int64.ofNat (pc + 9))
  | halt | pop _ | ret | jmp _ | branch _ _ | branchAddress _ _ _ => []

/-- The store after the instruction, if no check fails. -/
def after [FloatUnit] (i : Instruction) (pc : Nat) (s : Store) : Store :=
  ⟨s.memory.overwrite (i.place s) (i.data pc s),
    { s.stack with pointer := s.stack.pointer - i.pops + i.pushes }⟩

end Instruction

theorem ArithOp.eval_eq_none_iff [FloatUnit] {op : ArithOp} {t : Ty} {a b : t.Val} :
    op.eval t a b = none ↔ op = .div ∧ t ≠ .float ∧ t.isZero b := by
  cases t <;> cases op <;> simp [ArithOp.eval, Ty.isZero]

namespace Instruction

variable {i : Instruction} {s : Store} {f : Fault}

theorem fault?_eq_none_iff : i.fault? s = none ↔ i.pops ≤ s.stack.pointer ∧ i.check? s = none ∧
    s.stack.pointer - i.pops + i.pushes ≤ s.stack.size := by
  simp only [fault?, Option.or_eq_none_iff, Store.lacks?_eq_none_iff,
    Store.lacksRoom?_eq_none_iff, Store.pointer_drop, Store.size_drop]

theorem fault?_eq_some_iff : i.fault? s = some f ↔
    s.stack.pointer < i.pops ∧ f = .stack .underflow ∨
    i.pops ≤ s.stack.pointer ∧ (i.check? s = some f ∨
      i.check? s = none ∧ s.stack.size < s.stack.pointer - i.pops + i.pushes ∧
        f = .stack .overflow) := by
  simp only [fault?, Option.or_eq_some_iff, Store.lacks?_eq_none_iff, Store.lacks?_eq_some_iff,
    Store.lacksRoom?_eq_some_iff, Store.pointer_drop, Store.size_drop]

/-- A check never reports a bad opcode, nor a stack that is full, empty or blocked. -/
theorem check?_eq_some (h : i.check? s = some f) :
    (∃ e, f = .memory e ∨ f = .stack (.memory e)) ∨ f = .divisionByZero ∨
      ∃ address, f = .illegalAddress address := by
  have outside {a : Int} {w : Nat} (h : s.outside? a w = some f) :
      ∃ e, f = .memory e ∨ f = .stack (.memory e) :=
    ⟨_, .inl (Store.outside?_eq_some_iff.1 h).2⟩
  have outsideWindow {s : Store} {o : Int64} {w : Nat} (h : s.outsideWindow? o w = some f) :
      ∃ e, f = .memory e ∨ f = .stack (.memory e) :=
    (Store.outsideWindow?_eq_some h).imp fun _ => .inr
  have astray {a : Int64} (h : s.astray? a = some f) : ∃ address, f = .illegalAddress address :=
    ⟨_, (Store.astray?_eq_some_iff.1 h).2⟩
  cases i with
  | get _ | put _ | getAddress _ _ | putAddress _ _ => exact .inl (outside h)
  | getStack _ _ | putStack _ _ => exact .inl (outsideWindow h)
  | ret | branch _ _ | call | jmp _ | branchAddress _ _ _ | callAddress _ =>
    exact .inr (.inr (astray h))
  | arith op t =>
    simp only [check?, Option.ite_none_right_eq_some, Option.some.injEq] at h
    exact .inr (.inl h.2.symm)
  | halt | push _ _ | pop _ | compare _ _ | bitwise _ | not => cases h

end Instruction

open Effect Store

theorem Instruction.effect_meets [FloatUnit] {s : Store} (live : s.Live) (pc : Nat)
    (i : Instruction) :
    (i.effect pc).Meets s (i.fault? s) (i.flow s) (i.after pc s) := by
  have room (n : Nat) : (s.drop n).lacksRoom? 0 = none := (live.drop n).lacksRoom?_zero
  unfold fault?
  cases i with
  | halt =>
    simp only [pops, check?, pushes, lacks?_zero, room, Option.or_none]
    rfl
  | push t v => exact (push_meets live v).seq fun _ => rfl
  | pop t =>
    simp only [pops, check?, pushes, room, Option.or_none]
    exact (pop_meets live t).seq fun _ => rfl
  | get t =>
    refine (pop_meets live .int).bind fun _ => ?_
    refine Meets.bind (n := 0) (load_meets (live.drop 8) t _) fun _ => ?_
    exact (push_meets (live.drop 8) _).seq fun _ => rfl
  | put t =>
    simp only [pops, check?, pushes, room, Option.or_none]
    refine pop_pop_meets live fun _ => ?_
    exact (store_meets (live.drop _) _ _).seq fun _ => rfl
  | getAddress t address =>
    simp only [pops, check?, pushes, lacks?_zero, Option.none_or]
    refine Meets.bind (n := 0) (load_meets live t address.toInt) fun _ => ?_
    exact (push_meets live _).seq fun _ => rfl
  | putAddress t address =>
    simp only [pops, check?, pushes, room, Option.or_none]
    refine (pop_meets live t).bind fun _ => ?_
    exact (store_meets (live.drop t.width) address.toInt _).seq fun _ => rfl
  | getStack t offset =>
    simp only [pops, check?, pushes, lacks?_zero, Option.none_or]
    refine Meets.bind (n := 0) (peek_meets live t offset) fun _ => ?_
    exact (push_meets live _).seq fun _ => rfl
  | putStack t offset =>
    simp only [pops, check?, pushes, room, Option.or_none]
    refine (pop_meets live t).bind fun _ => ?_
    exact (poke_meets (live.drop t.width) offset _).seq fun _ => rfl
  | arith op t =>
    simp only [pops, check?, pushes, flow, after, place, data, Nat.two_mul]
    refine pop_pop_meets live fun _ => ?_
    cases result : op.eval t (s.operand t (t.width + t.width)) (s.operand t t.width) with
    | none =>
      rw [if_pos (ArithOp.eval_eq_none_iff.1 result)]
      exact meets_of_error (live.drop _) rfl rfl
    | some r =>
      rw [if_neg fun h => Option.some_ne_none r (result.symm.trans (ArithOp.eval_eq_none_iff.2 h))]
      exact (push_meets (live.drop _) r).seq fun _ => rfl
  | compare op t =>
    simp only [pops, check?, pushes, flow, after, place, data, Nat.two_mul]
    refine pop_pop_meets live fun _ => ?_
    exact (push_meets (t := .byte) (live.drop _) _).seq fun _ => rfl
  | bitwise op =>
    refine pop_pop_meets (t := .byte) (u := .byte) live fun _ => ?_
    exact (push_meets (t := .byte) (live.drop 2) _).seq fun _ => rfl
  | not =>
    refine (pop_meets live .byte).bind fun _ => ?_
    exact (push_meets (t := .byte) (live.drop 1) _).seq fun _ => rfl
  | ret =>
    simp only [pops, check?, pushes, room, Option.or_none]
    refine (pop_meets live .int).bind fun _ => ?_
    exact (target_meets (live.drop 8) _).seq fun _ => rfl
  | jmp address =>
    simp only [pops, check?, pushes, lacks?_zero, room, Option.or_none]
    exact (target_meets live address).seq fun _ => rfl
  | branch c t =>
    simp only [pops, check?, pushes, room, Option.or_none]
    refine pop_pop_meets live fun _ => ?_
    exact (target_meets (live.drop _) _).seq fun _ => rfl
  | branchAddress c t address =>
    simp only [pops, check?, pushes, room, Option.or_none]
    refine (pop_meets live t).bind fun _ => ?_
    exact (target_meets (live.drop t.width) address).seq fun _ => rfl
  | call =>
    refine (pop_meets live .int).bind fun _ => ?_
    refine Meets.bind (n := 0) (target_meets (live.drop 8) _) fun _ => ?_
    exact (push_meets (t := .int) (live.drop 8) _).seq fun _ => rfl
  | callAddress address =>
    simp only [pops, check?, pushes, lacks?_zero, Option.none_or]
    refine Meets.bind (n := 0) (target_meets live address) fun _ => ?_
    exact (push_meets (t := .int) live _).seq fun _ => rfl

end ByteMachine
