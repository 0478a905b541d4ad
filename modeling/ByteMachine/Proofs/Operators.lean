import ByteMachine.Code.Image
import ByteMachine.Proofs.Ordering
import ByteMachine.Proofs.Results
import ByteMachine.Proofs.StackEffect

/-! What operators compute. Byte and int arithmetic is that of the integers, taken back into the
range of the type; comparisons go by the numbers; bytes are combined bit by bit. The deeper operand
is the left one, and the result takes the place of both. -/
namespace ByteMachine

/-- The result among all integers. A quotient is cut off toward zero. -/
def ArithOp.exact : ArithOp → Int → Int → Int
  | add, a, b => a + b
  | sub, a, b => a - b
  | mul, a, b => a * b
  | div, a, b => a.tdiv b

/-- The operation of the host. -/
def ArithOp.onFloats [FloatUnit] : ArithOp → Binary64 → Binary64 → Binary64
  | add => FloatUnit.add
  | sub => FloatUnit.sub
  | mul => FloatUnit.mul
  | div => FloatUnit.div

/-- The value `r` is what the operator makes of `a` and `b`. -/
def ArithOp.Gives [FloatUnit] (op : ArithOp) : (t : Ty) → (a b r : t.Val) → Prop
  | .byte, a, b, r => (r.toNat : Int) = op.exact a.toNat b.toNat % 256 ∧
      (op = .div → r.toNat = a.toNat / b.toNat)
  | .int, a, b, r => r.toInt = signed (op.exact a.toInt b.toInt)
  | .float, a, b, r => r = op.onFloats a b

/-- Only a byte or an int cannot be divided by zero. -/
def ArithOp.Undefined (op : ArithOp) (t : Ty) (b : t.Val) : Prop :=
  op = .div ∧ t ≠ .float ∧ t.number? b = some 0

def BitOp.bit : BitOp → Bool → Bool → Bool
  | and, x, y => x && y
  | or, x, y => x || y
  | xor, x, y => x ^^ y

theorem ArithOp.gives_of_eval [FloatUnit] {op : ArithOp} {t : Ty} {a b r : t.Val}
    (h : op.eval t a b = some r) : op.Gives t a b r := by
  cases t with
  | byte =>
    have a_lt := a.toNat_lt
    have b_lt := b.toNat_lt
    cases op with
    | add =>
      cases h
      refine ⟨?_, nofun⟩
      simp [exact]
    | sub =>
      cases h
      refine ⟨?_, nofun⟩
      rw [UInt8.toNat_sub, exact]
      omega
    | mul =>
      cases h
      refine ⟨?_, nofun⟩
      simp [exact]
    | div =>
      obtain ⟨-, h⟩ := Option.ite_none_left_eq_some.1 h
      cases h
      have quotient : (a / b).toNat = a.toNat / b.toNat := UInt8.toNat_div ..
      have le := Nat.div_le_self a.toNat b.toNat
      refine ⟨?_, fun _ => quotient⟩
      rw [quotient, exact, ← Int.ofNat_tdiv]
      omega
  | int =>
    cases op with
    | add =>
      cases h
      exact Int64.toInt_add ..
    | sub =>
      cases h
      exact Int64.toInt_sub ..
    | mul =>
      cases h
      exact Int64.toInt_mul ..
    | div =>
      obtain ⟨-, h⟩ := Option.ite_none_left_eq_some.1 h
      cases h
      exact Int64.toInt_div ..
  | float => cases op <;> cases h <;> rfl

theorem ArithOp.undefined_iff {op : ArithOp} {t : Ty} {b : t.Val} :
    op.Undefined t b ↔ op = .div ∧ t ≠ .float ∧ t.isZero b := by
  rw [Undefined, Ty.isZero_iff]

theorem BitOp.testBit_eval (op : BitOp) (a b : UInt8) (k : Nat) :
    (op.eval a b).toNat.testBit k = op.bit (a.toNat.testBit k) (b.toNat.testBit k) := by
  cases op with
  | and => rw [eval, UInt8.toNat_and, Nat.testBit_and, bit]
  | or => rw [eval, UInt8.toNat_or, Nat.testBit_or, bit]
  | xor => rw [eval, UInt8.toNat_xor, Nat.testBit_xor, bit]

theorem testBit_not (a : UInt8) {k : Nat} (h : k < 8) :
    (~~~a).toNat.testBit k = !a.toNat.testBit k := by
  have flipped : (~~~a).toNat = 2 ^ 8 - (a.toNat + 1) := by
    rw [UInt8.toNat_not, UInt8.size]
    omega
  rw [flipped, Nat.testBit_two_pow_sub_succ a.toNat_lt, decide_eq_true h, Bool.true_and]

/-- What the comparisons of two values have to do with each other. -/
structure Ty.Compares (t : Ty) (a b : t.Val) : Prop where
  eval_iff : ∀ op : CompareOp, op.eval t a b = true ↔ op.Holds t a b
  unequal_eq : CompareOp.unequal.eval t a b = !CompareOp.equal.eval t a b
  smaller_eq : CompareOp.smaller.eval t a b = CompareOp.greater.eval t b a
  one_of_three : t.number? a ≠ none → t.number? b ≠ none →
    [CompareOp.equal, .greater, .smaller].countP (·.eval t a b) = 1
  none_of_three : t.number? a = none ∨ t.number? b = none →
    [CompareOp.equal, .greater, .smaller].countP (·.eval t a b) = 0

theorem Ty.compares (t : Ty) (a b : t.Val) : t.Compares a b where
  eval_iff _ := CompareOp.eval_iff
  unequal_eq := rfl
  smaller_eq := rfl
  one_of_three x y := by
    obtain ⟨m, x⟩ := Option.ne_none_iff_exists'.1 x
    obtain ⟨n, y⟩ := Option.ne_none_iff_exists'.1 y
    simp only [List.countP_cons, List.countP_nil, CompareOp.eval_iff, CompareOp.Holds, x, y,
      Option.some.injEq, exists_eq_left', exists_and_left]
    obtain less | rfl | more := Int.lt_trichotomy m n
    · simp [less, Int.ne_of_gt less, Int.not_lt.2 (Int.le_of_lt less)]
    · simp
    · simp [more, Int.ne_of_lt more, Int.not_lt.2 (Int.le_of_lt more)]
  none_of_three missing := by
    obtain x | y := missing
    · simp [CompareOp.eval_iff, CompareOp.Holds, x]
    · simp [CompareOp.eval_iff, CompareOp.Holds, y]

namespace Instruction

def isOperator : Instruction → Bool
  | arith _ _ | compare _ _ | bitwise _ | not => true
  | _ => false

theorem shape_of_isOperator {i : Instruction} (h : i.isOperator) (s : Store) :
    i.pops ≠ 0 ∧ i.size = 1 ∧ i.flow s = .next ∧ i.isStore = false ∧ i.isPut = false := by
  cases i with
  | arith _ t | compare _ t =>
    exact ⟨Nat.mul_ne_zero (by decide) (Nat.ne_of_gt t.width_pos), rfl, rfl, rfl, rfl⟩
  | bitwise _ | not => exact ⟨nofun, rfl, rfl, rfl, rfl⟩
  | _ => cases h

end Instruction

theorem Ty.length_encode_append {t : Ty} (a b : t.Val) :
    (t.encode a ++ t.encode b).length = 2 * t.width := by
  rw [List.length_append, length_encode, length_encode, Nat.two_mul]

theorem Store.Framed.operands_eq {s : Store} (framed : s.Framed) {t : Ty} {a b : t.Val}
    {rest : List UInt8} (h : s.contents = rest ++ t.encode a ++ t.encode b) :
    s.operand t (2 * t.width) = a ∧ s.operand t t.width = b := by
  constructor
  · rw [Nat.two_mul]
    have deeper := framed.operand_eq h
    rw [Ty.length_encode] at deeper
    exact deeper
  · exact framed.operand_top h

namespace Machine

/-- A step that ends with these contents of the stack, one byte further on in the program. -/
structure Replaces (m after : Machine) (contents : List UInt8) : Prop where
  status_eq : after.status = .running
  contents_eq : after.store.contents = contents
  pc_eq : after.pc = m.pc + 1
  below : ∀ address < m.stack.base, after.memory.bytes[address]? = m.memory.bytes[address]?

variable {c : Config} {m : Machine} {i : Instruction} {rest args : List UInt8}

variable [FloatUnit]

theorem Sound.replaces (sound : m.Sound c) (running : m.status = .running) (due : m.due = .ok i)
    (operator : i.isOperator) (contents : m.store.contents = rest ++ args)
    (enough : args.length = i.pops) (check : i.check? m.store = none) :
    m.Replaces m.step.1 (rest ++ i.data m.pc m.store) := by
  obtain ⟨pops, size, flow, stores, puts⟩ := i.shape_of_isOperator operator m.store
  have live := sound.live running
  have length := congrArg List.length contents
  rw [live.framed.length_contents, List.length_append, enough] at length
  have smaller := i.pushes_le_pops pops
  have inside := live.pointer_le
  have clear : i.fault? m.store = none := Instruction.fault?_eq_none_iff.2
    ⟨by omega, check, by omega⟩
  rw [sound.step_eq_done running due clear]
  refine ⟨?status, ?contents, ?pc, ?below⟩
  case status =>
    change (i.flow m.store).status = .running
    rw [flow]
    rfl
  case contents =>
    change (i.after m.pc m.store).contents = _
    rw [Instruction.contents_after live m.pc stores clear, ← enough,
      live.framed.contents_drop_eq contents]
  case pc =>
    change (i.flow m.store).pc m.pc i.size = m.pc + 1
    rw [flow, size]
    rfl
  case below =>
    intro address below
    apply getElem?_done clear
    intro writes
    have window : m.stack.base ≤ i.writeStart m.store :=
      (Instruction.window_of_not_isPut live clear puts).1
    have reaches := writes.1
    omega

theorem Sound.replaces_of_compare {op : CompareOp} {t : Ty} {a b : t.Val} (sound : m.Sound c)
    (running : m.status = .running) (due : m.due = .ok (.compare op t))
    (contents : m.store.contents = rest ++ t.encode a ++ t.encode b) :
    m.Replaces m.step.1 (rest ++ [if op.eval t a b then 0xFF else 0x00]) := by
  obtain ⟨left, right⟩ := sound.framed.operands_eq contents
  rw [List.append_assoc] at contents
  have replaces := sound.replaces running due rfl contents (Ty.length_encode_append a b) rfl
  rw [Instruction.data, left, right] at replaces
  exact replaces

end Machine

namespace Session

variable {c : Config} {s : Session}

theorem operators_compute [FloatUnit] (reached : Reachable c s)
    (running : s.machine.status = .running) :
    (∀ op t (a b : t.Val) rest, s.machine.due = .ok (.arith op t) →
      s.machine.store.contents = rest ++ t.encode a ++ t.encode b →
      (s.step.machine.status = .faulted (.divisionByZero s.machine.pc) ↔ op.Undefined t b) ∧
      (¬ op.Undefined t b → ∃ r, op.Gives t a b r ∧
        s.machine.Replaces s.step.machine (rest ++ t.encode r))) ∧
    (∀ op t (a b : t.Val) rest, s.machine.due = .ok (.compare op t) →
      s.machine.store.contents = rest ++ t.encode a ++ t.encode b →
      t.Compares a b ∧ s.machine.Replaces s.step.machine
        (rest ++ [if op.eval t a b then 0xFF else 0x00])) ∧
    (∀ op a b rest, s.machine.due = .ok (.bitwise op) →
      s.machine.store.contents = rest ++ [a] ++ [b] →
      ∃ r, (∀ k < 8, r.toNat.testBit k = op.bit (a.toNat.testBit k) (b.toNat.testBit k)) ∧
        s.machine.Replaces s.step.machine (rest ++ [r])) ∧
    ∀ a rest, s.machine.due = .ok .not → s.machine.store.contents = rest ++ [a] →
      ∃ r, (∀ k < 8, r.toNat.testBit k = !a.toNat.testBit k) ∧
        s.machine.Replaces s.step.machine (rest ++ [r]) := by
  have sound := reached.sound
  have framed := sound.framed
  simp only [machine_step]
  refine ⟨?arith, ?compare, ?bitwise, ?not⟩
  case arith =>
    intro op t a b rest due contents
    obtain ⟨left, right⟩ := framed.operands_eq contents
    have enough := Ty.length_encode_append a b
    rw [List.append_assoc] at contents
    cases result : op.eval t a b with
    | none =>
      have undefined := ArithOp.eval_eq_none_iff.1 result
      have check : (Instruction.arith op t).check? s.machine.store = some .divisionByZero := by
        rw [Instruction.check?, right]
        exact if_pos undefined
      have operands : 2 * t.width ≤ s.machine.store.stack.pointer := by
        rw [← framed.length_contents, contents, List.length_append, enough]
        exact Nat.le_add_left _ _
      rw [sound.step_eq_undone running due
        (Instruction.fault?_eq_some_iff.2 (.inr ⟨operands, .inl check⟩))]
      rw [ArithOp.undefined_iff]
      exact ⟨iff_of_true rfl undefined, fun defined => absurd undefined defined⟩
    | some r =>
      have defined : ¬ (op = .div ∧ t ≠ .float ∧ t.isZero b) := by
        rw [← ArithOp.eval_eq_none_iff (a := a), result]
        exact Option.some_ne_none r
      have check : (Instruction.arith op t).check? s.machine.store = none := by
        rw [Instruction.check?, right]
        exact if_neg defined
      have replaces := sound.replaces running due rfl contents enough check
      rw [Instruction.data, left, right, result] at replaces
      rw [ArithOp.undefined_iff]
      refine ⟨iff_of_false ?_ defined, fun _ => ⟨r, ArithOp.gives_of_eval result, replaces⟩⟩
      rw [replaces.status_eq]
      exact Flow.status_ne_faulted .next _
  case compare =>
    intro op t a b rest due contents
    exact ⟨t.compares a b, sound.replaces_of_compare running due contents⟩
  case bitwise =>
    intro op a b rest due contents
    obtain ⟨left, right⟩ := framed.operands_eq (t := .byte) contents
    refine ⟨op.eval a b, fun k _ => op.testBit_eval a b k, ?_⟩
    rw [List.append_assoc] at contents
    have replaces := sound.replaces running due rfl contents rfl rfl
    change s.machine.store.operand .byte 2 = a at left
    change s.machine.store.operand .byte 1 = b at right
    rw [Instruction.data, left, right] at replaces
    exact replaces
  case not =>
    intro a rest due contents
    have top := framed.operand_top (t := .byte) contents
    refine ⟨~~~a, fun k lt => testBit_not a lt, ?_⟩
    have replaces := sound.replaces running due rfl contents rfl rfl
    change s.machine.store.operand .byte 1 = a at top
    rw [Instruction.data, top] at replaces
    exact replaces

/-- The one quotient that is out of range: the least int, divided by minus one, is itself. -/
theorem least_int_negated : ∃ s, Reachable ⟨64, 16, none⟩ s ∧ s.machine.status = .running ∧
    s.machine.due = .ok (.arith .div .int) ∧
    s.machine.store.contents = [] ++ Ty.int.encode Int64.minValue ++ Ty.int.encode (-1) ∧
    s.machine.Replaces s.step.machine ([] ++ Ty.int.encode Int64.minValue) := by
  have reached : Reachable ⟨64, 16, none⟩ _ :=
    (Reachable.loaded (Image.ofInstructions
      [.push .int Int64.minValue, .push .int (-1), .arith .div .int]) .silent rfl rfl).advance 2
  have least {m after : Machine} (computed : ∃ r, ArithOp.div.Gives .int Int64.minValue (-1) r ∧
      m.Replaces after ([] ++ Ty.int.encode r)) :
      m.Replaces after ([] ++ Ty.int.encode Int64.minValue) := by
    obtain ⟨r, gives, replaces⟩ := computed
    obtain rfl : r = Int64.minValue := Int64.toInt_inj.1 (gives.trans (by decide))
    exact replaces
  refine ⟨_, reached, ?running, ?due, ?contents, least
    (((operators_compute reached ?running).1 .div .int Int64.minValue (-1) [] ?due ?contents).2
      ?defined)⟩
  case running => decide +kernel
  case due => decide +kernel
  case contents => decide +kernel
  case defined => exact fun undefined => absurd undefined.2.2 (by decide)

end Session
end ByteMachine
