import ByteMachine.Proofs.Fetch
import ByteMachine.Proofs.Operators

/-! Where instructions go. A jump, a call and a return go to an address, which is checked to be inside
the memory; everything else goes on behind itself. Only by going on can the end of the memory be
reached, and there is nothing to execute there. -/
namespace ByteMachine

/-- What a conditional jump asks of the number that it tests. -/
def Condition.Met (c : Condition) (t : Ty) (v : t.Val) : Prop :=
  match c with
  | zero => t.number? v = some 0
  | nonZero => t.number? v ≠ some 0

instance (c : Condition) (t : Ty) (v : t.Val) : Decidable (c.Met t v) :=
  match c with
  | .zero => inferInstanceAs (Decidable (_ = _))
  | .nonZero => inferInstanceAs (Decidable (_ ≠ _))

theorem Condition.holds_iff {c : Condition} {t : Ty} {v : t.Val} :
    c.holds (t.isZero v) = true ↔ c.Met t v := by
  cases c with
  | zero => exact Ty.isZero_iff
  | nonZero => rw [holds, Met, Bool.not_eq_true', ← Bool.not_eq_true, Ty.isZero_iff]

def Ty.zero : (t : Ty) → t.Val
  | byte => 0
  | int => 0
  | float => ⟨0⟩

theorem Ty.number?_zero (t : Ty) : t.number? t.zero = some 0 := by cases t <;> decide

theorem CompareOp.equal_zero_iff {t : Ty} {v : t.Val} :
    equal.eval t v t.zero = true ↔ Condition.zero.Met t v := by
  rw [eval_iff, Holds, t.number?_zero, Condition.Met]
  simp

namespace Instruction

/-- With this stack the instruction goes to an address, its own or the one on top. A value to be
tested lies under the address. -/
inductive GoesTo (stack : List UInt8) : Instruction → Int64 → Prop
  | ret {rest : List UInt8} {a : Int64} : stack = rest ++ Ty.int.encode a → GoesTo stack ret a
  | call {rest : List UInt8} {a : Int64} : stack = rest ++ Ty.int.encode a → GoesTo stack call a
  | jmp {a : Int64} : GoesTo stack (jmp a) a
  | callAddress {a : Int64} : GoesTo stack (callAddress a) a
  | branch {rest : List UInt8} {c : Condition} {t : Ty} {v : t.Val} {a : Int64} :
      stack = rest ++ t.encode v ++ Ty.int.encode a → c.Met t v → GoesTo stack (branch c t) a
  | branchAddress {rest : List UInt8} {c : Condition} {t : Ty} {v : t.Val} {a : Int64} :
      stack = rest ++ t.encode v → c.Met t v → GoesTo stack (branchAddress c t a) a

/-- How the program goes on after the instruction. -/
structure Proceeds (i : Instruction) (m after : Machine) : Prop where
  jumps : ∀ a, GoesTo m.store.contents i a → after.pc = a.toInt ∧ after.pc < m.memory.size
  passes : (∀ a, ¬ GoesTo m.store.contents i a) → after.pc = m.pc + i.size

variable {s : Store} {i : Instruction} {a : Int64}

theorem GoesTo.flow_eq (goes : GoesTo s.contents i a) (framed : s.Framed) :
    i.flow s = .jump a.toInt.toNat ∧ i.check? s = s.astray? a := by
  cases goes with
  | ret found | call found =>
    have top : s.operand .int 8 = a := framed.operand_top (t := .int) found
    rw [flow, check?, top]
    exact ⟨rfl, rfl⟩
  | jmp | callAddress => exact ⟨rfl, rfl⟩
  | @branch _ c t v _ found met =>
    have top : s.operand .int 8 = a := framed.operand_top (t := .int) found
    have under := framed.operand_eq found
    rw [Ty.length_encode, Nat.add_comm] at under
    change s.operand t (8 + t.width) = v at under
    rw [flow, check?, top, under, Condition.holds_iff.2 met]
    exact ⟨rfl, rfl⟩
  | branchAddress found met =>
    rw [flow, check?, framed.operand_top found, Condition.holds_iff.2 met]
    exact ⟨rfl, rfl⟩

theorem flow_of_not_goesTo (framed : s.Framed) (enough : i.pops ≤ s.stack.pointer)
    (ne : i ≠ .halt) (stays : ∀ a, ¬ GoesTo s.contents i a) : i.flow s = .next := by
  cases i with
  | halt => exact absurd rfl ne
  | ret => exact absurd (.ret (framed.contents_eq (t := .int) enough)) (stays _)
  | call => exact absurd (.call (framed.contents_eq (t := .int) enough)) (stays _)
  | jmp a => exact absurd .jmp (stays a)
  | callAddress a => exact absurd .callAddress (stays a)
  | branch c t =>
    have unmet : ¬ c.Met t (s.operand t (8 + t.width)) := fun met =>
      stays _ (.branch (framed.contents_eq_under enough) met)
    rw [← Condition.holds_iff] at unmet
    exact if_neg unmet
  | branchAddress c t a =>
    have unmet : ¬ c.Met t (s.operand t t.width) := fun met =>
      stays _ (.branchAddress (framed.contents_eq enough) met)
    rw [← Condition.holds_iff] at unmet
    exact if_neg unmet
  | _ => rfl

end Instruction

namespace Effect

/-- Of two effects on a store, both fail in the same way, or one jumps and the other goes on. -/
def Opposed (x y : Effect Flow) (s : Store) : Prop :=
  (∃ f t, x s = .error f t ∧ y s = .error f t) ∨
  ∃ target t, x s = .ok (.jump target) t ∧ y s = .ok .next t ∨
    x s = .ok .next t ∧ y s = .ok (.jump target) t

theorem Opposed.bind {α : Type} {x : Effect α} {j k : α → Effect Flow}
    (h : ∀ a s, (j a).Opposed (k a) s) (s : Store) : (x >>= j).Opposed (x >>= k) s := by
  cases ran : x s with
  | ok a t =>
    have opposed := h a t
    rw [Opposed] at opposed ⊢
    rwa [bind_of_ok ran, bind_of_ok ran]
  | error f t => exact .inl ⟨f, t, bind_of_error ran, bind_of_error ran⟩

theorem opposed_jumpIf (taken : Bool) (a : Int64) (s : Store) :
    (primitives.jumpIf taken a).Opposed (primitives.jumpIf (!taken) a) s := by
  cases located : primitives.target a s with
  | error f t => exact .inl ⟨f, t, bind_of_error located, bind_of_error located⟩
  | ok place t =>
    refine .inr ⟨place, t, ?_⟩
    rw [Primitives.jumpIf, Primitives.jumpIf, bind_of_ok located, bind_of_ok located]
    cases taken with
    | true => exact .inl ⟨rfl, rfl⟩
    | false => exact .inr ⟨rfl, rfl⟩

end Effect

namespace Instruction

variable [FloatUnit]

theorem branch_opposed (t : Ty) (pc : Nat) (s : Store) :
    ((branch .zero t).effect pc).Opposed ((branch .nonZero t).effect pc) s :=
  .bind (fun _ => .bind fun _ => Effect.opposed_jumpIf _ _) s

theorem branchAddress_opposed (t : Ty) (a : Int64) (pc : Nat) (s : Store) :
    ((branchAddress .zero t a).effect pc).Opposed ((branchAddress .nonZero t a).effect pc) s :=
  .bind (fun _ => Effect.opposed_jumpIf _ _) s

end Instruction

namespace Machine

variable [FloatUnit]

/-- The instruction goes on behind itself, to where the memory ends. -/
structure RunsOff (m : Machine) (i : Instruction) : Prop extends m.Completes i where
  ne_halt : i ≠ .halt
  stays : ∀ a, ¬ i.GoesTo m.store.contents a
  end_eq : m.pc + i.size = m.memory.size

variable {c : Config} {m : Machine} {i : Instruction} {n : Nat}

namespace Sound

variable (sound : m.Sound c)
include sound

theorem proceeds (completes : m.Completes i) (ne : i ≠ .halt) : i.Proceeds m m.step.1 := by
  obtain ⟨clear, eq⟩ := sound.of_completes completes
  obtain ⟨enough, check, -⟩ := Instruction.fault?_eq_none_iff.1 clear
  rw [eq]
  constructor
  case jumps =>
    intro a goes
    obtain ⟨flow, checks⟩ := goes.flow_eq sound.framed
    rw [checks, Store.astray?_eq_none_iff] at check
    change ((i.flow m.store).pc m.pc i.size : Int) = a.toInt ∧
      (i.flow m.store).pc m.pc i.size < m.memory.size
    rw [flow, Flow.pc]
    have inside : 0 ≤ a.toInt ∧ a.toInt < m.memory.size := check
    omega
  case passes =>
    intro stays
    change (i.flow m.store).pc m.pc i.size = m.pc + i.size
    rw [Instruction.flow_of_not_goesTo sound.framed enough ne stays]
    rfl

theorem pc_of_halt (completes : m.Completes .halt) : m.step.1.pc = m.pc := by
  rw [(sound.of_completes completes).2]
  rfl

theorem exists_completes (running : m.status = .running)
    (unfailed : ∀ e, m.step.1.status ≠ .faulted e) :
    ∃ i, m.Completes i ∧ m.step.1.status = if i = .halt then .halted else .running := by
  obtain ⟨m', event, moved, t⟩ := sound.exists_transition running
  cases t with
  | refused _ | undone _ _ =>
    rw [moved] at unfailed
    exact absurd rfl (unfailed _)
  | @done i due clear =>
    refine ⟨i, ⟨running, due, unfailed⟩, ?_⟩
    rw [moved]
    exact i.flow_status m.store

theorem proceeds_of_running (running : m.status = .running) (still : m.step.1.status = .running) :
    ∃ i, m.due = .ok i ∧ i.Proceeds m m.step.1 := by
  have unfailed : ∀ e, m.step.1.status ≠ .faulted e := still ▸ Flow.status_ne_faulted .next
  obtain ⟨i, completes, status⟩ := sound.exists_completes running unfailed
  refine ⟨i, completes.due, sound.proceeds completes ?_⟩
  rintro rfl
  cases still.symm.trans status

theorem stays_of_halted (running : m.status = .running) (halted : m.step.1.status = .halted) :
    m.due = .ok .halt ∧ m.step.1.pc = m.pc := by
  have unfailed : ∀ e, m.step.1.status ≠ .faulted e := halted ▸ Flow.status_ne_faulted .halt
  obtain ⟨i, completes, status⟩ := sound.exists_completes running unfailed
  rw [halted] at status
  split at status
  · next halt =>
    subst halt
    exact ⟨completes.due, sound.pc_of_halt completes⟩
  · cases status

theorem pc_step_le (completes : m.Completes i) :
    m.step.1.pc ≤ c.memorySize ∧ (m.step.1.pc = c.memorySize → m.RunsOff i) := by
  have size : m.memory.size = c.memorySize := sound.memory_size
  have inside := size_le_of_fetch (due_eq_ok_iff.1 completes.due).2
  have positive := i.size_pos
  by_cases halt : i = .halt
  · subst halt
    have same := sound.pc_of_halt completes
    exact ⟨by omega, by omega⟩
  · have proceeds := sound.proceeds completes halt
    by_cases goes : ∃ a, i.GoesTo m.store.contents a
    · obtain ⟨a, goes⟩ := goes
      have lt := (proceeds.jumps a goes).2
      exact ⟨by omega, by omega⟩
    · have stays := not_exists.1 goes
      have pc := proceeds.passes stays
      refine ⟨by omega, fun eq => ⟨completes, halt, stays, ?_⟩⟩
      omega

theorem pc_after_le (n : Nat) (executes : ∃ k < n, ∃ i, (m.after k).Completes i) :
    (m.after n).pc ≤ c.memorySize ∧
      ((m.after n).pc = c.memorySize → ∃ k < n, ∃ i, (m.after k).RunsOff i) := by
  induction n with
  | zero =>
    obtain ⟨k, lt, -⟩ := executes
    exact absurd lt (Nat.not_lt_zero k)
  | succ n ih =>
    obtain ⟨k, lt, executed⟩ := executes
    have step {i : Instruction} (completes : (m.after n).Completes i) :
        (m.after (n + 1)).pc ≤ c.memorySize ∧ ((m.after (n + 1)).pc = c.memorySize →
          ∃ k < n + 1, ∃ i, (m.after k).RunsOff i) := by
      rw [after_succ]
      obtain ⟨le, off⟩ := (sound.after n).pc_step_le completes
      exact ⟨le, fun eq => ⟨n, Nat.lt_succ_self n, i, off eq⟩⟩
    obtain earlier | rfl := Nat.lt_succ_iff_lt_or_eq.1 lt
    · obtain ⟨i, completes, -⟩ | ⟨-, -, same⟩ := (sound.after n).step_cases
      · exact step completes
      · obtain ⟨le, off⟩ := ih ⟨k, earlier, executed⟩
        rw [after_succ, same]
        refine ⟨le, fun eq => ?_⟩
        obtain ⟨j, lt, runs⟩ := off eq
        exact ⟨j, Nat.lt_succ_of_lt lt, runs⟩
    · obtain ⟨i, completes⟩ := executed
      exact step completes

theorem step_at_end (running : m.status = .running) (budget : m.exhausted? = none)
    (at_end : m.pc = c.memorySize) :
    m.step.1 = m.refused (.memory c.memorySize ⟨c.memorySize, 1, c.memorySize⟩) := by
  have size : m.memory.size = c.memorySize := sound.memory_size
  have fetched := fetch_at_end (size ▸ sound.addressable)
  rw [size, ← at_end] at fetched
  rw [step_of_running running]
  unfold stepRunning
  rw [budget, fetched, ← at_end]
  rfl

end Sound
end Machine

namespace Session

variable {c : Config} {s : Session}

theorem pc_confined [FloatUnit] (reached : Reachable c s) :
    (s.machine.status = .running → s.step.machine.status = .running →
      ∃ i, s.machine.due = .ok i ∧ i.Proceeds s.machine s.step.machine) ∧
    (∀ d t a, (Instruction.branch d t).size = 1 ∧ (Instruction.branchAddress d t a).size = 9) ∧
    (s.machine.status = .running → s.step.machine.status = .halted →
      s.machine.due = .ok .halt ∧ s.step.machine.pc = s.machine.pc) ∧
    (∀ n, (∃ k < n, ∃ i, (s.advance k).machine.Completes i) →
      (s.advance n).machine.pc ≤ c.memorySize ∧
      ((s.advance n).machine.pc = c.memorySize →
        ∃ k < n, ∃ i, (s.advance k).machine.RunsOff i)) ∧
    (s.machine.status = .running → s.machine.exhausted? = none →
      s.machine.pc = c.memorySize → s.step.machine =
        s.machine.refused (.memory c.memorySize ⟨c.memorySize, 1, c.memorySize⟩)) ∧
    (∀ t a pc u,
      ((Instruction.branch .zero t).effect pc).Opposed
        ((Instruction.branch .nonZero t).effect pc) u ∧
      ((Instruction.branchAddress .zero t a).effect pc).Opposed
        ((Instruction.branchAddress .nonZero t a).effect pc) u) ∧
    (∀ t rest (v : t.Val), s.machine.status = .running →
      s.machine.due = .ok (.compare .equal t) →
      s.machine.store.contents = rest ++ t.encode v ++ t.encode t.zero →
      ∃ r, s.step.machine.store.contents = rest ++ [r] ∧
        (r = 0xFF ↔ Condition.zero.Met t v)) ∧
    Condition.zero.Met .float ⟨0x8000000000000000⟩ ∧
    ∀ x : Binary64, x.isNaN → ¬ Condition.zero.Met .float x := by
  have sound := reached.sound
  simp only [machine_advance, machine_step]
  refine ⟨sound.proceeds_of_running, fun _ _ _ => ⟨rfl, rfl⟩, sound.stays_of_halted,
    sound.pc_after_le, sound.step_at_end, ?opposed, ?compared, by decide, ?missing⟩
  case opposed =>
    intro t a pc u
    exact ⟨Instruction.branch_opposed t pc u, Instruction.branchAddress_opposed t a pc u⟩
  case compared =>
    intro t rest v running due contents
    refine ⟨_, (sound.replaces_of_compare running due contents).contents_eq, ?_⟩
    rw [← CompareOp.equal_zero_iff]
    cases CompareOp.equal.eval t v t.zero <;> decide
  case missing =>
    intro x missing met
    rw [Condition.Met, Ty.number?, if_pos missing] at met
    cases met

/-- A push that ends with a memory of four bytes, and a jump for negative zero. -/
theorem push_runs_off :
    (∃ s, Reachable ⟨4, 2, none⟩ s ∧ (s.advance 1).machine.pc = 4 ∧
      (∃ k < 1, ∃ i, (s.advance k).machine.RunsOff i) ∧
      (s.advance 1).step.machine =
        (s.advance 1).machine.refused (.memory 4 ⟨4, 1, 4⟩)) ∧
    ∃ s, Reachable ⟨64, 16, none⟩ s ∧
      s.machine.due = .ok (.branchAddress .zero .float 5) ∧
      s.machine.store.contents = [] ++ Ty.float.encode ⟨0x8000000000000000⟩ ∧
      s.step.machine.pc = 5 := by
  constructor
  · have reached : Reachable ⟨4, 2, none⟩ _ :=
      .call (.setPc 2) (Reachable.loaded [0, 0, 0x08, 7] .silent rfl rfl) rfl
    refine ⟨_, reached, ?pc, ((pc_confined reached).2.2.2.1 1 ?executes).2 ?pc,
      (pc_confined (reached.advance 1)).2.2.2.2.1 ?running ?budget ?pc⟩
    case executes => exact ⟨0, by decide, .push .byte 7, by decide +kernel⟩
    case running => decide +kernel
    case budget => decide +kernel
    case pc => decide +kernel
  · have reached : Reachable ⟨64, 16, none⟩ _ :=
      (Reachable.loaded (Image.ofInstructions [.push .float ⟨0x8000000000000000⟩,
        .branchAddress .zero .float 5]) .silent rfl rfl).advance 1
    obtain ⟨proceeds, -, -, -, -, -, -, negative, -⟩ := pc_confined reached
    obtain ⟨i, due, goes⟩ := proceeds (by decide +kernel) (by decide +kernel)
    obtain rfl : i = .branchAddress .zero .float 5 :=
      Except.ok.inj (due.symm.trans (by decide +kernel))
    refine ⟨_, reached, due, ?contents,
      Int.ofNat_inj.1 (goes.jumps 5 (.branchAddress ?contents negative)).1⟩
    case contents => decide +kernel

end Session
end ByteMachine
