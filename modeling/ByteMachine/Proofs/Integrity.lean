import ByteMachine.Proofs.Confinement

/-! Code integrity: a program with a confined listing is executed as it is listed, in runs of any
length, and from the first line to the last if the listing has no jump. -/
namespace ByteMachine

variable {c : Config} {p : Image} {l : List (Nat × Instruction)}

namespace Machine

variable {m m' : Machine} {i : Instruction} {event : Event}

theorem Transition.executed [FloatUnit] (t : m.Transition m' event)
    (fetched : fetch m.memory m.pc = .ok i) :
    event.pc = m.pc ∧ (m.exhausted? = none → event.instruction? = some i) := by
  cases t with
  | refused due =>
    refine ⟨rfl, ?_⟩
    intro budget
    exact nomatch due.symm.trans (due_eq_ok_iff.2 ⟨budget, fetched⟩)
  | undone due _ | done due _ =>
    obtain rfl := Except.ok.inj (fetched.symm.trans (due_eq_ok_iff.1 due).2)
    exact ⟨rfl, fun _ => rfl⟩

theorem Transition.executed?_eq [FloatUnit] (t : m.Transition m' event)
    (fetched : fetch m.memory m.pc = .ok i) :
    event.executed? = some (m.pc, i) ∨ event.executed? = none ∧ m'.status ≠ .running := by
  cases t with
  | refused _ => exact .inr ⟨rfl, nofun⟩
  | undone due _ | done due _ =>
    obtain rfl := Except.ok.inj (fetched.symm.trans (due_eq_ok_iff.1 due).2)
    exact .inl rfl

/-- The code is as it was loaded, and the machine has come to a line of the listing. -/
structure Aligned (c : Config) (p : Image) (l : List (Nat × Instruction)) (m : Machine) : Prop
    extends m.Sound c where
  code : p <+: m.memory.bytes.toList
  listed : ∃ i, (m.pc, i) ∈ l
  located : ∀ e, m.status = .faulted e → e.pc? = some m.pc ∧ e.isStray = false

namespace Aligned

variable (closed : p.Confined l) (room : p.length ≤ c.memorySize - c.stackSize)
  (aligned : m.Aligned c p l)
include closed room aligned

theorem fetched (mem : (m.pc, i) ∈ l) : fetch m.memory m.pc = .ok i := by
  have small := aligned.addressable
  exact closed.fetch_of_mem aligned.code (by omega) mem

theorem mem_of_due (due : m.due = .ok i) : (m.pc, i) ∈ l := by
  obtain ⟨j, mem⟩ := aligned.listed
  have eq := aligned.fetched closed room mem
  obtain rfl := Except.ok.inj (eq.symm.trans (due_eq_ok_iff.1 due).2)
  exact mem

theorem refusal {e : MachineError} (due : m.due = .error e) :
    ∃ limit, m.exhausted? = some limit ∧ e = .stepLimitExceeded m.pc limit := by
  obtain refusal | ⟨-, f, failed, -⟩ := due_eq_error due
  · exact refusal
  · obtain ⟨j, mem⟩ := aligned.listed
    exact nomatch failed.symm.trans (aligned.fetched closed room mem)

/-- A jump never misses: its target is the offset of a line, and all lines are in memory. -/
theorem isStray_of_fault {f : Fault} (due : m.due = .ok i) (fault : i.fault? m.store = some f) :
    (f.located m.pc).isStray = false := by
  have mem := aligned.mem_of_due closed room due
  obtain ⟨-, rfl⟩ | ⟨-, check | ⟨-, -, rfl⟩⟩ := Instruction.fault?_eq_some_iff.1 fault
  · rfl
  · obtain ⟨e, rfl | rfl⟩ | rfl | ⟨address, rfl⟩ := Instruction.check?_eq_some check
    · rfl
    · rfl
    · rfl
    · obtain ⟨target, stands, astray⟩ := Instruction.astray_of_check? (closed.confined _ mem) check
      obtain ⟨y, y_mem, eq⟩ := closed.targets _ mem target stands
      have outside := (Store.astray?_eq_some_iff.1 astray).1
      have inside := closed.offset_lt y_mem
      have size : m.store.memory.size = c.memorySize := aligned.memory_size
      omega
  · rfl

variable [FloatUnit]

theorem listed_of_done (due : m.due = .ok i) : ∃ j, ((m.done i).pc, j) ∈ l := by
  have mem := aligned.mem_of_due closed room due
  change ∃ j, ((i.flow m.store).pc m.pc i.size, j) ∈ l
  obtain ⟨-, eq⟩ | ⟨going, eq⟩ | ⟨target, stands, eq⟩ :=
    Instruction.flow_of_isConfined (closed.confined _ mem) m.store
  · rw [eq]
    exact ⟨i, mem⟩
  · rw [eq]
    obtain ⟨k, this⟩ := List.getElem?_of_mem mem
    obtain ⟨j, that⟩ := closed.next this going
    exact ⟨j, List.mem_of_getElem? that⟩
  · rw [eq]
    obtain ⟨⟨offset, j⟩, j_mem, eq⟩ := closed.targets _ mem target stands
    refine ⟨j, ?_⟩
    rw [Flow.pc, eq, Int.toNat_natCast]
    exact j_mem

theorem transition (running : m.status = .running) (t : m.Transition m' event) :
    m'.Aligned c p l := by
  have sound := aligned.toSound.transition running t
  cases t with
  | refused due =>
    refine ⟨sound, aligned.code, aligned.listed, ?_⟩
    intro e failed
    cases failed
    obtain ⟨limit, -, rfl⟩ := aligned.refusal closed room due
    exact ⟨rfl, rfl⟩
  | @undone i f due fault =>
    refine ⟨sound, aligned.code, aligned.listed, ?_⟩
    intro e failed
    cases failed
    exact ⟨f.pc?_located m.pc, aligned.isStray_of_fault closed room due fault⟩
  | @done i due clear =>
    have mem := aligned.mem_of_due closed room due
    refine ⟨sound, ?_, aligned.listed_of_done closed room due, ?_⟩
    · apply Memory.prefix_overwrite _ aligned.code
      have above : m.stack.base ≤ i.place m.store :=
        Instruction.base_le_place (closed.confined _ mem)
      have base := aligned.base_add_size
      have size := aligned.stack_size
      omega
    · intro e failed
      exact absurd failed (Flow.status_ne_faulted _ e)

theorem step : m.step.1.Aligned c p l :=
  aligned.toSound.keeps_step (fun running t aligned => aligned.transition closed room running t)
    aligned

theorem after (n : Nat) : (m.after n).Aligned c p l :=
  keeps_after (fun _ aligned => aligned.step closed room) n aligned

end Aligned

/-- What a machine is like that runs as `l` lists its program. -/
structure Follows [FloatUnit] (c : Config) (p : Image) (l : List (Nat × Instruction)) (m : Machine) :
    Prop extends m.Aligned c p l where
  fetched : ∀ i, (m.pc, i) ∈ l → fetch m.memory m.pc = .ok i
  executed : ∀ i event, (m.pc, i) ∈ l → m.step.2 = some event →
    event.pc = m.pc ∧ (m.exhausted? = none → event.instruction? = some i)

theorem Aligned.follows [FloatUnit] (closed : p.Confined l)
    (room : p.length ≤ c.memorySize - c.stackSize) (aligned : m.Aligned c p l) :
    m.Follows c p l where
  toAligned := aligned
  fetched := fun _ mem => aligned.fetched closed room mem
  executed := by
    intro i event mem eq
    by_cases running : m.status = .running
    · rw [step_of_running running] at eq
      cases eq
      have fetched := aligned.fetched closed room mem
      exact (Machine.transition (aligned.live running)).executed fetched
    · rw [step_of_ne_running running] at eq
      cases eq

/-- What a machine is like `n` steps into a listing without jumps. It is at line `n`, or it has
stopped at the last line or at the line `k` that failed, executed or not. -/
structure InOrder (l : List (Nat × Instruction)) (n : Nat) (m : Machine) : Prop where
  running : m.status = .running → m.steps = n ∧ ∃ i, l[n]? = some (m.pc, i)
  halted : m.status = .halted → m.steps = l.length
  faulted : ∀ e, m.status = .faulted e → ∃ k i, k < n ∧ l[k]? = some (m.pc, i) ∧
    (m.steps = k + 1 ∧ (∀ q limit, e ≠ .stepLimitExceeded q limit) ∨
      m.steps = k ∧ ∃ limit, e = .stepLimitExceeded m.pc limit ∧ m.maxSteps = some limit ∧
        limit ≤ k)

namespace InOrder

variable {n : Nat} (closed : p.Confined l) (straight : ∀ x ∈ l, x.2.target? = none)
  (room : p.length ≤ c.memorySize - c.stackSize) (aligned : m.Aligned c p l)
include closed straight room aligned

variable [FloatUnit]

theorem transition (inOrder : m.InOrder l n) (running : m.status = .running)
    (t : m.Transition m' event) : m'.InOrder l (n + 1) := by
  obtain ⟨steps, j, this⟩ := inOrder.running running
  cases t with
  | refused due =>
    obtain ⟨limit, spent, rfl⟩ := aligned.refusal closed room due
    obtain ⟨budget, used⟩ := exhausted?_eq_some_iff.1 spent
    refine ⟨nofun, nofun, ?_⟩
    intro e failed
    cases failed
    exact ⟨n, j, Nat.lt_succ_self n, this, .inr ⟨steps, limit, rfl, budget, steps ▸ used⟩⟩
  | @undone i f due fault =>
    refine ⟨nofun, nofun, ?_⟩
    intro e failed
    cases failed
    exact ⟨n, j, Nat.lt_succ_self n, this,
      .inl ⟨congrArg (· + 1) steps, f.located_ne_stepLimitExceeded m.pc⟩⟩
  | @done i due clear =>
    have mem := List.mem_of_getElem? this
    have eq := aligned.fetched closed room mem
    obtain rfl := Except.ok.inj (eq.symm.trans (due_eq_ok_iff.1 due).2)
    have status : (m.done j).status = (j.flow m.store).status := rfl
    have pc : (m.done j).pc = (j.flow m.store).pc m.pc j.size := rfl
    have counted : (m.done j).steps = n + 1 := congrArg (· + 1) steps
    have unfailed (e : MachineError) := Flow.status_ne_faulted (j.flow m.store) e
    obtain ⟨rfl, flow⟩ | ⟨going, flow⟩ | ⟨target, stands, -⟩ :=
      Instruction.flow_of_isConfined (closed.confined _ mem) m.store
    · refine ⟨?_, fun _ => counted.trans (closed.last this), fun e h => absurd h (unfailed e)⟩
      rw [status, flow]
      exact nofun
    · refine ⟨fun _ => ⟨counted, ?_⟩, ?_, fun e h => absurd h (unfailed e)⟩
      · rw [pc, flow]
        exact closed.next this going
      · rw [status, flow]
        exact nofun
    · exact nomatch stands.symm.trans (straight _ mem)

theorem step (inOrder : m.InOrder l n) : m.step.1.InOrder l (n + 1) := by
  by_cases running : m.status = .running
  · rw [step_of_running running]
    exact transition closed straight room aligned inOrder running
      (Machine.transition (aligned.live running))
  · rw [step_of_ne_running running]
    refine ⟨fun h => absurd h running, inOrder.halted, ?_⟩
    intro e failed
    obtain ⟨k, i, lt, at_k, steps⟩ := inOrder.faulted e failed
    exact ⟨k, i, Nat.lt_succ_of_lt lt, at_k, steps⟩

theorem after (inOrder : m.InOrder l 0) (n : Nat) : (m.after n).InOrder l n := by
  induction n with
  | zero => exact inOrder
  | succ n ih =>
    rw [after_succ]
    exact step closed straight room (aligned.after closed room n) ih

theorem prefix_executed (inOrder : m.InOrder l n) (k : Nat) : m.executed k <+: l.drop n := by
  induction k generalizing m n with
  | zero => exact List.nil_prefix
  | succ k ih =>
    by_cases running : m.status = .running
    · obtain ⟨-, i, this⟩ := inOrder.running running
      obtain ⟨inside, line⟩ := List.getElem?_eq_some_iff.1 this
      have rest := ih (aligned.step closed room) (step closed straight room aligned inOrder)
      have fetched := aligned.fetched closed room (List.mem_of_getElem? this)
      have event := (Machine.transition (aligned.live running)).executed?_eq fetched
      have moved := step_of_running running
      simp only [moved] at rest
      simp only [executed, moved, Option.bind_some]
      obtain this | ⟨nothing, stopped⟩ := event
      · rw [this, List.drop_eq_getElem_cons inside, line]
        exact List.cons_prefix_cons.2 ⟨rfl, rest⟩
      · rw [nothing, executed_of_ne_running _ stopped]
        exact List.nil_prefix
    · rw [executed_of_ne_running _ running]
      exact List.nil_prefix

theorem executed_eq_take (inOrder : m.InOrder l 0) (unstarted : m.steps = 0) (k : Nat) :
    m.executed k = l.take (m.after k).steps := by
  have counted := aligned.length_executed k
  rw [unstarted, Nat.add_zero] at counted
  rw [← counted]
  exact List.prefix_iff_eq_take.1 (prefix_executed closed straight room aligned inOrder k)

omit closed straight room aligned

omit [FloatUnit] in
theorem ne_running (inOrder : m.InOrder l l.length) : m.status ≠ .running := by
  intro running
  obtain ⟨-, i, beyond⟩ := inOrder.running running
  exact absurd (List.getElem?_eq_some_iff.1 beyond).1 (Nat.lt_irrefl _)

omit [FloatUnit] in
theorem ne_stepLimitExceeded {e : MachineError} (inOrder : m.InOrder l n)
    (failed : m.status = .faulted e) (enough : ∀ limit, m.maxSteps = some limit → l.length ≤ limit)
    (q limit : Nat) : e ≠ .stepLimitExceeded q limit := by
  intro eq
  obtain ⟨k, i, -, line, ⟨-, other⟩ | ⟨-, spent, -, budget, used⟩⟩ := inOrder.faulted e failed
  · exact other q limit eq
  · have inside := (List.getElem?_eq_some_iff.1 line).1
    have large := enough spent budget
    omega

end InOrder

theorem aligned_of_load {loaded : Machine} (closed : p.Confined l) (fresh : ofConfig c = .ok m)
    (loads : m.load p = .ok loaded) :
    loaded.steps = 0 ∧ loaded.Aligned c p l ∧ loaded.InOrder l 0 := by
  have sound := (sound_ofConfig fresh).load loads
  obtain ⟨-, rfl⟩ := ofConfig_eq_ok_iff.1 fresh
  obtain ⟨fits, rfl⟩ := load_eq_ok_iff.1 loads
  obtain ⟨i, first⟩ := closed.first
  refine ⟨rfl, ⟨sound, Memory.prefix_overwrite_zero fits, ?_, nofun⟩, ⟨?_, nofun, nofun⟩⟩
  · exact ⟨i, List.mem_of_getElem? first⟩
  · intro _
    exact ⟨rfl, i, first⟩

end Machine

namespace Session

theorem confined_listing_followed [FloatUnit] (valid : c.validate = .ok ())
    (room : p.length ≤ c.memorySize - c.stackSize) (closed : p.Confined l) :
    ∃ m loaded, Machine.ofConfig c = .ok m ∧ m.load p = .ok loaded ∧ ∀ sink,
      (∀ n, ((start loaded sink).advance n).machine.Follows c p l) ∧
      ((∀ x ∈ l, x.2.target? = none) →
        (∀ n, ((start loaded sink).advance n).machine.InOrder l n ∧ loaded.executed n =
          l.take ((start loaded sink).advance n).machine.steps) ∧
        ∃ t, (start loaded sink).run? l.length = some t ∧
          (t.machine.status = .halted ∧ t.machine.steps = l.length ∨
            ∃ e, t.machine.status = .faulted e ∧
              ((∀ limit, c.maxSteps = some limit → l.length ≤ limit) →
                ∀ q limit, e ≠ .stepLimitExceeded q limit))) := by
  obtain ⟨m, fresh⟩ : ∃ m, Machine.ofConfig c = .ok m :=
    ⟨_, Machine.ofConfig_eq_ok_iff.2 ⟨Config.validate_eq_ok_iff.1 valid, rfl⟩⟩
  have sound := Machine.sound_ofConfig fresh
  obtain ⟨loaded, loads⟩ : ∃ loaded, m.load p = .ok loaded := by
    refine ⟨_, Machine.load_eq_ok_iff.2 ⟨?_, rfl⟩⟩
    rw [sound.memory_size]
    exact Nat.le_trans room (Nat.sub_le _ _)
  obtain ⟨unstarted, aligned, inOrder⟩ := Machine.aligned_of_load closed fresh loads
  refine ⟨m, loaded, fresh, loads, fun sink => ⟨?_, fun straight => ?_⟩⟩
  · intro n
    rw [machine_advance]
    exact (aligned.after closed room n).follows closed room
  · have along (n : Nat) : ((start loaded sink).advance n).machine.InOrder l n := by
      rw [machine_advance]
      exact inOrder.after closed straight room aligned n
    obtain ⟨t, runs, same⟩ := exists_run? (along l.length).ne_running
    refine ⟨fun n => ⟨along n, ?_⟩, t, runs, ?_⟩
    · rw [machine_advance]
      exact inOrder.executed_eq_take closed straight room aligned unstarted n
    · have ends : t.machine.InOrder l l.length := same ▸ along l.length
      have configured : t.machine.maxSteps = c.maxSteps := by
        rw [same, machine_advance]
        exact (aligned.after closed room l.length).maxSteps_eq
      cases status : t.machine.status with
      | running => exact absurd status ends.ne_running
      | halted => exact .inl ⟨rfl, ends.halted status⟩
      | faulted e =>
        refine .inr ⟨e, rfl, ?_⟩
        rw [← configured]
        exact ends.ne_stepLimitExceeded status

/-- A loop that counts down from two, with its jump back to offset 2. -/
theorem countdown_listing_followed : ∃ (p : Image) (l : List (Nat × Instruction)),
    p.Confined l ∧ (14, .branchAddress .nonZero .byte 2) ∈ l ∧
    ∃ m loaded, Machine.ofConfig ⟨64, 16, none⟩ = .ok m ∧ m.load p = .ok loaded ∧
      ∀ sink n, ((start loaded sink).advance n).machine.Follows ⟨64, 16, none⟩ p l := by
  have closed : (Image.ofInstructions [.push .byte 2, .push .byte 1, .arith .sub .byte,
      .getStack .byte (-1), .branchAddress .nonZero .byte 2, .halt]).Confined
      [(0, .push .byte 2), (2, .push .byte 1), (4, .arith .sub .byte),
      (5, .getStack .byte (-1)), (14, .branchAddress .nonZero .byte 2), (23, .halt)] := by
    refine ⟨?_, ⟨23, rfl⟩, by decide, ?_⟩
    · simp only [Image.disassemble, Image.ofInstructions, List.flatMap_cons, List.flatMap_nil,
        Image.disassembleFrom_encode]
      rfl
    · intro x mem target stands
      simp only [List.mem_cons, List.not_mem_nil, or_false] at mem
      obtain rfl | rfl | rfl | rfl | rfl | rfl := mem
      all_goals cases stands
      exact ⟨(2, .push .byte 1), .tail _ (.head _), rfl⟩
  obtain ⟨m, loaded, fresh, loads, runs⟩ :=
    confined_listing_followed (c := ⟨64, 16, none⟩) rfl (by decide) closed
  exact ⟨_, _, closed, by decide, m, loaded, fresh, loads, fun sink => (runs sink).1⟩

end Session
end ByteMachine
