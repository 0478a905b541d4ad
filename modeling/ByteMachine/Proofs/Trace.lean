import Mathlib.Data.List.Chain
import ByteMachine.Proofs.Budget

/-! The events of a run are its log. Each describes the step that it comes from, and they follow
each other as the steps do. What is recorded does not depend on when a sink was put in. -/
namespace ByteMachine

namespace Instruction

/-- Whether the instruction may go on elsewhere than behind itself. -/
def jumps : Instruction → Bool
  | ret | jmp _ | branch _ _ | branchAddress _ _ _ | call | callAddress _ => true
  | _ => false

theorem flow_eq_next {i : Instruction} {s : Store} (stays : i.jumps = false)
    (running : (i.flow s).status = .running) : i.flow s = .next := by
  cases i with
  | halt => cases running
  | ret | jmp _ | branch _ _ | branchAddress _ _ _ | call | callAddress _ => cases stays
  | _ => rfl

end Instruction

namespace Event

/-- The event tells of a step from one machine to the next. -/
structure Describes (e : Event) (m m' : Machine) : Prop where
  pc_eq : e.pc = m.pc
  instruction?_eq_some_iff : ∀ i, e.instruction? = some i ↔
    m.exhausted? = none ∧ Machine.fetch m.memory m.pc = .ok i
  pointer_eq : e.pointer = m'.stack.pointer
  pointer_of_faulted : ∀ error, e.outcome = .faulted error → e.pointer = m.stack.pointer
  outcome_eq : e.outcome = m'.status

/-- One event right before another. -/
def Precedes (e next : Event) : Prop :=
  e.outcome = .running ∧
    ∃ i, e.instruction? = some i ∧ (i.jumps = false → next.pc = e.pc + i.size)

end Event

namespace Machine

variable [FloatUnit]

/-- Steps one after the other, each of a running machine, with their events. -/
inductive Logs : Machine → List Event → Machine → Prop
  | nil (m : Machine) : Logs m [] m
  | cons {m next last : Machine} {e : Event} {log : List Event} :
      m.status = .running → m.step = (next, some e) → e.Describes m next →
      Logs next log last → Logs m (e :: log) last

/-- The log tells all that the steps between two machines did. -/
structure Faithful (m : Machine) (log : List Event) (last : Machine) : Prop where
  logs : m.Logs log last
  running_of_mem_dropLast : ∀ e ∈ log.dropLast, e.outcome = .running
  located : ∀ e ∈ log, ∀ error, e.outcome = .faulted error → error.pc? = some e.pc
  counted : (log.filterMap Event.executed?).length + m.steps = last.steps
  isChain : log.IsChain Event.Precedes

/-- The events of some steps. -/
def trace : Nat → Machine → List Event
  | 0, _ => []
  | n + 1, m => m.step.2.toList ++ trace n m.step.1

variable {c : Config} {m m' last : Machine} {e : Event} {log : List Event}

theorem trace_of_ne_running (n : Nat) (h : m.status ≠ .running) : m.trace n = [] := by
  induction n with
  | zero => rfl
  | succ n ih =>
    rw [trace, step_of_ne_running h, ih]
    rfl

theorem trace_add (j k : Nat) (m : Machine) :
    m.trace (j + k) = m.trace j ++ (m.after j).trace k := by
  induction j generalizing m with
  | zero => rw [Nat.zero_add, trace, after, List.nil_append]
  | succ j ih => rw [Nat.succ_add, trace, ih, trace, after, List.append_assoc]

theorem executed_eq (n : Nat) (m : Machine) :
    m.executed n = (m.trace n).filterMap Event.executed? := by
  induction n generalizing m with
  | zero => rfl
  | succ n ih =>
    rw [executed, trace, List.filterMap_append, ih]
    cases m.step.2 with
    | none => rfl
    | some e => cases executed : e.executed? <;> simp [executed]

theorem Transition.describes (t : m.Transition m' e) : e.Describes m m' := by
  have due (i : Instruction) : m.due = .ok i ↔
      m.exhausted? = none ∧ fetch m.memory m.pc = .ok i := due_eq_ok_iff
  cases t with
  | refused refusal =>
    refine ⟨rfl, fun i => ?_, rfl, fun _ _ => rfl, rfl⟩
    rw [← due, refusal]
    exact iff_of_false nofun nofun
  | undone executed _ =>
    refine ⟨rfl, fun i => ?_, rfl, fun _ _ => rfl, rfl⟩
    rw [← due, executed, Option.some.injEq, Except.ok.injEq]
  | @done j executed _ =>
    refine ⟨rfl, fun i => ?_, rfl, fun error failed => ?_, rfl⟩
    · rw [← due, executed, Option.some.injEq, Except.ok.injEq]
    · exact absurd failed (Flow.status_ne_faulted _ error)

theorem Transition.located (t : m.Transition m' e) {error : MachineError}
    (failed : e.outcome = .faulted error) : error.pc? = some e.pc := by
  cases t with
  | refused due =>
    cases failed
    exact pc?_of_due due
  | undone _ _ =>
    cases failed
    exact Fault.pc?_located _ _
  | done _ _ => exact absurd failed (Flow.status_ne_faulted _ error)

theorem Transition.precedes {next : Event} (t : m.Transition m' e) (running : m'.status = .running)
    (pc_eq : next.pc = m'.pc) : e.Precedes next := by
  refine ⟨t.describes.outcome_eq.trans running, ?_⟩
  cases t with
  | refused _ | undone _ _ => cases running
  | @done i _ _ =>
    refine ⟨i, rfl, fun stays => pc_eq.trans ?_⟩
    change (i.flow m.store).pc m.pc i.size = m.pc + i.size
    rw [Instruction.flow_eq_next stays running]
    rfl

namespace Sound

variable (sound : m.Sound c)
include sound

theorem transition_of_step (step : m.step = (m', some e)) : m.Transition m' e := by
  by_cases running : m.status = .running
  · rw [step_of_running running] at step
    cases step
    exact Machine.transition (sound.live running)
  · rw [step_of_ne_running running] at step
    cases step

theorem of_step (step : m.step = (m', some e)) : m'.Sound c := by
  have next := sound.step
  rwa [step] at next

theorem logs_trace (n : Nat) : m.Logs (m.trace n) (m.after n) := by
  induction n generalizing m with
  | zero => exact .nil m
  | succ n ih =>
    by_cases running : m.status = .running
    · obtain ⟨next, e, step, moved⟩ := sound.exists_transition running
      have rest := ih sound.step
      rw [step] at rest
      rw [trace, Machine.after, step]
      exact .cons running step moved.describes rest
    · rw [trace_of_ne_running _ running, after_of_ne_running _ running]
      exact .nil m

end Sound

namespace Logs

variable (logs : m.Logs log last) (sound : m.Sound c)
include logs

theorem running_of_mem_dropLast : ∀ e ∈ log.dropLast, e.outcome = .running := by
  induction logs with
  | nil m => exact List.forall_mem_nil _
  | cons _ _ describes rest ih =>
    cases rest with
    | nil => exact List.forall_mem_nil _
    | cons running _ _ _ =>
      rw [List.dropLast_cons_cons]
      exact List.forall_mem_cons.2 ⟨describes.outcome_eq.trans running, ih⟩

include sound

theorem located : ∀ e ∈ log, ∀ error, e.outcome = .faulted error → error.pc? = some e.pc := by
  induction logs with
  | nil m => exact List.forall_mem_nil _
  | cons _ step _ _ ih =>
    have first := sound.transition_of_step step
    exact List.forall_mem_cons.2 ⟨fun _ => first.located, ih (sound.of_step step)⟩

theorem isChain : log.IsChain Event.Precedes := by
  induction logs with
  | nil m => exact .nil
  | cons _ step _ rest ih =>
    have first := sound.transition_of_step step
    have tail := ih (sound.of_step step)
    cases rest with
    | nil => exact .singleton _
    | cons running _ describes _ =>
      exact .cons_cons (first.precedes running describes.pc_eq) tail

end Logs

theorem Sound.faithful_trace (sound : m.Sound c) (n : Nat) :
    m.Faithful (m.trace n) (m.after n) where
  logs := sound.logs_trace n
  running_of_mem_dropLast := (sound.logs_trace n).running_of_mem_dropLast
  located := (sound.logs_trace n).located sound
  counted := by rw [← executed_eq, sound.length_executed]
  isChain := (sound.logs_trace n).isChain sound

end Machine

/-- The call only makes the machine step. -/
def Call.steps : Call → Bool
  | step | run _ => true
  | load _ | setPc _ | withSink _ => false

def Sink.events : Sink → List Event
  | recording events => events.toList
  | silent | logging => []

namespace Session

/-- The session has a recording sink with these events. -/
def Records (s : Session) (log : List Event) : Prop := s.sink = .recording log.toArray

variable {s t : Session} {m : Machine} {log : List Event}

theorem Records.events_eq (records : s.Records log) : s.sink.events = log := by
  rw [Records] at records
  rw [records, Sink.events]

section

variable [FloatUnit]

def calls? (ks : List Call) (s : Session) : Option Session := ks.foldlM (fun s k => s.call? k) s

/-- Each group of calls is given a recording sink of its own. The recordings are put together. -/
def relay? : List (List Call) → Session → Option (List Event × Session)
  | [], s => some ([], s)
  | ks :: rest, s =>
    ((s.withSink (.recording #[])).calls? ks).bind fun t =>
      (t.relay? rest).map (Prod.map (t.sink.events ++ ·) id)

theorem Records.step (records : s.Records log) :
    s.step.Records (log ++ s.machine.step.2.toList) := by
  obtain ⟨m, sink, entries⟩ := s
  obtain rfl : sink = .recording log.toArray := records
  unfold Records Session.step
  dsimp only
  cases m.step with
  | mk after event =>
    cases event with
    | none => simp
    | some e => simp [note]

theorem extends_advance {R : Session → List Event → Prop}
    (step : ∀ s log, R s log → R s.step (log ++ s.machine.step.2.toList)) (n : Nat)
    (h : R s log) : R (s.advance n) (log ++ s.machine.trace n) := by
  induction n generalizing s log with
  | zero => rwa [Machine.trace, List.append_nil]
  | succ n ih =>
    by_cases running : s.machine.status = .running
    · have rest := ih (step s log h)
      rw [machine_step, List.append_assoc, ← Machine.trace] at rest
      simpa only [Session.advance, running] using rest
    · rwa [advance_of_ne_running _ running, Machine.trace_of_ne_running _ running,
        List.append_nil]

theorem Records.advance (n : Nat) (records : s.Records log) :
    (s.advance n).Records (log ++ s.machine.trace n) :=
  extends_advance (fun _ _ records => records.step) n records

/-- What comes of calls on a machine, whatever has been recorded before: no answer, or some steps
and their events. -/
inductive Advances (m : Machine) (calls : Session → Option Session) : Prop
  | never : (∀ s log, s.machine = m → s.Records log → calls s = none) → Advances m calls
  | after (n : Nat) : (∀ s log, s.machine = m → s.Records log →
      ∃ t, calls s = some t ∧ t.machine = m.after n ∧ t.Records (log ++ m.trace n)) →
      Advances m calls

theorem Advances.bind {first second : Session → Option Session} (h : Advances m first)
    (next : ∀ n, Advances (m.after n) second) : Advances m fun s => (first s).bind second := by
  cases h with
  | never never =>
    apply Advances.never
    intro s log same records
    rw [never s log same records, Option.bind_none]
  | after j first_after =>
    cases next j with
    | never never =>
      apply Advances.never
      intro s log same records
      obtain ⟨t, first_eq, at_t, records⟩ := first_after s log same records
      rw [first_eq, Option.bind_some, never t _ at_t records]
    | after k second_after =>
      apply Advances.after (j + k)
      intro s log same records
      obtain ⟨t, first_eq, at_t, records⟩ := first_after s log same records
      obtain ⟨u, second_eq, at_u, records⟩ := second_after t _ at_t records
      refine ⟨u, ?_, ?_, ?_⟩
      · rw [first_eq, Option.bind_some, second_eq]
      · rw [at_u, Machine.after_add]
      · rwa [Machine.trace_add, ← List.append_assoc]

theorem advances_call? {k : Call} (steps : k.steps) (m : Machine) : Advances m (call? k) := by
  cases k with
  | load _ | setPc _ | withSink _ => cases steps
  | step =>
    apply Advances.after 1
    rintro s log rfl records
    refine ⟨s.step, rfl, machine_step s, ?_⟩
    rw [Machine.trace, Machine.trace, List.append_nil]
    exact records.step
  | run fuel =>
    by_cases going : (m.after fuel).status = .running
    · apply Advances.never
      rintro s log rfl -
      apply if_pos
      rwa [machine_advance]
    · apply Advances.after fuel
      rintro s log rfl records
      have begun : (s.write (.runStart s.machine.pc)).Records log := records
      have ended := machine_advance fuel (s.write (.runStart s.machine.pc))
      exact ⟨_, run?_eq_some rfl (ended ▸ going), ended, begun.advance fuel⟩

theorem advances_calls? {ks : List Call} (steps : ∀ k ∈ ks, k.steps) (m : Machine) :
    Advances m (calls? ks) := by
  induction ks generalizing m with
  | nil =>
    apply Advances.after 0
    intro s log same records
    exact ⟨s, rfl, same, by rwa [Machine.trace, List.append_nil]⟩
  | cons k ks ih =>
    obtain ⟨first, rest⟩ := List.forall_mem_cons.1 steps
    exact (advances_call? first m).bind fun n => ih rest (m.after n)

theorem calls?_append (ks more : List Call) (s : Session) :
    s.calls? (ks ++ more) = (s.calls? ks).bind (calls? more) := List.foldlM_append

/-- What the recordings of the groups make together is what one recording of all the calls adds
to the events that it has. -/
theorem relay?_eq {kss : List (List Call)} (steps : ∀ ks ∈ kss, ∀ k ∈ ks, k.steps)
    (same : s.machine = t.machine) (records : t.Records log) :
    (s.relay? kss).map (Prod.map (log ++ ·) machine) =
      (t.calls? kss.flatten).map fun last => (last.sink.events, last.machine) := by
  -- The two sessions differ in what they have recorded: each group begins anew in the one and goes
  -- on in the other.
  induction kss generalizing s t log with
  | nil => simp [relay?, calls?, same, records.events_eq]
  | cons ks kss ih =>
    obtain ⟨first, rest⟩ := List.forall_mem_cons.1 steps
    rw [relay?, List.flatten_cons, calls?_append]
    have fresh : (s.withSink (.recording #[])).Records [] := rfl
    have at_s : (s.withSink (.recording #[])).machine = t.machine := same
    cases advances_calls? first t.machine with
    | never never =>
      rw [never _ [] at_s fresh, never t log rfl records]
      rfl
    | after n after =>
      obtain ⟨u, calls_u, at_u, records_u⟩ := after _ [] at_s fresh
      obtain ⟨v, calls_v, at_v, records_v⟩ := after t log rfl records
      rw [List.nil_append] at records_u
      rw [calls_u, calls_v, Option.bind_some, Option.bind_some,
        ← ih rest (at_u.trans at_v.symm) records_v, Option.map_map, records_u.events_eq]
      congr 1
      funext r
      exact congrArg (·, r.2.machine) (List.append_assoc ..).symm

theorem trace_faithful {c : Config} {old : List Event} (reached : Reachable c s)
    (records : s.Records old) :
    (s.machine.status ≠ .running → s.step = s) ∧
    (s.machine.status = .running →
      ∃ e, s.step.Records (old ++ [e]) ∧ e.Describes s.machine s.step.machine) ∧
    (∀ n, ∃ log, (s.advance n).Records (old ++ log) ∧
      s.machine.Faithful log (s.advance n).machine) ∧
    ∀ ks, (∀ k ∈ ks, k.steps) → ∀ t, s.calls? ks = some t →
      (∃ log, t.Records (old ++ log) ∧ s.machine.Faithful log t.machine) ∧
      ∀ kss : List (List Call), (∀ ks ∈ kss, ∀ k ∈ ks, k.steps) →
        (t.relay? kss).map (Prod.map (t.sink.events ++ ·) machine) =
          (s.calls? (ks ++ kss.flatten)).map fun last => (last.sink.events, last.machine) := by
  have sound := reached.sound
  refine ⟨step_of_ne_running, ?_, ?_, ?_⟩
  · intro running
    obtain ⟨next, e, step, moved⟩ := sound.exists_transition running
    have recorded := records.step
    rw [step] at recorded
    rw [machine_step, step]
    exact ⟨e, recorded, moved.describes⟩
  · intro n
    rw [machine_advance]
    exact ⟨_, records.advance n, sound.faithful_trace n⟩
  · intro ks steps t calls
    cases advances_calls? steps s.machine with
    | never never =>
      rw [never s old rfl records] at calls
      cases calls
    | after n after =>
      obtain ⟨u, calls_u, at_u, records_u⟩ := after s old rfl records
      obtain rfl : u = t := Option.some.inj (calls_u.symm.trans calls)
      refine ⟨⟨_, records_u, at_u ▸ sound.faithful_trace n⟩, ?_⟩
      intro kss steps
      rw [calls?_append, calls, Option.bind_some, records_u.events_eq]
      exact relay?_eq steps rfl records_u

end

theorem division_by_zero_recorded : ∃ s t, Reachable ⟨64, 16, none⟩ s ∧ s.Records [] ∧
    s.machine.status = .running ∧
    (∃ e, s.step.Records [e] ∧ e.Describes s.machine s.step.machine) ∧
    s.calls? [.step, .step] = some t ∧
    (∃ log, t.Records log ∧ s.machine.Faithful log t.machine) ∧
    (t.relay? [[.step], [.run 2]]).map (Prod.map (t.sink.events ++ ·) machine) =
      (s.calls? [.step, .step, .step, .run 2]).map (fun last =>
        (last.sink.events, last.machine)) ∧
    (s.calls? [.step, .step, .step, .run 2]).map (·.sink.events) =
      some [⟨0, some (.push .byte 1), 1, .running⟩, ⟨2, some (.push .byte 0), 2, .running⟩,
        ⟨4, some (.arith .div .byte), 2, .faulted (.divisionByZero 4)⟩] := by
  have reached : Reachable ⟨64, 16, none⟩ _ :=
    Reachable.loaded [0x08, 1, 0x08, 0, 0x4C] (.recording #[]) rfl rfl
  obtain ⟨-, one, -, many⟩ := trace_faithful reached (show Records _ [] from rfl)
  have both := many [.step, .step] (by decide) _ rfl
  exact ⟨_, _, reached, rfl, rfl, one rfl, rfl, both.1,
    both.2 [[.step], [.run 2]] (by decide), by decide +kernel⟩

end Session
end ByteMachine
