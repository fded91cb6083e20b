import Mathlib.Tactic.SplitIfs
import TernaryMachine.Debugger
import TernaryMachine.Proofs.Slicing

/-!
Continuous runs of a debugging session, told in steps of its machine. A tick performs one step after
the other. It ends where the machine is halted or stands at a breakpoint, behind a step that failed,
or when the steps of a tick are used up. Without breakpoints the ticks of a continuous run are
slices of one limited run of the machine, its failure included.
-/

set_option autoImplicit false
set_option relaxedAutoImplicit false

namespace TernaryMachine

namespace Machine

def stepMany (fuel : Nat) : Nat → Machine → Outcome Unit
  | 0, m => some (.ok () m)
  | n + 1, m => (m.step fuel).andThen fun _ m => stepMany fuel n m

theorem stepMany_succ {fuel : Nat} {m next : Machine} {i : Instruction}
    (stepped : m.step fuel = some (.ok i next)) (n : Nat) :
    stepMany fuel (n + 1) m = stepMany fuel n next := by
  rw [stepMany, stepped]
  rfl

theorem machine_runLimited (fuel limit : Nat) (m : Machine) :
    (runLimited fuel limit m).map Result.machine = (upTo fuel limit m).map Result.machine := by
  unfold runLimited
  dsimp only
  cases upTo fuel limit m with
  | none => rfl
  | some r => cases r <;> rfl

theorem upTo_of_runLimited_eq_error {fuel limit : Nat} {m n : Machine} {e : MachineError}
    (h : runLimited fuel limit m = some (.error e n)) :
    upTo fuel limit m = some (.error e n) := by
  unfold runLimited at h
  dsimp only at h
  cases run : upTo fuel limit m with
  | none =>
    rw [run] at h
    cases h
  | some r =>
    rw [run] at h
    cases r with
    | error e' n' =>
      cases h
      rfl
    | ok _ n' => cases h

end Machine

namespace Debugger

open Machine (Outcome Result stepMany)

section Stops

variable (fuel : Nat) (breakpoints : List Int) (m : Machine)

/-- After `j` steps a continuous run has no further step to perform. -/
inductive Stop (j : Nat) : Prop where
  | halted {n : Machine} (stepped : stepMany fuel j m = some (.ok () n))
    (halted : n.isHalted = true)
  | breakpoint {n : Machine} (stepped : stepMany fuel j m = some (.ok () n))
    (found : n.registers.pc ∈ breakpoints)
  | failed {e : MachineError} {n : Machine} (stepped : stepMany fuel j m = some (.error e n))

def GoesOn (j : Nat) : Prop :=
  ∃ n, stepMany fuel j m = some (.ok () n) ∧ n.isHalted = false ∧ n.registers.pc ∉ breakpoints

/-- How a continuous run ends that has at most `limit` steps: `j` steps are performed, where `j` is
the least number after which there is a stop, or the limit. Each of them is performed by a machine
that stands at no breakpoint. The session runs on if no stop was met on the way. -/
structure Performs (limit j : Nat) (after : Option Debugger) : Prop where
  within : j ≤ limit
  before : ∀ i < j, GoesOn fuel breakpoints m i
  /-- Where the handler of an interrupt never halts there is no machine behind the step. -/
  ended : j < limit → Stop fuel breakpoints m j ∨ stepMany fuel j m = none
  machine : after.map Debugger.machine = (stepMany fuel j m).map Result.machine
  running : ∀ d, after = some d → (d.running = true ↔
    (∃ n, stepMany fuel limit m = some (.ok () n)) ∧ ∀ i < limit, ¬ Stop fuel breakpoints m i)

end Stops

variable {fuel limit j : Nat} {breakpoints : List Int} {m next : Machine}

theorem GoesOn.not_stop (h : GoesOn fuel breakpoints m j) : ¬ Stop fuel breakpoints m j := by
  obtain ⟨n, reached, running, free⟩ := h
  intro stop
  cases stop with
  | halted stepped halted =>
    rw [reached] at stepped
    cases stepped
    rw [running] at halted
    cases halted
  | breakpoint stepped found =>
    rw [reached] at stepped
    cases stepped
    exact free found
  | failed stepped =>
    rw [reached] at stepped
    cases stepped

section Step

variable {i : Instruction} (stepped : m.step fuel = some (.ok i next))
include stepped

theorem stop_succ_iff :
    Stop fuel breakpoints m (j + 1) ↔ Stop fuel breakpoints next j := by
  have shift := Machine.stepMany_succ stepped j
  constructor
  · intro stop
    cases stop with
    | halted reached halted => exact .halted (shift ▸ reached) halted
    | breakpoint reached found => exact .breakpoint (shift ▸ reached) found
    | failed reached => exact .failed (shift ▸ reached)
  · intro stop
    cases stop with
    | halted reached halted => exact .halted (shift.trans reached) halted
    | breakpoint reached found => exact .breakpoint (shift.trans reached) found
    | failed reached => exact .failed (shift.trans reached)

theorem Performs.succ {after : Option Debugger} (first : GoesOn fuel breakpoints m 0)
    (rest : Performs fuel breakpoints next limit j after) :
    Performs fuel breakpoints m (limit + 1) (j + 1) after where
  within := Nat.succ_le_succ rest.within
  before := by
    intro k below
    cases k with
    | zero => exact first
    | succ k =>
      obtain ⟨n, reached, goes⟩ := rest.before k (Nat.lt_of_succ_lt_succ below)
      exact ⟨n, (Machine.stepMany_succ stepped k).trans reached, goes⟩
  ended := by
    intro below
    rw [stop_succ_iff stepped, Machine.stepMany_succ stepped]
    exact rest.ended (Nat.lt_of_succ_lt_succ below)
  machine := by
    rw [Machine.stepMany_succ stepped]
    exact rest.machine
  running := by
    intro d last
    rw [rest.running d last, Machine.stepMany_succ stepped]
    refine and_congr_right fun _ => ?_
    constructor
    · intro free k below
      cases k with
      | zero => exact first.not_stop
      | succ k =>
        rw [stop_succ_iff stepped]
        exact free k (Nat.lt_of_succ_lt_succ below)
    · intro free k below
      rw [← stop_succ_iff stepped]
      exact free (k + 1) (Nat.succ_lt_succ below)

end Step

theorem Performs.zero {d : Debugger} (stop : Stop fuel breakpoints m 0)
    (same : d.machine = m) (stopped : d.running = false) :
    Performs fuel breakpoints m (limit + 1) 0 (some d) where
  within := Nat.zero_le _
  before _ below := absurd below (Nat.not_lt_zero _)
  ended _ := .inl stop
  machine := by
    rw [Option.map_some, same]
    rfl
  running := by
    rintro _ ⟨⟩
    rw [stopped]
    refine iff_of_false (by decide) ?_
    exact fun ⟨_, free⟩ => free 0 (Nat.succ_pos _) stop

theorem goesOn_before_one (first : GoesOn fuel breakpoints m 0) {k : Nat} (below : k < 1) :
    GoesOn fuel breakpoints m k := by
  obtain rfl : k = 0 := by omega
  exact first

theorem Performs.failed {e : MachineError} {d : Debugger} (first : GoesOn fuel breakpoints m 0)
    (failed : m.step fuel = some (.error e d.machine)) (stopped : d.running = false) :
    Performs fuel breakpoints m (limit + 1) 1 (some d) := by
  have many (n : Nat) : stepMany fuel (n + 1) m = some (.error e d.machine) := by
    rw [stepMany, failed]
    rfl
  constructor
  case within => omega
  case before => exact fun _ => goesOn_before_one first
  case ended => exact fun _ => .inl (.failed (many 0))
  case machine =>
    rw [many 0]
    rfl
  case running =>
    rintro _ ⟨⟩
    rw [stopped, many limit]
    refine iff_of_false (by decide) ?_
    rintro ⟨⟨_, ⟨⟩⟩, -⟩

theorem Performs.endless (first : GoesOn fuel breakpoints m 0) (endless : m.step fuel = none) :
    Performs fuel breakpoints m (limit + 1) 1 none := by
  have many : stepMany fuel 1 m = none := by
    rw [stepMany, endless]
    rfl
  constructor
  case within => omega
  case before => exact fun _ => goesOn_before_one first
  case ended => exact fun _ => .inr many
  case machine =>
    rw [many]
    rfl
  case running => exact fun _ absent => nomatch absent

def afterStep (d : Debugger) : Result Instruction → Debugger
  | .ok _ m =>
    let pc := d.machine.registers.pc
    let text := String.ofList (textAt d.machine.store pc).1
    { d with machine := m, status := s!"PC={pc}: {text}" }
  | .error e m => { d with machine := m, running := false, status := failure e }

theorem step_eq {d : Debugger} (running : d.machine.isHalted = false) :
    d.step fuel = (d.machine.step fuel).map d.afterStep := by
  obtain ⟨machine, program, options, breakpoints, continuous, quitting, status, scroll⟩ := d
  change machine.isHalted = false at running
  simp only [step, running, Bool.false_eq_true, if_false]
  cases machine.step fuel with
  | none => rfl
  | some r => cases r <;> rfl

theorem tickFor_succ (fuel n : Nat) (d : Debugger) :
    d.tickFor fuel (n + 1) = if !d.running then some d
      else if d.machine.isHalted then some (d.stop s!"Halted after {d.machine.cycles} cycles")
      else if d.breakpoints.contains d.machine.registers.pc then
        some (d.stop s!"Breakpoint at PC={d.machine.registers.pc}")
      else (d.step fuel).bind (tickFor fuel n) := by
  show (if !d.running then _ else if _ then _ else if _ then _ else _) = _
  congr 3
  cases d.step fuel with
  | none => rfl
  | some after => rfl

theorem tickFor_of_stopped {d : Debugger} (stopped : d.running = false) (n : Nat) :
    d.tickFor fuel n = some d := by
  cases n with
  | zero => rfl
  | succ n => rw [tickFor_succ, stopped, Bool.not_false, if_pos rfl]

theorem exists_performs_tickFor (fuel limit : Nat) {d : Debugger} (running : d.running = true) :
    ∃ j, Performs fuel d.breakpoints d.machine limit j (d.tickFor fuel limit) := by
  induction limit generalizing d with
  | zero =>
    refine ⟨0, Nat.le_refl 0, fun _ below => absurd below (Nat.not_lt_zero _),
      fun below => absurd below (Nat.not_lt_zero _), rfl, ?_⟩
    rintro _ ⟨⟩
    rw [running]
    exact iff_of_true rfl ⟨⟨_, rfl⟩, fun _ below => absurd below (Nat.not_lt_zero _)⟩
  | succ limit ih =>
    rw [tickFor_succ, running]
    simp only [Bool.not_true, Bool.false_eq_true, if_false, List.contains_iff_mem]
    split_ifs with halted found
    · exact ⟨0, .zero (.halted rfl halted) rfl rfl⟩
    · exact ⟨0, .zero (.breakpoint rfl found) rfl rfl⟩
    · rw [Bool.not_eq_true] at halted
      have first : GoesOn fuel d.breakpoints d.machine 0 := ⟨d.machine, rfl, halted, found⟩
      rw [step_eq halted]
      cases stepped : d.machine.step fuel with
      | none => exact ⟨1, .endless first stepped⟩
      | some r =>
        cases r with
        | error e m =>
          let stopped := d.afterStep (.error e m)
          change ∃ j, Performs fuel d.breakpoints d.machine (limit + 1) j
            (stopped.tickFor fuel limit)
          rw [tickFor_of_stopped rfl]
          exact ⟨1, .failed first stepped rfl⟩
        | ok i m =>
          obtain ⟨j, rest⟩ := ih (d := d.afterStep (.ok i m)) running
          exact ⟨j + 1, rest.succ stepped first⟩

def ticks (fuel : Nat) : Nat → Debugger → Option Debugger
  | 0, d => some d
  | k + 1, d => (d.tick fuel).bind (ticks fuel k)

/-- A session without breakpoints that runs on unless its machine is halted. -/
structure InStep (d : Debugger) : Prop where
  free : d.breakpoints = []
  halted : d.running = false → d.machine.isHalted = true

/-- A session that did the same as its machine alone: it has no outcome either, or it tells of the
failure and is stopped, or it can go on. -/
inductive Mirrors : Outcome Unit → Option Debugger → Prop where
  | endless : Mirrors none none
  | failed {e : MachineError} {d : Debugger} (stopped : d.running = false)
    (told : d.status = failure e) : Mirrors (some (.error e d.machine)) (some d)
  | reached {d : Debugger} (inStep : d.InStep) : Mirrors (some (.ok () d.machine)) (some d)

namespace Mirrors

theorem andThen {x : Outcome Unit} {y : Option Debugger} {f : Machine → Outcome Unit}
    {g : Debugger → Option Debugger} (h : Mirrors x y)
    (goes : ∀ d : Debugger, d.InStep → Mirrors (f d.machine) (g d))
    (stays : ∀ d : Debugger, d.running = false → g d = some d) :
    Mirrors (x.andThen fun _ => f) (y.bind g) := by
  cases h with
  | endless => exact .endless
  | failed stopped told =>
    rw [Option.bind_some, stays _ stopped]
    exact .failed stopped told
  | reached inStep => exact goes _ inStep

theorem machine_eq {x : Outcome Unit} {y : Option Debugger} (h : Mirrors x y) :
    y.map Debugger.machine = x.map Result.machine := by
  cases h with
  | endless | failed | reached => rfl

theorem step (fuel : Nat) {d : Debugger} (inStep : d.InStep)
    (running : d.machine.isHalted = false) :
    Mirrors ((d.machine.step fuel).andThen fun _ m => some (.ok () m)) (d.step fuel) := by
  rw [step_eq running]
  cases d.machine.step fuel with
  | none => exact .endless
  | some r =>
    cases r with
    | error e m => exact .failed (d := d.afterStep (.error e m)) rfl rfl
    | ok i m =>
      refine .reached (d := d.afterStep (.ok i m)) ⟨inStep.free, ?_⟩
      -- a session that was not running would have had a halted machine
      intro stopped
      have halted := inStep.halted stopped
      rw [running] at halted
      cases halted

theorem tickFor (fuel limit : Nat) {d : Debugger} (inStep : d.InStep) :
    Mirrors (Machine.upTo fuel limit d.machine) (d.tickFor fuel limit) := by
  induction limit generalizing d with
  | zero => exact .reached inStep
  | succ limit ih =>
    rw [Machine.upTo, tickFor_succ, inStep.free]
    simp only [List.contains_nil, Bool.false_eq_true, if_false]
    by_cases halted : d.machine.isHalted = true
    · rw [if_pos halted, if_pos halted]
      split_ifs with running
      · exact .reached inStep
      · exact .reached (d := d.stop _) ⟨inStep.free, fun _ => halted⟩
    · have running : d.running = true := by
        cases continuous : d.running with
        | true => rfl
        | false => exact absurd (inStep.halted continuous) halted
      rw [if_neg halted, if_neg halted, running]
      simp only [Bool.not_true, Bool.false_eq_true, if_false]
      have first := Mirrors.step fuel inStep (Bool.not_eq_true _ ▸ halted)
      have rest := first.andThen (f := Machine.upTo fuel limit) (g := Debugger.tickFor fuel limit)
        (fun d inStep => ih inStep) fun d stopped => tickFor_of_stopped stopped limit
      rw [Machine.andThen_assoc] at rest
      exact rest

theorem ticks (fuel k : Nat) {d : Debugger} (inStep : d.InStep) :
    Mirrors (Machine.upTo fuel (64 * k) d.machine) (d.ticks fuel k) := by
  induction k generalizing d with
  | zero => exact .reached inStep
  | succ k ih =>
    have stays (d : Debugger) (stopped : d.running = false) : d.ticks fuel k = some d := by
      clear ih
      induction k with
      | zero => rfl
      | succ k ih =>
        rw [Debugger.ticks, tick, tickFor_of_stopped stopped]
        exact ih
    rw [Nat.mul_succ, Nat.add_comm, Machine.upTo_add, Debugger.ticks]
    exact (Mirrors.tickFor fuel 64 inStep).andThen (fun d inStep => ih inStep) stays

end Mirrors

/-- The debugger performs the steps of its machine. A tick of a session that is not running changes
nothing. A tick of a running session performs as many steps as there are before the first stop, at
most 64, and leaves it running exactly if it met no stop. Without breakpoints a continuous run of
`k` ticks leaves the machine as one run up to `64 * k` instructions does, and tells of its
failure. -/
theorem tick_performs_steps (fuel : Nat) (d : Debugger) :
    (d.running = false → d.tick fuel = some d)
    ∧ (d.running = true → ∃ j, Performs fuel d.breakpoints d.machine 64 j (d.tick fuel))
    ∧ (d.breakpoints = [] → ∀ k,
      (d.run.ticks fuel k).map Debugger.machine
        = (d.machine.runLimited fuel (64 * k)).map Result.machine
      ∧ ∀ e n, d.machine.runLimited fuel (64 * k) = some (.error e n) →
        ∃ after, d.run.ticks fuel k = some after ∧ after.running = false
          ∧ after.status = failure e) := by
  refine ⟨?_, ?_, ?_⟩
  · intro stopped
    exact tickFor_of_stopped stopped _
  · intro running
    exact exists_performs_tickFor fuel 64 running
  · intro free k
    have mirrors := Mirrors.ticks fuel k (d := d.run) ⟨free, fun stopped => nomatch stopped⟩
    refine ⟨?_, ?_⟩
    · rw [Machine.machine_runLimited]
      exact mirrors.machine_eq
    · intro e n failed
      have failed : Machine.upTo fuel (64 * k) d.run.machine = some (.error e n) :=
        Machine.upTo_of_runLimited_eq_error failed
      rw [failed] at mirrors
      generalize d.run.ticks fuel k = after at mirrors ⊢
      cases mirrors with
      | failed stopped told => exact ⟨_, rfl, stopped, told⟩

theorem tick_performs_steps_to_breakpoint :
    let empty : Store := ⟨13, Array.replicate 27 Tryte.zero, by decide, by decide, [], []⟩
    let inx := (Instruction.extended .inx).encode
    let p : Program := ⟨0, [inx, inx, ⟨-52, by decide, by decide⟩]⟩
    let m := ((Machine.powerOn {} empty).load p).machine
    let session (breakpoints : List Int) (running : Bool) : Debugger :=
      ⟨m, p, {}, breakpoints, running, false, "", 0⟩
    (session [] false).tick 1 = some (session [] false)
    ∧ (∃ j after, (session [1] true).tick 1 = some after ∧ Performs 1 [1] m 64 j (some after)
      ∧ after.running = false ∧ after.machine.registers.pc = 1)
    ∧ ∃ e n after, m.runLimited 1 128 = some (.error e n)
      ∧ (session [] false).run.ticks 1 2 = some after
      ∧ after.machine = n ∧ after.status = failure e ∧ n.cycles = 2 := by
  intro empty inx p m session
  have paused : ((session [1] true).tick 1).map (fun after =>
      (after.running, after.machine.registers.pc)) = some (false, 1) := by decide +kernel
  have failed : (m.runLimited 1 128).map (fun r => (r.value?, r.machine.cycles))
      = some (none, 2) := by decide +kernel
  obtain ⟨idle, -, limited⟩ := tick_performs_steps 1 (session [] false)
  obtain ⟨-, performs, -⟩ := tick_performs_steps 1 (session [1] true)
  clear_value m
  refine ⟨idle rfl, ?_, ?_⟩
  · obtain ⟨j, performed⟩ := performs rfl
    obtain ⟨after, ticked, shown⟩ := Option.map_eq_some_iff.mp paused
    simp only [Prod.mk.injEq] at shown
    rw [ticked] at performed
    exact ⟨j, after, ticked, performed, shown⟩
  · obtain ⟨same, told⟩ := limited rfl 2
    obtain ⟨r, result, shown⟩ := Option.map_eq_some_iff.mp failed
    simp only [Prod.mk.injEq] at shown
    obtain ⟨value, cycles⟩ := shown
    cases r with
    | ok k n => cases value
    | error e n =>
      obtain ⟨after, ticked, -, status⟩ := told e n result
      have machines : some after.machine = some n := by
        have limit : (session [] false).machine.runLimited 1 (64 * 2) = _ := result
        rw [ticked, limit] at same
        exact same
      exact ⟨e, n, after, result, ticked, Option.some.inj machines, status, cycles⟩

end Debugger

end TernaryMachine
