import Mathlib.Algebra.GroupWithZero.Nat
import Mathlib.Tactic.SplitIfs
import TernaryMachine.Embedding

/-!
Runs in slices. The instructions that a run performs are counted up and never taken back, whether
it ends by a halt, by a failure or at its limit, and however many instructions the handlers of
interrupts perform in between. A run up to one limit and then up to another is a run up to their
sum, and a run that has ended before its limit is the whole run.
-/

set_option autoImplicit false
set_option relaxedAutoImplicit false

namespace TernaryMachine

namespace Machine

/-- At the end of `x` the count of performed instructions is no less than `n`. -/
def Outcome.CountsFrom {α : Type} (n : Nat) (x : Outcome α) : Prop :=
  x.Ensures fun r => n ≤ r.machine.cycles

namespace Outcome.CountsFrom

theorem of_eq {α : Type} {n : Nat} {r : Result α} (h : n ≤ r.machine.cycles) :
    CountsFrom n (some r) := Outcome.Ensures.of_eq h

theorem andThen {α β : Type} {n : Nat} {x : Outcome α} {f : α → Machine → Outcome β}
    (hx : CountsFrom n x) (hf : ∀ a m, n ≤ m.cycles → CountsFrom n (f a m)) :
    CountsFrom n (x.andThen f) :=
  Outcome.Ensures.andThen hx (fun _ _ h => h) hf

theorem mono {α : Type} {n k : Nat} {x : Outcome α} (hx : CountsFrom k x) (h : n ≤ k) :
    CountsFrom n x := fun r hr => Nat.le_trans h (hx r hr)

end Outcome.CountsFrom

theorem cycles_onCore {α : Type} (x : Core.Action α) (m : Machine) :
    (m.onCore x).machine.cycles = m.cycles := by
  obtain ⟨core, options, cycles, last?⟩ := m
  dsimp only [onCore]
  cases x core with
  | ok a after => rfl
  | error e after => rfl

theorem cycles_le_complete (i : Instruction) (target? : Registers → Option Int) (m : Machine) :
    m.cycles ≤ (m.complete i target?).machine.cycles := by
  obtain ⟨⟨registers, store⟩, options, cycles, last?⟩ := m
  dsimp only [complete]
  cases target? registers with
  | some target => exact Nat.le_succ cycles
  | none => exact Nat.le_refl cycles

section Counting

variable {handler : Machine → Outcome Unit} {n : Nat}

theorem countsFrom_onCore {α : Type} (x : Core.Action α) {m : Machine} (h : n ≤ m.cycles) :
    Outcome.CountsFrom n (some (m.onCore x)) :=
  .of_eq (by rw [cycles_onCore]; exact h)

theorem countsFrom_complete (i : Instruction) (target? : Registers → Option Int) {m : Machine}
    (h : n ≤ m.cycles) : Outcome.CountsFrom n (some (m.complete i target?)) :=
  .of_eq (Nat.le_trans h (cycles_le_complete i target? m))

theorem countsFrom_dispatch (counts : ∀ m, (handler m).CountsFrom m.cycles) (number : Trit)
    (value? : Option Tryte) (vector : Int) {m : Machine} (h : n ≤ m.cycles) :
    (dispatch handler number value? vector m).CountsFrom n := by
  refine .andThen ((counts _).mono h) fun _ after le => .of_eq ?_
  change n ≤ (if number = .zero then after else _).cycles
  split_ifs
  · exact le
  · exact le

theorem countsFrom_interruptWith (counts : ∀ m, (handler m).CountsFrom m.cycles) (number : Trit)
    (value? : Option Tryte) {m : Machine} (h : n ≤ m.cycles) :
    (interruptWith handler number value? m).CountsFrom n := by
  unfold interruptWith
  split_ifs with masked
  · exact .of_eq h
  · refine .andThen (countsFrom_onCore _ h) fun target m h => ?_
    split_ifs with unset
    · exact .of_eq h
    · refine .andThen (countsFrom_dispatch counts number value? target.val h) fun _ m h => ?_
      exact .of_eq h

theorem countsFrom_stepWith (counts : ∀ m, (handler m).CountsFrom m.cycles) {m : Machine}
    (h : n ≤ m.cycles) : (stepWith handler m).CountsFrom n := by
  unfold stepWith
  split_ifs with halted
  · exact .of_eq h
  · refine .andThen (countsFrom_onCore _ h) fun (i, value, last) m h => ?_
    refine .andThen (countsFrom_onCore _ h) fun flow m h => ?_
    cases flow with
    | next => exact countsFrom_complete i _ h
    | jump target => exact countsFrom_complete i _ h
    | debugNop =>
      dsimp only
      split_ifs with traps
      · exact .of_eq h
      · exact countsFrom_complete i _ h
    | interrupt number =>
      refine .andThen (countsFrom_interruptWith counts number none h) fun _ m h => ?_
      exact countsFrom_complete i _ h

end Counting

theorem countsFrom_untilHalt (fuel : Nat) (m : Machine) :
    (untilHalt fuel m).CountsFrom m.cycles := by
  induction fuel generalizing m with
  | zero => exact fun _ h => nomatch h
  | succ fuel ih =>
    unfold untilHalt
    split_ifs with halted
    · exact .of_eq (Nat.le_refl _)
    · refine .andThen (countsFrom_stepWith ih (Nat.le_refl _)) fun _ after le => ?_
      exact (ih after).mono le

theorem countsFrom_upTo (fuel limit : Nat) (m : Machine) :
    (upTo fuel limit m).CountsFrom m.cycles := by
  induction limit generalizing m with
  | zero => exact .of_eq (Nat.le_refl _)
  | succ limit ih =>
    unfold upTo
    split_ifs with halted
    · exact .of_eq (Nat.le_refl _)
    · refine .andThen (countsFrom_stepWith (countsFrom_untilHalt fuel) (Nat.le_refl _)) ?_
      intro _ after le
      exact (ih after).mono le

theorem upTo_of_halted {m : Machine} (halted : m.isHalted = true) (fuel limit : Nat) :
    upTo fuel limit m = some (.ok () m) := by
  cases limit with
  | zero => rfl
  | succ limit => rw [upTo, if_pos halted]

theorem andThen_assoc {α β γ : Type} (x : Outcome α) (f : α → Machine → Outcome β)
    (g : β → Machine → Outcome γ) :
    (x.andThen f).andThen g = x.andThen fun a m => (f a m).andThen g := by
  cases x with
  | none => rfl
  | some r =>
    cases r with
    | error e m => rfl
    | ok a m => rfl

theorem upTo_add (fuel a b : Nat) (m : Machine) :
    upTo fuel (a + b) m = (upTo fuel a m).andThen fun _ m => upTo fuel b m := by
  induction a generalizing m with
  | zero => rw [Nat.zero_add]; rfl
  | succ a ih =>
    rw [Nat.succ_add, upTo, upTo]
    split_ifs with halted
    · exact (upTo_of_halted halted fuel b).symm
    · rw [andThen_assoc]
      exact congrArg _ (funext fun _ => funext ih)

/-- Both slices count from where they start, and the counts add up to that of the whole. -/
theorem runLimited_add (fuel a b : Nat) (m : Machine) :
    runLimited fuel (a + b) m = (runLimited fuel a m).andThen fun first m =>
      (runLimited fuel b m).andThen fun second m => some (.ok (first + second) m) := by
  have before := countsFrom_upTo fuel a m
  unfold runLimited
  rw [upTo_add]
  match upTo fuel a m, before with
  | none, _ => rfl
  | some (.error e middle), _ => rfl
  | some (.ok _ middle), before =>
    have between := countsFrom_upTo fuel b middle
    dsimp only [Outcome.andThen]
    match upTo fuel b middle, between with
    | none, _ => rfl
    | some (.error e after), _ => rfl
    | some (.ok _ after), between =>
      have le : m.cycles ≤ middle.cycles := before _ rfl
      have le' : middle.cycles ≤ after.cycles := between _ rfl
      have count : after.cycles - m.cycles
          = middle.cycles - m.cycles + (after.cycles - middle.cycles) := by omega
      dsimp only
      rw [count]

theorem untilHalt_of_upTo {fuel limit : Nat} {m : Machine} {r : Result Unit}
    (h : upTo fuel limit m = some r) (ended : ∀ n, r = .ok () n → n.isHalted = true)
    (more : Nat) : untilHalt (fuel + limit + more + 1) m = some r := by
  induction limit generalizing m with
  | zero =>
    cases h
    rw [untilHalt, if_pos (ended m rfl)]
  | succ limit ih =>
    have enough : fuel + (limit + 1) + more = fuel + limit + more + 1 := by omega
    rw [upTo] at h
    rw [untilHalt, enough]
    split_ifs at h ⊢ with halted
    · exact h
    · -- the handlers get more fuel than in the limited run, which changes none of their outcomes
      have same : (stepWith (untilHalt fuel) m).Within
          (stepWith (untilHalt (fuel + limit + more + 1)) m) := by
        rw [Nat.add_assoc, Nat.add_assoc]
        exact stepWith_within (untilHalt_within fuel _) m
      cases stepped : stepWith (untilHalt fuel) m with
      | none =>
        rw [stepped] at h
        cases h
      | some result =>
        rw [same _ stepped]
        rw [stepped] at h
        cases result with
        | error e after => exact h
        | ok i after => exact ih h

theorem run_of_runLimited {fuel limit : Nat} {m : Machine} {r : Result Nat}
    (h : runLimited fuel limit m = some r) (ended : ∀ k n, r = .ok k n → n.isHalted = true)
    (more : Nat) : run (fuel + limit + more + 1) m = some r := by
  unfold runLimited at h
  match limited : upTo fuel limit m, h with
  | some (.error e after), h =>
    have whole := untilHalt_of_upTo limited (fun _ absurd => nomatch absurd) more
    rw [run, whole]
    exact h
  | some (.ok _ after), h =>
    have halted : after.isHalted = true := ended _ after (Option.some.inj h).symm
    have whole := untilHalt_of_upTo limited (fun n same => by cases same; exact halted) more
    rw [run, whole]
    exact h

end Machine

namespace Embedding

def afterRun (s : Embedding) : Machine.Result Nat → Result Nat
  | .ok _ m => .ok m.cycles { s with machine := m }
  | .error e m => .error (.machine e) { s with machine := m }

def runEach (fuel : Nat) : List Nat → Embedding → Outcome Nat
  | [], s => some (.ok s.machine.cycles s)
  | limit :: limits, s =>
    match s.run fuel limit with
    | none => none
    | some (.error e s) => some (.error e s)
    | some (.ok _ s) => runEach fuel limits s

theorem run_eq (fuel limit : Nat) (s : Embedding) :
    s.run fuel limit = (s.machine.runLimited fuel limit).map s.afterRun := by
  obtain ⟨machine, options, program⟩ := s
  dsimp only [run]
  match machine.runLimited fuel limit with
  | none => rfl
  | some (.error e m) => rfl
  | some (.ok k m) => rfl

theorem runEach_eq (fuel : Nat) (limits : List Nat) (s : Embedding) :
    s.runEach fuel limits = (s.machine.runLimited fuel limits.sum).map s.afterRun := by
  induction limits generalizing s with
  | nil => rfl
  | cons limit limits ih =>
    rw [runEach, run_eq, List.sum_cons, Machine.runLimited_add]
    match s.machine.runLimited fuel limit with
    | none => rfl
    | some (.error e m) => rfl
    | some (.ok k m) =>
      have rest := ih { s with machine := m }
      dsimp only [Option.map, afterRun, Machine.Outcome.andThen]
      rw [rest]
      dsimp only
      match m.runLimited fuel limits.sum with
      | none => rfl
      | some (.error e after) => rfl
      | some (.ok j after) => rfl

end Embedding

namespace Machine

/-- Slicing a run changes nothing. A run up to `a + b` is a run up to `a` and, if that did not fail,
a run up to `b` from where it ended, with the counts added; a limited run that failed or has halted
is the run without a limit; and the runs of an embedding with one limit after another are one run of
its machine up to the sum of the limits. -/
theorem runLimited_sliced (fuel : Nat) (m : Machine) :
    (∀ a b, m.runLimited fuel (a + b) = (m.runLimited fuel a).andThen fun first m =>
      (m.runLimited fuel b).andThen fun second m => some (.ok (first + second) m))
    ∧ (∀ limit r, m.runLimited fuel limit = some r → (∀ k n, r = .ok k n → n.isHalted = true) →
      ∀ more, m.run (fuel + limit + more + 1) = some r)
    ∧ ∀ options program limits, Embedding.runEach fuel limits ⟨m, options, program⟩
      = (m.runLimited fuel limits.sum).map (Embedding.afterRun ⟨m, options, program⟩) := by
  refine ⟨?_, ?_, ?_⟩
  · intro a b
    exact runLimited_add fuel a b m
  · intro limit r limited ended more
    exact run_of_runLimited limited ended more
  · intro options program limits
    exact Embedding.runEach_eq fuel limits ⟨m, options, program⟩

theorem runLimited_sliced_at_interrupt :
    let empty : Store := ⟨13, Array.replicate 27 Tryte.zero, by decide, by decide, [], []⟩
    let code := [ExtendedOp.cli, .intP, .inx, .haltZ, .inx, .haltZ].map fun op =>
      (Instruction.extended op).encode
    let m := (((powerOn {} empty).load ⟨-9, [Tryte.ofDigits 4 0, Tryte.zero]⟩).machine.load
      ⟨0, code⟩).machine
    ∃ n, m.runLimited 3 4 = some (.ok 6 n) ∧ n.isHalted = true ∧ m.run 8 = some (.ok 6 n)
      ∧ Embedding.runEach 3 [1, 1, 2] ⟨m, {}, Embedding.noProgram⟩
        = some (.ok 6 ⟨n, {}, Embedding.noProgram⟩) := by
  intro empty code m
  obtain ⟨-, whole, embedded⟩ := runLimited_sliced 3 m
  have counted : (m.runLimited 3 4).map (fun r =>
      (r.value?, r.machine.cycles, r.machine.isHalted)) = some (some 6, 6, true) := by
    decide +kernel
  clear_value m
  obtain ⟨r, limited, shown⟩ := Option.map_eq_some_iff.mp counted
  simp only [Prod.mk.injEq] at shown
  obtain ⟨value, total, halted⟩ := shown
  rw [Result.eq_ok value] at limited
  refine ⟨r.machine, limited, halted, ?_, ?_⟩
  · refine whole 4 _ limited ?_ 0
    intro k n same
    cases same
    exact halted
  · rw [embedded]
    change (m.runLimited 3 4).map _ = _
    rw [limited, Option.map_some, Embedding.afterRun, total]

end Machine

end TernaryMachine
