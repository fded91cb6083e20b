import Mathlib.Logic.Relation
import TernaryMachine.Proofs.Sessions
import TernaryMachine.Proofs.StackContents
import TernaryMachine.Proofs.StepEffects

/-!
Calls of subroutines and their returns, for a machine without peripherals. A call leaves the address
of its last tryte in the two cells above the stack pointer. The word outlasts every run of steps
none of whose instructions writes these cells, be it the instruction of a step or one of a handler
that a step enters, and a return that finds the pointer above them goes on behind the call. Main
statement: calls may nest to any depth and in both run directions, and each of them returns to the
instruction after its own.
-/

set_option autoImplicit false
set_option relaxedAutoImplicit false

namespace TernaryMachine

open Relation (ReflTransGen)

def Core.Spares (c : Core) (a : Int) : Prop :=
  ∀ i, c.instruction? = some i → Operand.address a ∉ i.targets c

theorem Core.spares_of_below {c : Core} {a : Int} (below : a < c.registers.stackPointer)
    (other : ∀ i, c.instruction? = some i → i.pushed = 0 → c.place? i ≠ some (.address a)) :
    c.Spares a := by
  intro i present written
  rcases Instruction.cell_of_targets written with ⟨stackless, place⟩ | ⟨k, -, rfl⟩
  · exact other i present stackless place
  · omega

namespace Machine

/-- A step that succeeds. -/
def Goes (m n : Machine) : Prop := ∃ fuel i, m.step fuel = some (.ok i n)

/-- The machine with which the handler begins that a step at a request enters. -/
inductive Enters (m : Machine) : Machine → Prop
  | request {i : Instruction} {number : Trit} {w : Word}
    (present : m.core.instruction? = some i) (requests : i.interrupt? = some number)
    (unmasked : m.isMasked number = false)
    (vector : m.store.peekWord (m.vectorAddress number) = .ok w) (set : w.isZero = false) :
    Enters m (m.entered none w.val)

/-- The machines at whose program counters the instructions of a step stand: the machine of the step
itself and, where the step enters a handler, the machines of all steps of the handler. -/
inductive Performs : Machine → Machine → Prop
  | own (m : Machine) : Performs m m
  | handler {m e x y : Machine} (enters : m.Enters e) (goes : ReflTransGen Goes e x)
    (running : x.isHalted = false) (performs : Performs x y) : Performs m y

def Spares (m : Machine) (a : Int) : Prop := ∀ x, m.Performs x → x.core.Spares a

theorem Performs.eq_of_plain {m x : Machine} {i : Instruction} (h : m.Performs x)
    (present : m.core.instruction? = some i) (plain : i.interrupt? = none) : x = m := by
  cases h with
  | own => rfl
  | handler enters =>
    obtain ⟨there, requests, -, -, -⟩ := enters
    rw [present] at there
    cases there
    rw [plain] at requests
    cases requests

structure Keeps (spared : Int → Prop) (m n : Machine) : Prop where
  unmapped : n.store.maps = []
  cells : ∀ a, spared a → n.store.get? a = m.store.get? a

theorem store_of_complete {m n : Machine} {i j : Instruction} {target? : Registers → Option Int}
    (h : m.complete i target? = .ok j n) : n.store = m.store := by
  obtain ⟨⟨registers, store⟩, options, cycles, last?⟩ := m
  unfold complete at h
  cases found : target? registers with
  | none => simp [found] at h
  | some target =>
    simp only [found, EStateM.Result.ok.injEq] at h
    rw [← h.2]
    rfl

theorem handled_of_interruptWith {handler : Machine → Outcome Unit} {m k : Machine} {number : Trit}
    {accepted : Bool} (unmapped : m.store.maps = [])
    (h : interruptWith handler number none m = some (.ok accepted k)) :
    (m.isMasked number = true ∧ k = m) ∨ m.isMasked number = false ∧ ∃ w z,
      m.store.peekWord (m.vectorAddress number) = .ok w ∧ w.isZero = false
        ∧ handler (m.entered none w.val) = some (.ok () z)
        ∧ k = if number = .zero then z else z.update fun _ => m.registers := by
  rw [interruptWith_eq unmapped] at h
  split at h
  · rename_i masked
    cases h
    exact .inl ⟨masked, rfl⟩
  · rename_i unmasked
    rw [Bool.not_eq_true] at unmasked
    cases vector : m.store.peekWord (m.vectorAddress number) with
    | error e =>
      rw [vector] at h
      cases h
    | ok w =>
      rw [vector] at h
      dsimp only at h
      split at h
      · cases h
      · rename_i set
        rw [Bool.not_eq_true] at set
        refine .inr ⟨unmasked, w, ?_⟩
        unfold dispatch at h
        change ((Outcome.andThen (handler (m.entered none w.val)) _).andThen _) = _ at h
        cases handled : handler (m.entered none w.val) with
        | none =>
          rw [handled] at h
          cases h
        | some r =>
          rw [handled] at h
          cases r with
          | error e z => cases h
          | ok _ z =>
            cases h
            exact ⟨z, rfl, set, rfl, rfl⟩

section Kept

variable {m n : Machine} {fuel : Nat} {i : Instruction}

theorem keeps_of_step (unmapped : m.store.maps = [])
    (handles : ∀ e z, e.store.maps = [] → untilHalt fuel e = some (.ok () z) →
      Keeps (fun a => ∀ x, ReflTransGen Goes e x → x.isHalted = false → x.Spares a) e z)
    (done : m.step fuel = some (.ok i n)) : Keeps m.Spares m n := by
  obtain ⟨value, last, flow, d, fetched, performed, ways⟩ := effect_of_step unmapped done
  have own {k : Machine} (same : k.store = d.store) : Keeps m.Spares m k := by
    refine ⟨(congrArg Store.maps same).trans (performed.confined.maps.trans unmapped), ?_⟩
    intro a spared
    have frame := performed.confined.frame (.address a) (spared m (.own m) i fetched.present)
    exact (congrArg (fun s : Store => s.get? a) same).trans frame
  rcases ways with
    ⟨target, -, completed⟩ | ⟨-, completed⟩ | ⟨number, accepted, k, rfl, requested, completed⟩
  · exact own (store_of_complete completed)
  · exact own (store_of_complete completed)
  · obtain ⟨rfl, requests⟩ := performed.interrupt number rfl
    have same : n.store = k.store := store_of_complete completed
    rcases handled_of_interruptWith unmapped requested with
      ⟨-, rfl⟩ | ⟨unmasked, w, z, vector, set, handled, after⟩
    · exact own same
    · have enters : m.Enters (m.entered none w.val) :=
        .request fetched.present requests unmasked vector set
      have kept := handles (m.entered none w.val) z unmapped handled
      have restored : k.store = z.store := by
        rw [after]
        split <;> rfl
      have store : n.store = z.store := same.trans restored
      refine ⟨(congrArg Store.maps store).trans kept.unmapped, fun a spared => ?_⟩
      refine (congrArg (fun s : Store => s.get? a) store).trans (kept.cells a ?_)
      intro x goes running y performs
      exact spared y (.handler enters goes running performs)

theorem keeps_of_untilHalt (fuel : Nat) {e z : Machine} (unmapped : e.store.maps = [])
    (h : untilHalt fuel e = some (.ok () z)) :
    Keeps (fun a => ∀ x, ReflTransGen Goes e x → x.isHalted = false → x.Spares a) e z := by
  induction fuel generalizing e z with
  | zero => cases h
  | succ fuel ih =>
    unfold untilHalt at h
    split at h
    · cases h
      exact ⟨unmapped, fun _ _ => rfl⟩
    · rename_i running
      rw [Bool.not_eq_true] at running
      change (e.step fuel).andThen _ = _ at h
      cases stepped : e.step fuel with
      | none =>
        rw [stepped] at h
        cases h
      | some r =>
        rw [stepped] at h
        cases r with
        | error cause k => cases h
        | ok i k =>
          have first := keeps_of_step unmapped (fun _ _ => ih) stepped
          have rest := ih first.unmapped h
          refine ⟨rest.unmapped, fun a spared => ?_⟩
          refine (rest.cells a ?_).trans (first.cells a (spared e .refl running))
          intro x goes
          exact spared x (.head ⟨fuel, i, stepped⟩ goes)

theorem Goes.keeps (unmapped : m.store.maps = []) (h : Goes m n) : Keeps m.Spares m n := by
  obtain ⟨fuel, i, done⟩ := h
  exact keeps_of_step unmapped (fun _ _ => keeps_of_untilHalt fuel) done

end Kept

def SparesFrame (m : Machine) (s : Int) : Prop := m.Spares s ∧ m.Spares (s + 1)

def GoesAbove (s : Int) (m n : Machine) : Prop := Goes m n ∧ m.SparesFrame s

def HoldsWord (m : Machine) (s : Int) (w : Word) : Prop := m.store.Holds s [w.high, w.low]

theorem HoldsWord.goesAbove {m n : Machine} {s : Int} {w : Word} (unmapped : m.store.maps = [])
    (h : m.HoldsWord s w) (above : ReflTransGen (GoesAbove s) m n) :
    n.store.maps = [] ∧ n.HoldsWord s w := by
  induction above with
  | refl => exact ⟨unmapped, h⟩
  | tail before goes ih =>
    obtain ⟨unmapped, word⟩ := ih
    obtain ⟨goes, low, high⟩ := goes
    have kept := goes.keeps unmapped
    refine ⟨kept.unmapped, word.of_same fun a above below => ?_⟩
    simp only [List.length_cons, List.length_nil] at below
    obtain rfl | rfl : a = s ∨ a = s + 1 := by omega
    · exact kept.cells _ low
    · exact kept.cells _ high

end Machine

namespace Core

variable {c d : Core} {w : Word}

theorem holds_of_pushWord (unmapped : c.store.maps = [])
    (pushed : onStack (Stack.pushWord w) c = .ok () d) :
    d.store.Holds c.registers.stackPointer [w.high, w.low] ∧ d = (c.push w.low).push w.high := by
  have pushed_cell {c : Core} (contains : c.store.Contains c.registers.stackPointer) (v : Tryte)
      (a : Int) : (c.push v).store.get? a
        = if a = c.registers.stackPointer then some v else c.store.get? a := by
    rw [push, assign, dif_pos contains]
    exact c.store.get?_put _ a contains v
  rw [Stack.pushWord, onStack_bind] at pushed
  obtain ⟨_, e, low, high⟩ := bind_eq_ok_iff.mp pushed
  rw [onStack_push_eq unmapped] at low
  split at low
  · rename_i first
    cases low
    rw [onStack_push_eq (c := c.push w.low) ((maps_push c w.low).trans unmapped)] at high
    split at high
    · rename_i second
      cases high
      have lower : ((c.push w.low).push w.high).store.get? c.registers.stackPointer
          = some w.low := by
        rw [pushed_cell second, if_neg (by rw [pointer_push]; omega), pushed_cell first, if_pos rfl]
      have upper := (pushed_cell second w.high (c.push w.low).registers.stackPointer).trans
        (if_pos rfl)
      rw [pointer_push] at upper
      exact ⟨⟨upper, (congrArg _ (Int.add_zero _)).trans lower, trivial⟩, rfl⟩
    · cases high
  · cases low

theorem perform_rts (unmapped : c.store.maps = []) {s : Int}
    (pointer : c.registers.stackPointer = s + 2) (word : c.store.Holds s [w.high, w.low])
    (value last : Int) :
    perform (.extended .rts) value last c
      = .ok (.jump (w.val + c.registers.direction.toInt)) (c.withPointer s) := by
  have represents : Stack.Represents s [w.high, w.low] ⟨c.store, c.registers.stackPointer⟩ :=
    ⟨unmapped, pointer, word⟩
  obtain ⟨⟨store, p⟩, pulled, left, same⟩ := Stack.pullWord_of_represents represents
  obtain rfl : store = c.store := same
  obtain rfl : p = s := left.pointer.trans (Int.add_zero s)
  rw [Word.ofHalves_low_high] at pulled
  have site : onStack Stack.pullWord c = .ok w (c.withPointer p) := by
    obtain ⟨registers, store⟩ := c
    simp only [onStack, pulled]
    rfl
  have target : Signed32.add? w.val c.registers.direction.toInt
      = some (w.val + c.registers.direction.toInt) := by
    have := w.lower
    have := w.upper
    have := c.registers.direction.neg_one_le_toInt
    have := c.registers.direction.toInt_le_one
    exact add?_of_near (by omega) (by omega)
  refine bind_eq_ok_iff.mpr ⟨w, c.withPointer p, site, ?_⟩
  refine bind_eq_ok_iff.mpr ⟨c.registers.direction.toInt, c.withPointer p, rfl, ?_⟩
  exact bind_eq_ok_iff.mpr ⟨_, c.withPointer p, by rw [target]; rfl, rfl⟩

end Core

namespace Machine

theorem fetched_of_bare {m : Machine} {i : Instruction} (unmapped : m.store.maps = [])
    (running : m.isHalted = false) (present : m.core.instruction? = some i)
    (bare : i.operandSize = 0) : ∃ value last, Fetched m i value last := by
  have met := Core.meets_fetch unmapped
  cases result : Core.fetch m.core with
  | error e d =>
    rw [result] at met
    have operand := met.2 i present
    omega
  | ok found d =>
    obtain ⟨j, value, last⟩ := found
    have fetched := fetched_of_fetch unmapped running result
    have same : j = i := Option.some.inj (fetched.present.symm.trans present)
    rw [same] at fetched
    exact ⟨value, last, fetched⟩

theorem holdsWord_of_call {m k : Machine} {fuel : Nat} (unmapped : m.store.maps = [])
    (call : m.step fuel = some (.ok (.extended .jsr) k)) :
    ∃ w : Word, w.val = m.registers.pc + 2 * m.registers.direction.toInt
      ∧ k.store.maps = [] ∧ k.HoldsWord m.registers.stackPointer w
      ∧ k.registers.stackPointer = m.registers.stackPointer + 2 := by
  obtain ⟨value, last, fetched⟩ := fetched_of_step unmapped call
  obtain ⟨flow, d, performed, ways⟩ := step_cases fetched.running fetched.fetch call
  obtain rfl := Core.flow_of_perform_jsr performed
  obtain ⟨site, e, found, rest⟩ := Core.bind_eq_ok_iff.mp performed
  obtain ⟨_, e', pushed, jumps⟩ := Core.bind_eq_ok_iff.mp rest
  cases jumps
  have address : Word.ofInt? last = some site ∧ e = m.core := by
    have met := Core.meets_inRange (c := m.core) (Word.ofInt? last)
    rw [found] at met
    exact ⟨met.2, met.1⟩
  obtain ⟨address, rfl⟩ := address
  obtain ⟨word, rfl⟩ := Core.holds_of_pushWord unmapped pushed
  rcases ways with ⟨target, -, completed⟩ | ⟨other, -⟩ | ⟨number, _, _, other, -⟩
  · have store := store_of_complete completed
    obtain ⟨-, target, -, registers⟩ := complete_eq_ok completed
    refine ⟨site, (Word.ofInt?_eq_some_iff.mp address).trans fetched.ends, ?_, ?_, ?_⟩
    · rw [store]
      exact (Core.maps_push _ _).trans ((Core.maps_push _ _).trans unmapped)
    · rw [HoldsWord, store]
      exact word
    · refine (congrArg Registers.stackPointer registers).trans ?_
      change m.registers.stackPointer + 1 + 1 = _
      omega
  · rcases other with other | other
    · cases other
    · cases other
  · cases other

theorem step_rts {y : Machine} {s : Int} {w : Word} (unmapped : y.store.maps = [])
    (word : y.HoldsWord s w) (present : y.core.instruction? = some (.extended .rts))
    (top : y.registers.stackPointer = s + 2) (running : y.isHalted = false) (fuel : Nat) :
    y.step fuel = some (.ok (.extended .rts) { y with
      core.registers.pc := w.val + y.registers.direction.toInt
      core.registers.stackPointer := s
      cycles := y.cycles + 1
      last? := some (.extended .rts) }) := by
  obtain ⟨value, last, fetched⟩ := fetched_of_bare unmapped running present rfl
  have performed := Core.perform_rts unmapped top word value last
  rw [step_eq_resume running fetched.fetch performed fuel]
  rfl

/-- The machine `z` stands at the instruction after the one of `m`, with the same stack pointer and
run direction. -/
def IsBehindCall (m z : Machine) : Prop :=
  z.registers.pc = m.registers.pc + 3 * m.registers.direction.toInt
    ∧ z.registers.stackPointer = m.registers.stackPointer
    ∧ z.registers.direction = m.registers.direction

/-- The machine is about to return from the call of `m`: it stands at a return, the stack pointer is
where the call has left it, and the run direction is that of the call. -/
structure AtReturn (m y : Machine) : Prop where
  present : y.core.instruction? = some (.extended .rts)
  top : y.registers.stackPointer = m.registers.stackPointer + 2
  direction : y.registers.direction = m.registers.direction

/-- A return that is reached while the return address is spared goes on behind the call. -/
theorem returns_of_goesAbove {m k y : Machine} {fuel : Nat} (unmapped : m.store.maps = [])
    (call : m.step fuel = some (.ok (.extended .jsr) k))
    (above : ReflTransGen (GoesAbove m.registers.stackPointer) k y) (ret : AtReturn m y)
    (fuel : Nat) :
    ∃ z, y.step fuel = some (.ok (.extended .rts) z) ∧ z.store.maps = [] ∧ IsBehindCall m z := by
  obtain ⟨value, last, fetched⟩ := fetched_of_step unmapped call
  obtain ⟨w, address, unmapped', word, -⟩ := holdsWord_of_call unmapped call
  obtain ⟨unmapped'', word⟩ := word.goesAbove unmapped' above
  have running : y.isHalted = false := by
    have same : y.isHalted = m.isHalted := congrArg Trit.isZero ret.direction
    rw [same]
    exact fetched.running
  refine ⟨_, step_rts unmapped'' word ret.present ret.top running fuel, unmapped'', ?_, rfl,
    ret.direction⟩
  change w.val + y.registers.direction.toInt = _
  rw [address, ret.direction]
  omega

/-- A run in which calls are nested in each other. Its steps spare the frames, which are the return
addresses of the calls that are open; the list holds the calls that are made and the machines behind
their returns. -/
inductive Nested : List Int → Machine → Machine → List (Machine × Machine) → Prop
  | done (frames : List Int) (m : Machine) : Nested frames m m []
  | step {frames : List Int} {m k n : Machine} {calls : List (Machine × Machine)}
    (goes : Goes m k) (spares : ∀ s ∈ frames, m.SparesFrame s) (rest : Nested frames k n calls) :
    Nested frames m n calls
  | call {frames : List Int} {m k y z n : Machine} {inner later : List (Machine × Machine)}
    {fuel : Nat} (call : m.step fuel = some (.ok (.extended .jsr) k))
    (spares : ∀ s ∈ frames, m.SparesFrame s)
    (body : Nested (m.registers.stackPointer :: frames) k y inner) (ret : AtReturn m y)
    (goes : Goes y z) (rest : Nested frames z n later) :
    Nested frames m n ((m, z) :: inner ++ later)

theorem AtReturn.sparesFrame {m y : Machine} (ret : AtReturn m y) (s : Int) : y.SparesFrame s := by
  have spares (a : Int) : y.Spares a := by
    intro x performs i present
    rw [performs.eq_of_plain ret.present rfl, ret.present] at present
    cases present
    exact List.not_mem_nil
  exact ⟨spares s, spares (s + 1)⟩

/-- However deep its calls are nested, a run spares every frame that is open throughout. -/
theorem Nested.goesAbove {frames : List Int} {m n : Machine} {calls : List (Machine × Machine)}
    (h : Nested frames m n calls) : ∀ s ∈ frames, ReflTransGen (GoesAbove s) m n := by
  induction h with
  | done => exact fun _ _ => .refl
  | step goes spares rest ih => exact fun s frame => .head ⟨goes, spares s frame⟩ (ih s frame)
  | call call spares body ret goes rest inside behind =>
    intro s frame
    refine .head ⟨⟨_, _, call⟩, spares s frame⟩ ?_
    refine (inside s (List.mem_cons_of_mem _ frame)).trans ?_
    exact .head ⟨goes, ret.sparesFrame s⟩ (behind s frame)

theorem Nested.returns {frames : List Int} {m n : Machine} {calls : List (Machine × Machine)}
    (h : Nested frames m n calls) (unmapped : m.store.maps = []) :
    n.store.maps = [] ∧ ∀ call ∈ calls, IsBehindCall call.1 call.2 := by
  induction h with
  | done => exact ⟨unmapped, fun _ absurd => nomatch absurd⟩
  | step goes spares rest ih => exact ih (goes.keeps unmapped).unmapped
  | @call frames m k y z n inner later fuel call spares body ret goes rest inside behind =>
    obtain ⟨-, -, unmapped', -, -⟩ := holdsWord_of_call unmapped call
    obtain ⟨fuel', i, goes⟩ := goes
    obtain ⟨z', returned, unmapped'', behindCall⟩ := returns_of_goesAbove unmapped call
      (body.goesAbove _ List.mem_cons_self) ret fuel'
    rw [goes] at returned
    cases returned
    obtain ⟨last, laterCalls⟩ := behind unmapped''
    refine ⟨last, fun made member => ?_⟩
    rcases List.mem_cons.mp member with rfl | member
    · exact behindCall
    · rcases List.mem_append.mp member with member | member
      · exact (inside unmapped').2 made member
      · exact laterCalls made member

/-- A call returns to the instruction after it, in either run direction, whatever is run in between
without writing the return address; and so does every call of a run in which calls are nested. -/
theorem call_returns_behind {m : Machine} (unmapped : m.store.maps = []) :
    (∀ fuel k, m.step fuel = some (.ok (.extended .jsr) k) → ∀ y,
      ReflTransGen (GoesAbove m.registers.stackPointer) k y →
      y.core.instruction? = some (.extended .rts) →
      y.registers.stackPointer = m.registers.stackPointer + 2 →
      y.registers.direction = m.registers.direction → ∀ fuel,
      ∃ z, y.step fuel = some (.ok (.extended .rts) z)
        ∧ z.registers.pc = m.registers.pc + 3 * m.registers.direction.toInt
        ∧ z.registers.stackPointer = m.registers.stackPointer)
    ∧ ∀ frames n calls, Nested frames m n calls → ∀ call ∈ calls,
      call.2.registers.pc = call.1.registers.pc + 3 * call.1.registers.direction.toInt
      ∧ call.2.registers.stackPointer = call.1.registers.stackPointer := by
  constructor
  · intro fuel k call y above present top direction fuel'
    obtain ⟨z, returned, -, pc, pointer, -⟩ :=
      returns_of_goesAbove unmapped call above ⟨present, top, direction⟩ fuel'
    exact ⟨z, returned, pc, pointer⟩
  · intro frames n calls nested call made
    obtain ⟨pc, pointer, -⟩ := (nested.returns unmapped).2 call made
    exact ⟨pc, pointer⟩

theorem call_returns_behind_backward :
    let empty : Store := ⟨13, Array.replicate 27 Tryte.zero, by decide, by decide, [], []⟩
    let jsr := Instruction.extended .jsr
    let rts := Instruction.extended .rts
    let call (target : Int) : List Tryte :=
      [Tryte.ofDigits target 5, Tryte.ofDigits target 0, jsr.encode]
    let m := ((((powerOn {} empty).load ⟨-2, call 5⟩).machine.load ⟨2, rts.encode :: call 10⟩
      ).machine.load ⟨10, [rts.encode]⟩).machine.update fun r =>
        { r with stackPointer := -9, flags := r.flags.set .direction .minus }
    ∃ a b c z, m.step 1 = some (.ok jsr a) ∧ a.step 1 = some (.ok jsr b)
      ∧ b.step 1 = some (.ok rts c) ∧ c.step 1 = some (.ok rts z)
      ∧ c.registers.pc = 2 ∧ z.registers.pc = -3 ∧ z.registers.stackPointer = -9 := by
  intro empty jsr rts call m
  let after (m : Machine) : Machine := ((m.step 1).map Result.machine).getD m
  have unmapped : m.store.maps = [] := by decide +kernel
  have values : ((m.step 1).map Result.value?, ((after m).step 1).map Result.value?,
      ((after (after m)).step 1).map Result.value?)
    = (some (some jsr), some (some jsr), some (some rts)) := by decide +kernel
  have places : (m.registers.pc, m.registers.stackPointer, m.registers.direction)
        = (0, -9, .minus)
      ∧ ((after m).registers.pc, (after m).registers.stackPointer, (after m).registers.direction)
        = (5, -7, .minus) := by decide +kernel
  have returns : ((after (after m)).core.instruction?, (after (after m)).registers.stackPointer,
        (after (after m)).registers.direction) = (some rts, -5, .minus)
      ∧ ((after (after (after m))).core.instruction?,
        (after (after (after m))).registers.stackPointer,
        (after (after (after m))).registers.direction) = (some rts, -7, .minus) := by
    decide +kernel
  have stepped {m : Machine} {i : Instruction}
      (shown : (m.step 1).map Result.value? = some (some i)) :
      m.step 1 = some (.ok i (after m)) := by
    obtain ⟨r, result, value⟩ := Option.map_eq_some_iff.mp shown
    have machine : after m = r.machine := by simp only [after, result]; rfl
    rw [result, machine, ← Result.eq_ok value]
  clear_value m after
  simp only [Prod.mk.injEq] at values places returns
  obtain ⟨outer, inner, last⟩ := values
  obtain ⟨⟨pc, pointer, direction⟩, pc', pointer', direction'⟩ := places
  obtain ⟨⟨rts', top', back'⟩, rts'', top'', back''⟩ := returns
  have outer := stepped outer
  have inner := stepped inner
  have last := stepped last
  have present : (after m).core.instruction? = some jsr := by
    obtain ⟨_, -, unmapped', -, -⟩ := holdsWord_of_call unmapped outer
    obtain ⟨_, _, fetched⟩ := fetched_of_step unmapped' inner
    exact fetched.present
  have spares : (after m).SparesFrame (-9) := by
    have cell (a : Int) (below : a < -7) : (after m).Spares a := by
      intro x performs
      rw [performs.eq_of_plain present rfl]
      refine Core.spares_of_below (below.trans_eq pointer'.symm) fun i there stackless => ?_
      rw [present] at there
      cases there
      cases stackless
    exact ⟨cell _ (by decide), cell _ (by decide)⟩
  have body : Nested [m.registers.stackPointer] (after m) (after (after (after m)))
      ([(after m, after (after (after m)))] ++ []) := by
    refine .call inner ?_ (.done _ _)
      ⟨rts', top'.trans (by rw [pointer']; rfl), back'.trans direction'.symm⟩ ⟨1, _, last⟩
      (.done _ _)
    intro s frame
    rw [List.mem_singleton.mp frame, pointer]
    exact spares
  obtain ⟨returns, nested⟩ := call_returns_behind unmapped
  obtain ⟨z, returned, behind, above⟩ := returns 1 (after m) outer (after (after (after m)))
    (body.goesAbove _ List.mem_cons_self) rts'' (top''.trans (by rw [pointer]; rfl))
    (back''.trans direction.symm) 1
  have whole : Nested [] m z ((m, z) :: [(after m, after (after (after m)))] ++ []) :=
    .call outer (fun _ absurd => nomatch absurd) body
      ⟨rts'', top''.trans (by rw [pointer]; rfl), back''.trans direction.symm⟩ ⟨1, _, returned⟩
      (.done _ _)
  obtain ⟨behind', -⟩ := nested [] z _ whole (after m, after (after (after m)))
    (List.mem_cons_of_mem _ List.mem_cons_self)
  refine ⟨_, _, _, z, outer, inner, last, returned, behind'.trans ?_, behind.trans ?_,
    above.trans pointer⟩
  · rw [pc', direction']
    rfl
  · rw [pc, direction]
    rfl

end Machine

end TernaryMachine
