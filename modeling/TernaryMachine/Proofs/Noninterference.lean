import TernaryMachine.Proofs.Alike
import TernaryMachine.Proofs.Halting

/-!
Runs on two machines side by side. The stores of two machines without peripherals may differ in some
hidden cells. If the run of the one neither fetches nor reads nor writes such a cell, be it as
opcode, operand, pointer, stack or vector, in the run itself or in a handler, then both machines go
through the same steps: they halt with the same registers and the same count, or they fail with the
same error, or neither comes to an end; and the hidden cells stay as they are.
-/

set_option autoImplicit false
set_option relaxedAutoImplicit false

namespace TernaryMachine

def Instruction.writes (i : Instruction) (c : Core) : List Int :=
  (i.targets c).filterMap fun
    | .address a => some a
    | _ => none

theorem Instruction.mem_writes {i : Instruction} {c : Core} {a : Int}
    (written : .address a ∈ i.targets c) : a ∈ i.writes c :=
  List.mem_filterMap.mpr ⟨.address a, written, rfl⟩

theorem Registers.eq_of_ahead? {r : Registers} {k : Nat} {a : Int} (h : r.ahead? k = some a) :
    a = r.pc + k * r.direction.toInt := by
  obtain ⟨step, distance, sum⟩ := Option.bind_eq_some_iff.mp h
  obtain ⟨-, rfl⟩ := Signed32.check?_eq_some_iff.mp distance
  obtain ⟨-, rfl⟩ := Signed32.check?_eq_some_iff.mp sum
  rfl

namespace Core

/-- The cells that are fetched: that of the opcode and, behind an opcode, those of the operand. -/
def fetches (c : Core) : List Int :=
  (List.range (c.instruction?.elim 1 Instruction.length)).map fun k : Nat =>
    c.registers.pc + k * c.registers.direction.toInt

section Fetches

variable {c d : Core} {i : Instruction}

theorem pc_mem_fetches (c : Core) : c.registers.pc ∈ c.fetches := by
  refine List.mem_map.mpr ⟨0, List.mem_range.mpr ?_, by simp⟩
  cases c.instruction? with
  | none => exact Nat.one_pos
  | some i =>
    change 0 < 1 + i.operandSize
    omega

theorem ahead_mem_fetches (present : c.instruction? = some i) {k : Nat}
    (near : k ≤ i.operandSize) : c.registers.pc + k * c.registers.direction.toInt ∈ c.fetches := by
  refine List.mem_map.mpr ⟨k, List.mem_range.mpr ?_, rfl⟩
  rw [present]
  change k < 1 + i.operandSize
  omega

theorem literal?_congr (same : ∀ k ≤ i.operandSize, c.cellAhead? k = d.cellAhead? k) :
    c.literal? i = d.literal? i := by
  unfold literal?
  generalize i.operandSize = size at same ⊢
  match size with
  | 0 => rfl
  | 1 =>
    rw [same 1 (Nat.le_refl 1)]
    rfl
  | n + 2 => rw [same 1 (by omega), same 2 (by omega)]

theorem Residue.cell {e : MachineError} (h : Residue c i e d) {a : Int}
    (spared : .address a ∉ i.targets c) : d.store.get? a = c.store.get? a := by
  cases h with
  | whole | pulling => rfl
  | pushing w pushed =>
    have top : .address c.registers.stackPointer ∈ i.targets c := by
      cases i with
      | alu | branch => cases pushed
      | extended op =>
        cases op with
        | php | jsr => exact List.mem_cons_self
        | _ => cases pushed
    refine (Confined.push c w.low).frame (.address a) fun here => spared ?_
    rw [List.mem_singleton.mp here]
    exact top

end Fetches

section Pairs

variable {hidden : Int → Prop} {c d : Core} {i : Instruction} {value : Int}

theorem blind_ask {α : Type} (f : Registers → α) : Blind hidden (· = ·) (ask f) :=
  .ask fun _ _ same => congrArg f same

theorem blind_pushWord (w : Word) : Blind hidden (· = ·) (onStack (Stack.pushWord w)) := by
  unfold Stack.pushWord
  rw [onStack_bind]
  exact .bind (blind_push Registers.tame_eq w.low) fun _ => blind_push Registers.tame_eq w.high

section Alike

variable (alike : Alike hidden (· = ·) c d)
include alike

theorem Alike.peekWord {a : Int} (low : ¬ hidden a) (high : ¬ hidden (a + 1)) :
    c.store.peekWord a = d.store.peekWord a := by
  unfold Store.peekWord Store.peek
  rw [alike.cells _ low, alike.cells _ high, alike.outside, alike.outside]

theorem Alike.operand? {mode : AddressMode}
    (visible : ∀ a ∈ c.pointerCells mode value, ¬ hidden a) :
    c.operand? mode value = d.operand? mode value := by
  have same : c.registers = d.registers := alike.registers
  have pointer (a : Int) (cells : c.pointerCells mode value = [a, a + 1]) :
      c.store.peekWord a = d.store.peekWord a := by
    rw [cells] at visible
    exact alike.peekWord (visible a List.mem_cons_self)
      (visible (a + 1) (List.mem_cons_of_mem _ List.mem_cons_self))
  unfold Core.operand?
  cases mode with
  | accumulator | immediate | absolute => rfl
  | absoluteX | absoluteY => rw [same]
  | indirect => rw [pointer value rfl]
  | indexedXIndirect => rw [pointer _ rfl, same]
  | indirectIndexedY => rw [pointer value rfl, same]

theorem Alike.targets (literal : c.literal? i = some value) (literal' : d.literal? i = some value)
    (visible : ∀ a ∈ i.reads c, ¬ hidden a) : i.targets c = i.targets d := by
  have same : c.registers = d.registers := alike.registers
  have place : c.place? i = d.place? i := by
    rw [place?, place?, literal, literal']
    refine alike.operand? fun a mem => visible a ?_
    simp [Instruction.reads, literal, mem]
  unfold Instruction.targets
  rw [place, same]

theorem together_fetchAhead {k : Nat}
    (visible : ¬ hidden (c.registers.pc + k * c.registers.direction.toInt)) :
    Together (fun _ => Alike hidden (· = ·)) (Alike hidden (· = ·)) (fetchAhead k c)
      (fetchAhead k d) := by
  unfold fetchAhead
  refine (blind_ask (fun r => r.ahead? k) c d alike).bind ?_
  intro a? _ d' asked alike'
  cases asked
  refine Together.bind (Blind.inRange _ c d' alike') ?_
  intro a c' d'' found alike''
  have met := meets_inRange (c := c) (c.registers.ahead? k)
  rw [found] at met
  obtain ⟨rfl, ahead⟩ := met
  rw [← Registers.eq_of_ahead? ahead] at visible
  exact Blind.read visible c' d'' alike''

theorem together_fetchOperand
    (visible : ∀ k ≤ i.operandSize,
      ¬ hidden (c.registers.pc + (k : Nat) * c.registers.direction.toInt)) :
    Together (fun _ => Alike hidden (· = ·)) (Alike hidden (· = ·))
      (Instruction.fetchOperand i.mode fetchAhead c)
      (Instruction.fetchOperand i.mode fetchAhead d) := by
  unfold Instruction.fetchOperand
  unfold Instruction.operandSize at visible
  generalize i.mode.operandSize = size at visible ⊢
  match size with
  | 0 => exact .ok alike
  | 1 =>
    refine (together_fetchAhead alike (visible 1 (Nat.le_refl 1))).bind ?_
    exact fun _ _ _ _ alike' => .ok alike'
  | n + 2 =>
    refine (together_fetchAhead alike (visible 1 (by omega))).bind ?_
    intro low c' d' found alike'
    have met := meets_fetchAhead_of_unmapped alike.unmapped 1
    rw [found] at met
    obtain ⟨rfl, -⟩ := met
    refine (together_fetchAhead alike' (visible 2 (by omega))).bind ?_
    exact fun _ _ _ _ alike' => .ok alike'

theorem together_fetch (visible : ∀ a ∈ c.fetches, ¬ hidden a) :
    Together (fun _ => Alike hidden (· = ·)) (Alike hidden (· = ·)) (fetch c) (fetch d) := by
  unfold fetch
  refine (blind_ask Registers.pc c d alike).bind ?_
  intro pc _ d' asked alike'
  cases asked
  have opcode : ¬ hidden c.registers.pc := visible _ (pc_mem_fetches c)
  refine Together.bind (Blind.read opcode c d' alike') ?_
  intro t c' d'' found alike''
  obtain ⟨s, read, rfl⟩ := onStore_eq_ok_iff.mp found
  obtain ⟨cell, rfl⟩ := (read_eq_ok_iff alike.unmapped).mp read
  cases decoded : Instruction.decode t with
  | error cause => exact .error alike''
  | ok i =>
    have present : c.instruction? = some i := by
      rw [Core.instruction?, cell, Option.bind_some, decoded]
      rfl
    refine Together.bind (together_fetchOperand alike''
      fun k near => visible _ (ahead_mem_fetches present near)) ?_
    intro value c' d''' _ alike'''
    exact (Blind.bind (blind_ask _) fun a? => .bind (.inRange a?) fun last =>
      .pure (i, value, last)) c' d''' alike'''

theorem together_pullWord (high : ¬ hidden (c.registers.stackPointer - 1))
    (low : ¬ hidden (c.registers.stackPointer - 2)) :
    Together (fun _ => Alike hidden (· = ·)) (Alike hidden (· = ·)) (onStack Stack.pullWord c)
      (onStack Stack.pullWord d) := by
  unfold Stack.pullWord
  rw [onStack_bind]
  refine (together_pull Registers.tame_eq alike high).bind ?_
  intro v c' d' pulled alike'
  have met := meets_pull alike.unmapped
  rw [pulled] at met
  obtain ⟨-, rfl⟩ := met
  have second :
      ¬ hidden ((c.withPointer (c.registers.stackPointer - 1)).registers.stackPointer - 1) := by
    rw [pointer_withPointer, Int.sub_sub]
    exact low
  rw [onStack_bind]
  refine (together_pull Registers.tame_eq alike' second).bind ?_
  exact fun _ _ _ _ alike'' => .ok alike''

theorem together_pullWord_of_reads (two : i.pulled = 2) (visible : ∀ a ∈ i.reads c, ¬ hidden a) :
    Together (fun _ => Alike hidden (· = ·)) (Alike hidden (· = ·)) (onStack Stack.pullWord c)
      (onStack Stack.pullWord d) := by
  have cell (k : Nat) (few : k < 2) : ¬ hidden (c.registers.stackPointer - 1 - k) := by
    refine visible _ (List.mem_append_right _ (List.mem_map.mpr ⟨k, ?_, rfl⟩))
    rw [two]
    exact List.mem_range.mpr few
  have high := cell 0 (by decide)
  have low := cell 1 (by decide)
  rw [Int.natCast_zero, Int.sub_zero] at high
  rw [Int.natCast_one, Int.sub_sub] at low
  exact together_pullWord alike high low

theorem together_perform_of_eq (literal : c.literal? i = some value)
    (visible : ∀ a ∈ i.reads c, ¬ hidden a) (last : Int) :
    Together (fun _ => Alike hidden (· = ·)) (Alike hidden (· = ·)) (perform i value last c)
      (perform i value last d) := by
  by_cases straight : i.isStraight = true
  · exact together_perform Registers.tame_eq alike straight literal visible last last
  -- what is left are the branches, the jumps, the interrupts and what packs or unpacks the flags
  cases i with
  | alu op mode => exact absurd rfl straight
  | branch flag comparison digit =>
    refine (Blind.bind (blind_ask fun r => r.flags.get flag) fun t => ?_) c d alike
    split
    · exact .bind (blind_ask _) fun step => .bind (.inRange _) fun after =>
        .bind (.inRange _) fun target => .pure (Flow.jump target)
    · exact .pure Flow.next
  | extended op =>
    have pulled (two : (Instruction.extended op).pulled = 2) :
        Together (fun _ => Alike hidden (· = ·)) (Alike hidden (· = ·)) (onStack Stack.pullWord c)
          (onStack Stack.pullWord d) := together_pullWord_of_reads alike two visible
    cases op with
    | php =>
      exact Blind.andNext (.bind (blind_ask _) fun w? => .bind (.inRange w?) fun w =>
        blind_pushWord w) c d alike
    | plp =>
      refine Together.bind ((pulled rfl).bind fun w c' d' _ alike' => ?_) fun _ _ _ _ h => .ok h
      exact Blind.update (f := fun r => { r with flags := Flags.ofWord w })
        (fun r s same => by rw [same]) c' d' alike'
    | jsr =>
      exact (Blind.bind (.inRange _) fun site => .bind (blind_pushWord site) fun _ =>
        .pure (Flow.jump value)) c d alike
    | jmp => exact .ok alike
    | jmpInd =>
      have cell (a : Int) (mem : a ∈ c.pointerCells .indirect value) : ¬ hidden a := by
        refine visible a (List.mem_append_left _ (List.mem_append_left _ ?_))
        rw [literal]
        exact mem
      have pointer : Blind hidden (· = ·) (onStore (Store.readWord value)) :=
        .readWord (cell value (by simp [pointerCells])) (cell (value + 1) (by simp [pointerCells]))
      exact (Blind.bind pointer fun w => .pure (Flow.jump w.val)) c d alike
    | rts =>
      refine (pulled rfl).bind fun w c' d' _ alike' => ?_
      exact (Blind.bind (blind_ask _) fun step => .bind (.inRange _) fun target =>
        .pure (Flow.jump target)) c' d' alike'
    | intN | intZ | intP => exact .ok alike
    | _ => exact absurd rfl straight

end Alike

end Pairs

end Core

namespace Machine

/-- Neither of two runs has an outcome, or both succeed, or both fail with the same error; and the
machines that they leave are such that `P`. -/
inductive Outcome.Alike (P : Machine → Machine → Prop) {α β : Type} : Outcome α → Outcome β → Prop
  | endless : Alike P none none
  | ok {a : α} {b : β} {m m' : Machine} (h : P m m') : Alike P (some (.ok a m)) (some (.ok b m'))
  | error {e : MachineError} {m m' : Machine} (h : P m m') :
    Alike P (some (.error e m)) (some (.error e m'))

namespace Outcome.Alike

variable {P Q : Machine → Machine → Prop} {α β γ δ : Type} {x : Outcome α} {y : Outcome β}

theorem imp (h : Alike P x y) (weaker : ∀ m m', P m m' → Q m m') : Alike Q x y := by
  cases h with
  | endless => exact .endless
  | ok h => exact .ok (weaker _ _ h)
  | error h => exact .error (weaker _ _ h)

theorem symm (h : Alike P x y) : Alike (fun m m' => P m' m) y x := by
  cases h with
  | endless => exact .endless
  | ok h => exact .ok h
  | error h => exact .error h

theorem andThen {f : α → Machine → Outcome γ} {g : β → Machine → Outcome δ} (h : Alike P x y)
    (next : ∀ a b m m', x = some (.ok a m) → P m m' → Alike P (f a m) (g b m')) :
    Alike P (x.andThen f) (y.andThen g) := by
  cases h with
  | endless => exact .endless
  | ok h => exact next _ _ _ _ rfl h
  | error h => exact .error h

end Outcome.Alike

def vectorCells (m : Machine) (i : Instruction) : List Int :=
  match i.interrupt? with
  | some number =>
    if m.isMasked number then [] else [m.vectorAddress number, m.vectorAddress number + 1]
  | none => []

/-- The cells that the next step fetches, reads or writes before it enters a handler. -/
def touches (m : Machine) : List Int :=
  m.core.fetches ++ m.core.instruction?.elim [] fun i =>
    i.reads m.core ++ i.writes m.core ++ m.vectorCells i

/-- A machine is next in a run to one from which a step leads to it, and to one whose step enters
the handler that begins with it. -/
def Precedes (m n : Machine) : Prop := Goes m n ∨ m.isHalted = false ∧ m.Enters n

def RunAvoids (hidden : Int → Prop) (m : Machine) : Prop :=
  ∀ k, Relation.ReflTransGen Precedes m k → k.isHalted = false → ∀ a ∈ k.touches, ¬ hidden a

theorem RunAvoids.next {hidden : Int → Prop} {m k : Machine} (h : m.RunAvoids hidden)
    (next : Precedes m k) : k.RunAvoids hidden :=
  fun l reached => h l (.head next reached)

theorem step_unique {m : Machine} {fuel fuel' : Nat} {r r' : Result Instruction}
    (first : m.step fuel = some r) (second : m.step fuel' = some r') : r = r' := by
  have more (n d : Nat) := stepWith_within (untilHalt_within n d) m
  have whole := more fuel fuel' r first
  have whole' := more fuel' fuel r' second
  rw [Nat.add_comm] at whole'
  exact Option.some.inj (whole.symm.trans whole')

/-- Whether a step and what follows it avoid the hidden cells; `later` tells of the handler that the
step enters and of the rest of the run. -/
def stepIsClear (hidden : Int → Prop) [DecidablePred hidden] (later : Machine → Bool)
    (done : Outcome Instruction) (m : Machine) : Bool :=
  (m.touches.all fun a => !decide (hidden a)) && m.handler?.all later
    && match done with
      | some (.ok _ n) => later n
      | some (.error _ _) => true
      | none => false

/-- Whether a run avoids the hidden cells and ends, with fewer than `n` steps in sequence. -/
def runIsClear (hidden : Int → Prop) [DecidablePred hidden] : Nat → Machine → Bool
  | 0, _ => false
  | n + 1, m => m.isHalted || stepIsClear hidden (runIsClear hidden n) (m.step n) m

theorem runAvoids_of_runIsClear {hidden : Int → Prop} [DecidablePred hidden] {n : Nat} {m : Machine}
    (h : runIsClear hidden n m = true) : m.RunAvoids hidden := by
  induction n generalizing m with
  | zero => cases h
  | succ n ih =>
    intro k reached running a touched isHidden
    unfold runIsClear at h
    cases halted : m.isHalted with
    | true =>
      rcases Relation.ReflTransGen.cases_head reached with rfl | ⟨l, ⟨_, _, done⟩ | ⟨runs, -⟩, -⟩
      · rw [halted] at running
        cases running
      · rw [step_of_halted halted] at done
        cases done
      · rw [halted] at runs
        cases runs
    | false =>
      rw [halted, Bool.false_or] at h
      unfold stepIsClear at h
      rw [Bool.and_eq_true, Bool.and_eq_true] at h
      obtain ⟨⟨own, handled⟩, later⟩ := h
      rcases Relation.ReflTransGen.cases_head reached with
        rfl | ⟨l, ⟨_, _, done⟩ | ⟨-, enters⟩, rest⟩
      · have visible := List.all_eq_true.mp own a touched
        simp [isHidden] at visible
      · cases stepped : m.step n with
        | none =>
          rw [stepped] at later
          cases later
        | some r =>
          obtain rfl := step_unique stepped done
          rw [stepped] at later
          exact ih later k rest running a touched isHidden
      · obtain ⟨present, requests, unmasked, vector, set⟩ := enters
        rw [handler?_of_request present requests unmasked vector set] at handled
        exact ih handled k rest running a touched isHidden

/-- Two machines that differ in the hidden cells of their stores only, which the second one keeps as
they are. -/
structure Agrees (hidden : Int → Prop) (kept : Int → Option Tryte) (m m' : Machine) : Prop where
  core : Core.Alike hidden (· = ·) m.core m'.core
  kept : ∀ a, hidden a → m'.store.get? a = kept a
  options : m.options = m'.options
  cycles : m.cycles = m'.cycles
  last : m.last? = m'.last?

section Agrees

variable {hidden : Int → Prop} {kept : Int → Option Tryte} {m m' : Machine}
variable (h : Agrees hidden kept m m')
include h

namespace Agrees

theorem registers : m.registers = m'.registers := h.core.registers

theorem isHalted : m.isHalted = m'.isHalted :=
  congrArg (fun r : Registers => r.flags.isHalted) h.registers

theorem update (f : Registers → Registers) : Agrees hidden kept (m.update f) (m'.update f) where
  core := h.core.update (congrArg f h.registers)
  kept := h.kept
  options := h.options
  cycles := h.cycles
  last := h.last

theorem withCore {c c' : Core} (alike : Core.Alike hidden (· = ·) c c')
    (cells : ∀ a, hidden a → c'.store.get? a = m'.store.get? a) :
    Agrees hidden kept { m with core := c } { m' with core := c' } where
  core := alike
  kept a isHidden := (cells a isHidden).trans (h.kept a isHidden)
  options := h.options
  cycles := h.cycles
  last := h.last

theorem complete (i : Instruction) (target? : Registers → Option Int) :
    Outcome.Alike (Agrees hidden kept) (some (m.complete i target?))
      (some (m'.complete i target?)) := by
  cases found : target? m.registers with
  | some target =>
    have found' := found
    rw [h.registers] at found'
    rw [complete_of_eq_some found, complete_of_eq_some found', h.cycles]
    have moved : Core.Alike hidden (· = ·) (m.core.withPc target) (m'.core.withPc target) :=
      h.core.update (congrArg (fun r : Registers => { r with pc := target }) h.registers)
    exact .ok ⟨moved, h.kept, h.options, rfl, rfl⟩
  | none =>
    have fault {m : Machine} (none : target? m.registers = none) :
        m.complete i target? = .error .rangeFault m := by
      obtain ⟨⟨registers, store⟩, options, cycles, last?⟩ := m
      have none : target? registers = Option.none := none
      simp only [Machine.complete, none]
    have found' := found
    rw [h.registers] at found'
    rw [fault found, fault found']
    exact .error h

theorem interruptWith {handler : Machine → Outcome Unit} {number : Trit}
    (visible : m.isMasked number = false →
      ¬ hidden (m.vectorAddress number) ∧ ¬ hidden (m.vectorAddress number + 1))
    (handles : ∀ w, m.isMasked number = false →
      m.store.peekWord (m.vectorAddress number) = .ok w → w.isZero = false →
      Outcome.Alike (Agrees hidden kept) (handler (m.entered none w.val))
        (handler (m'.entered none w.val))) :
    Outcome.Alike (Agrees hidden kept) (Machine.interruptWith handler number none m)
      (Machine.interruptWith handler number none m') := by
  have mask : m'.isMasked number = m.isMasked number := by
    have same : m'.core.registers = m.core.registers := h.registers.symm
    rw [isMasked, isMasked, same]
  have place : m'.vectorAddress number = m.vectorAddress number := by
    have same : m'.core.store.maxAddress = m.core.store.maxAddress := h.core.size.symm
    rw [vectorAddress, vectorAddress, Store.minAddress, Store.minAddress, same]
  rw [interruptWith_eq h.core.unmapped, interruptWith_eq h.core.unmapped', mask, place]
  cases masked : m.isMasked number with
  | true => exact .ok h
  | false =>
    obtain ⟨low, high⟩ := visible masked
    have word : m.store.peekWord _ = m'.store.peekWord _ := h.core.peekWord low high
    rw [← word]
    cases vector : m.store.peekWord (m.vectorAddress number) with
    | error e => exact .error h
    | ok w =>
      cases set : w.isZero with
      | true =>
        simp only [set, if_true]
        exact .error h
      | false =>
        simp only [set]
        refine ((handles w masked vector set).andThen ?_).andThen ?_
        · intro _ _ n n' _ after
          have before : m.core.registers = m'.core.registers := h.registers
          rw [before]
          split
          · exact .ok after
          · exact .ok (after.update _)
        · exact fun _ _ _ _ _ after => .ok after

theorem resume {fuel : Nat} {flow : Flow} (i : Instruction) (last : Int)
    (requested : ∀ number, flow = .interrupt number →
      Outcome.Alike (Agrees hidden kept) (Machine.interruptWith (untilHalt fuel) number none m)
        (Machine.interruptWith (untilHalt fuel) number none m')) :
    Outcome.Alike (Agrees hidden kept) (Machine.resume fuel i last flow m)
      (Machine.resume fuel i last flow m') := by
  unfold Machine.resume
  cases flow with
  | next => exact h.complete i _
  | jump target => exact h.complete i _
  | debugNop =>
    have same : m.core.registers = m'.core.registers := h.registers
    dsimp only
    rw [h.options, same]
    split
    · exact .error h
    · exact h.complete i _
  | interrupt number =>
    exact (requested number rfl).andThen fun _ _ _ _ _ after => after.complete i _

theorem fetched (running : m.isHalted = false) (visible : ∀ a ∈ m.core.fetches, ¬ hidden a)
    (fuel : Nat) : Outcome.Alike (Agrees hidden kept) (m.step fuel) (m'.step fuel)
      ∨ ∃ i value last, Fetched m i value last ∧ Fetched m' i value last := by
  have running' : m'.isHalted = false := h.isHalted.symm.trans running
  have both := Core.together_fetch h.core visible
  generalize result : Core.fetch m.core = r at both
  generalize result' : Core.fetch m'.core = r' at both
  cases both with
  | error same =>
    have met := Core.meets_fetch h.core.unmapped'
    rw [result'] at met
    obtain ⟨rfl, -⟩ := met
    rw [step_of_fetch_error running result, step_of_fetch_error running' result']
    exact .inl (.error (h.withCore same fun _ _ => rfl))
  | @ok found =>
    obtain ⟨i, value, last⟩ := found
    exact .inr ⟨i, value, last, fetched_of_fetch h.core.unmapped running result,
      fetched_of_fetch h.core.unmapped' running' result'⟩

theorem performed {fuel : Nat} {i : Instruction} {value last : Int}
    (first : Fetched m i value last) (second : Fetched m' i value last)
    (visible : ∀ a ∈ i.reads m.core ++ i.writes m.core ++ m.vectorCells i, ¬ hidden a)
    (handles : ∀ e e', m.Enters e → Agrees hidden kept e e' →
      Outcome.Alike (Agrees hidden kept) (untilHalt fuel e) (untilHalt fuel e')) :
    Outcome.Alike (Agrees hidden kept) (m.step fuel) (m'.step fuel) := by
  have reads (a : Int) (mem : a ∈ i.reads m.core) : ¬ hidden a :=
    visible a (List.mem_append_left _ (List.mem_append_left _ mem))
  have spared (a : Int) (isHidden : hidden a) : Operand.address a ∉ i.targets m'.core := by
    rw [← h.core.targets first.literal second.literal reads]
    intro written
    exact visible a (List.mem_append_left _ (List.mem_append_right _
      (Instruction.mem_writes written))) isHidden
  have met := Core.meets_perform h.core.unmapped first.literal first.ends
  have met' := Core.meets_perform h.core.unmapped' second.literal second.ends
  have both := Core.together_perform_of_eq h.core first.literal reads last
  generalize done : Core.perform i value last m.core = r at both met
  generalize done' : Core.perform i value last m'.core = r' at both met'
  cases both with
  | error same =>
    rw [step_of_perform_error first.running first.fetch done,
      step_of_perform_error second.running second.fetch done']
    exact .error (h.withCore same fun a isHidden => Core.Residue.cell met' (spared a isHidden))
  | @ok flow c c' same =>
    have performed : Core.Performed i m.core flow c := met
    have performed' : Core.Performed i m'.core flow c' := met'
    rw [step_eq_resume first.running first.fetch done,
      step_eq_resume second.running second.fetch done']
    have after := h.withCore same
      fun a isHidden => performed'.confined.frame (.address a) (spared a isHidden)
    refine after.resume i last fun number requested => after.interruptWith ?_ ?_
    · -- a request changes nothing before its handler is entered
      obtain ⟨rfl, requests⟩ := performed.interrupt number requested
      intro unmasked
      have cells : m.vectorCells i
          = [m.vectorAddress number, m.vectorAddress number + 1] := by
        have unmasked : m.isMasked number = false := unmasked
        rw [vectorCells, requests]
        simp only [unmasked, Bool.false_eq_true, if_false]
      rw [cells] at visible
      exact ⟨visible _ (by simp), visible _ (by simp)⟩
    · obtain ⟨rfl, requests⟩ := performed.interrupt number requested
      intro w unmasked vector set
      exact handles _ _ (.request first.present requests unmasked vector set) (after.update _)

end Agrees

/-- The step lemma. A step that touches no hidden cell does the same on both machines if the handler
that it enters does. -/
theorem alike_step {fuel : Nat} (avoids : m.isHalted = false → ∀ a ∈ m.touches, ¬ hidden a)
    (handles : ∀ e e', m.isHalted = false → m.Enters e → Agrees hidden kept e e' →
      Outcome.Alike (Agrees hidden kept) (untilHalt fuel e) (untilHalt fuel e')) :
    Outcome.Alike (Agrees hidden kept) (m.step fuel) (m'.step fuel) := by
  cases running : m.isHalted with
  | true =>
    have halted' : m'.isHalted = true := h.isHalted.symm.trans running
    have state : m'.state = m.state :=
      congrArg (fun r : Registers => RunState.ofDirection r.direction) h.registers.symm
    rw [step_of_halted running, step_of_halted halted', state]
    exact .error h
  | false =>
    have visible := avoids running
    rcases h.fetched running (fun a mem => visible a (List.mem_append_left _ mem)) fuel with
      failed | ⟨i, value, last, first, second⟩
    · exact failed
    · refine h.performed first second (fun a mem => visible a (List.mem_append_right _ ?_))
        fun e e' => handles e e' running
      rw [first.present]
      exact mem

end Agrees

/-- The run lemma, by induction on the fuel, which also bounds the steps of the handlers. -/
theorem alike_untilHalt {hidden : Int → Prop} {kept : Int → Option Tryte} (fuel : Nat)
    {m m' : Machine} (h : Agrees hidden kept m m') (avoids : m.RunAvoids hidden) :
    Outcome.Alike (Agrees hidden kept) (untilHalt fuel m) (untilHalt fuel m') := by
  induction fuel generalizing m m' with
  | zero => exact .endless
  | succ fuel ih =>
    unfold untilHalt
    rw [← h.isHalted]
    cases running : m.isHalted with
    | true => exact .ok h
    | false =>
      have step : Outcome.Alike (Agrees hidden kept) (m.step fuel) (m'.step fuel) := by
        apply alike_step h (avoids m .refl)
        intro e e' _ enters agrees
        exact ih agrees (avoids.next (.inr ⟨running, enters⟩))
      refine step.andThen fun i _ k k' stepped agrees => ?_
      exact ih agrees (avoids.next (.inl ⟨fuel, i, stepped⟩))

end Machine

end TernaryMachine
