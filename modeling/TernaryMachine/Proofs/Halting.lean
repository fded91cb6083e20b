import TernaryMachine.Proofs.Subroutines

/-!
How a run without peripherals ends. A run is traced through its handlers as the list of its
instructions with their addresses. Only a halt, a pull of the flags and interrupt zero, whose
handler leaves its registers behind, stop the machine; so a run that pulls no flags ends with the
halt that it performs last, whose code it shows. The program counter stays on that halt unless the
run ends with a request of interrupt zero: the step at the request moves the program counter back
to the request.
-/

set_option autoImplicit false
set_option relaxedAutoImplicit false

namespace TernaryMachine

def Instruction.haltCode? : Instruction → Option Trit
  | .extended .haltN => some .minus
  | .extended .haltZ => some .zero
  | .extended .haltP => some .plus
  | _ => none

def FlagEffect.turns : FlagEffect → Bool
  | .single f _ => decide (f = .direction)
  | .halted _ | .pulled => true
  | _ => false

namespace Instruction

variable {i : Instruction}

theorem turns_flagEffect (i : Instruction) : i.flagEffect.turns = i.turns := by
  cases i with
  | alu op mode => cases op <;> rfl
  | branch => rfl
  | extended op => cases op <;> rfl

theorem exists_haltCode?_of_turns (turns : i.turns = true) (other : i ≠ .extended .plp) :
    ∃ code, i.haltCode? = some code := by
  cases i with
  | alu | branch => cases turns
  | extended op =>
    cases op with
    | haltN | haltZ | haltP => exact ⟨_, rfl⟩
    | plp => exact absurd rfl other
    | _ => cases turns

theorem bare_of_haltCode? {code : Trit} (halts : i.haltCode? = some code) (c : Core) :
    i.flagEffect = .halted code ∧ i.interrupt? = none ∧ i.operandSize = 0 ∧ i.leaves c = false
      ∧ i.targets c = [] := by
  cases i with
  | alu | branch => cases halts
  | extended op =>
    cases op with
    | haltN | haltZ | haltP =>
      cases halts
      exact ⟨rfl, rfl, rfl, rfl, rfl⟩
    | _ => cases halts

end Instruction

theorem FlagEffect.Shown.direction {effect : FlagEffect} {targets : List Operand}
    {place? : Option Operand} {c d : Core} (h : effect.Shown targets place? c d)
    (straight : effect.turns = false) : d.registers.direction = c.registers.direction := by
  cases effect with
  | unchanged => exact congrArg (fun s : Flags => s.get .direction) h
  | result =>
    obtain ⟨p, v, -, -, changes⟩ := h
    exact changes .direction
  | sum factor =>
    obtain ⟨o, b, carry, -, -, -, changes⟩ := h
    exact changes .direction
  | shiftUp | shiftDown =>
    obtain ⟨p, old, new, -, -, -, changes⟩ := h
    exact changes .direction
  | difference register =>
    obtain ⟨o, a, b, wrapped, carry, -, -, -, -, changes⟩ := h
    exact changes .direction
  | single f t =>
    have other : Flag.direction ≠ f := fun same => of_decide_eq_false straight same.symm
    have kept := h .direction
    rw [List.lookup_cons, beq_false_of_ne other] at kept
    exact kept
  | halted | pulled => cases straight

namespace Machine

section Step

variable {m n : Machine} {fuel : Nat} {i : Instruction}

theorem eq_of_complete {j : Instruction} {target? : Registers → Option Int}
    (h : m.complete i target? = .ok j n) : ∃ target, target? m.registers = some target
      ∧ n = ⟨m.core.withPc target, m.options, m.cycles + 1, some i⟩ := by
  obtain ⟨⟨registers, store⟩, options, cycles, last?⟩ := m
  unfold complete at h
  cases found : target? registers with
  | none => simp [found] at h
  | some target =>
    simp only [found, EStateM.Result.ok.injEq] at h
    exact ⟨target, found, h.2.symm⟩

theorem isHalted_eq_false_iff : m.isHalted = false ↔ m.registers.direction ≠ .zero := by
  change m.registers.direction.isZero = false ↔ _
  cases m.registers.direction <;> decide

/-- The machine with which the handler begins that the instruction at the program counter requests,
if there is one. -/
def handler? (m : Machine) : Option Machine := do
  let number ← (← m.core.instruction?).interrupt?
  let w ← (m.store.peekWord (m.vectorAddress number)).toOption
  if m.isMasked number || w.isZero then none else some (m.entered none w.val)

theorem handler?_of_request {number : Trit} {w : Word} (present : m.core.instruction? = some i)
    (requests : i.interrupt? = some number) (unmasked : m.isMasked number = false)
    (vector : m.store.peekWord (m.vectorAddress number) = .ok w) (set : w.isZero = false) :
    m.handler? = some (m.entered none w.val) := by
  simp [handler?, present, requests, vector, unmasked, set, Except.toOption]

theorem handler?_of_masked {number : Trit} (present : m.core.instruction? = some i)
    (requests : i.interrupt? = some number) (masked : m.isMasked number = true) :
    m.handler? = none := by
  simp [handler?, present, requests, masked]

theorem handler?_of_plain (present : m.core.instruction? = some i) (plain : i.interrupt? = none) :
    m.handler? = none := by
  simp [handler?, present, plain]

theorem perform_of_interrupt? {number : Trit} (requests : i.interrupt? = some number)
    (value last : Int) (c : Core) : Core.perform i value last c = .ok (.interrupt number) c := by
  cases i with
  | alu | branch => cases requests
  | extended op =>
    cases op with
    | intN | intZ | intP =>
      cases requests
      rfl
    | _ => cases requests

theorem operandSize_of_interrupt? {number : Trit} (requests : i.interrupt? = some number) :
    i.operandSize = 0 := by
  cases i with
  | alu | branch => cases requests
  | extended op => cases op <;> first | rfl | cases requests

theorem isMasked_zero (m : Machine) : m.isMasked .zero = false := by
  unfold isMasked
  cases m.core.registers.flags.get .mask <;> rfl

variable (unmapped : m.store.maps = [])
include unmapped

/-- A step enters no handler, or the handler runs until it halts and is counted with the step. Of
what a handler of number zero leaves, the step changes the program counter only; any other handler
leaves the run direction as it was. -/
theorem handler_of_step (done : m.step fuel = some (.ok i n)) :
    (m.handler? = none ∧ n.cycles = m.cycles + 1 ∧ i.interrupt? ≠ some .zero)
      ∨ ∃ e z, m.handler? = some e ∧ e.registers.direction = .plus ∧ e.store.maps = []
        ∧ e.cycles = m.cycles ∧ untilHalt fuel e = some (.ok () z) ∧ n.cycles = z.cycles + 1
        ∧ (i.interrupt? = some .zero →
          n.core = z.core.withPc (m.registers.pc + z.registers.direction.toInt)) := by
  cases requests : i.interrupt? with
  | none =>
    obtain ⟨value, last, fetched⟩ := fetched_of_step unmapped done
    obtain ⟨flow, d, target, -, rfl, -⟩ := performed_of_step unmapped done requests
    exact .inl ⟨handler?_of_plain fetched.present requests, rfl, by simp⟩
  | some number =>
    obtain ⟨value, last, fetched⟩ := fetched_of_step unmapped done
    rw [step_eq_resume fetched.running fetched.fetch (perform_of_interrupt? requests _ _ _)] at done
    change (interruptWith (untilHalt fuel) number none m).andThen _ = _ at done
    cases requested : interruptWith (untilHalt fuel) number none m with
    | none =>
      rw [requested] at done
      cases done
    | some r =>
      rw [requested] at done
      cases r with
      | error e k => cases done
      | ok accepted k =>
        obtain ⟨target, following, rfl⟩ := eq_of_complete (Option.some.inj done)
        obtain rfl : last + k.registers.direction.toInt = target :=
          Option.some.inj ((following?_of_near fetched.near k.registers).symm.trans following)
        have place : last = m.registers.pc := by
          rw [fetched.ends, operandSize_of_interrupt? requests]
          omega
        rcases handled_of_interruptWith unmapped requested with
          ⟨masked, rfl⟩ | ⟨unmasked, w, z, vector, set, handled, after⟩
        · refine .inl ⟨handler?_of_masked fetched.present requests masked, rfl, ?_⟩
          rintro zero
          cases zero
          rw [isMasked_zero] at masked
          cases masked
        · refine .inr ⟨m.entered none w.val, z,
            handler?_of_request fetched.present requests unmasked vector set, ?_, unmapped, rfl,
            handled, ?_, ?_⟩
          · exact Flags.get_set_self _ _ _
          · rw [after]
            split <;> rfl
          · rintro zero
            cases zero
            rw [if_pos rfl] at after
            rw [after, place]

theorem last?_of_step (done : m.step fuel = some (.ok i n)) : n.last? = some i := by
  obtain ⟨value, last, flow, d, -, -, ways⟩ := effect_of_step unmapped done
  rcases ways with ⟨_, -, completed⟩ | ⟨-, completed⟩ | ⟨_, _, k, -, -, completed⟩
  · obtain ⟨_, -, rfl⟩ := eq_of_complete completed
    rfl
  · obtain ⟨_, -, rfl⟩ := eq_of_complete completed
    rfl
  · obtain ⟨_, -, rfl⟩ := eq_of_complete completed
    rfl

theorem direction_of_unturned (done : m.step fuel = some (.ok i n)) (straight : i.turns = false)
    (other : i.interrupt? ≠ some .zero) : n.registers.direction = m.registers.direction := by
  obtain ⟨value, last, flow, d, fetched, performed, ways⟩ := effect_of_step unmapped done
  have kept : d.registers.direction = m.registers.direction :=
    performed.flags.direction (i.turns_flagEffect.trans straight)
  rcases ways with
    ⟨target, -, completed⟩ | ⟨-, completed⟩ | ⟨number, accepted, k, rfl, requested, completed⟩
  · obtain ⟨_, -, rfl⟩ := eq_of_complete completed
    exact kept
  · obtain ⟨_, -, rfl⟩ := eq_of_complete completed
    exact kept
  · obtain ⟨rfl, requests⟩ := performed.interrupt number rfl
    have restores : number ≠ .zero := fun zero => other (zero ▸ requests)
    have restored := registers_of_interruptWith restores requested
    obtain ⟨_, -, rfl⟩ := eq_of_complete completed
    change k.registers.direction = _
    exact congrArg Registers.direction restored

theorem halt_of_step {code : Trit} (done : m.step fuel = some (.ok i n))
    (halts : i.haltCode? = some code) :
    n.registers.pc = m.registers.pc ∧ n.store.get? m.registers.pc = some i.encode
      ∧ n.registers.flags.get .haltCode = code ∧ n.registers.direction = .zero := by
  obtain ⟨flagEffect, plain, bare, stays, targets⟩ := Instruction.bare_of_haltCode? halts m.core
  obtain ⟨value, last, fetched⟩ := fetched_of_step unmapped done
  obtain ⟨flow, d, target, performed, rfl, goes⟩ := performed_of_step unmapped done plain
  have changes := performed.flags
  rw [flagEffect] at changes
  have direction : d.registers.direction = .zero := changes .direction
  have frame := performed.confined.frame (.address m.registers.pc) (by simp [targets])
  have cell : m.store.get? m.registers.pc = some i.encode :=
    (Core.opcode_of_instruction? fetched.present).1
  refine ⟨?_, frame.trans cell, changes .haltCode, direction⟩
  have place := goes stays
  rw [bare, direction] at place
  change target = m.registers.pc
  simpa [Trit.toInt] using place

end Step

/-- What a step adds to a trace: its instruction with the address, the instructions of the handler
that it enters and, if it succeeds, those of the rest of the run. -/
def traceStep (later : Machine → List (Int × Instruction)) (done : Outcome Instruction)
    (m : Machine) : List (Int × Instruction) :=
  (m.core.instruction?.map fun i => (m.registers.pc, i)).toList ++ (m.handler?.elim [] later
    ++ match done with
      | some (.ok _ n) => later n
      | _ => [])

/-- The instructions of a run until the machine halts, each with its address, in the order in which
they begin. The instructions of a handler stand behind the request. -/
def trace : Nat → Machine → List (Int × Instruction)
  | 0, _ => []
  | fuel + 1, m => if m.isHalted then [] else traceStep (trace fuel) (m.step fuel) m

def lastHalt? (entries : List (Int × Instruction)) : Option (Int × Instruction) :=
  (entries.filter fun entry => entry.2.haltCode?.isSome).getLast?

theorem lastHalt?_append (xs : List (Int × Instruction)) {ys : List (Int × Instruction)}
    {halt : Int × Instruction} (h : lastHalt? ys = some halt) : lastHalt? (xs ++ ys) = some halt := by
  rw [lastHalt?] at h
  rw [lastHalt?, List.filter_append, List.getLast?_append, h]
  rfl

section Trace

variable {m n : Machine} {fuel : Nat} {i : Instruction}

theorem trace_of_halted (halted : m.isHalted = true) (fuel : Nat) : m.trace fuel = [] := by
  cases fuel with
  | zero => rfl
  | succ fuel => exact if_pos halted

theorem untilHalt_succ_of_running (running : m.isHalted = false)
    (h : untilHalt (fuel + 1) m = some (.ok () n)) :
    ∃ i k, m.step fuel = some (.ok i k) ∧ untilHalt fuel k = some (.ok () n) := by
  unfold untilHalt at h
  rw [running] at h
  change (m.step fuel).andThen _ = _ at h
  cases stepped : m.step fuel with
  | none =>
    rw [stepped] at h
    cases h
  | some r =>
    rw [stepped] at h
    cases r with
    | error e k => cases h
    | ok i k => exact ⟨i, k, rfl, h⟩

theorem eq_of_untilHalt_of_halted (halted : m.isHalted = true)
    (h : untilHalt fuel m = some (.ok () n)) : n = m := by
  cases fuel with
  | zero => cases h
  | succ fuel =>
    unfold untilHalt at h
    rw [halted] at h
    cases h
    rfl

theorem trace_of_step (unmapped : m.store.maps = []) (done : m.step fuel = some (.ok i n)) :
    m.trace (fuel + 1) = (m.registers.pc, i) :: (m.handler?.elim [] (trace fuel) ++ n.trace fuel) := by
  obtain ⟨value, last, fetched⟩ := fetched_of_step unmapped done
  change (if m.isHalted then [] else traceStep (trace fuel) (m.step fuel) m) = _
  rw [fetched.running, done, traceStep, fetched.present]
  rfl

theorem length_trace (unmapped : m.store.maps = []) (h : untilHalt fuel m = some (.ok () n)) :
    n.cycles = m.cycles + (m.trace fuel).length := by
  induction fuel generalizing m n with
  | zero => cases h
  | succ fuel ih =>
    cases running : m.isHalted with
    | true =>
      rw [trace_of_halted running, eq_of_untilHalt_of_halted running h]
      rfl
    | false =>
      obtain ⟨i, k, done, rest⟩ := untilHalt_succ_of_running running h
      have later := ih (Goes.keeps unmapped ⟨fuel, i, done⟩).unmapped rest
      rw [trace_of_step unmapped done]
      rcases handler_of_step unmapped done with
        ⟨none, count, -⟩ | ⟨e, z, some, -, unmapped', start, handled, count, -⟩
      · simp only [none, Option.elim_none, List.nil_append, List.length_cons]
        omega
      · have inside := ih unmapped' handled
        simp only [some, Option.elim_some, List.length_cons, List.length_append]
        omega

end Trace

/-- A run ends with a halt that has an address. The flags show the code of the halt. Unless the last
step is a request of interrupt zero, it is the halt, and the program counter stands on it; else it
stands on the request. -/
structure EndsWith (entries : List (Int × Instruction)) (address : Int) (halt : Instruction)
    (n : Machine) : Prop where
  last : lastHalt? entries = some (address, halt)
  code : halt.haltCode? = some (n.registers.flags.get .haltCode)
  stopped : n.registers.direction = .zero
  place : n.last? ≠ some (.extended .intZ) → n.registers.pc = address
    ∧ n.store.get? address = some halt.encode ∧ n.last? = some halt
  request : n.last? = some (.extended .intZ) →
    (n.registers.pc, Instruction.extended .intZ) ∈ entries

theorem EndsWith.append {entries later : List (Int × Instruction)} {address : Int}
    {halt : Instruction} {n : Machine} (h : EndsWith later address halt n) :
    EndsWith (entries ++ later) address halt n where
  last := lastHalt?_append entries h.last
  code := h.code
  stopped := h.stopped
  place := h.place
  request zero := List.mem_append_right entries (h.request zero)

section Run

variable {m n : Machine} {fuel : Nat}

theorem exists_endsWith_of_step {i : Instruction} (unmapped : m.store.maps = [])
    (done : m.step fuel = some (.ok i n)) (stopped : n.registers.direction = .zero)
    (other : i ≠ .extended .plp)
    (handles : ∀ e z, m.handler? = some e → e.store.maps = [] → e.isHalted = false →
      untilHalt fuel e = some (.ok () z) → ∃ address halt, EndsWith (e.trace fuel) address halt z) :
    ∃ address halt,
      EndsWith ((m.registers.pc, i) :: m.handler?.elim [] (trace fuel)) address halt n := by
  have performed := last?_of_step unmapped done
  by_cases zero : i.interrupt? = some .zero
  · rcases handler_of_step unmapped done with
      ⟨-, -, plain⟩ | ⟨e, z, enters, forward, unmapped', -, handled, -, left⟩
    · exact absurd zero plain
    · obtain ⟨address, halt, ends⟩ :=
        handles e z enters unmapped' (isHalted_of_forward forward) handled
      have core := left zero
      rw [ends.stopped] at core
      have place : n.registers.pc = m.registers.pc := by
        rw [registers, core]
        exact Int.add_zero _
      obtain rfl := Instruction.eq_intZ_of_interrupt? zero
      rw [enters, Option.elim_some]
      refine ⟨address, halt, lastHalt?_append [_] ends.last, ?_, stopped,
        fun different => absurd performed different, fun _ => ?_⟩
      · have flags : n.registers.flags = z.registers.flags := by
          rw [registers, core]
          rfl
        rw [ends.code, flags]
      · rw [place]
        exact List.mem_cons_self
  · cases turns : i.turns with
    | false =>
      -- the direction would be the one of a machine that runs
      obtain ⟨value, last, fetched⟩ := fetched_of_step unmapped done
      have kept := direction_of_unturned unmapped done turns zero
      exact absurd (kept.symm.trans stopped) (isHalted_eq_false_iff.mp fetched.running)
    | true =>
      obtain ⟨code, halts⟩ := Instruction.exists_haltCode?_of_turns turns other
      obtain ⟨place, cell, shown, -⟩ := halt_of_step unmapped done halts
      obtain ⟨-, plain, -⟩ := Instruction.bare_of_haltCode? halts m.core
      obtain ⟨value, last, fetched⟩ := fetched_of_step unmapped done
      rw [handler?_of_plain fetched.present plain, Option.elim_none]
      refine ⟨m.registers.pc, i, ?_, ?_, stopped, fun _ => ⟨place, cell, performed⟩, fun same => ?_⟩
      · simp [lastHalt?, halts]
      · rw [halts, shown]
      · rw [performed] at same
        cases same
        cases halts

/-- Induction along the run; the handler of interrupt zero is such a run as well. -/
theorem exists_endsWith_of_untilHalt (unmapped : m.store.maps = []) (running : m.isHalted = false)
    (unpulled : ∀ entry ∈ m.trace fuel, entry.2 ≠ .extended .plp)
    (h : untilHalt fuel m = some (.ok () n)) :
    ∃ address halt, EndsWith (m.trace fuel) address halt n := by
  induction fuel generalizing m n with
  | zero => cases h
  | succ fuel ih =>
    obtain ⟨i, k, done, rest⟩ := untilHalt_succ_of_running running h
    rw [trace_of_step unmapped done, ← List.cons_append] at unpulled ⊢
    have first (entry) (mem : entry ∈ (m.registers.pc, i) :: m.handler?.elim [] (trace fuel)) :=
      unpulled entry (List.mem_append_left _ mem)
    have behind (entry) (mem : entry ∈ k.trace fuel) :=
      unpulled entry (List.mem_append_right _ mem)
    cases halted : k.isHalted with
    | false =>
      have unmapped' := (Goes.keeps unmapped ⟨fuel, i, done⟩).unmapped
      obtain ⟨address, halt, ends⟩ := ih unmapped' halted behind rest
      exact ⟨address, halt, ends.append⟩
    | true =>
      have same := eq_of_untilHalt_of_halted halted rest
      rw [trace_of_halted halted, List.append_nil, same]
      have stopped : k.registers.direction = .zero := by
        by_contra moving
        rw [isHalted_eq_false_iff.mpr moving] at halted
        cases halted
      refine exists_endsWith_of_step unmapped done stopped (first _ List.mem_cons_self) ?_
      intro e z enters unmapped' begins handled
      refine ih unmapped' begins (fun entry mem => first entry ?_) handled
      rw [enters]
      exact List.mem_cons_of_mem _ mem

/-- A run without peripherals that pulls no flags counts the instructions of its trace and ends with
the halt that is performed last, be it its own or one of a handler. The flags show the code of that
halt, and the program counter stands on it, unless the last step of the run is a request of
interrupt zero, on which the program counter then stands. -/
theorem run_ends_with_halt {count : Nat} (unmapped : m.store.maps = [])
    (running : m.registers.direction ≠ .zero)
    (unpulled : ∀ entry ∈ m.trace fuel, entry.2 ≠ .extended .plp)
    (done : m.run fuel = some (.ok count n)) :
    count = (m.trace fuel).length
    ∧ ∃ address halt code, lastHalt? (m.trace fuel) = some (address, halt)
      ∧ halt.haltCode? = some code ∧ n.registers.flags.get .haltCode = code
      ∧ n.registers.direction = .zero
      ∧ (n.last? ≠ some (.extended .intZ) →
        n.registers.pc = address ∧ n.store.get? n.registers.pc = some halt.encode
          ∧ n.last? = some halt)
      ∧ (n.last? = some (.extended .intZ) →
        (n.registers.pc, Instruction.extended .intZ) ∈ m.trace fuel) := by
  obtain ⟨halted, counted⟩ : untilHalt fuel m = some (.ok () n) ∧ n.cycles - m.cycles = count := by
    unfold run at done
    cases ran : untilHalt fuel m with
    | none =>
      rw [ran] at done
      cases done
    | some r =>
      rw [ran] at done
      cases r with
      | error e k => cases done
      | ok _ k =>
        cases done
        exact ⟨rfl, rfl⟩
  obtain ⟨address, halt, ends⟩ :=
    exists_endsWith_of_untilHalt unmapped (isHalted_eq_false_iff.mpr running) unpulled halted
  have length := length_trace unmapped halted
  refine ⟨by omega, address, halt, _, ends.last, ends.code, rfl, ends.stopped, fun other => ?_,
    ends.request⟩
  obtain ⟨place, cell, performed⟩ := ends.place other
  rw [place]
  exact ⟨rfl, cell, performed⟩

theorem run_ends_with_halt_backward :
    let empty : Store := ⟨13, Array.replicate 27 Tryte.zero, by decide, by decide, [], []⟩
    let place (origin : Int) (ops : List ExtendedOp) (m : Machine) : Machine :=
      (m.load ⟨origin, ops.map fun op => (Instruction.extended op).encode⟩).machine
    let vector (number : Trit) (target : Int) (m : Machine) : Machine :=
      (m.load ⟨m.vectorAddress number, [Tryte.ofDigits target 0, Tryte.ofDigits target 5]⟩).machine
    let m := (place 1 [.haltN, .intP] (place 4 [.intZ] (place 8 [.haltP]
      (vector .plus 4 (vector .zero 8 (powerOn {} empty)))))).update fun r =>
        { r with pc := 2, flags := (r.flags.set .mask .zero).set .direction .minus }
    ∃ n, m.run 5 = some (.ok 4 n) ∧ n.registers.pc = 1
      ∧ n.store.get? 1 = some (Instruction.extended .haltN).encode
      ∧ n.registers.flags.get .haltCode = .minus := by
  intro empty place vector m
  have unmapped : m.store.maps = [] := by decide +kernel
  have running : m.registers.direction ≠ .zero := by decide +kernel
  have traced : m.trace 5 = [(2, .extended .intP), (4, .extended .intZ), (8, .extended .haltP),
      (1, .extended .haltN)] := by
    decide +kernel
  have performed : (m.run 5).map (fun r => (r.value?, r.machine.last?))
      = some (some 4, some (.extended .haltN)) := by decide +kernel
  clear_value m
  obtain ⟨r, result, facts⟩ := Option.map_eq_some_iff.mp performed
  simp only [Prod.mk.injEq] at facts
  obtain ⟨value, final⟩ := facts
  rw [Result.eq_ok value] at result
  obtain ⟨-, address, halt, code, last, halts, shown, -, place, -⟩ :=
    run_ends_with_halt unmapped running (by simp [traced]) result
  obtain ⟨rfl, rfl⟩ : 1 = address ∧ Instruction.extended .haltN = halt := by
    rw [traced] at last
    exact Prod.mk.inj (Option.some.inj last)
  cases halts
  have other : r.machine.last? ≠ some (.extended .intZ) := by
    rw [final]
    decide
  obtain ⟨pc, cell, -⟩ := place other
  rw [pc] at cell
  exact ⟨r.machine, result, pc, cell, shown⟩

/-- A run that ends with interrupt zero: the handler halts at 4, and the step at the request moves
the program counter back to the request at 0. -/
theorem run_ends_on_request :
    let empty : Store := ⟨13, Array.replicate 27 Tryte.zero, by decide, by decide, [], []⟩
    let place (a : Int) (code : List Tryte) (m : Machine) : Machine := (m.load ⟨a, code⟩).machine
    let m := place 0 [(Instruction.extended .intZ).encode]
      (place 4 [(Instruction.extended .haltP).encode]
        (place (-11) [Tryte.ofDigits 4 0, .zero] (powerOn {} empty)))
    m.store.maps = [] ∧ m.registers.direction = .plus
      ∧ m.trace 3 = [(0, .extended .intZ), (4, .extended .haltP)]
      ∧ lastHalt? (m.trace 3) = some (4, .extended .haltP)
      ∧ (m.run 3).map (fun r => (r.value?, r.machine.registers.pc, r.machine.store.get? 0))
        = some (some 2, 0, some (Instruction.extended .intZ).encode)
      ∧ (Instruction.extended .intZ).encode ≠ (Instruction.extended .haltP).encode := by
  decide +kernel

end Run

end Machine

end TernaryMachine
