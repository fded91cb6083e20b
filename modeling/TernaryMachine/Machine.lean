import TernaryMachine.Machine.Execution
import TernaryMachine.Program

/-!
The machine: registers and store with a count of the instructions performed. A step performs one
instruction; an interrupt inside a step runs its handler until it halts. Runs take fuel, the
greatest number of steps of a run and of each handler inside it, and have no outcome when it is
spent; more fuel never changes an outcome.
-/

set_option autoImplicit false
set_option relaxedAutoImplicit false

namespace TernaryMachine

structure MachineOptions where
  /-- The number of cells, which must be odd. -/
  tryteCount : Nat := Store.fullSize
  dnopTraps : Bool := false
  deriving DecidableEq, Repr

structure Machine where
  core : Core
  options : MachineOptions
  /-- The number of instructions performed, those of interrupt handlers included. -/
  cycles : Nat
  last? : Option Instruction

namespace Machine

/-- A value or a failure, each with the machine it leaves. -/
abbrev Result (α : Type) : Type := EStateM.Result MachineError Machine α

/-- The result of something that runs, none if it runs out of fuel. -/
abbrev Outcome (α : Type) : Type := Option (Result α)

/-- Goes on from a value, unless there was a failure or no outcome. -/
@[inline] def Outcome.andThen {α β : Type} (x : Outcome α) (f : α → Machine → Outcome β) :
    Outcome β :=
  match x with
  | none => none
  | some (.error e m) => some (.error e m)
  | some (.ok a m) => f a m

def powerOn (options : MachineOptions) (store : Store) : Machine :=
  ⟨⟨Registers.initial, store⟩, options, 0, none⟩

def create (options : MachineOptions) : Except MachineError Machine :=
  match Store.create options.tryteCount with
  | .ok store => .ok (powerOn options store)
  | .error e => .error (.memory e)

def standard : Machine := powerOn {} Store.full

def registers (m : Machine) : Registers := m.core.registers

def store (m : Machine) : Store := m.core.store

def onCore {α : Type} (x : Core.Action α) : Machine → Result α
  | ⟨core, options, cycles, last?⟩ =>
    match x core with
    | .ok a core => .ok a ⟨core, options, cycles, last?⟩
    | .error e core => .error e ⟨core, options, cycles, last?⟩

def update (f : Registers → Registers) : Machine → Machine
  | ⟨⟨registers, store⟩, options, cycles, last?⟩ => ⟨⟨f registers, store⟩, options, cycles, last?⟩

def updateStore (f : Store → Store) : Machine → Machine
  | ⟨⟨registers, store⟩, options, cycles, last?⟩ => ⟨⟨registers, f store⟩, options, cycles, last?⟩

/-- The power-on state with a cleared memory; the ranges of peripherals stay. -/
def reset : Machine → Machine
  | ⟨⟨_, store⟩, options, _, _⟩ => ⟨⟨Registers.initial, store.clear⟩, options, 0, none⟩

def isHalted (m : Machine) : Bool := m.core.registers.flags.isHalted

def state (m : Machine) : RunState := RunState.ofDirection m.core.registers.direction

def vectorAddress (m : Machine) (number : Trit) : Int :=
  m.core.store.minAddress + 2 * (number.toInt + 1)

/-- Whether an interrupt is masked: a positive mask holds back number one, a negative one every
number but zero. -/
def isMasked (m : Machine) (number : Trit) : Bool :=
  match m.core.registers.flags.get .mask with
  | .minus => decide (number ≠ .zero)
  | .zero => false
  | .plus => decide (number = .plus)

/-- Enters a handler, runs it until it halts and, except for number zero, restores the registers. -/
def dispatch (handler : Machine → Outcome Unit) (number : Trit) (value? : Option Tryte)
    (vector : Int) (m : Machine) : Outcome Unit :=
  let before := m.core.registers
  let entered := m.update fun r =>
    { r with
      accumulator := value?.getD r.accumulator
      pc := vector
      flags := r.flags.set .direction .plus }
  Outcome.andThen (handler entered) fun _ m =>
    some (.ok () (if number = .zero then m else m.update fun _ => before))

def interruptWith (handler : Machine → Outcome Unit) (number : Trit) (value? : Option Tryte)
    (m : Machine) : Outcome Bool :=
  if m.isMasked number then some (.ok false m)
  else
    let vector := m.vectorAddress number
    Outcome.andThen (some (m.onCore (Core.onStore (Store.readWord vector)))) fun target m =>
      if target.isZero then some (.error (.unsetVector number) m)
      else
        Outcome.andThen (dispatch handler number value? target.val m) fun _ m => some (.ok true m)

/-- Moves the program counter to its place after an instruction and counts the instruction. -/
def complete (i : Instruction) (target? : Registers → Option Int) : Machine → Result Instruction
  | ⟨⟨registers, store⟩, options, cycles, last?⟩ =>
    match target? registers with
    | some target => .ok i ⟨⟨{ registers with pc := target }, store⟩, options, cycles + 1, some i⟩
    | none => .error .rangeFault ⟨⟨registers, store⟩, options, cycles, last?⟩

/-- The address after an instruction whose last tryte is at `last`. -/
def following? (last : Int) (r : Registers) : Option Int :=
  Signed32.add? last r.direction.toInt

/-- Performs one instruction; `handler` runs the handlers of interrupts. -/
def stepWith (handler : Machine → Outcome Unit) (m : Machine) : Outcome Instruction :=
  if m.isHalted then some (.error (.notRunning m.state) m)
  else
    Outcome.andThen (some (m.onCore Core.fetch)) fun (i, value, last) m =>
      Outcome.andThen (some (m.onCore (Core.perform i value last))) fun flow m =>
        match flow with
        | .next => some (m.complete i (following? last))
        | .jump target => some (m.complete i fun _ => some target)
        | .debugNop =>
          if m.options.dnopTraps then some (.error (.debugTrap m.core.registers.pc) m)
          else some (m.complete i (following? last))
        | .interrupt number =>
          Outcome.andThen (interruptWith handler number none m) fun _ m =>
            some (m.complete i (following? last))

def untilHalt : Nat → Machine → Outcome Unit
  | 0, _ => none
  | fuel + 1, m =>
    if m.isHalted then some (.ok () m)
    else Outcome.andThen (stepWith (untilHalt fuel) m) fun _ m => untilHalt fuel m

def step (fuel : Nat) (m : Machine) : Outcome Instruction := stepWith (untilHalt fuel) m

/-- Requests an interrupt, whose handler is run until it halts, and tells whether it was
accepted. -/
def interrupt (fuel : Nat) (number : Trit) (value? : Option Tryte) (m : Machine) : Outcome Bool :=
  interruptWith (untilHalt fuel) number value? m

/-- Performs instructions until the machine halts or `limit` of them are performed. -/
def upTo (fuel : Nat) : Nat → Machine → Outcome Unit
  | 0, m => some (.ok () m)
  | limit + 1, m =>
    if m.isHalted then some (.ok () m)
    else Outcome.andThen (stepWith (untilHalt fuel) m) fun _ m => upTo fuel limit m

def run (fuel : Nat) (m : Machine) : Outcome Nat :=
  let before := m.cycles
  Outcome.andThen (untilHalt fuel m) fun _ m => some (.ok (m.cycles - before) m)

/-- Runs until the machine halts or the limit is reached and counts the instructions. The limit
does not count the instructions of interrupt handlers. -/
def runLimited (fuel limit : Nat) (m : Machine) : Outcome Nat :=
  let before := m.cycles
  Outcome.andThen (upTo fuel limit m) fun _ m => some (.ok (m.cycles - before) m)

def load (p : Program) (m : Machine) : Result Unit :=
  match m.core.store.peek p.origin with
  | .error e => .error (.memory e) m
  | .ok _ => m.onCore (Core.onStore (Store.writeArray p.origin p.code))

/-- Loads a program, makes it the handler of interrupt zero and runs it. -/
def boot (fuel : Nat) (p : Program) (m : Machine) : Outcome Unit :=
  Outcome.andThen (some (m.load p)) fun _ m =>
    match Word.ofInt? p.origin with
    | none => some (.error .rangeFault m)
    | some origin =>
      let vector := m.vectorAddress .zero
      Outcome.andThen (some (m.onCore (Core.onStore (Store.writeWord vector origin)))) fun _ m =>
        dispatch (untilHalt fuel) .zero none p.origin m

def Result.machine {α : Type} : Result α → Machine
  | .ok _ m => m
  | .error _ m => m

def Result.value? {α : Type} : Result α → Option α
  | .ok a _ => some a
  | .error _ _ => none

theorem Result.eq_ok {α : Type} {r : Result α} {a : α} (h : r.value? = some a) :
    r = .ok a r.machine := by
  cases r with
  | ok b m =>
    cases h
    rfl
  | error e m => cases h

/-- Every outcome of `x` is such that `Q`. -/
def Outcome.Ensures {α : Type} (x : Outcome α) (Q : Result α → Prop) : Prop :=
  ∀ r, x = some r → Q r

theorem Outcome.Ensures.of_eq {α : Type} {Q : Result α → Prop} {r : Result α} (h : Q r) :
    Outcome.Ensures (some r) Q := by
  rintro _ ⟨⟩
  exact h

theorem Outcome.Ensures.andThen {α β : Type} {x : Outcome α} {f : α → Machine → Outcome β}
    {P : Result α → Prop} {Q : Result β → Prop} (hx : x.Ensures P)
    (failed : ∀ e m, P (.error e m) → Q (.error e m))
    (passed : ∀ a m, P (.ok a m) → (f a m).Ensures Q) : (x.andThen f).Ensures Q := by
  intro r h
  match x, hx, h with
  | some (.error e m), hx, h =>
    cases h
    exact failed e m (hx _ rfl)
  | some (.ok a m), hx, h => exact passed a m (hx _ rfl) r h

/-- Every outcome of `x` is an outcome of `y`. -/
def Outcome.Within {α : Type} (x y : Outcome α) : Prop := ∀ r, x = some r → y = some r

theorem Outcome.Within.andThen {α β : Type} {x y : Outcome α} {f g : α → Machine → Outcome β}
    (hx : x.Within y) (hf : ∀ a m, (f a m).Within (g a m)) :
    (x.andThen f).Within (y.andThen g) := by
  intro r h
  match x, hx, h with
  | some (.error e m), hx, h => rw [hx _ rfl]; exact h
  | some (.ok a m), hx, h => rw [hx _ rfl]; exact hf a m r h

theorem dispatch_within {h k : Machine → Outcome Unit} (hk : ∀ m, (h m).Within (k m))
    (number : Trit) (value? : Option Tryte) (vector : Int) (m : Machine) :
    (dispatch h number value? vector m).Within (dispatch k number value? vector m) :=
  Outcome.Within.andThen (hk _) fun _ _ _ e => e

theorem interruptWith_within {h k : Machine → Outcome Unit} (hk : ∀ m, (h m).Within (k m))
    (number : Trit) (value? : Option Tryte) (m : Machine) :
    (interruptWith h number value? m).Within (interruptWith k number value? m) := by
  unfold interruptWith
  split
  · exact fun _ e => e
  · refine Outcome.Within.andThen (fun _ e => e) fun target m => ?_
    split
    · exact fun _ e => e
    · exact Outcome.Within.andThen (dispatch_within hk number value? target.val m) fun _ _ _ e => e

theorem stepWith_within {h k : Machine → Outcome Unit} (hk : ∀ m, (h m).Within (k m))
    (m : Machine) : (stepWith h m).Within (stepWith k m) := by
  unfold stepWith
  split
  · exact fun _ e => e
  · refine Outcome.Within.andThen (fun _ e => e) fun (i, value, last) m => ?_
    refine Outcome.Within.andThen (fun _ e => e) fun flow m => ?_
    cases flow with
    | interrupt number =>
      exact Outcome.Within.andThen (interruptWith_within hk number none m) fun _ _ _ e => e
    | _ => exact fun _ e => e

/-- More fuel never changes the outcome of a run. -/
theorem untilHalt_within (n d : Nat) (m : Machine) :
    (untilHalt n m).Within (untilHalt (n + d) m) := by
  induction n generalizing m with
  | zero => exact fun _ h => nomatch h
  | succ n ih =>
    rw [Nat.succ_add]
    unfold untilHalt
    split
    · exact fun _ e => e
    · exact Outcome.Within.andThen (stepWith_within ih m) fun _ m => ih m

def describe (m : Machine) : String :=
  "Cpu \x7b " ++ s!"state: {m.state.name}, cycles: {m.cycles}, "
    ++ s!"regs: {m.core.registers.describe}, mem: {m.core.store.describe}" ++ " \x7d"

end Machine

end TernaryMachine
