import TernaryMachine.Proofs.SafeActions

/-!
Everything that can be done with a machine from outside, one command after another, the ones that
fail included. The ends of the store never move and the registers stay within their bounds, in every
state that is reached. As long as the stack pointer is above the least 32-bit integer, no command
finds a value out of the range of its destination.
-/

set_option autoImplicit false
set_option relaxedAutoImplicit false

namespace TernaryMachine

namespace Machine

/-- An outcome within the bounds of registers and store, and without a value out of range if there
was room; `Q` holds of its value. -/
def Outcome.Safe {α : Type} (n : Nat) (room : Prop) (x : Outcome α) (Q : α → Prop) : Prop :=
  x.Ensures (Meets (fun a m => Core.Sound n room m.core ∧ Q a)
    fun e m => Core.Stopped n room e m.core)

abbrev Outcome.Steady {α : Type} (n : Nat) (room : Prop) (x : Outcome α) : Prop :=
  x.Safe n room fun _ => True

variable {n : Nat} {room : Prop} {α β : Type}

namespace Outcome.Safe

theorem ok {a : α} {m : Machine} {Q : α → Prop} (sound : Core.Sound n room m.core) (h : Q a) :
    Outcome.Safe n room (some (.ok a m)) Q := .of_eq ⟨sound, h⟩

theorem error {e : MachineError} {m : Machine} {Q : α → Prop} (sound : Core.Sound n room m.core)
    (other : e ≠ .rangeFault) : Outcome.Safe n room (some (.error e m)) Q :=
  .of_eq (sound.stopped other)

theorem andThen {x : Outcome α} {f : α → Machine → Outcome β} {P : α → Prop} {Q : β → Prop}
    (hx : x.Safe n room P)
    (hf : ∀ a m, Core.Sound n room m.core → P a → (f a m).Safe n room Q) :
    (x.andThen f).Safe n room Q :=
  Outcome.Ensures.andThen hx (fun _ _ h => h) fun a m h => hf a m h.1 h.2

theorem onCore {x : Core.Action α} {Q : α → Prop} (h : Core.Safe n room x Q) {m : Machine}
    (sound : Core.Sound n room m.core) : Outcome.Safe n room (some (m.onCore x)) Q := by
  obtain ⟨core, options, cycles, last?⟩ := m
  have met := h core sound
  apply Outcome.Ensures.of_eq
  unfold Machine.onCore
  dsimp only
  cases result : x core with
  | ok a d =>
    rw [result] at met
    exact met
  | error e d =>
    rw [result] at met
    exact met

end Outcome.Safe

theorem safe_complete {m : Machine} (sound : Core.Sound n room m.core) (i : Instruction)
    {target? : Registers → Option Int}
    (h : ∃ target, target? m.core.registers = some target ∧ -29646 ≤ target ∧ target ≤ 29646) :
    Outcome.Steady n room (some (m.complete i target?)) := by
  obtain ⟨⟨registers, store⟩, options, cycles, last?⟩ := m
  obtain ⟨target, found, near⟩ := h
  have found : target? registers = some target := found
  simp only [complete, found]
  have bounded := sound.registers
  exact .ok ⟨⟨near, bounded.flags, bounded.pointer⟩, sound.ends, sound.room⟩ trivial

theorem exists_following {last : Int} (h : -29524 ≤ last ∧ last ≤ 29524) (r : Registers) :
    ∃ target, following? last r = some target ∧ -29646 ≤ target ∧ target ≤ 29646 := by
  have := r.direction.neg_one_le_toInt
  have := r.direction.toInt_le_one
  refine ⟨last + r.direction.toInt, add?_of_near (by omega) (by omega), ?_⟩
  omega

def entered (value? : Option Tryte) (vector : Int) (m : Machine) : Machine :=
  m.update fun r =>
    { r with
      accumulator := value?.getD r.accumulator
      pc := vector
      flags := r.flags.set .direction .plus }

theorem sound_entered (value? : Option Tryte) {vector : Int}
    (near : -29524 ≤ vector ∧ vector ≤ 29524) {m : Machine} (sound : Core.Sound n room m.core) :
    Core.Sound n room (m.entered value? vector).core := by
  obtain ⟨⟨registers, store⟩, options, cycles, last?⟩ := m
  have bounded := sound.registers
  have pc : -29646 ≤ vector ∧ vector ≤ 29646 := by omega
  exact ⟨⟨pc, bounded.flags.set .direction .plus, bounded.pointer⟩, sound.ends, sound.room⟩

section Handler

variable {handler : Machine → Outcome Unit}

theorem safe_dispatch
    (handles : ∀ m, Core.Sound n room m.core → (handler m).Steady n room) (number : Trit)
    (value? : Option Tryte) {vector : Int} (near : -29524 ≤ vector ∧ vector ≤ 29524) {m : Machine}
    (sound : Core.Sound n room m.core) :
    (dispatch handler number value? vector m).Steady n room := by
  refine .andThen (handles _ (sound_entered value? near sound)) ?_
  intro _ after later _
  by_cases keeps : number = .zero
  · rw [if_pos keeps]
    exact .ok later trivial
  · rw [if_neg keeps]
    exact .ok ⟨sound.registers, later.ends, sound.room⟩ trivial

theorem safe_interruptWith
    (handles : ∀ m, Core.Sound n room m.core → (handler m).Steady n room) (number : Trit)
    (value? : Option Tryte) {m : Machine} (sound : Core.Sound n room m.core) :
    (interruptWith handler number value? m).Steady n room := by
  unfold interruptWith
  split_ifs with masked
  · exact .ok sound trivial
  · refine .andThen (.onCore (.onStore (Store.safe_readWord _)) sound) fun target m sound _ => ?_
    split_ifs with unset
    · exact .error sound (by simp)
    · refine .andThen (safe_dispatch handles number value? ⟨target.lower, target.upper⟩ sound) ?_
      exact fun _ m sound _ => .ok sound trivial

theorem safe_stepWith
    (handles : ∀ m, Core.Sound n room m.core → (handler m).Steady n room) {m : Machine}
    (sound : Core.Sound n room m.core) : (stepWith handler m).Steady n room := by
  unfold stepWith
  split_ifs with halted
  · exact .error sound (by simp)
  · refine .andThen (.onCore Core.safe_fetch sound) fun (i, value, last) m sound fetched => ?_
    obtain ⟨holds, inside⟩ := fetched
    refine .andThen (.onCore (Core.Safe.perform holds inside) sound) fun flow m sound near => ?_
    have goesOn {m : Machine} (sound : Core.Sound n room m.core) :
        Outcome.Steady n room (some (m.complete i (following? last))) :=
      safe_complete sound i (exists_following inside _)
    cases flow with
    | next => exact goesOn sound
    | jump target => exact safe_complete sound i ⟨target, rfl, near target rfl⟩
    | debugNop =>
      dsimp only
      split_ifs with traps
      · exact .error sound (by simp)
      · exact goesOn sound
    | interrupt number =>
      refine .andThen (safe_interruptWith handles number none sound) fun _ m sound _ => ?_
      exact goesOn sound

end Handler

theorem safe_untilHalt (fuel : Nat) {m : Machine} (sound : Core.Sound n room m.core) :
    (untilHalt fuel m).Steady n room := by
  induction fuel generalizing m with
  | zero => exact fun _ h => nomatch h
  | succ fuel ih =>
    unfold untilHalt
    split_ifs with halted
    · exact .ok sound trivial
    · exact .andThen (safe_stepWith (fun _ => ih) sound) fun _ m sound _ => ih sound

theorem safe_upTo (fuel limit : Nat) {m : Machine} (sound : Core.Sound n room m.core) :
    (upTo fuel limit m).Steady n room := by
  induction limit generalizing m with
  | zero => exact .ok sound trivial
  | succ limit ih =>
    unfold upTo
    split_ifs with halted
    · exact .ok sound trivial
    · refine .andThen (safe_stepWith (fun _ => safe_untilHalt fuel) sound) ?_
      exact fun _ m sound _ => ih sound

theorem safe_load (p : Program) {m : Machine} (sound : Core.Sound n room m.core) :
    Outcome.Safe n room (some (m.load p)) fun _ => -29524 ≤ p.origin ∧ p.origin ≤ 29524 := by
  unfold load Store.peek
  cases cell : m.core.store.get? p.origin with
  | none => exact .error sound (by simp)
  | some t =>
    have inside := Core.bounds_of_cell cell
    exact .onCore (.onStore ((Store.safe_writeArray p.origin p.code).weaken fun _ _ => inside)) sound

theorem safe_boot (fuel : Nat) (p : Program) {m : Machine} (sound : Core.Sound n room m.core) :
    (boot fuel p m).Steady n room := by
  refine .andThen (safe_load p sound) fun _ m sound inside => ?_
  have origin : Word.ofInt? p.origin = some ⟨p.origin, inside.1, inside.2⟩ :=
    Word.ofInt?_eq_some_iff.mpr rfl
  rw [origin]
  refine .andThen (.onCore (.onStore (Store.safe_writeWord _ _)) sound) fun _ m sound _ => ?_
  exact safe_dispatch (fun _ => safe_untilHalt fuel) .zero none inside sound

inductive Command where
  | load (p : Program)
  | boot (p : Program)
  | step
  | run
  | runLimited (limit : Nat)
  | interrupt (number : Trit) (value? : Option Tryte)
  | reset
  | read (a : Int)
  | write (a : Int) (v : Tryte)
  | readWord (a : Int)
  | writeWord (a : Int) (w : Word)
  | writeArray (a : Int) (ts : List Tryte)
  | register (name : String) (map : MemoryMap)
  | setAccumulator (v : Tryte)
  | setIndexX (v : Tryte)
  | setIndexY (v : Tryte)
  | setFlags (packed : Word)

def Outcome.effect (x : Outcome α) : Outcome Unit := x.andThen fun _ m => some (.ok () m)

def Command.perform (fuel : Nat) (c : Command) (m : Machine) : Outcome Unit :=
  match c with
  | .load p => some (m.load p)
  | .boot p => m.boot fuel p
  | .step => (m.step fuel).effect
  | .run => (m.run fuel).effect
  | .runLimited limit => (m.runLimited fuel limit).effect
  | .interrupt number value? => (m.interrupt fuel number value?).effect
  | .reset => some (.ok () m.reset)
  | .read a => Outcome.effect (some (m.onCore (Core.onStore (Store.read a))))
  | .write a v => some (m.onCore (Core.onStore (Store.write a v)))
  | .readWord a => Outcome.effect (some (m.onCore (Core.onStore (Store.readWord a))))
  | .writeWord a w => some (m.onCore (Core.onStore (Store.writeWord a w)))
  | .writeArray a ts => some (m.onCore (Core.onStore (Store.writeArray a ts)))
  | .register name map => some (.ok () (m.updateStore fun s => s.register name map))
  | .setAccumulator v => some (.ok () (m.update fun r => { r with accumulator := v }))
  | .setIndexX v => some (.ok () (m.update fun r => { r with indexX := v }))
  | .setIndexY v => some (.ok () (m.update fun r => { r with indexY := v }))
  | .setFlags packed => some (.ok () (m.update fun r => { r with flags := Flags.ofWord packed }))

theorem Outcome.Safe.effect {x : Outcome α} {Q : α → Prop} (h : x.Safe n room Q) :
    x.effect.Steady n room := h.andThen fun _ _ sound _ => .ok sound trivial

theorem safe_command (fuel : Nat) (c : Command) {m : Machine} (sound : Core.Sound n room m.core) :
    (c.perform fuel m).Steady n room := by
  have stored {α : Type} {x : Store.Access α} {Q : α → Prop} (h : Store.Safe n x Q) :
      Outcome.Steady n room (some (m.onCore (Core.onStore x))) :=
    .onCore (.onStore (h.weaken fun _ _ => trivial)) sound
  have bounded := sound.registers
  cases c with
  | load p =>
    refine Outcome.Ensures.of_eq ?_
    exact ((safe_load p sound) _ rfl).weaken fun _ _ met => ⟨met.1, trivial⟩
  | boot p => exact safe_boot fuel p sound
  | step => exact (safe_stepWith (fun _ => safe_untilHalt fuel) sound).effect
  | run =>
    refine Outcome.Safe.effect (Q := fun _ => True) ?_
    exact .andThen (safe_untilHalt fuel sound) fun _ _ sound _ => .ok sound trivial
  | runLimited limit =>
    refine Outcome.Safe.effect (Q := fun _ => True) ?_
    exact .andThen (safe_upTo fuel limit sound) fun _ _ sound _ => .ok sound trivial
  | interrupt number value? =>
    exact (safe_interruptWith (fun _ => safe_untilHalt fuel) number value? sound).effect
  | reset =>
    have above : Registers.initial.HasRoom := by
      unfold Registers.HasRoom
      decide
    exact .ok ⟨Registers.bounded_initial, sound.ends, fun _ => above⟩ trivial
  | read a => exact (stored (Store.safe_read a)).effect
  | write a v => exact stored (Store.safe_write a v)
  | readWord a => exact (stored (Store.safe_readWord a)).effect
  | writeWord a w => exact stored (Store.safe_writeWord a w)
  | writeArray a ts => exact stored (Store.safe_writeArray a ts)
  | register name map => exact .ok ⟨bounded, sound.ends, sound.room⟩ trivial
  | setAccumulator v | setIndexX v | setIndexY v =>
    exact .ok ⟨⟨bounded.pc, bounded.flags, bounded.pointer⟩, sound.ends, sound.room⟩ trivial
  | setFlags packed =>
    exact .ok ⟨⟨bounded.pc, Flags.bounded_ofWord packed, bounded.pointer⟩, sound.ends, sound.room⟩
      trivial

/-- The machines that commands reach from one that was built with the given options. A command that
fails leaves a machine too, and so does one that is about to run a handler. -/
inductive Reached : MachineOptions → Machine → Prop where
  | standard : Reached {} standard
  | created {options : MachineOptions} {m : Machine} (built : create options = .ok m) :
    Reached options m
  | after {options : MachineOptions} {m : Machine} {c : Command} {fuel : Nat} {r : Result Unit}
    (before : Reached options m) (done : c.perform fuel m = some r) : Reached options r.machine
  | entered {options : MachineOptions} {m : Machine} (before : Reached options m)
    (value? : Option Tryte) (vector : Word) : Reached options (m.entered value? vector.val)

/-- Without a promise of room every reached machine is within the bounds, and the number of its cells
is the one it was built with. -/
theorem sound_of_reached {options : MachineOptions} {m : Machine} (h : Reached options m) :
    Core.Sound (options.tryteCount / 2) False m.core ∧ options.tryteCount % 2 = 1 := by
  induction h with
  | standard => exact ⟨⟨Registers.bounded_initial, rfl, False.elim⟩, by decide⟩
  | created built =>
    rename_i options m
    unfold create Store.create at built
    split_ifs at built with odd
    · cases built
      exact ⟨⟨Registers.bounded_initial, rfl, False.elim⟩, odd.1⟩
  | after before done ih =>
    rename_i r
    obtain ⟨sound, odd⟩ := ih
    have met := safe_command _ _ sound r done
    refine ⟨?_, odd⟩
    cases r with
    | ok _ m => exact met.1
    | error e m => exact ⟨met.registers, met.ends, False.elim⟩
  | entered before value? vector ih =>
    exact ⟨sound_entered value? ⟨vector.lower, vector.upper⟩ ih.1, ih.2⟩

/-- The sums and products that are formed without a check of their own fit 32 bits: the place of a
cell and the address behind it, the addresses of the vectors, the digits of the status register and
what is added when a flag is set. -/
structure Fits (m : Machine) : Prop where
  place : ∀ a, m.store.Contains a → m.store.index a < m.store.cells.size
    ∧ Signed32.InRange (a + m.store.maxAddress) ∧ Signed32.InRange (a + 1)
  vector : ∀ number, Signed32.InRange (m.vectorAddress number)
    ∧ Signed32.InRange (m.vectorAddress number + 1)
  flag : ∀ f t,
    Digits.Bounded.trit? m.registers.flags.packed f.index = some (m.registers.flags.get f)
      ∧ Signed32.InRange ((t.toInt - (m.registers.flags.get f).toInt) * Digits.weight f.index)
      ∧ Signed32.InRange (m.registers.flags.set f t).packed

theorem fits_of_sound {m : Machine} (sound : Core.Sound n room m.core) : m.Fits := by
  have ends := m.core.store.maxAddress_le
  constructor
  case place =>
    intro a inside
    refine ⟨Store.index_lt inside, ?_⟩
    have near := Store.bounds_of_contains inside
    simp only [store, Signed32.InRange, Signed32.minValue, Signed32.maxValue]
    omega
  case vector =>
    intro number
    have := number.neg_one_le_toInt
    have := number.toInt_le_one
    simp only [vectorAddress, Store.minAddress, Signed32.InRange, Signed32.minValue,
      Signed32.maxValue]
    omega
  case flag =>
    intro f t
    have bounded : m.registers.flags.Bounded := sound.registers.flags
    have changed := bounded.set f t
    refine ⟨Digits.trit?_eq_some bounded.inside.1 bounded.inside.2 f.index, ?_⟩
    simp only [Flags.Bounded, Flags.set, Signed32.InRange, Signed32.minValue, Signed32.maxValue]
      at bounded changed ⊢
    omega

/-- In every state that is reached, after failures too, the store has the cells and the ends that it
was built with, every register is within its bounds, and no sum leaves 32 bits. As long as the stack
pointer is above the least 32-bit integer, no command fails for a value out of range. -/
theorem reached_within_bounds {options : MachineOptions} {m : Machine}
    (reached : Reached options m) :
    m.store.size = options.tryteCount
    ∧ 2 * (m.store.maxAddress : Int) + 1 = options.tryteCount
    ∧ m.store.minAddress = -m.store.maxAddress
    ∧ (∀ t ∈ m.store.cells, -121 ≤ t.val ∧ t.val ≤ 121)
    ∧ (-121 ≤ m.registers.accumulator.val ∧ m.registers.accumulator.val ≤ 121)
    ∧ (-121 ≤ m.registers.indexX.val ∧ m.registers.indexX.val ≤ 121)
    ∧ (-121 ≤ m.registers.indexY.val ∧ m.registers.indexY.val ≤ 121)
    ∧ (-9841 ≤ m.registers.flags.packed ∧ m.registers.flags.packed ≤ 9841)
    ∧ (-29646 ≤ m.registers.pc ∧ m.registers.pc ≤ 29646)
    ∧ (Signed32.minValue ≤ m.registers.stackPointer ∧ m.registers.stackPointer ≤ 29525)
    ∧ m.Fits
    ∧ (Signed32.minValue < m.registers.stackPointer →
      ∀ fuel (c : Command) n, c.perform fuel m ≠ some (.error .rangeFault n)) := by
  obtain ⟨sound, odd⟩ := sound_of_reached reached
  have bounded : m.registers.Bounded := sound.registers
  have ends : m.store.maxAddress = options.tryteCount / 2 := sound.ends
  have size : m.store.size = 2 * m.store.maxAddress + 1 := m.store.size_cells
  refine ⟨by omega, by omega, rfl, fun t _ => ⟨t.lower, t.upper⟩,
    ⟨m.registers.accumulator.lower, m.registers.accumulator.upper⟩,
    ⟨m.registers.indexX.lower, m.registers.indexX.upper⟩,
    ⟨m.registers.indexY.lower, m.registers.indexY.upper⟩,
    bounded.flags, bounded.pc, bounded.pointer, fits_of_sound sound, ?_⟩
  intro above fuel c n failed
  have roomy : Core.Sound (options.tryteCount / 2) True m.core :=
    ⟨bounded, sound.ends, fun _ => above⟩
  exact (safe_command fuel c roomy _ failed).room trivial rfl

theorem reached_within_bounds_after_failure :
    let pulls : Program := ⟨0, List.replicate 5 (Instruction.extended .pla).encode⟩
    ∃ built loaded r, create { tryteCount := 9 } = .ok built
      ∧ Command.perform 9 (.load pulls) built = some (.ok () loaded)
      ∧ Command.perform 9 .run loaded = some r
      ∧ r.value? = none ∧ r.machine.registers.stackPointer = -5
      ∧ Reached { tryteCount := 9 } r.machine ∧ r.machine.store.size = 9
      ∧ ∀ fuel (c : Command) n, c.perform fuel r.machine ≠ some (.error .rangeFault n) := by
  intro pulls
  let built : Machine := powerOn { tryteCount := 9 }
    ⟨4, Array.replicate 9 Tryte.zero, by decide, by decide, [], []⟩
  have created : create { tryteCount := 9 } = .ok built := rfl
  let loaded := (built.load pulls).machine
  have filled : Command.perform 9 (.load pulls) built = some (.ok () loaded) := rfl
  have stopped : (Command.perform 9 .run loaded).map (fun r =>
      (r.value?, r.machine.registers.stackPointer)) = some (none, -5) := by decide +kernel
  have start : Reached { tryteCount := 9 } loaded := (Reached.created created).after filled
  clear_value loaded
  obtain ⟨r, result, shown⟩ := Option.map_eq_some_iff.mp stopped
  simp only [Prod.mk.injEq] at shown
  obtain ⟨failed, pointer⟩ := shown
  have reached : Reached { tryteCount := 9 } r.machine := start.after result
  obtain ⟨size, -, -, -, -, -, -, -, -, -, -, noFault⟩ := reached_within_bounds reached
  have above : Signed32.minValue < r.machine.registers.stackPointer := by
    rw [pointer]
    decide
  exact ⟨built, loaded, r, created, filled, result, failed, pointer, reached, size, noFault above⟩

end Machine

end TernaryMachine
