import TernaryMachine.Proofs.Alike
import TernaryMachine.Proofs.Halting

/-!
One block of code in both run directions. A machine that runs forward holds the block upwards from
its program counter, and another that runs backward holds it downwards. As long as neither touches
the blocks as data, every step of the one mirrors the step of the other: data and flags stay the
same, and the program counters are at the same distance from where they began. This is a step lemma,
and the run follows by induction.
-/

set_option autoImplicit false
set_option relaxedAutoImplicit false

namespace TernaryMachine

open Instruction (Occurrence)

/-- The cells from an address on hold trytes, upwards or downwards. -/
def Store.HoldsAlong (s : Store) (a : Int) (direction : Trit) (code : List Tryte) : Prop :=
  ∀ k < code.length, s.get? (a + k * direction.toInt) = code[k]?

instance (s : Store) (a : Int) (direction : Trit) (code : List Tryte) :
    Decidable (s.HoldsAlong a direction code) :=
  inferInstanceAs (Decidable (∀ k < code.length, s.get? (a + k * direction.toInt) = code[k]?))

def codeOf (block : List Occurrence) : List Tryte := block.flatMap Occurrence.trytes

namespace Store

variable {s t : Store} {a : Int} {direction : Trit}

theorem holdsAlong_append {xs ys : List Tryte} (h : s.HoldsAlong a direction (xs ++ ys)) :
    s.HoldsAlong a direction xs
      ∧ s.HoldsAlong (a + xs.length * direction.toInt) direction ys := by
  refine ⟨fun k near => ?_, fun k near => ?_⟩
  · rw [h k (by rw [List.length_append]; omega), List.getElem?_append_left near]
  · have cell := h (xs.length + k) (by rw [List.length_append]; omega)
    rw [List.getElem?_append_right (Nat.le_add_right _ _), Nat.add_sub_cancel_left] at cell
    rw [← cell, Int.natCast_add, Int.add_mul, Int.add_assoc]

theorem HoldsAlong.of_same {code : List Tryte} (h : s.HoldsAlong a direction code)
    (same : ∀ k < code.length, t.get? (a + (k : Nat) * direction.toInt)
      = s.get? (a + (k : Nat) * direction.toInt)) : t.HoldsAlong a direction code :=
  fun k near => (same k near).trans (h k near)

theorem HoldsAlong.contains {code : List Tryte} (h : s.HoldsAlong a direction code) {k : Nat}
    (near : k < code.length) : s.Contains (a + k * direction.toInt) := by
  have cell := h k near
  rw [List.getElem?_eq_getElem near] at cell
  exact Core.contains_of_cell cell

end Store

theorem Core.present_of_holdsAlong {c : Core} {o : Occurrence}
    (h : c.store.HoldsAlong c.registers.pc c.registers.direction o.trytes) :
    c.instruction? = some o.instruction ∧ c.literal? o.instruction = some o.value := by
  have ahead (k : Nat) (t : Tryte) (found : o.trytes[k]? = some t) : c.cellAhead? k = some t :=
    (h k (List.getElem?_eq_some_iff.mp found).1).trans found
  constructor
  · have opcode := ahead 0 o.instruction.encode rfl
    rw [cellAhead?, Int.natCast_zero, Int.zero_mul, Int.add_zero] at opcode
    rw [instruction?, opcode, Option.bind_some, Instruction.decode_encode o.hasOpcode]
    rfl
  · have holds := o.holds
    unfold Occurrence.trytes at ahead
    unfold literal?
    generalize o.instruction.operandSize = size at holds ahead ⊢
    cases size with
    | zero => exact congrArg some (show o.value = 0 from holds).symm
    | succ size =>
      cases size with
      | zero =>
        have first := ahead 1 (Tryte.ofDigits o.value 0) rfl
        have value := congrArg Tryte.val (Tryte.ofDigits_val ⟨o.value, holds.1, holds.2⟩)
        rw [first]
        exact congrArg some value
      | succ size =>
        have first := ahead 1 (Tryte.ofDigits o.value 0) rfl
        have second := ahead 2 (Tryte.ofDigits o.value 5) rfl
        have value := congrArg Word.val (Word.ofHalves_low_high ⟨o.value, holds.1, holds.2⟩)
        rw [first, second]
        exact congrArg some value

structure Registers.SameData (r s : Registers) : Prop where
  accumulator : r.accumulator = s.accumulator
  indexX : r.indexX = s.indexX
  indexY : r.indexY = s.indexY
  pointer : r.stackPointer = s.stackPointer
  flags : ∀ f, f ≠ .direction → r.flags.get f = s.flags.get f

theorem Registers.tame_sameData : Registers.Tame Registers.SameData where
  accumulator h := h.accumulator
  indexX h := h.indexX
  indexY h := h.indexY
  pointer h := h.pointer
  flag h := h.flags
  setAccumulator h _ := ⟨rfl, h.indexX, h.indexY, h.pointer, h.flags⟩
  setIndexX h _ := ⟨h.accumulator, rfl, h.indexY, h.pointer, h.flags⟩
  setIndexY h _ := ⟨h.accumulator, h.indexX, rfl, h.pointer, h.flags⟩
  setPointer h _ := ⟨h.accumulator, h.indexX, h.indexY, rfl, h.flags⟩
  setFlag h f t := by
    refine ⟨h.accumulator, h.indexX, h.indexY, h.pointer, fun g other => ?_⟩
    rw [Flags.get_set, Flags.get_set, h.flags g other]

namespace Machine

/-- The instruction at the program counter neither reads a cell as data nor writes it. -/
def Avoids (m : Machine) (a : Int) : Prop :=
  m.core.Spares a ∧ ∀ i, m.core.instruction? = some i → a ∉ i.reads m.core

/-- A number of steps that succeed and that avoid the hidden cells. -/
inductive Walks (hidden : Int → Prop) : Nat → Machine → Machine → Prop
  | stay (m : Machine) : Walks hidden 0 m m
  | step {n fuel : Nat} {i : Instruction} {m k l : Machine} (done : m.step fuel = some (.ok i k))
    (avoids : ∀ a, hidden a → m.Avoids a) (rest : Walks hidden n k l) : Walks hidden (n + 1) m l

def isClear (hidden : Int → Prop) [DecidablePred hidden] (m : Machine) (i : Instruction) : Bool :=
  (i.reads m.core).all (fun a => !decide (hidden a))
    && (i.targets m.core).all fun
      | .address a => !decide (hidden a)
      | _ => true

def walk? (hidden : Int → Prop) [DecidablePred hidden] (fuel : Nat) : Nat → Machine → Option Machine
  | 0, m => some m
  | n + 1, m =>
    match m.core.instruction?, m.step fuel with
    | some i, some (.ok _ k) => if m.isClear hidden i then walk? hidden fuel n k else none
    | _, _ => none

theorem avoids_of_isClear {hidden : Int → Prop} [DecidablePred hidden] {m : Machine}
    {i : Instruction} (present : m.core.instruction? = some i) (clear : m.isClear hidden i = true)
    (a : Int) (isHidden : hidden a) : m.Avoids a := by
  obtain ⟨reads, targets⟩ := (Bool.and_eq_true _ _).mp clear
  rw [List.all_eq_true] at reads targets
  constructor
  · intro j there written
    obtain rfl : i = j := Option.some.inj (present.symm.trans there)
    simpa [isHidden] using targets _ written
  · intro j there read
    obtain rfl : i = j := Option.some.inj (present.symm.trans there)
    simpa [isHidden] using reads a read

theorem walks_of_walk? {hidden : Int → Prop} [DecidablePred hidden] {fuel n : Nat} {m k : Machine}
    (h : walk? hidden fuel n m = some k) : Walks hidden n m k := by
  induction n generalizing m with
  | zero =>
    cases h
    exact .stay k
  | succ n ih =>
    unfold walk? at h
    split at h
    · rename_i i j l present done
      split at h
      · rename_i clear
        exact .step done (avoids_of_isClear present clear) (ih h)
      · cases h
    · cases h

/-- One machine is about to run a block forward and the other is about to run it backward, and what
is not hidden is the same. -/
structure Facing (hidden : Int → Prop) (block : List Occurrence) (m m' : Machine) : Prop where
  alike : Core.Alike hidden Registers.SameData m.core m'.core
  straight : ∀ o ∈ block, o.instruction.isStraight = true
  forward : m.registers.direction = .plus
  backward : m'.registers.direction = .minus
  ahead : m.store.HoldsAlong m.registers.pc .plus (codeOf block)
  behind : m'.store.HoldsAlong m'.registers.pc .minus (codeOf block)
  covered : ∀ k : Nat, k < (codeOf block).length →
    hidden (m.registers.pc + k) ∧ hidden (m'.registers.pc - k)

section Step

variable {hidden : Int → Prop} {m m' k k' : Machine} {i i' : Instruction} {fuel fuel' : Nat}

theorem plain_of_straight (straight : i.isStraight = true) :
    i.interrupt? = none ∧ i.isJump = false ∧ i ≠ .extended .plp := by
  cases i with
  | alu op mode => exact ⟨rfl, rfl, nofun⟩
  | branch => cases straight
  | extended op =>
    cases op with
    | php | plp | jsr | jmp | jmpInd | rts | intN | intZ | intP => cases straight
    | _ => exact ⟨rfl, rfl, nofun⟩

theorem exists_perform_of_straight (unmapped : m.store.maps = []) {value last : Int}
    (fetched : m.Fetched i value last) (done : m.step fuel = some (.ok i' k))
    (straight : i.isStraight = true) :
    ∃ flow d target, Core.perform i value last m.core = .ok flow d ∧ k.core = d.withPc target := by
  obtain ⟨plain, stays, -⟩ := plain_of_straight straight
  obtain ⟨flow, d, performed, ways⟩ := step_cases fetched.running fetched.fetch done
  refine ⟨flow, d, ?_⟩
  rcases ways with ⟨target, rfl, completed⟩ | ⟨-, completed⟩ | ⟨number, _, _, rfl, -, -⟩
  · exact absurd rfl (Core.flow_of_perform stays performed target)
  · obtain ⟨target, -, rfl⟩ := eq_of_complete completed
    exact ⟨target, performed, rfl⟩
  · have met := Core.meets_perform unmapped fetched.literal fetched.ends
    rw [performed] at met
    have requests := (met.interrupt number rfl).2
    rw [plain] at requests
    cases requests

theorem direction_of_straight_step (unmapped : m.store.maps = [])
    (done : m.step fuel = some (.ok i k)) (straight : i.isStraight = true) :
    (i.turns = false ∧ k.registers.direction = m.registers.direction)
      ∨ (i.turns = true ∧ k.registers.direction = .zero) := by
  obtain ⟨plain, -, other⟩ := plain_of_straight straight
  cases turns : i.turns with
  | false => exact .inl ⟨rfl, direction_of_unturned unmapped done turns (by simp [plain])⟩
  | true =>
    obtain ⟨code, halts⟩ := Instruction.exists_haltCode?_of_turns turns other
    exact .inr ⟨rfl, (halt_of_step unmapped done halts).2.2.2⟩

theorem cell_of_straight_step (unmapped : m.store.maps = [])
    (done : m.step fuel = some (.ok i k)) (straight : i.isStraight = true) {a : Int}
    (avoids : m.Avoids a) : k.store.get? a = m.store.get? a := by
  obtain ⟨plain, -, -⟩ := plain_of_straight straight
  obtain ⟨value, last, fetched⟩ := fetched_of_step unmapped done
  refine (Goes.keeps unmapped ⟨fuel, i, done⟩).cells a fun x performs => ?_
  rw [performs.eq_of_plain fetched.present plain]
  exact avoids.1

theorem fetched_of_holdsAlong (unmapped : m.store.maps = []) {o : Occurrence}
    (here : m.store.HoldsAlong m.registers.pc m.registers.direction o.trytes)
    (done : m.step fuel = some (.ok i k)) :
    i = o.instruction ∧ ∃ last, m.Fetched i o.value last := by
  obtain ⟨present, literal⟩ := Core.present_of_holdsAlong here
  obtain ⟨value, last, fetched⟩ := fetched_of_step unmapped done
  obtain rfl : i = o.instruction := Option.some.inj (fetched.present.symm.trans present)
  obtain rfl : value = o.value := Option.some.inj (fetched.literal.symm.trans literal)
  exact ⟨rfl, last, fetched⟩

theorem pc_of_straight_step (unmapped : m.store.maps = []) {o : Occurrence}
    (here : m.store.HoldsAlong m.registers.pc m.registers.direction o.trytes)
    (done : m.step fuel = some (.ok i k)) (straight : o.instruction.isStraight = true) :
    k.registers.pc = m.registers.pc + (o.trytes.length - 1 : Nat) * m.registers.direction.toInt
      + k.registers.direction.toInt := by
  obtain ⟨rfl, last, fetched⟩ := fetched_of_holdsAlong unmapped here done
  have pc : k.registers.pc = last + k.registers.direction.toInt :=
    pc_of_step fetched.running fetched.fetch (plain_of_straight straight).2.1 done
  have length : o.trytes.length = 1 + o.instruction.operandSize := o.length_trytes
  rw [pc, fetched.ends, length, Nat.add_sub_cancel_left]

theorem holdsAlong_of_straight_step (unmapped : m.store.maps = []) {o : Occurrence}
    {code : List Tryte}
    (h : m.store.HoldsAlong m.registers.pc m.registers.direction (o.trytes ++ code))
    (done : m.step fuel = some (.ok i k)) (straight : o.instruction.isStraight = true)
    (keeps : k.registers.direction = m.registers.direction)
    (avoids : ∀ j : Nat, j < (o.trytes ++ code).length →
      m.Avoids (m.registers.pc + j * m.registers.direction.toInt)) :
    k.registers.pc = m.registers.pc + o.trytes.length * m.registers.direction.toInt
      ∧ k.store.HoldsAlong k.registers.pc k.registers.direction code := by
  obtain ⟨here, rest⟩ := Store.holdsAlong_append h
  obtain ⟨rfl, -, -⟩ := fetched_of_holdsAlong unmapped here done
  have pc : k.registers.pc = m.registers.pc + o.trytes.length * m.registers.direction.toInt := by
    have trytes : o.trytes.length = o.trytes.length - 1 + 1 := rfl
    rw [pc_of_straight_step unmapped here done straight, keeps, Int.add_assoc, trytes,
      Int.natCast_succ, Int.add_mul, Int.one_mul, Nat.add_sub_cancel]
  refine ⟨pc, ?_⟩
  rw [← pc, ← keeps] at rest
  refine rest.of_same fun j near => cell_of_straight_step unmapped done straight ?_
  have inside := avoids (o.trytes.length + j) (by rw [List.length_append]; omega)
  rwa [Int.natCast_add, Int.add_mul, ← Int.add_assoc, ← pc, ← keeps] at inside

theorem Facing.here {o : Occurrence} {block : List Occurrence}
    (h : Facing hidden (o :: block) m m') :
    m.store.HoldsAlong m.registers.pc m.registers.direction (o.trytes ++ codeOf block)
      ∧ m'.store.HoldsAlong m'.registers.pc m'.registers.direction (o.trytes ++ codeOf block) := by
  rw [h.forward, h.backward]
  exact ⟨h.ahead, h.behind⟩

theorem Facing.alike_of_steps {o : Occurrence} {block : List Occurrence}
    (h : Facing hidden (o :: block) m m') (avoids : ∀ a, hidden a → m.Avoids a)
    (done : m.step fuel = some (.ok i k)) (done' : m'.step fuel' = some (.ok i' k')) :
    Core.Alike hidden Registers.SameData k.core k'.core := by
  have unmapped := h.alike.unmapped
  have unmapped' := h.alike.unmapped'
  have straight := h.straight o List.mem_cons_self
  obtain ⟨rfl, last, fetched⟩ :=
    fetched_of_holdsAlong unmapped (Store.holdsAlong_append h.here.1).1 done
  obtain ⟨rfl, last', fetched'⟩ :=
    fetched_of_holdsAlong unmapped' (Store.holdsAlong_append h.here.2).1 done'
  obtain ⟨flow, d, target, performed, core⟩ :=
    exists_perform_of_straight unmapped fetched done straight
  obtain ⟨flow', d', target', performed', core'⟩ :=
    exists_perform_of_straight unmapped' fetched' done' straight
  have both := Core.together_perform Registers.tame_sameData h.alike straight fetched.literal
    (fun a read isHidden => (avoids a isHidden).2 _ fetched.present read) last last'
  rw [performed, performed'] at both
  cases both with
  | ok same =>
    rw [core, core']
    have data := same.registers
    exact same.update ⟨data.accumulator, data.indexX, data.indexY, data.pointer, data.flags⟩

/-- The step lemma. After the first instruction of a block the data are still the same, and both
machines face the rest of the block, or the instruction was a halt. -/
theorem Facing.step {o : Occurrence} {block : List Occurrence}
    (h : Facing hidden (o :: block) m m') (avoids : ∀ a, hidden a → m.Avoids a)
    (avoids' : ∀ a, hidden a → m'.Avoids a) (done : m.step fuel = some (.ok i k))
    (done' : m'.step fuel' = some (.ok i' k')) :
    Core.Alike hidden Registers.SameData k.core k'.core
      ∧ k.registers.pc - m.registers.pc = m'.registers.pc - k'.registers.pc
      ∧ ((k.registers.direction = .zero ∧ k'.registers.direction = .zero)
        ∨ Facing hidden block k k') := by
  have unmapped := h.alike.unmapped
  have unmapped' := h.alike.unmapped'
  have straight := h.straight o List.mem_cons_self
  have alike := h.alike_of_steps avoids done done'
  obtain ⟨holds, holds'⟩ := h.here
  have here := (Store.holdsAlong_append holds).1
  have here' := (Store.holdsAlong_append holds').1
  obtain ⟨rfl, -, -⟩ := fetched_of_holdsAlong unmapped here done
  obtain ⟨rfl, -, -⟩ := fetched_of_holdsAlong unmapped' here' done'
  rcases direction_of_straight_step unmapped done straight with
    ⟨turns, keeps⟩ | ⟨turns, halts⟩ <;>
  rcases direction_of_straight_step unmapped' done' straight with
    ⟨turns', keeps'⟩ | ⟨turns', halts'⟩
  case inl.inr | inr.inl =>
    rw [turns] at turns'
    cases turns'
  case inr.inr =>
    have pc := pc_of_straight_step unmapped here done straight
    have pc' := pc_of_straight_step unmapped' here' done' straight
    rw [h.forward, halts] at pc
    rw [h.backward, halts'] at pc'
    simp only [Trit.toInt] at pc pc'
    exact ⟨alike, by omega, .inl ⟨halts, halts'⟩⟩
  case inl.inl =>
    have cells (j : Nat) (near : j < (o.trytes ++ codeOf block).length) := h.covered j near
    obtain ⟨pc, ahead⟩ := holdsAlong_of_straight_step unmapped holds done straight keeps
      fun j near => avoids _ (by
        rw [h.forward, Trit.toInt, Int.mul_one]
        exact (cells j near).1)
    obtain ⟨pc', behind⟩ := holdsAlong_of_straight_step unmapped' holds' done' straight keeps'
      fun j near => avoids' _ (by
        rw [h.backward, Trit.toInt, Int.mul_neg_one, ← Int.sub_eq_add_neg]
        exact (cells j near).2)
    rw [h.forward] at keeps pc
    rw [h.backward] at keeps' pc'
    rw [keeps] at ahead
    rw [keeps'] at behind
    rw [Trit.toInt, Int.mul_one] at pc
    rw [Trit.toInt, Int.mul_neg_one, ← Int.sub_eq_add_neg] at pc'
    refine ⟨alike, by omega, .inr ⟨alike, fun p mem => h.straight p (List.mem_cons_of_mem o mem),
      keeps, keeps', ahead, behind, fun j near => ?_⟩⟩
    obtain ⟨first, second⟩ := cells (o.trytes.length + j) (by rw [List.length_append]; omega)
    rw [pc, pc', Int.add_assoc, Int.sub_sub, ← Int.natCast_add]
    exact ⟨first, second⟩

theorem not_walks_of_halted {n : Nat} (halted : m.registers.direction = .zero)
    (h : Walks hidden (n + 1) m k) : False := by
  cases h with
  | step done =>
    rw [step_of_halted (show m.isHalted = true from congrArg Trit.isZero halted)] at done
    cases done

/-- The run lemma, by induction on the steps: behind a halt there are none. -/
theorem Facing.walks {n : Nat} {block : List Occurrence} (h : Facing hidden block m m')
    (few : n ≤ block.length) (first : Walks hidden n m k) (second : Walks hidden n m' k') :
    Core.Alike hidden Registers.SameData k.core k'.core
      ∧ k.registers.pc - m.registers.pc = m'.registers.pc - k'.registers.pc
      ∧ k'.registers.direction = -k.registers.direction := by
  induction first generalizing block m' with
  | stay m =>
    cases second
    refine ⟨h.alike, by omega, ?_⟩
    rw [h.forward, h.backward]
    rfl
  | @step n fuel i m j k done avoids rest ih =>
    cases second with
    | @step _ _ _ _ j' _ done' avoids' rest' =>
      match block, few, h with
      | o :: block, few, h =>
        obtain ⟨alike, pc, ⟨halted, halted'⟩ | facing⟩ := h.step avoids avoids' done done'
        · cases n with
          | succ n => exact (not_walks_of_halted halted rest).elim
          | zero =>
            cases rest
            cases rest'
            refine ⟨alike, pc, ?_⟩
            rw [halted, halted']
            rfl
        · obtain ⟨alike, further, direction⟩ :=
            ih facing (Nat.le_of_succ_le_succ few) rest'
          exact ⟨alike, by omega, direction⟩

end Step

/-- The cells of two blocks of one length, upwards from one address and downwards from another. -/
def InBlocks (start start' : Int) (length : Nat) (a : Int) : Prop :=
  (start ≤ a ∧ a < start + length) ∨ (start' - length < a ∧ a ≤ start')

theorem maxAddress_le {s t : Store} (p : Int) {q : Int} {length : Nat}
    (cells : ∀ a, ¬ (p ≤ a ∧ a < p + length) → ¬ (q ≤ a ∧ a < q + length) → s.get? a = t.get? a)
    (own : ∀ k : Nat, k < length → t.Contains (q + k)) : s.maxAddress ≤ t.maxAddress := by
  by_contra larger
  have within (a : Int) (inside : s.Contains a) (outside : ¬ t.Contains a) :
      p ≤ a ∧ a < p + length := by
    by_contra apart
    have other : ¬ (q ≤ a ∧ a < q + length) := by
      intro there
      have held := own (a - q).toNat (by omega)
      rw [show q + ((a - q).toNat : Int) = a by omega] at held
      exact outside held
    have same := cells a apart other
    rw [Store.get?_eq_none_iff.mpr outside] at same
    exact Store.get?_eq_none_iff.mp same inside
  have top := within s.maxAddress (by unfold Store.Contains; omega) (by unfold Store.Contains; omega)
  have bottom := within (-s.maxAddress) (by unfold Store.Contains; omega)
    (by unfold Store.Contains; omega)
  have first := own 0 (by omega)
  have last := own (length - 1) (by omega)
  unfold Store.Contains at first last
  omega

/-- A machine that is about to run a block forward and one that is about to run it backward, each
holding the block in its own direction. Their stores are otherwise the same, and so are their
registers, apart from program counter and run direction. -/
structure Opposed (block : List Occurrence) (m m' : Machine) : Prop where
  straight : ∀ o ∈ block, o.instruction.isStraight = true
  unmapped : m.store.maps = []
  unmapped' : m'.store.maps = []
  data : Registers.SameData m.registers m'.registers
  forward : m.registers.direction = .plus
  backward : m'.registers.direction = .minus
  ahead : m.store.HoldsAlong m.registers.pc .plus (codeOf block)
  behind : m'.store.HoldsAlong m'.registers.pc .minus (codeOf block)
  cells : ∀ a, ¬ InBlocks m.registers.pc m'.registers.pc (codeOf block).length a →
    m.store.get? a = m'.store.get? a

instance (start start' : Int) (length : Nat) : DecidablePred (InBlocks start start' length) :=
  fun _ => inferInstanceAs (Decidable (_ ∨ _))

section Blocks

variable {block : List Occurrence} {m m' k k' : Machine} {n : Nat}

theorem Opposed.facing (h : Opposed block m m') : Facing
    (InBlocks m.registers.pc m'.registers.pc (codeOf block).length) block m m' where
  alike := by
    have own (j : Nat) (near : j < (codeOf block).length) :
        m.store.Contains (m.registers.pc + j) := by
      have held := h.ahead.contains near
      rwa [Trit.toInt, Int.mul_one] at held
    have own' (j : Nat) (near : j < (codeOf block).length) :
        m'.store.Contains (m'.registers.pc - (codeOf block).length + 1 + j) := by
      have below : (codeOf block).length - 1 - j < (codeOf block).length := by omega
      have held := h.behind.contains below
      rw [Trit.toInt] at held
      rwa [show m'.registers.pc - (codeOf block).length + 1 + j
        = m'.registers.pc + (((codeOf block).length - 1 - j : Nat) : Int) * -1 by omega]
    have size : m.store.maxAddress ≤ m'.store.maxAddress :=
      maxAddress_le m.registers.pc (fun a apart apart' => h.cells a (by unfold InBlocks; omega)) own'
    have size' : m'.store.maxAddress ≤ m.store.maxAddress :=
      maxAddress_le (m'.registers.pc - (codeOf block).length + 1)
        (fun a apart apart' => (h.cells a (by unfold InBlocks; omega)).symm) own
    exact ⟨h.data, h.cells, Nat.le_antisymm size size', h.unmapped, h.unmapped'⟩
  straight := h.straight
  forward := h.forward
  backward := h.backward
  ahead := h.ahead
  behind := h.behind
  covered k near := by
    unfold InBlocks
    omega

/-- Running backward is the mirror of running forward. A block of straight instructions is run in
both directions, as far as the steps succeed and neither read a cell of the two blocks as data nor
write one: data, stack pointer and flags are the same, the run directions are opposed until both
machines have halted, the stores are the same outside of the blocks, and the program counters have
moved by the same distance in opposite directions. -/
theorem backward_mirrors_forward (h : Opposed block m m') (few : n ≤ block.length)
    (first : Walks (InBlocks m.registers.pc m'.registers.pc (codeOf block).length) n m k)
    (second : Walks (InBlocks m.registers.pc m'.registers.pc (codeOf block).length) n m' k') :
    Registers.SameData k.registers k'.registers
      ∧ k'.registers.direction = -k.registers.direction
      ∧ (k.isHalted = true → ∀ f, k'.registers.flags.get f = k.registers.flags.get f)
      ∧ (∀ a, ¬ InBlocks m.registers.pc m'.registers.pc (codeOf block).length a →
        k.store.get? a = k'.store.get? a)
      ∧ k.registers.pc - m.registers.pc = m'.registers.pc - k'.registers.pc := by
  obtain ⟨alike, pc, direction⟩ := h.facing.walks few first second
  refine ⟨alike.registers, direction, fun halted f => ?_, alike.cells, pc⟩
  by_cases turns : f = .direction
  · have zero : k.registers.direction = .zero := by
      by_contra moving
      rw [isHalted_eq_false_iff.mpr moving] at halted
      cases halted
    rw [zero] at direction
    rw [turns]
    exact direction.trans zero.symm
  · exact (alike.registers.flags f turns).symm

theorem backward_mirrors_forward_to_halt :
    let block : List Occurrence := [⟨.alu .lda .immediate, 7, by decide, ⟨by decide, by decide⟩⟩,
      ⟨.alu .sta .absolute, 12, by decide, ⟨by decide, by decide⟩⟩,
      ⟨.extended .haltP, 0, by decide, rfl⟩]
    let empty : Store := ⟨13, Array.replicate 27 Tryte.zero, by decide, by decide, [], []⟩
    let m := ((powerOn {} empty).load ⟨-5, codeOf block⟩).machine.update fun r =>
      { r with pc := -5 }
    let m' := ((powerOn {} empty).load ⟨3, (codeOf block).reverse⟩).machine.update fun r =>
      { r with pc := 8, flags := r.flags.set .direction .minus }
    ∃ k k', Walks (InBlocks (-5) 8 6) 3 m k ∧ Walks (InBlocks (-5) 8 6) 3 m' k'
      ∧ k.store.get? 12 = some (Tryte.ofDigits 7 0) ∧ k'.store.get? 12 = k.store.get? 12
      ∧ k.registers.pc = 0 ∧ k'.registers.pc = 3
      ∧ ∀ f, k'.registers.flags.get f = k.registers.flags.get f := by
  intro block empty m m'
  have around : (m.registers.pc, m'.registers.pc, (codeOf block).length) = (-5, 8, 6) := by
    decide +kernel
  simp only [Prod.mk.injEq] at around
  obtain ⟨pc, pc', length⟩ := around
  have size : m.store.maxAddress = 13 ∧ m'.store.maxAddress = 13 := by decide +kernel
  have near : ∀ j : Nat, j < 27 → ¬ InBlocks (-5) 8 6 (j - 13) →
      m.store.get? (j - 13) = m'.store.get? (j - 13) := by decide +kernel
  have opposed : Opposed block m m' := by
    refine ⟨by decide, by decide +kernel, by decide +kernel, ?_, by decide +kernel,
      by decide +kernel, by decide +kernel, by decide +kernel, fun a apart => ?_⟩
    · refine ⟨by decide +kernel, by decide +kernel, by decide +kernel, by decide +kernel,
        fun f other => ?_⟩
      cases f with
      | direction => exact absurd rfl other
      | _ => decide +kernel
    · rw [pc, pc', length] at apart
      by_cases inside : m.store.Contains a
      · unfold Store.Contains at inside
        have cell := near (a + 13).toNat (by omega)
        rw [show ((a + 13).toNat : Int) - 13 = a by omega] at cell
        exact cell apart
      · have outside : ¬ m'.store.Contains a := by
          unfold Store.Contains at inside ⊢
          omega
        rw [Store.get?_eq_none_iff.mpr inside, Store.get?_eq_none_iff.mpr outside]
  have shown : (walk? (InBlocks (-5) 8 6) 1 3 m).map (fun k =>
      (k.store.get? 12, k.registers.pc, k.isHalted)) = some (some (Tryte.ofDigits 7 0), 0, true) := by
    decide +kernel
  have shown' : (walk? (InBlocks (-5) 8 6) 1 3 m').isSome = true := by decide +kernel
  clear_value m m'
  obtain ⟨k, walked, facts⟩ := Option.map_eq_some_iff.mp shown
  obtain ⟨k', walked'⟩ := Option.isSome_iff_exists.mp shown'
  simp only [Prod.mk.injEq] at facts
  obtain ⟨cell, last, halted⟩ := facts
  have first := walks_of_walk? walked
  have second := walks_of_walk? walked'
  have blocks : InBlocks m.registers.pc m'.registers.pc (codeOf block).length
      = InBlocks (-5) 8 6 := by rw [pc, pc', length]
  have few : 3 ≤ block.length := by decide
  obtain ⟨-, -, flags, cells, distance⟩ := backward_mirrors_forward (k := k) (m := m) opposed few
    (by rw [blocks]; exact first) (by rw [blocks]; exact second)
  rw [blocks] at cells
  have same := cells 12 (by unfold InBlocks; omega)
  exact ⟨k, k', first, second, cell, same.symm, last, by omega, flags halted⟩

end Blocks

end Machine

end TernaryMachine
