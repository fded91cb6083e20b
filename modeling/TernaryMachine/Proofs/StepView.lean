import TernaryMachine.Embedding
import TernaryMachine.Proofs.ContinuousRun
import TernaryMachine.Proofs.RoundTrip
import TernaryMachine.Proofs.StepEffects

/-!
The text that a step shows. It is read from the program counter upwards, whereas the machine fetches
an operand in run direction, so the two need not see the same cells. Main statement: the text of a
step is that of the instruction that was performed, with the operand that was fetched, exactly if
the cells above the program counter hold the trytes of this operand. That is always so when the
machine runs forward or the instruction has no operand.
-/

set_option autoImplicit false
set_option relaxedAutoImplicit false

namespace TernaryMachine

theorem Store.prefix_window_iff {s : Store} {n : Nat} {a : Int} {block : List Tryte}
    (fits : block.length ≤ n) :
    block <+: s.window n a
      ↔ ∀ (k : Nat) (h : k < block.length), s.get? (a + k) = some block[k] := by
  induction block generalizing n a with
  | nil => exact ⟨fun _ k h => absurd h (Nat.not_lt_zero k), fun _ => List.nil_prefix⟩
  | cons t block ih =>
    cases n with
    | zero => exact absurd fits (Nat.not_succ_le_zero _)
    | succ n =>
      have here (k : Nat) : a + (k + 1 : Nat) = a + 1 + k := by omega
      have first : t :: block <+: s.window (n + 1) a
          ↔ s.get? a = some t ∧ block <+: s.window n (a + 1) := by
        rw [window]
        cases s.get? a with
        | none => simp
        | some u => simp [List.cons_prefix_cons, eq_comm]
      rw [first, ih (Nat.le_of_succ_le_succ fits)]
      constructor
      · rintro ⟨opcode, rest⟩ k h
        cases k with
        | zero => exact (congrArg _ (Int.add_zero a)).trans opcode
        | succ k =>
          rw [here]
          exact rest k (Nat.lt_of_succ_lt_succ h)
      · intro cells
        refine ⟨(congrArg _ (Int.add_zero a)).symm.trans (cells 0 (Nat.succ_pos _)), fun k h => ?_⟩
        rw [← here]
        exact cells (k + 1) (Nat.succ_lt_succ h)

namespace Instruction.Occurrence

theorem trytes_of_text {o o' : Occurrence} (h : o.text = o'.text) : o.trytes = o'.trytes := by
  have first := Assembly.emitLine_occurrence {} 1 o
  rw [h, Assembly.emitLine_occurrence {} 1 o'] at first
  simpa [Assembly.append] using congrArg Assembly.code (Except.ok.inj first).symm

theorem trytes_of_data {o : Occurrence} {t : Tryte}
    (h : ".tryte ".toList ++ Text.decimal t.val = o.text) : o.trytes = [t] := by
  have data := Assembly.emitLine_data {} 1 t
  rw [h, Assembly.emitLine_occurrence {} 1 o] at data
  simpa [Assembly.append] using congrArg Assembly.code (Except.ok.inj data)

theorem disassemble_of_prefix {o : Occurrence} {code : List Tryte} (h : o.trytes <+: code) :
    disassemble code = .ok (o.text, o.instruction.length) := by
  have read := readFrom_eq_ok_iff.mpr ⟨o, rfl, rfl, h⟩
  rw [disassemble, read]
  rfl

end Instruction.Occurrence

open Instruction (Occurrence)

def Embedding.textOf (cells : List Tryte) : List Char :=
  match Instruction.disassemble cells with
  | .ok (text, _) => text
  | .error _ => []

theorem Embedding.textOf_eq_iff {cells : List Tryte} {o : Occurrence} :
    textOf cells = o.text ↔ o.trytes <+: cells := by
  constructor
  · intro shown
    unfold textOf at shown
    cases read : Instruction.disassemble cells with
    | error e =>
      rw [read] at shown
      exact absurd shown.symm o.text_ne_nil
    | ok found =>
      obtain ⟨text, length⟩ := found
      obtain ⟨o', rest, rfl, rfl⟩ := Instruction.exists_occurrence_of_disassemble read
      rw [read] at shown
      exact ⟨rest, by rw [Occurrence.trytes_of_text shown]⟩
  · intro h
    rw [textOf, Occurrence.disassemble_of_prefix h]

theorem Debugger.textAt_eq_iff {s : Store} {a : Int} {t : Tryte} (opcode : s.get? a = some t)
    {o : Occurrence} : (textAt s a).1 = o.text ↔ o.trytes <+: s.window 3 a := by
  have cells : s.window 3 a = t :: s.window 2 (a + 1) := by rw [Store.window, opcode]
  unfold textAt
  constructor
  · intro shown
    dsimp only at shown
    cases read : Instruction.disassemble (s.window 3 a) with
    | error e =>
      -- what is no instruction is shown as data, and data looks like no longer instruction
      rw [read, cells] at shown
      rw [Occurrence.trytes_of_data shown, cells]
      exact List.cons_prefix_cons.mpr ⟨rfl, List.nil_prefix⟩
    | ok found =>
      obtain ⟨text, length⟩ := found
      obtain ⟨o', rest, split, rfl⟩ := Instruction.exists_occurrence_of_disassemble read
      rw [read] at shown
      exact ⟨rest, by rw [split, Occurrence.trytes_of_text shown]⟩
  · intro h
    dsimp only
    rw [Occurrence.disassemble_of_prefix h]

namespace Core

variable {c : Core} {i : Instruction}

/-- The cells above the program counter hold the operand that stands in the cells ahead. -/
def ReadsUpwards (c : Core) (i : Instruction) : Prop :=
  ∀ k : Nat, 0 < k → k ≤ i.operandSize → c.store.get? (c.registers.pc + k) = c.cellAhead? k

theorem readsUpwards_of_forward (forward : c.registers.direction = .plus) (i : Instruction) :
    c.ReadsUpwards i := by
  intro k _ _
  rw [cellAhead?, forward]
  exact congrArg (fun a => c.store.get? (c.registers.pc + a)) (Int.mul_one k).symm

theorem readsUpwards_of_bare (bare : i.operandSize = 0) : c.ReadsUpwards i := by
  intro k positive within
  omega

theorem operandTrytes_ahead {value : Int} (literal : c.literal? i = some value) :
    Instruction.Holds i.operandSize value
      ∧ ∀ (k : Nat) (h : k < (Instruction.operandTrytes i.operandSize value).length),
        c.cellAhead? (k + 1) = some (Instruction.operandTrytes i.operandSize value)[k] := by
  unfold literal? at literal
  generalize i.operandSize = size at literal ⊢
  match size, literal with
  | 0, literal => exact ⟨(Option.some.inj literal).symm, fun k h => absurd h (Nat.not_lt_zero k)⟩
  | 1, literal =>
    obtain ⟨low, first, rfl⟩ := Option.map_eq_some_iff.mp literal
    refine ⟨⟨low.lower, low.upper⟩, fun k h => ?_⟩
    obtain rfl : k = 0 := Nat.lt_one_iff.mp h
    rw [first]
    exact congrArg some (Tryte.ofDigits_val low).symm
  | n + 2, literal =>
    obtain ⟨low, first, literal⟩ := Option.bind_eq_some_iff.mp literal
    obtain ⟨high, second, literal⟩ := Option.bind_eq_some_iff.mp literal
    cases literal
    refine ⟨⟨(Word.ofHalves low high).lower, (Word.ofHalves low high).upper⟩, fun k h => ?_⟩
    have few : k < 2 := h
    obtain rfl | rfl : k = 0 ∨ k = 1 := by omega
    · rw [first]
      exact congrArg some (Word.low_ofHalves low high).symm
    · rw [second]
      exact congrArg some (Word.high_ofHalves low high).symm

theorem exists_occurrence_ahead {value : Int} (present : c.instruction? = some i)
    (literal : c.literal? i = some value) :
    ∃ o : Occurrence, o.instruction = i ∧ o.value = value
      ∧ c.store.get? c.registers.pc = some i.encode
      ∧ ∀ (k : Nat) (h : k < o.trytes.length), 0 < k → c.cellAhead? k = some o.trytes[k] := by
  obtain ⟨cell, hasOpcode⟩ := opcode_of_instruction? present
  obtain ⟨holds, ahead⟩ := operandTrytes_ahead literal
  refine ⟨⟨i, value, hasOpcode, holds⟩, rfl, rfl, cell, fun k h positive => ?_⟩
  obtain ⟨k, rfl⟩ := Nat.exists_eq_add_one_of_ne_zero (Nat.pos_iff_ne_zero.mp positive)
  exact ahead k (Nat.lt_of_succ_lt_succ h)

/-- The trytes of an instruction and of its operand are seen upwards exactly if the cells above the
program counter hold the operand. -/
theorem prefix_window_iff_readsUpwards {o : Occurrence}
    (opcode : c.store.get? c.registers.pc = some o.instruction.encode)
    (ahead : ∀ (k : Nat) (h : k < o.trytes.length), 0 < k → c.cellAhead? k = some o.trytes[k]) :
    o.trytes <+: c.store.window 3 c.registers.pc ↔ c.ReadsUpwards o.instruction := by
  have length : o.trytes.length = o.instruction.operandSize + 1 :=
    o.length_trytes.trans (Nat.add_comm _ _)
  have size := o.instruction.operandSize_le
  rw [Store.prefix_window_iff (by omega)]
  constructor
  · intro cells k positive within
    have short : k < o.trytes.length := by omega
    rw [cells k short, ahead k short positive]
  · intro upwards k short
    cases k with
    | zero => exact (congrArg _ (Int.add_zero _)).trans opcode
    | succ k =>
      rw [upwards (k + 1) (Nat.succ_pos k) (by omega)]
      exact ahead (k + 1) short (Nat.succ_pos k)

end Core

namespace Machine

variable {m n : Machine} {fuel : Nat} {i : Instruction}

/-- The text of a step is that of the performed instruction with the fetched operand exactly if the
cells above the program counter hold that operand, as they do when the machine runs forward and when
there is no operand. -/
theorem text_of_step (unmapped : m.store.maps = []) (done : m.step fuel = some (.ok i n)) :
    ∃ value last, Core.fetch m.core = .ok (i, value, last) m.core
    ∧ (∀ options program, ∃ text,
      Embedding.step fuel ⟨m, options, program⟩ = some (.ok text ⟨n, options, program⟩)
      ∧ (text = i.write value ↔ m.core.ReadsUpwards i))
    ∧ (∀ d : Debugger, d.machine = m → ∃ text,
      let status := s!"PC={m.registers.pc}: {String.ofList text}"
      d.step fuel = some { d with machine := n, status }
      ∧ (text = i.write value ↔ m.core.ReadsUpwards i))
    ∧ (m.registers.direction = .plus ∨ i.operandSize = 0 → m.core.ReadsUpwards i) := by
  obtain ⟨value, last, fetched⟩ := fetched_of_step unmapped done
  obtain ⟨o, rfl, rfl, opcode, ahead⟩ :=
    Core.exists_occurrence_ahead fetched.present fetched.literal
  have seen := Core.prefix_window_iff_readsUpwards opcode ahead
  refine ⟨o.value, last, fetched.fetch, ?_, ?_, ?_⟩
  · intro options program
    refine ⟨Embedding.textOf (m.store.window 3 m.registers.pc), ?_,
      Embedding.textOf_eq_iff.trans seen⟩
    rw [Embedding.step, done]
    rfl
  · rintro d rfl
    refine ⟨(Debugger.textAt d.machine.store d.machine.registers.pc).1, ?_,
      (Debugger.textAt_eq_iff opcode).trans seen⟩
    rw [Debugger.step_eq fetched.running, done]
    rfl
  · rintro (forward | bare)
    · exact Core.readsUpwards_of_forward forward _
    · exact Core.readsUpwards_of_bare bare

theorem text_of_step_backward :
    let empty : Store := ⟨13, Array.replicate 27 Tryte.zero, by decide, by decide, [], []⟩
    let i := Instruction.alu .cpx .immediate
    let m := ((powerOn {} empty).load
        ⟨-2, [Tryte.ofDigits 48 0, i.encode, Tryte.ofDigits 53 0]⟩).machine.update fun r =>
      { r with pc := -1, flags := r.flags.set .direction .minus }
    ∃ n value last text, Core.fetch m.core = .ok (i, value, last) m.core
      ∧ Embedding.step 1 ⟨m, {}, Embedding.noProgram⟩
        = some (.ok text ⟨n, {}, Embedding.noProgram⟩)
      ∧ text ≠ i.write value := by
  intro empty i m
  have unmapped : m.store.maps = [] := by decide +kernel
  have value : (m.step 1).map Result.value? = some (some i) := by decide +kernel
  have cells : (m.store.get? (m.registers.pc + 1), m.core.cellAhead? 1)
      = (some (Tryte.ofDigits 53 0), some (Tryte.ofDigits 48 0)) := by decide +kernel
  clear_value m
  obtain ⟨r, result, value⟩ := Option.map_eq_some_iff.mp value
  rw [Result.eq_ok value] at result
  obtain ⟨value, last, fetched, embedded, -, -⟩ := text_of_step unmapped result
  obtain ⟨text, stepped, truth⟩ := embedded {} Embedding.noProgram
  refine ⟨r.machine, value, last, text, fetched, stepped, fun told => ?_⟩
  have upwards : m.store.get? (m.registers.pc + 1) = m.core.cellAhead? 1 :=
    truth.mp told 1 (by decide) (by decide)
  rw [Prod.mk.injEq] at cells
  rw [cells.1, cells.2] at upwards
  exact absurd upwards (by decide)

/-- A program turns the run direction and comes back to its own operands. The next step compares the
index with 48 and shows a comparison with 53. -/
theorem step_shows_another_operand :
    let empty : Store := ⟨13, Array.replicate 27 Tryte.zero, by decide, by decide, [], []⟩
    let source := ".org -2\nLDA #-24\nPLP".toList
    let i := Instruction.alu .cpx .immediate
    let load (s : Embedding) : Option Embedding :=
      match s.loadSource source with
      | .ok _ s => some s
      | .error _ _ => none
    let next (s : Embedding) : Option (List Char × Embedding) :=
      match s.step 1 with
      | some (.ok text s) => some (text, s)
      | _ => none
    let fetched (s : Embedding) : Option (Instruction × Int × Int) :=
      match Core.fetch s.machine.core with
      | .ok found _ => some found
      | .error _ _ => none
    (do
      let s ← load ⟨powerOn {} empty, { tryteCount := 27 }, Embedding.noProgram⟩
      let (_, s) ← next s
      let (_, s) ← next s
      let found ← fetched s
      let (text, _) ← next s
      return (text, found)) = some ("CPX #%1i00i".toList, i, 48, -2)
    ∧ i.write 48 = "CPX #%1ii10".toList ∧ i.write 48 ≠ "CPX #%1i00i".toList := by
  decide +kernel

end Machine

end TernaryMachine
