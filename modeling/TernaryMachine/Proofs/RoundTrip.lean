import Mathlib.Data.List.Forall2
import TernaryMachine.Proofs.InstructionText

/-!
Disassembly and assembly are inverse to each other. Every line of a disassembly assembles to the
trytes that it covers, whether they are an instruction, data or the beginning of an instruction that
the block cuts off; and a block that consists of encoded instructions is swept instruction by
instruction.
-/

set_option autoImplicit false
set_option relaxedAutoImplicit false

namespace TernaryMachine

open Instruction (Occurrence Holds operandTrytes)

namespace Assembly

theorem append_nil (a : Assembly) : a.append [] = a := by
  simp [append]

theorem append_append (a : Assembly) (xs ys : List Tryte) :
    (a.append xs).append ys = a.append (xs ++ ys) := by
  have code : a.code ++ xs ++ ys = a.code ++ (xs ++ ys) := Array.toList_inj.mp (by simp)
  simp only [append, code]

theorem Layout.encode_of_holds (layout : Layout) (target : layout ≠ .displacement) {value : Int}
    (h : Holds layout.size value) (address : Int) :
    layout.encode value address = .ok (operandTrytes layout.size value) := by
  cases layout with
  | tryte =>
    have found : Tryte.ofInt? value = some (Tryte.ofDigits value 0) := by
      rw [Tryte.ofInt?_eq_some_iff]
      exact congrArg Tryte.val (Tryte.ofDigits_val ⟨value, h.1, h.2⟩)
    unfold encode
    rw [found]
    rfl
  | word =>
    have found : Word.ofInt? value = some ⟨value, h.1, h.2⟩ := dif_pos h
    have word : asWord value = .ok ⟨value, h.1, h.2⟩ := by rw [asWord, found]
    unfold encode
    rw [word]
    rfl
  | displacement => contradiction

private theorem emitValue_ofNumber (a : Assembly) (line : Nat) (layout : Layout)
    (target : layout ≠ .displacement) {value : Int} (h : Holds layout.size value) :
    a.emitValue line layout (.ofNumber value)
      = .ok (a.append (operandTrytes layout.size value)) := by
  have known : (Expression.ofNumber value).evaluate a.lookup = .ok (some value) := rfl
  unfold emitValue
  rw [known]
  simp only [layout.encode_of_holds target h]
  rfl

theorem emit_occurrence (a : Assembly) (line : Nat) (o : Occurrence) :
    a.emit line (o.instruction.statement o.value) = .ok (a.append o.trytes) := by
  have holds := o.holds
  unfold Instruction.statement Occurrence.trytes
  generalize o.instruction.operandSize = size at holds ⊢
  match size, holds with
  | 0, _ => rfl
  | 1, holds =>
    have laid := (a.append [o.instruction.encode]).emitValue_ofNumber line
      .tryte (by decide) holds
    rw [append_append] at laid
    exact laid
  | _ + 2, holds =>
    have laid := (a.append [o.instruction.encode]).emitValue_ofNumber line
      .word (by decide) holds
    rw [append_append] at laid
    exact laid

theorem emitLine_occurrence (a : Assembly) (number : Nat) (o : Occurrence) :
    a.emitLine number o.text = .ok (a.append o.trytes) := by
  unfold emitLine
  rw [o.parse_text]
  exact a.emit_occurrence number o

private theorem written_directive {name : List Char} (letters : name.all isPlain = true)
    (unlabelled : ':' ∉ name) (n : Int) : Written ('.' :: name) (Text.decimal n) where
  nonempty := List.cons_ne_nil _ _
  plain := List.forall_mem_cons.mpr ⟨by decide, List.all_eq_true.mp letters⟩
  unlabelled h := by
    rcases List.mem_cons.mp h with colon | h
    · exact absurd colon (by decide)
    · exact unlabelled h
  plain_argument _ := isPlain_of_mem_decimal

private theorem written_tryte (n : Int) : Written ".tryte".toList (Text.decimal n) :=
  written_directive (by decide +kernel) (by decide) n

private theorem written_org (n : Int) : Written ".org".toList (Text.decimal n) :=
  written_directive (by decide +kernel) (by decide) n

private theorem writtenLine_decimal (word : List Char) (n : Int) :
    writtenLine word (Text.decimal n) = word ++ ' ' :: Text.decimal n := by
  simp [writtenLine, Text.decimal_ne_nil]

private theorem parseValue_decimal {n : Int} (h : Signed32.InRange n) :
    parseValue (Text.decimal n) = .ok (.ofNumber n) := by
  unfold parseValue
  rw [Expression.parse_decimal h]

theorem emitLine_data (a : Assembly) (number : Nat) (t : Tryte) :
    a.emitLine number (".tryte ".toList ++ Text.decimal t.val) = .ok (a.append [t]) := by
  have range : Signed32.InRange t.val := by
    have := t.lower
    have := t.upper
    simp only [Signed32.InRange, Signed32.minValue, Signed32.maxValue]
    omega
  have holds : Holds Layout.tryte.size t.val := ⟨t.lower, t.upper⟩
  have filled : (Text.decimal t.val).isEmpty = false := by simp [Text.decimal_ne_nil]
  have read : Line.parse (".tryte ".toList ++ Text.decimal t.val)
      = .ok ⟨none, .ok (some (.value .tryte (.ofNumber t.val)))⟩ := by
    have line := (written_tryte t.val).parse_directive
    rw [writtenLine_decimal] at line
    refine line.trans ?_
    change Except.ok (Line.mk none
      ((parseLayout ".tryte" .tryte (Text.decimal t.val)).map some)) = _
    rw [parseLayout, filled, parseValue_decimal range]
    rfl
  have laid := a.emitValue_ofNumber number .tryte (by decide) holds
  unfold emitLine
  rw [read]
  refine laid.trans ?_
  change Except.ok (a.append [Tryte.ofDigits t.val 0]) = _
  rw [Tryte.ofDigits_val]

end Assembly

namespace Instruction.Occurrence

def entry (o : Occurrence) (offset : Nat) : Disassembly.Entry :=
  ⟨offset, o.instruction.encode, operandTrytes o.instruction.operandSize o.value, some o.text⟩

theorem disassemble_append (o : Occurrence) (rest : List Tryte) :
    disassemble (o.trytes ++ rest) = .ok (o.text, o.trytes.length) := by
  have read : readFrom (o.trytes ++ rest) = .ok (o.instruction, o.value) :=
    readFrom_eq_ok_iff.mpr ⟨o, rfl, rfl, List.prefix_append _ _⟩
  rw [disassemble, read, o.length_trytes]
  rfl

end Instruction.Occurrence

theorem Instruction.exists_occurrence_of_disassemble {code : List Tryte} {text : List Char}
    {length : Nat} (h : disassemble code = .ok (text, length)) :
    ∃ (o : Occurrence) (rest : List Tryte), code = o.trytes ++ rest ∧ text = o.text := by
  unfold disassemble at h
  cases hr : readFrom code with
  | error e =>
    rw [hr] at h
    cases h
  | ok read =>
    obtain ⟨i, value⟩ := read
    rw [hr] at h
    obtain ⟨o, rfl, rfl, rest, rfl⟩ := readFrom_eq_ok_iff.mp hr
    exact ⟨o, rest, rfl, (congrArg Prod.fst (Except.ok.inj h)).symm⟩

namespace Disassembly

open Assembly (isPlain isPlain_of_mem_decimal)

theorem sweepFrom_append (offset : Nat) (o : Occurrence) (rest : List Tryte) :
    sweepFrom offset (o.trytes ++ rest)
      = o.entry offset :: sweepFrom (offset + o.trytes.length) rest := by
  have read := o.disassemble_append rest
  rw [Occurrence.trytes, List.cons_append] at read ⊢
  rw [sweepFrom, read]
  simp only [List.length_cons, Nat.add_sub_cancel, List.take_left, List.drop_left]
  rfl

theorem sweepFrom_cons_of_error (offset : Nat) {t : Tryte} {rest : List Tryte} {e : DecodeError}
    (h : Instruction.disassemble (t :: rest) = .error e) :
    sweepFrom offset (t :: rest) = ⟨offset, t, [], none⟩ :: sweepFrom (offset + 1) rest := by
  rw [sweepFrom, h]

/-- Induction along a sweep: a block is empty, or begins with an instruction, or begins with a tryte
that begins no instruction. -/
@[elab_as_elim]
theorem sweep_induction {motive : List Tryte → Prop} (nil : motive [])
    (instruction : ∀ (o : Occurrence) (rest : List Tryte), motive rest → motive (o.trytes ++ rest))
    (data : ∀ (t : Tryte) (rest : List Tryte) (e : DecodeError),
      Instruction.disassemble (t :: rest) = .error e → motive rest → motive (t :: rest))
    (code : List Tryte) : motive code := by
  induction hn : code.length using Nat.strong_induction_on generalizing code with
  | _ n ih =>
    cases code with
    | nil => exact nil
    | cons t rest =>
      cases h : Instruction.disassemble (t :: rest) with
      | error e =>
        refine data t rest e h (ih rest.length ?_ rest rfl)
        simp only [List.length_cons] at hn
        omega
      | ok found =>
        obtain ⟨o, tail, same, -⟩ := Instruction.exists_occurrence_of_disassemble h
        rw [same]
        refine instruction o tail (ih tail.length ?_ tail rfl)
        have long := congrArg List.length same
        rw [List.length_append, o.length_trytes, Instruction.length] at long
        omega

theorem text_of_mem_sweepFrom {offset : Nat} {code : List Tryte} {e : Entry}
    (h : e ∈ sweepFrom offset code) :
    (∃ o : Occurrence, e.text = o.text)
      ∨ ∃ t : Tryte, e.text = ".tryte ".toList ++ Text.decimal t.val := by
  induction code using sweep_induction generalizing offset with
  | nil => simp [sweepFrom] at h
  | instruction o rest ih =>
    rw [sweepFrom_append] at h
    rcases List.mem_cons.mp h with rfl | h
    · exact .inl ⟨o, rfl⟩
    · exact ih h
  | data t rest cause bad ih =>
    rw [sweepFrom_cons_of_error offset bad] at h
    rcases List.mem_cons.mp h with rfl | h
    · exact .inr ⟨t, rfl⟩
    · exact ih h

theorem line_spec (code : List Tryte) (line : List Char) (h : line ∈ lines code) :
    line ≠ [] ∧ ∀ c ∈ line, isPlain c = true ∨ c = ' ' := by
  obtain ⟨e, he, rfl⟩ := List.mem_map.mp h
  rcases text_of_mem_sweepFrom he with ⟨o, text⟩ | ⟨t, text⟩
  · rw [text]
    exact ⟨o.text_ne_nil, o.isPlain_of_mem_text⟩
  · rw [text]
    have plain := (Assembly.written_tryte t.val).plain_line
    rw [Assembly.writtenLine_decimal] at plain
    exact ⟨by simp, plain⟩

theorem emitLines_lines (a : Assembly) (number : Nat) (code : List Tryte) :
    a.emitLines number (lines code) = .ok (a.append code) := by
  have swept (offset : Nat) :
      a.emitLines number ((sweepFrom offset code).map Entry.text) = .ok (a.append code) := by
    induction code using sweep_induction generalizing a number offset with
    | nil => simp [sweepFrom, Assembly.emitLines, Assembly.append_nil]
    | instruction o rest ih =>
      rw [sweepFrom_append, List.map_cons, Assembly.emitLines]
      change (Assembly.onLine number (a.emitLine number o.text)).bind _ = _
      rw [a.emitLine_occurrence number o]
      refine (ih (a.append o.trytes) (number + 1) (offset + o.trytes.length)).trans ?_
      rw [Assembly.append_append]
    | data t rest e bad ih =>
      rw [sweepFrom_cons_of_error offset bad, List.map_cons, Assembly.emitLines]
      change (Assembly.onLine number
        (a.emitLine number (".tryte ".toList ++ Text.decimal t.val))).bind _ = _
      rw [a.emitLine_data number t]
      refine (ih (a.append [t]) (number + 1) (offset + 1)).trans ?_
      rw [Assembly.append_append]
      rfl
  exact swept 0

/-- A line of a disassembled block that shows an instruction: it has its text and its length, and at
its offset the block holds the opcode and the operand. -/
structure Entry.Shows (code : List Tryte) (e : Entry) (o : Occurrence) : Prop where
  text : e.instruction? = some o.text
  length : e.raw.length = o.instruction.length
  decoded : code[e.offset]?.map Instruction.decode = some (.ok o.instruction)
  operand : Instruction.operandOf o.instruction.mode (code.drop e.offset) = .ok o.value

private theorem shows_entry (o : Occurrence) (before after : List Tryte) :
    (o.entry before.length).Shows (before ++ (o.trytes ++ after)) o where
  text := rfl
  length := o.length_trytes
  decoded := by
    have opcode : (before ++ (o.trytes ++ after))[before.length]? = some o.instruction.encode := by
      rw [List.getElem?_append_right (le_refl _), Nat.sub_self]
      rfl
    change (before ++ (o.trytes ++ after))[before.length]?.map Instruction.decode = _
    rw [opcode, Option.map_some, Instruction.decode_encode o.hasOpcode]
  operand := by
    change Instruction.operandOf _ ((before ++ (o.trytes ++ after)).drop before.length) = _
    rw [List.drop_left]
    exact Instruction.operandOf_operandTrytes o.holds o.instruction.encode after

/-- The sweep never leaves the boundaries between instructions. -/
theorem forall₂_shows_sweepFrom (before : List Tryte) (os : List Occurrence) :
    List.Forall₂ (Entry.Shows (before ++ os.flatMap Occurrence.trytes))
      (sweepFrom before.length (os.flatMap Occurrence.trytes)) os := by
  -- what the sweep has left behind grows by an occurrence, and its length is the offset
  induction os generalizing before with
  | nil => simp [sweepFrom]
  | cons o os ih =>
    rw [List.flatMap_cons, sweepFrom_append]
    refine .cons (shows_entry o before _) ?_
    have rest := ih (before ++ o.trytes)
    rw [List.length_append, List.append_assoc] at rest
    exact rest

theorem lines_eq_of_forall₂_shows {code : List Tryte} {os : List Occurrence}
    (h : List.Forall₂ (Entry.Shows code) (sweep code) os) :
    lines code = os.map Occurrence.text := by
  have text (e : Entry) (o : Occurrence) (shown : e.Shows code o) : e.text = o.text := by
    rw [Entry.text, shown.text]
    rfl
  have same : List.Forall₂ (fun x y => x = y) (lines code) (os.map Occurrence.text) := by
    rw [lines, List.forall₂_map_left_iff, List.forall₂_map_right_iff]
    exact h.imp text
  exact List.forall₂_eq_eq_eq ▸ same

end Disassembly

namespace Assembly

theorem plain_org (origin : Word) :
    ∀ c ∈ ".org ".toList ++ Text.decimal origin.val, isPlain c = true ∨ c = ' ' := by
  have plain := (written_org origin.val).plain_line
  rw [writtenLine_decimal] at plain
  exact plain

theorem parse_org (origin : Word) : Line.parse (".org ".toList ++ Text.decimal origin.val)
    = .ok ⟨none, .ok (some (.origin (.ofNumber origin.val)))⟩ := by
  have range : Signed32.InRange origin.val := by
    have := origin.lower
    have := origin.upper
    simp only [Signed32.InRange, Signed32.minValue, Signed32.maxValue]
    omega
  have filled : (Text.decimal origin.val).isEmpty = false := by simp [Text.decimal_ne_nil]
  have line := (written_org origin.val).parse_directive
  rw [writtenLine_decimal] at line
  refine line.trans ?_
  change Except.ok (Line.mk none ((if (Text.decimal origin.val).isEmpty then
    .error (.malformed .missingValue) else (parseValue (Text.decimal origin.val)).map
      Statement.origin).map some)) = _
  rw [filled, parseValue_decimal range]
  rfl

private theorem emitLine_origin (origin : Word) :
    emitLine {} 1 (".org ".toList ++ Text.decimal origin.val)
      = .ok { origin? := some origin.val } := by
  have word : asWord origin.val = .ok origin := by
    rw [asWord, Word.ofInt?_val]
  unfold emitLine
  rw [parse_org]
  change ((asWord origin.val).bind fun w => setOrigin {} w.val) = _
  rw [word]
  rfl

private theorem assemble_of_emitLines {source : List Char} {a : Assembly}
    (laid : emitLines {} 1 (Text.lines source) = .ok a) (settled : a.patches = []) :
    assemble source = .ok a.toProgram := by
  unfold assemble
  rw [laid]
  change (a.fillAll a.patches.reverse).bind (fun b => Except.ok b.toProgram) = _
  rw [settled]
  rfl

theorem assemble_intercalate_lines (code : List Tryte) :
    assemble (List.intercalate ['\n'] (Disassembly.lines code)) = .ok ⟨0, code⟩ := by
  have found := lines_intercalate_of_plain fun l => Disassembly.line_spec code l
  have laid := Disassembly.emitLines_lines {} 1 code
  rw [← found] at laid
  rw [assemble_of_emitLines laid rfl]
  simp [toProgram, append, Assembly.origin]

/-- A disassembled block assembles to itself: at the origin that a directive before it sets, and at
zero without one. -/
theorem assemble_lines (code : List Tryte) (origin : Word) :
    assemble (List.intercalate ['\n']
        ((".org ".toList ++ Text.decimal origin.val) :: Disassembly.lines code))
      = .ok ⟨origin.val, code⟩
    ∧ assemble (List.intercalate ['\n'] (Disassembly.lines code)) = .ok ⟨0, code⟩ := by
  refine ⟨?_, assemble_intercalate_lines code⟩
  have found := lines_intercalate_of_plain (List.forall_mem_cons.mpr
    ⟨⟨by simp, plain_org origin⟩, fun l => Disassembly.line_spec code l⟩)
  have laid : emitLines {} 1
      ((".org ".toList ++ Text.decimal origin.val) :: Disassembly.lines code)
      = .ok (append { origin? := some origin.val } code) := by
    rw [emitLines, emitLine_origin origin]
    exact Disassembly.emitLines_lines { origin? := some origin.val } 2 code
  rw [← found] at laid
  rw [assemble_of_emitLines laid rfl]
  simp [toProgram, append, Assembly.origin]

/-- Encoded instructions, one after the other, are disassembled into one line each, in order; at the
offset of each line the instruction and its operand are decoded; and the lines assemble to the
encoded instructions again. -/
theorem disassemble_encoded (os : List Occurrence) :
    Disassembly.lines (os.flatMap Occurrence.trytes) = os.map Occurrence.text
    ∧ List.Forall₂ (Disassembly.Entry.Shows (os.flatMap Occurrence.trytes))
        (Disassembly.sweep (os.flatMap Occurrence.trytes)) os
    ∧ assemble (List.intercalate ['\n'] (Disassembly.lines (os.flatMap Occurrence.trytes)))
        = .ok ⟨0, os.flatMap Occurrence.trytes⟩ := by
  have swept := Disassembly.forall₂_shows_sweepFrom [] os
  exact ⟨Disassembly.lines_eq_of_forall₂_shows swept, swept, assemble_intercalate_lines _⟩

end Assembly

end TernaryMachine
