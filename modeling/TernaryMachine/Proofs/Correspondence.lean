import TernaryMachine.Proofs.Denotation
import TernaryMachine.Proofs.Patching
import TernaryMachine.Proofs.Stepping

/-!
What the assembler lays out for an instruction line is what the machine performs. The trytes of the
line are the opcode of the instruction that its mnemonic and addressing mode denote and the value of
its operand under the final symbols, wherever those are defined; a machine that arrives there
fetches this instruction with this value, and goes on to the next line or to where the operand
points.
-/

set_option autoImplicit false
set_option relaxedAutoImplicit false

namespace TernaryMachine.Assembly

open Instruction (Denotes Holds Occurrence operandTrytes)

theorem emitLines_append_eq_ok_iff {a c : Assembly} {number : Nat} {xs ys : List (List Char)} :
    a.emitLines number (xs ++ ys) = .ok c ↔ ∃ b, a.emitLines number xs = .ok b
      ∧ b.emitLines (number + xs.length) ys = .ok c := by
  induction xs generalizing a number with
  | nil => simp [emitLines]
  | cons x xs ih =>
    simp only [List.cons_append, emitLines, bind_eq_ok_iff, ih, List.length_cons]
    rw [show number + (xs.length + 1) = number + 1 + xs.length by omega]
    constructor
    · rintro ⟨d, first, b, rest, last⟩
      exact ⟨b, ⟨d, first, rest⟩, last⟩
    · rintro ⟨b, ⟨d, first, rest⟩, last⟩
      exact ⟨d, first, b, rest, last⟩

private theorem denoted_of_parseStatement {cs : List Char} {name : String}
    {operand? : Option Operand} {statement? : Option Statement}
    (written : (let (word, rest) := Text.cutAtBlank cs
      if word.isEmpty || word.head? == some '.' then none
      else do
        let operand? ← (operandOf? (Text.trim rest)).toOption
        return (String.ofList (word.map Char.toUpper), operand?)) = some (name, operand?))
    (stated : parseStatement cs = .ok statement?) :
    ∃ statement, statement? = some statement ∧ Denoted name operand? statement := by
  unfold parseStatement at stated
  dsimp only at written
  split_ifs at written with directive
  obtain ⟨_, read, written⟩ := Option.bind_eq_some_iff.mp written
  cases written
  rw [toOption_eq_some_iff] at read
  split_ifs at stated with blank
  · rw [List.isEmpty_iff.mp blank] at directive
    simp [Text.cutAtBlank, Text.headWord] at directive
  · dsimp only at stated
    split at stated
    · rename_i rest dot
      simp [dot] at directive
    · obtain ⟨statement, parsed, rfl⟩ := map_eq_ok_iff.mp stated
      exact ⟨statement, rfl, parseInstruction_eq_ok read parsed⟩

theorem denoted_of_instructionOf? {text : List Char} {name : String} {operand? : Option Operand}
    (written : instructionOf? text = some (name, operand?)) {label? : Option String}
    {statement? : Option Statement} (found : contents? text = some (label?, statement?)) :
    ∃ statement, statement? = some statement ∧ Denoted name operand? statement := by
  obtain ⟨uncommented, stripped, written⟩ := Option.bind_eq_some_iff.mp written
  rw [toOption_eq_some_iff] at stripped
  obtain ⟨line, read, found⟩ := Option.bind_eq_some_iff.mp found
  obtain ⟨_, stated, found⟩ := Option.bind_eq_some_iff.mp found
  cases found
  rw [toOption_eq_some_iff] at read stated
  have body : line.statement = parseStatement (cutLabel (Text.trim uncommented)).2 := by
    unfold Line.parse at read
    rw [stripped] at read
    dsimp only at read
    split at read
    · rename_i rest cut
      cases read
      rw [cut]
    · rename_i label rest cut
      split_ifs at read
      cases read
      rw [cut]
  rw [body] at stated
  exact denoted_of_parseStatement written stated

/-- The value that a machine reads for an operand: that of the expression, and for a branch to a
target the distance of the target from the instruction behind the branch. -/
inductive HasValue (table : String → Option Int) (address : Int) :
    Instruction → Option Operand → Int → Prop
  | nothing {i : Instruction} {operand? : Option Operand} :
      operand?.bind Operand.expression? = none → HasValue table address i operand? 0
  | value {i : Instruction} {mode : AddressMode} {e : Expression} {v : Int} :
      i.mode? = some mode → e.value? table = some v →
      HasValue table address i (some ⟨mode, some e⟩) v
  | target {flag : Flag} {comparison : Comparison} {digit : Trit} {e : Expression} {t : Int} :
      e.value? table = some t → HasValue table address (.branch flag comparison digit)
        (some ⟨.absolute, some e⟩) (t - (address + 2))

theorem HasValue.eq_distance {table : String → Option Int} {address v t : Int} {flag : Flag}
    {comparison : Comparison} {digit : Trit} {e : Expression}
    (h : HasValue table address (.branch flag comparison digit) (some ⟨.absolute, some e⟩) v)
    (known : e.value? table = some t) : v = t - (address + 2) := by
  cases h with
  | nothing bare => cases bare
  | value taken _ => cases taken
  | target found =>
    rw [found] at known
    cases known
    rfl

theorem hasOpcode_of_denotes {name : String} {mode? : Option AddressMode} {i : Instruction}
    (h : Denotes name mode? i) : i.HasOpcode := by
  cases h with
  | alu _ digit => exact digit
  | extended op => trivial
  | branch _ _ => trivial

def argumentItems (argument? : Option (Layout × Expression)) : List Item :=
  argument?.elim [] fun a => [.value a.1 a.2]

private theorem holds_of_ofInt? {value : Int} {t : Tryte} (h : Tryte.ofInt? value = some t) :
    Holds 1 value ∧ [t] = operandTrytes 1 value := by
  obtain rfl := Tryte.ofInt?_eq_some_iff.mp h
  refine ⟨⟨t.lower, t.upper⟩, ?_⟩
  rw [operandTrytes, Tryte.ofDigits_val]

theorem Layout.operandTrytes_of_write? {layout : Layout} (plain : layout ≠ .displacement)
    {value address : Int} {trytes : List Tryte} (h : layout.write? value address = some trytes) :
    Holds layout.size value ∧ trytes = operandTrytes layout.size value := by
  cases layout with
  | tryte =>
    obtain ⟨t, found, rfl⟩ := Option.map_eq_some_iff.mp h
    exact holds_of_ofInt? found
  | word =>
    obtain ⟨w, found, rfl⟩ := Option.map_eq_some_iff.mp h
    unfold Word.ofInt? at found
    split_ifs at found with range
    cases found
    exact ⟨range, rfl⟩
  | displacement => contradiction

private theorem write?_of_argumentItems {table : String → Option Int} {address : Int}
    {layout : Layout} {e : Expression} {trytes : List Tryte}
    (h : Item.writeAll? table address (argumentItems (some (layout, e))) = some trytes) :
    ∃ value, e.value? table = some value ∧ layout.write? value address = some trytes := by
  obtain ⟨_, _, written, ⟨⟩, rfl⟩ := Item.writeAll?_cons_eq_some_iff.mp h
  rw [List.append_nil]
  exact Option.bind_eq_some_iff.mp written

theorem Takes.exists_occurrence {i : Instruction} {operand? : Option Operand}
    {argument? : Option (Layout × Expression)} (h : Takes i operand? argument?)
    (hasOpcode : i.HasOpcode) {table : String → Option Int} {address : Int} {trytes : List Tryte}
    (written : Item.writeAll? table (address + 1) (argumentItems argument?) = some trytes) :
    ∃ o : Occurrence, o.instruction = i ∧ o.trytes = i.encode :: trytes
      ∧ HasValue table address i operand? o.value := by
  cases h with
  | nothing size bare =>
    obtain rfl : [] = trytes := Option.some.inj written
    have holds : Holds i.operandSize 0 := by
      rw [size]
      rfl
    refine ⟨⟨i, 0, hasOpcode, holds⟩, rfl, ?_, .nothing bare⟩
    rw [Occurrence.trytes, size]
    rfl
  | @value _ mode e layout taken laid =>
    obtain ⟨value, known, written⟩ := write?_of_argumentItems written
    have size : i.operandSize = layout.size ∧ layout ≠ .displacement := by
      rw [Instruction.operandSize, Instruction.mode, taken, Option.getD_some]
      unfold layout? at laid
      cases mode <;> cases laid <;> decide
    obtain ⟨holds, rfl⟩ := Layout.operandTrytes_of_write? size.2 written
    rw [← size.1] at holds ⊢
    exact ⟨⟨i, value, hasOpcode, holds⟩, rfl, rfl, .value taken known⟩
  | target =>
    obtain ⟨target, known, written⟩ := write?_of_argumentItems written
    obtain ⟨t, found, rfl⟩ := Option.map_eq_some_iff.mp written
    rw [show target - (address + 1) - 1 = target - (address + 2) by omega] at found
    obtain ⟨holds, rest⟩ := holds_of_ofInt? found
    refine ⟨⟨_, target - (address + 2), hasOpcode, holds⟩, rfl, ?_, .target known⟩
    rw [rest]
    rfl

theorem items_of_line? {s u : Survey} {text : List Char} (h : s.line? text = some u)
    {name : String} {operand? : Option Operand}
    (written : instructionOf? text = some (name, operand?)) : ∃ i argument?,
      Denotes name (operand?.map Operand.mode) i ∧ Takes i operand? argument?
        ∧ u.items = s.items ++ .known [i.encode] :: argumentItems argument? := by
  obtain ⟨⟨label?, statement?⟩, found, h⟩ := Option.bind_eq_some_iff.mp h
  obtain ⟨_, rfl, i, argument?, rfl, denotes, takes⟩ := denoted_of_instructionOf? written found
  obtain ⟨v, labelled, h⟩ := Option.bind_eq_some_iff.mp h
  have same : v.items = s.items := by
    cases label? with
    | none =>
      cases labelled
      rfl
    | some label =>
      obtain ⟨-, rfl⟩ := Survey.bind?_eq_some_iff.mp labelled
      rfl
  refine ⟨i, argument?, denotes, takes, ?_⟩
  cases argument? with
  | none =>
    cases h
    rw [← same]
    rfl
  | some argument =>
    cases h
    rw [← same]
    exact List.append_assoc _ _ _

theorem exists_occurrence_of_writeAll? {s u t : Survey} {text : List Char}
    (line : s.line? text = some u) (later : Survey.Continues u t) {code : List Tryte}
    (whole : Item.writeAll? t.lookup t.origin t.items = some code) {name : String}
    {operand? : Option Operand} (written : instructionOf? text = some (name, operand?)) :
    ∃ (o : Occurrence) (before after : List Tryte),
      Denotes name (operand?.map Operand.mode) o.instruction
        ∧ HasValue t.lookup (t.origin + s.count) o.instruction operand? o.value
        ∧ u.count = s.count + o.instruction.length ∧ before.length = s.count
        ∧ code = before ++ o.trytes ++ after := by
  obtain ⟨i, argument?, denotes, takes, items⟩ := items_of_line? line written
  obtain ⟨rest, items'⟩ := later.items
  rw [← items', items, List.append_assoc] at whole
  obtain ⟨before, _, first, tail, rfl⟩ := Item.writeAll?_append_eq_some_iff.mp whole
  obtain ⟨_, after, here, -, rfl⟩ := Item.writeAll?_append_eq_some_iff.mp tail
  obtain ⟨_, trytes, ⟨⟩, argument, rfl⟩ := Item.writeAll?_cons_eq_some_iff.mp here
  have place : before.length = s.count := Item.length_of_writeAll? first
  rw [place] at argument
  obtain ⟨o, rfl, code, value⟩ :=
    takes.exists_occurrence (hasOpcode_of_denotes denotes) argument
  refine ⟨o, before, after, denotes, value, ?_, place, ?_⟩
  · have size := Item.length_of_writeAll? argument
    have length := o.length_trytes
    rw [code, List.length_cons, size] at length
    simp only [Survey.count, items, List.map_append, List.sum_append, List.map_cons,
      List.sum_cons, Item.size, List.length_singleton]
    omega
  · rw [code]
    simp

/-- Every instruction line of a source that assembles: its mnemonic and addressing mode denote one
instruction, and a machine that runs forward, stands on the trytes of the line and reads them from
memory fetches this instruction, and as its operand the value of the expression under the final
symbols, or for a branch to a target the distance of the target. It goes on accordingly; a branch to
a target that is taken goes to the target. -/
theorem fetch_instruction_line {source : List Char} {p : Program}
    (assembled : assemble source = .ok p) {before after : List (List Char)} {text : List Char}
    (lines : Text.lines source = before ++ text :: after) {name : String}
    {operand? : Option Operand} (written : instructionOf? text = some (name, operand?)) :
    ∃ (a b c : Assembly) (i : Instruction) (value address : Int),
      emitLines {} 1 before = .ok a ∧ a.emitLine (1 + before.length) text = .ok b
      ∧ emitLines {} 1 (Text.lines source) = .ok c
      ∧ (∀ j, Denotes name (operand?.map Operand.mode) j ↔ j = i)
      ∧ b.code.size = a.code.size + i.length ∧ address = p.origin + a.code.size
      ∧ HasValue c.lookup address i operand? value
      ∧ ∀ m : Machine, m.core.registers.pc = address →
        Core.Poised m.core ((p.code.drop a.code.size).take i.length) →
        Core.fetch m.core = .ok (i, value, address + i.length - 1) m.core
        ∧ m.Moves i value address
        ∧ ∀ flag comparison digit e target, i = .branch flag comparison digit →
          operand? = some ⟨.absolute, some e⟩ → e.value? c.lookup = some target → ∀ fuel, ∃ n,
            m.step fuel = some (.ok i n) ∧ n.core.registers.pc =
              if comparison.holds (m.core.registers.flags.get flag) digit then target
              else address + i.length := by
  obtain ⟨c, laid, filled⟩ := bind_eq_ok_iff.mp assembled
  have parts := laid
  rw [lines, emitLines_append_eq_ok_iff] at parts
  obtain ⟨a, first, rest⟩ := parts
  obtain ⟨b, line, last⟩ := bind_eq_ok_iff.mp rest
  have line := onLine_eq_ok_iff.mp line
  have start := Agrees.initial.follows_emitLines 1 before
  rw [first] at start
  obtain ⟨s, -, agreesA⟩ := start.exists_of_ok
  have next := agreesA.follows_emitLine (1 + before.length) text
  rw [line] at next
  obtain ⟨u, surveyed, agreesB⟩ := next.exists_of_ok
  have ending := agreesB.follows_emitLines (1 + before.length + 1) after
  rw [last] at ending
  obtain ⟨t, later, agreesC⟩ := ending.exists_of_ok
  obtain ⟨code, whole, rfl⟩ := Option.map_eq_some_iff.mp (agreesC.toProgram_eq_ok_iff.mp filled)
  obtain ⟨o, front, back, denotes, value, size, place, rfl⟩ :=
    exists_occurrence_of_writeAll? surveyed (Survey.continues_of_lines? later) whole written
  refine ⟨a, b, c, o.instruction, o.value, t.origin + s.count, first, line, laid,
    ?_, ?_, ?_, ?_, ?_⟩
  · intro j
    constructor
    · exact fun other => other.unique denotes
    · rintro rfl
      exact denotes
  · rw [agreesA.size_code, agreesB.size_code, size]
  · rw [agreesA.size_code]
  · rw [agreesC.lookup]
    exact value
  · intro m pc poised
    have slice : ((front ++ o.trytes ++ back).drop a.code.size).take o.instruction.length
        = o.trytes := by
      rw [agreesA.size_code, ← place, List.append_assoc, List.drop_left, ← o.length_trytes,
        List.take_left]
    rw [slice] at poised
    have fetched := poised.fetch
    have moves := Machine.moves_of_poised poised
    rw [pc] at fetched moves
    refine ⟨?_, moves, ?_⟩
    · rw [fetched, Instruction.length]
      congr 3
      omega
    · intro flag comparison digit e target same absolute known fuel
      obtain ⟨n, step, arrived⟩ := moves.branch flag comparison digit same fuel
      refine ⟨n, step, ?_⟩
      rw [same, absolute] at value
      rw [← agreesC.lookup] at value
      have distance := value.eq_distance known
      have length : o.instruction.length = 2 := by
        rw [same]
        rfl
      rw [arrived, length]
      split_ifs
      · omega
      · omega

theorem fetch_forward_branch :
    let source := ".org 4\n beq t\n nop\nt: jmp t".toList
    let code := [1, 1, -1, 101, 7, 0].map fun n => Tryte.ofDigits n 0
    let branch := Instruction.branch .sign .equal .zero
    assemble source = .ok ⟨4, code⟩
      ∧ Text.lines source
        = [".org 4".toList] ++ " beq t".toList :: [" nop".toList, "t: jmp t".toList]
      ∧ instructionOf? " beq t".toList
        = some ("BEQ", some ⟨.absolute, some ⟨.full, .symbol "t" 0⟩⟩)
      ∧ ∃ m : Machine, m.core.registers.pc = 4 ∧ Core.Poised m.core (code.take 2)
        ∧ Core.fetch m.core = .ok (branch, 1, 5) m.core
        ∧ ∀ fuel, ∃ n, m.step fuel = some (.ok branch n) ∧ n.core.registers.pc = 7 := by
  intro source code branch
  have assembled : assemble source = .ok ⟨4, code⟩ := by decide +kernel
  have lines : Text.lines source
      = [".org 4".toList] ++ " beq t".toList :: [" nop".toList, "t: jmp t".toList] := by
    decide +kernel
  have written : instructionOf? " beq t".toList
      = some ("BEQ", some ⟨.absolute, some ⟨.full, .symbol "t" 0⟩⟩) := by decide +kernel
  refine ⟨assembled, lines, written, ?_⟩
  obtain ⟨a, b, c, i, value, address, first, -, laid, unique, -, place, hasValue, acts⟩ :=
    fetch_instruction_line assembled lines written
  obtain rfl : a = { origin? := some 4 } :=
    Except.ok.inj (first.symm.trans (by decide +kernel))
  obtain rfl : branch = i := (unique branch).mp (.branch (by decide +kernel) (.inr rfl))
  obtain rfl : address = 4 := place
  have known : (⟨.full, .symbol "t" 0⟩ : Expression).value? c.lookup = some 7 := by
    have found : ((emitLines {} 1 (Text.lines source)).toOption.bind fun c =>
        (⟨.full, .symbol "t" 0⟩ : Expression).value? c.lookup) = some 7 := by decide +kernel
    rw [laid] at found
    exact found
  obtain rfl : value = 1 := hasValue.eq_distance known
  let store := (Store.full.put 4 (by decide) (Tryte.ofDigits 1 0)).put 5 (by decide)
    (Tryte.ofDigits 1 0)
  let m : Machine := ⟨⟨{ Registers.initial with pc := 4 }, store⟩, {}, 0, none⟩
  have poised : Core.Poised m.core (code.take 2) := by
    refine ⟨by decide, rfl, fun k inside => ?_⟩
    have cell (a : Int) : store.get? a = _ := Store.get?_put _ 5 a _ _
    have two : k = 0 ∨ k = 1 := by
      change k < 2 at inside
      omega
    rcases two with rfl | rfl
    · change store.get? 4 = _
      rw [cell, if_neg (by decide), Store.get?_put, if_pos rfl]
      rfl
    · change store.get? 5 = _
      rw [cell, if_pos rfl]
      rfl
  obtain ⟨fetched, -, goes⟩ := acts m rfl poised
  refine ⟨m, rfl, poised, fetched, fun fuel => ?_⟩
  obtain ⟨n, step, pc⟩ := goes .sign .equal .zero _ 7 rfl rfl known fuel
  exact ⟨n, step, pc⟩

end TernaryMachine.Assembly
