import Mathlib.Tactic.SplitIfs
import TernaryMachine.Assembly.Statement

/-!
The instruction set as a relation: a mnemonic and an addressing mode denote at most one instruction,
and the statement that is read from an instruction line is the instruction that the line denotes,
with its operand laid out as the instruction takes it.
-/

set_option autoImplicit false
set_option relaxedAutoImplicit false

namespace TernaryMachine

def Comparison.mark : Comparison → Char
  | .less => '<'
  | .equal => '='
  | .notEqual => '!'

def AluOp.names : AluOp → List String
  | .ora => ["ORA", "TOR"]
  | .and => ["AND", "TAND"]
  | op => [op.mnemonic]

theorem AluOp.mnemonic_mem_names (op : AluOp) : op.mnemonic ∈ op.names := by
  cases op <;> simp [AluOp.names, AluOp.mnemonic]

namespace Instruction

/-- The mnemonics of a branch: flag, comparison and digit after `BR`, the comparison as a letter or
a sign, and for some branches a short one. -/
def branchNames (flag : Flag) (comparison : Comparison) (digit : Trit) : List String :=
  let full (c : Char) := String.ofList ['B', 'R', flag.letter, c, digit.branchLetter]
  full comparison.letter :: full comparison.mark
    :: (branchInShort? (full comparison.letter)).toList

/-- The instruction set: what a mnemonic denotes with an operand in an addressing mode, or without
an operand. -/
inductive Denotes : String → Option AddressMode → Instruction → Prop
  | alu {name : String} {op : AluOp} {mode : AddressMode} :
      name ∈ op.names → mode.aluTrit?.isSome → Denotes name (some mode) (.alu op mode)
  | extended (op : ExtendedOp) : Denotes op.mnemonic op.mode? (.extended op)
  | branch {name : String} {mode : AddressMode} {flag : Flag} {comparison : Comparison}
      {digit : Trit} : name ∈ branchNames flag comparison digit →
      mode = .immediate ∨ mode = .absolute →
      Denotes name (some mode) (.branch flag comparison digit)

private theorem ofLetter?_letter (flag : Flag) : Flag.ofLetter? flag.letter = some flag := by
  cases flag <;> rfl

private theorem eq_letter_of_ofLetter? {c : Char} {flag : Flag} (h : Flag.ofLetter? c = some flag) :
    c = flag.letter := by
  have found := List.find?_some h
  exact (of_decide_eq_true found).symm

private theorem ofLetter?_eq_some_iff {c : Char} {comparison : Comparison} :
    Comparison.ofLetter? c = some comparison
      ↔ c = comparison.letter ∨ c = comparison.mark := by
  unfold Comparison.ofLetter?
  constructor
  · intro h
    split_ifs at h with less equal notEqual
    · cases h
      exact less
    · cases h
      exact equal
    · cases h
      exact notEqual
  · rintro (rfl | rfl)
    · cases comparison <;> rfl
    · cases comparison <;> rfl

private theorem eq_branchLetter_of_ofBranchLetter? {c : Char} {digit : Trit}
    (h : Trit.ofBranchLetter? c = some digit) : c = digit.branchLetter := by
  unfold Trit.ofBranchLetter? at h
  split_ifs at h with minus zero plus
  · cases h
    exact minus
  · cases h
    exact zero
  · cases h
    exact plus

theorem branchInFull?_eq_some_iff {name : String} {flag : Flag} {comparison : Comparison}
    {digit : Trit} : Assembly.branchInFull? name = some (flag, comparison, digit)
      ↔ name = String.ofList ['B', 'R', flag.letter, comparison.letter, digit.branchLetter]
        ∨ name = String.ofList ['B', 'R', flag.letter, comparison.mark, digit.branchLetter] := by
  constructor
  · intro h
    unfold Assembly.branchInFull? at h
    split at h
    · rename_i f c d letters
      obtain ⟨flag', hf, h⟩ := Option.bind_eq_some_iff.mp h
      obtain ⟨comparison', hc, h⟩ := Option.bind_eq_some_iff.mp h
      obtain ⟨digit', hd, h⟩ := Option.bind_eq_some_iff.mp h
      cases h
      rw [← String.ofList_toList (s := name), letters, eq_letter_of_ofLetter? hf,
        eq_branchLetter_of_ofBranchLetter? hd]
      rcases ofLetter?_eq_some_iff.mp hc with rfl | rfl
      · exact .inl rfl
      · exact .inr rfl
    · cases h
  · have read {c : Char} (known : Comparison.ofLetter? c = some comparison) :
        Assembly.branchInFull? (String.ofList ['B', 'R', flag.letter, c, digit.branchLetter])
          = some (flag, comparison, digit) := by
      simp [Assembly.branchInFull?, ofLetter?_letter, known]
    rintro (rfl | rfl)
    · exact read (ofLetter?_eq_some_iff.mpr (.inl rfl))
    · exact read (ofLetter?_eq_some_iff.mpr (.inr rfl))

private theorem length_short : ∀ p ∈ branchAliases, p.1.toList.length = 3 := by decide +kernel

private theorem branchInFull?_of_length {name : String} (h : name.toList.length = 5) :
    branchInFull? name = none := by
  have long : ∀ p ∈ branchAliases, ¬ (p.1 == name) = true := by
    intro p mem same
    have short := length_short p mem
    rw [beq_iff_eq.mp same] at short
    omega
  rw [branchInFull?, List.find?_eq_none.mpr long]
  rfl

private theorem branch?_of_short : ∀ p ∈ branchAliases,
    Assembly.branch? p.1 = Assembly.branchInFull? p.2 := by decide +kernel

private theorem mem_branchAliases_of_branchInShort? {full short : String}
    (h : branchInShort? full = some short) : (short, full) ∈ branchAliases := by
  obtain ⟨p, found, rfl⟩ := Option.map_eq_some_iff.mp h
  obtain rfl : p.2 = full := by simpa using List.find?_some found
  exact List.mem_of_find?_eq_some found

theorem branch?_of_mem_branchNames {flag : Flag} {comparison : Comparison} {digit : Trit}
    {name : String} (h : name ∈ branchNames flag comparison digit) :
    Assembly.branch? name = some (flag, comparison, digit) := by
  have full {name : String} (known : Assembly.branchInFull? name = some (flag, comparison, digit))
      (long : name.toList.length = 5) : Assembly.branch? name = some (flag, comparison, digit) := by
    rw [Assembly.branch?, branchInFull?_of_length long]
    exact known
  rcases List.mem_cons.mp h with rfl | h
  · exact full (branchInFull?_eq_some_iff.mpr (.inl rfl)) (by rw [String.toList_ofList]; rfl)
  rcases List.mem_cons.mp h with rfl | h
  · exact full (branchInFull?_eq_some_iff.mpr (.inr rfl)) (by rw [String.toList_ofList]; rfl)
  · have short := mem_branchAliases_of_branchInShort? (Option.mem_toList.mp h)
    exact (branch?_of_short _ short).trans (branchInFull?_eq_some_iff.mpr (.inl rfl))

theorem lookups_of_mem_names (op : AluOp) : ∀ name ∈ op.names,
    Assembly.branch? name = none ∧ AluOp.ofMnemonic? name = some op := by
  cases op <;> decide +kernel

theorem alias_spec (op : ExtendedOp) (alu : AluOp) (h : op.alu? = some alu) :
    op.mnemonic = alu.mnemonic ∧ ∃ mode, op.mode? = some mode ∧ mode.aluTrit? = none
      ∧ (ExtendedOp.all.find? fun x => x.alu? == some alu && x.mode? == some mode) = some op := by
  cases op <;> first
    | contradiction
    | (cases h; exact ⟨rfl, _, rfl, rfl, rfl⟩)

theorem own_mnemonic (op : ExtendedOp) (h : op.alu? = none) :
    Assembly.branch? op.mnemonic = none ∧ AluOp.ofMnemonic? op.mnemonic = none
      ∧ ExtendedOp.isMnemonic op.mnemonic = true
      ∧ ExtendedOp.find? op.mnemonic op.mode? = some op := by
  cases op <;> first
    | contradiction
    | decide +kernel

private def lookup? (name : String) (mode? : Option AddressMode) : Option Instruction :=
  match Assembly.branch? name with
  | some (flag, comparison, digit) => some (.branch flag comparison digit)
  | none =>
    match AluOp.ofMnemonic? name, mode? with
    | some op, some mode =>
      if mode.aluTrit?.isSome then some (.alu op mode)
      else (ExtendedOp.all.find? fun x => x.alu? == some op && x.mode? == some mode).map .extended
    | _, _ => (ExtendedOp.find? name mode?).map .extended

private theorem lookup?_of_denotes {name : String} {mode? : Option AddressMode} {i : Instruction}
    (h : Denotes name mode? i) : lookup? name mode? = some i := by
  unfold lookup?
  cases h with
  | @alu _ op mode mem digit =>
    obtain ⟨noBranch, found⟩ := lookups_of_mem_names op name mem
    simp only [noBranch, found, digit, if_true]
  | extended op =>
    cases halu : op.alu? with
    | none =>
      obtain ⟨noBranch, noAlu, -, found⟩ := own_mnemonic op halu
      simp only [noBranch, noAlu, found, Option.map_some]
    | some alu =>
      obtain ⟨name, mode, hmode, noDigit, found⟩ := alias_spec op alu halu
      have named : op.mnemonic ∈ alu.names := name ▸ alu.mnemonic_mem_names
      obtain ⟨noBranch, known⟩ := lookups_of_mem_names alu _ named
      simp only [noBranch, known, hmode, noDigit, found, Option.isSome_none, Bool.false_eq_true,
        if_false, Option.map_some]
  | branch mem _ => simp only [branch?_of_mem_branchNames mem]

theorem Denotes.unique {name : String} {mode? : Option AddressMode} {i j : Instruction}
    (hi : Denotes name mode? i) (hj : Denotes name mode? j) : i = j :=
  Option.some.inj ((lookup?_of_denotes hi).symm.trans (lookup?_of_denotes hj))

private theorem mem_branchNames_of_short : ∀ p ∈ branchAliases,
    ∃ flag comparison digit, Assembly.branchInFull? p.2 = some (flag, comparison, digit)
      ∧ p.1 ∈ branchNames flag comparison digit := by
  intro p mem
  simp only [branchAliases, List.mem_cons, List.not_mem_nil, or_false] at mem
  rcases mem with rfl | rfl | rfl | rfl | rfl | rfl | rfl | rfl | rfl <;>
    exact ⟨_, _, _, rfl, by decide +kernel⟩

private theorem mem_branchNames_of_branch? {name : String} {flag : Flag}
    {comparison : Comparison} {digit : Trit}
    (h : Assembly.branch? name = some (flag, comparison, digit)) :
    name ∈ branchNames flag comparison digit := by
  unfold Assembly.branch? Instruction.branchInFull? at h
  cases found : branchAliases.find? fun p => p.1 == name with
  | none =>
    rw [found] at h
    rcases branchInFull?_eq_some_iff.mp h with rfl | rfl
    · exact List.mem_cons_self
    · exact List.mem_cons_of_mem _ List.mem_cons_self
  | some p =>
    obtain rfl : p.1 = name := by simpa using List.find?_some found
    obtain ⟨_, _, _, full, short⟩ := mem_branchNames_of_short p (List.mem_of_find?_eq_some found)
    rw [found] at h
    change Assembly.branchInFull? p.2 = _ at h
    rw [full] at h
    cases h
    exact short

private theorem mem_names_of_ofMnemonic? {name : String} {op : AluOp}
    (h : AluOp.ofMnemonic? name = some op) : name ∈ op.names := by
  unfold AluOp.ofMnemonic? at h
  split_ifs at h with tor tand
  · cases h
    simp [tor, AluOp.names]
  · cases h
    simp [tand, AluOp.names]
  · obtain rfl : op.mnemonic = name := by simpa using List.find?_some h
    exact op.mnemonic_mem_names

private theorem names_of_alias {op : ExtendedOp} {alu : AluOp} (h : op.alu? = some alu) :
    alu.names = [op.mnemonic] := by
  cases op <;> first
    | contradiction
    | (cases h; rfl)

end Instruction

namespace Assembly

open Instruction (Denotes)

private theorem splitIndex_ne_accumulator (cs : List Char) :
    (Operand.splitIndex cs).1 ≠ .accumulator := by
  unfold Operand.splitIndex
  split
  · split_ifs <;> simp
  · simp

private theorem splitParenthesised_ne_accumulator {cs inner : List Char} {mode : AddressMode}
    (h : Operand.splitParenthesised cs = some (mode, inner)) : mode ≠ .accumulator := by
  unfold Operand.splitParenthesised at h
  split at h
  · cases h
    simp
  · split at h
    · cases h
      simp
    · split at h
      · cases h
        simp
      · cases h

private theorem split_ne_accumulator {cs inner : List Char} {mode : AddressMode}
    (h : Operand.split cs = some (mode, inner)) : mode ≠ .accumulator := by
  unfold Operand.split at h
  split at h
  · cases h
    simp
  · exact splitParenthesised_ne_accumulator h
  · have index := splitIndex_ne_accumulator cs
    rw [Option.some.inj h] at index
    exact index

theorem Operand.expression?_of_parse {cs : List Char} {o : Operand} (h : Operand.parse cs = .ok o) :
    o.mode = .accumulator ∧ o.expression? = none
      ∨ o.mode ≠ .accumulator ∧ ∃ e, o.expression? = some e := by
  unfold Operand.parse at h
  dsimp only at h
  split_ifs at h with empty bare
  · cases h
    exact .inl ⟨rfl, rfl⟩
  · split at h
    · cases h
    · rename_i mode inner found
      split at h
      · rename_i e read
        cases h
        exact .inr ⟨split_ne_accumulator found, e, rfl⟩
      · cases h
      · cases h

/-- What an instruction takes of its operand: nothing, the value of an expression, or for a branch
to a target the distance of that target. -/
inductive Takes : Instruction → Option Operand → Option (Layout × Expression) → Prop
  | nothing {i : Instruction} {operand? : Option Operand} : i.operandSize = 0 →
      operand?.bind Operand.expression? = none → Takes i operand? none
  | value {i : Instruction} {mode : AddressMode} {e : Expression} {layout : Layout} :
      i.mode? = some mode → layout? mode = some layout →
      Takes i (some ⟨mode, some e⟩) (some (layout, e))
  | target {flag : Flag} {comparison : Comparison} {digit : Trit} {e : Expression} :
      Takes (.branch flag comparison digit) (some ⟨.absolute, some e⟩) (some (.displacement, e))

def Denoted (name : String) (operand? : Option Operand) (statement : Statement) : Prop :=
  ∃ i argument?, statement = .instruction i argument?
    ∧ Denotes name (operand?.map Operand.mode) i ∧ Takes i operand? argument?

private theorem operandOf?_eq_ok_some {text : List Char} {o : Operand}
    (h : operandOf? text = .ok (some o)) : Operand.parse text = .ok o := by
  unfold operandOf? at h
  split_ifs at h
  · cases h
  · split at h
    · cases h
      assumption
    · cases h

private theorem takes_withOperand {text : List Char} {o : Operand}
    (read : operandOf? text = .ok (some o)) {i : Instruction} (mode : i.mode? = some o.mode) :
    ∃ argument?, withOperand i o = .instruction i argument? ∧ Takes i (some o) argument? := by
  refine ⟨_, rfl, ?_⟩
  obtain ⟨m, e?⟩ := o
  rcases Operand.expression?_of_parse (operandOf?_eq_ok_some read) with ⟨rfl, rfl⟩ | ⟨takes, e, rfl⟩
  · refine .nothing ?_ rfl
    rw [Instruction.operandSize, Instruction.mode, mode]
    rfl
  · have layout : ∃ layout, layout? m = some layout := by
      cases m with
      | accumulator => exact absurd rfl takes
      | _ => exact ⟨_, rfl⟩
    obtain ⟨layout, found⟩ := layout
    change Takes i _ ((layout? m).bind fun layout => some (layout, e))
    rw [found]
    exact .value mode found

private theorem branchStatement_eq_ok {name : String} {text : List Char} {operand? : Option Operand}
    (read : operandOf? text = .ok operand?) {flag : Flag} {comparison : Comparison} {digit : Trit}
    {statement : Statement} (mem : name ∈ Instruction.branchNames flag comparison digit)
    (h : branchStatement name (.branch flag comparison digit) operand? = .ok statement) :
    Denoted name operand? statement := by
  unfold branchStatement at h
  cases operand? with
  | none => cases h
  | some o =>
    obtain ⟨mode, e?⟩ := o
    have parsed := Operand.expression?_of_parse (operandOf?_eq_ok_some read)
    cases mode with
    | immediate =>
      obtain ⟨e, rfl⟩ : ∃ e, e? = some e := by simpa using parsed
      cases h
      exact ⟨_, _, rfl, .branch mem (.inl rfl), .value rfl rfl⟩
    | absolute =>
      obtain ⟨e, rfl⟩ : ∃ e, e? = some e := by simpa using parsed
      cases h
      exact ⟨_, _, rfl, .branch mem (.inr rfl), .target⟩
    | _ => cases h

private theorem aluStatement_eq_ok {name : String} {text : List Char} {operand? : Option Operand}
    (read : operandOf? text = .ok operand?) {op : AluOp} {statement : Statement}
    (mem : name ∈ op.names) (h : aluStatement name op operand? = .ok statement) :
    Denoted name operand? statement := by
  unfold aluStatement at h
  cases operand? with
  | none => cases h
  | some o =>
    cases digit : o.mode.aluTrit? with
    | some t =>
      simp only [digit] at h
      cases h
      obtain ⟨argument?, laid, takes⟩ :=
        takes_withOperand read (i := .alu op o.mode) rfl
      exact ⟨_, argument?, laid, .alu mem (by simp [digit]), takes⟩
    | none =>
      simp only [digit] at h
      split at h
      · rename_i x found
        cases h
        have row := List.find?_some found
        simp only [Bool.and_eq_true, beq_iff_eq] at row
        obtain ⟨argument?, laid, takes⟩ := takes_withOperand read (i := .extended x) row.2
        rw [Instruction.names_of_alias row.1, List.mem_singleton] at mem
        refine ⟨_, argument?, laid, ?_, takes⟩
        rw [mem, Option.map_some, ← row.2]
        exact .extended x
      · cases h

private theorem extendedStatement_eq_ok {name : String} {text : List Char}
    {operand? : Option Operand} (read : operandOf? text = .ok operand?) {statement : Statement}
    (h : extendedStatement name operand? = .ok statement) :
    Denoted name operand? statement := by
  have row {mode? : Option AddressMode} {x : ExtendedOp}
      (found : ExtendedOp.find? name mode? = some x) : x.mnemonic = name ∧ x.mode? = mode? := by
    simpa using List.find?_some found
  unfold extendedStatement at h
  cases operand? with
  | none =>
    dsimp only at h
    split at h
    · rename_i x found
      cases h
      obtain ⟨rfl, mode⟩ := row found
      have size : (Instruction.extended x).operandSize = 0 := by
        rw [Instruction.operandSize, Instruction.mode, Instruction.mode?, mode]
        rfl
      refine ⟨_, _, rfl, ?_, .nothing size rfl⟩
      rw [Option.map_none, ← mode]
      exact .extended x
    · cases h
  | some o =>
    dsimp only at h
    split at h
    · rename_i x found
      cases h
      obtain ⟨rfl, mode⟩ := row found
      obtain ⟨argument?, laid, takes⟩ := takes_withOperand read (i := .extended x) mode
      refine ⟨_, argument?, laid, ?_, takes⟩
      rw [Option.map_some, ← mode]
      exact .extended x
    · split_ifs at h

/-- An instruction line is read as the instruction that its mnemonic and addressing mode denote. -/
theorem parseInstruction_eq_ok {name : String} {text : List Char} {operand? : Option Operand}
    (read : operandOf? text = .ok operand?) {statement : Statement}
    (h : parseInstruction name text = .ok statement) :
    Denoted name operand? statement := by
  unfold parseInstruction at h
  rw [read] at h
  change (match branch? name with
    | some (flag, comparison, digit) => _
    | none => _) = _ at h
  cases branch : branch? name with
  | some found =>
    obtain ⟨flag, comparison, digit⟩ := found
    rw [branch] at h
    exact branchStatement_eq_ok read (Instruction.mem_branchNames_of_branch? branch) h
  | none =>
    rw [branch] at h
    cases alu : AluOp.ofMnemonic? name with
    | some op =>
      simp only [alu] at h
      exact aluStatement_eq_ok read (Instruction.mem_names_of_ofMnemonic? alu) h
    | none =>
      simp only [alu] at h
      split_ifs at h
      exact extendedStatement_eq_ok read h

def instructionOf? (text : List Char) : Option (String × Option Operand) := do
  let uncommented ← (stripComment false true text).toOption
  let (word, rest) := Text.cutAtBlank (cutLabel (Text.trim uncommented)).2
  if word.isEmpty || word.head? == some '.' then none
  else
    let operand? ← (operandOf? (Text.trim rest)).toOption
    return (String.ofList (word.map Char.toUpper), operand?)

end Assembly

end TernaryMachine
