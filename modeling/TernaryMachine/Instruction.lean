import TernaryMachine.Instruction.Operation

/-!
Instructions and their opcodes. The lowest digit of an opcode selects the family: zero for the
arithmetic operations, plus one for branches, minus one for extended operations. An operand follows
its opcode, a word with its low half first.
-/

set_option autoImplicit false
set_option relaxedAutoImplicit false

namespace TernaryMachine

def Flag.ofTrits : Trit → Trit → Flag
  | .minus, .minus => .lowest
  | .minus, .zero => .mask
  | .minus, .plus => .carry
  | .zero, .minus => .data
  | .zero, .zero => .sign
  | .zero, .plus => .overflow
  | .plus, .minus => .spare
  | .plus, .zero => .haltCode
  | .plus, .plus => .direction

/-- An instruction without its operand. -/
inductive Instruction where
  | alu (op : AluOp) (mode : AddressMode)
  | branch (flag : Flag) (comparison : Comparison) (digit : Trit)
  | extended (op : ExtendedOp)
  deriving DecidableEq, Repr

inductive DecodeError where
  | undefinedAlu (opcode op : Int)
  | undefinedExtended (opcode op : Int)
  | truncated (needed : Nat)
  deriving DecidableEq, Repr

def DecodeError.message : DecodeError → String
  | .undefinedAlu opcode op => s!"undefined ALU operation {op} in opcode {opcode}"
  | .undefinedExtended opcode op => s!"undefined extended operation {op} in opcode {opcode}"
  | .truncated needed => s!"instruction truncated: needs {needed} operand trytes"

namespace Instruction

def mode? : Instruction → Option AddressMode
  | .alu _ mode => some mode
  | .branch .. => some .immediate
  | .extended op => op.mode?

def mode (i : Instruction) : AddressMode := i.mode?.getD .accumulator

def operandSize (i : Instruction) : Nat := i.mode.operandSize

def length (i : Instruction) : Nat := 1 + i.operandSize

/-- The opcode as an integer; a mode without a mode digit counts as the accumulator. -/
def opcode : Instruction → Int
  | .alu op mode => op.opcode (mode.aluTrit?.getD .zero)
  | .branch flag comparison digit =>
    flag.offset * 27 + comparison.toTrit.toInt * 9 + digit.toInt * 3 + 1
  | .extended op => op.opcode

theorem opcode_range (i : Instruction) : -121 ≤ i.opcode ∧ i.opcode ≤ 121 := by
  cases i with
  | alu op mode =>
    have h := op.code_range
    have h₁ := (mode.aluTrit?.getD .zero).neg_one_le_toInt
    have h₂ := (mode.aluTrit?.getD .zero).toInt_le_one
    simp only [opcode, AluOp.opcode]
    omega
  | branch flag comparison digit =>
    have h₁ := comparison.toTrit.neg_one_le_toInt
    have h₂ := comparison.toTrit.toInt_le_one
    have h₃ := digit.neg_one_le_toInt
    have h₄ := digit.toInt_le_one
    have h : -4 ≤ flag.offset ∧ flag.offset ≤ 4 := by cases flag <;> decide
    simp only [opcode]
    omega
  | extended op =>
    have h := op.code_range
    simp only [opcode, ExtendedOp.opcode]
    omega

def encode (i : Instruction) : Tryte := ⟨i.opcode, i.opcode_range.1, i.opcode_range.2⟩

def decode (t : Tryte) : Except DecodeError Instruction :=
  match t.lowest with
  | .zero =>
    let code := Digits.slice t.val 2 5
    match AluOp.ofCode? code with
    | some op => .ok (.alu op (.ofAluTrit (t.trit 1)))
    | none => .error (.undefinedAlu t.val code)
  | .plus =>
    .ok (.branch (Flag.ofTrits (t.trit 4) (t.trit 3)) (Comparison.ofTrit (t.trit 2)) (t.trit 1))
  | .minus =>
    let code := Digits.slice t.val 1 5
    match ExtendedOp.ofCode? code with
    | some op => .ok (.extended op)
    | none => .error (.undefinedExtended t.val code)

/-- Fetches the operand that follows an opcode; `fetch k` is the `k`-th tryte after it. -/
def fetchOperand {m : Type → Type} [Monad m] (mode : AddressMode) (fetch : Nat → m Tryte) :
    m Int :=
  match mode.operandSize with
  | 0 => pure 0
  | 1 => do return (← fetch 1).val
  | _ => do
    let low ← fetch 1
    let high ← fetch 2
    return (Word.ofHalves low high).val

/-- The operand of an instruction whose opcode is the first of the given trytes. -/
def operandOf (mode : AddressMode) (code : List Tryte) : Except DecodeError Int :=
  fetchOperand mode fun k =>
    match code[k]? with
    | some t => .ok t
    | none => .error (.truncated mode.operandSize)

/-- The two kinds of name that a branch has: the short one and the one in full. -/
def branchAliases : List (String × String) :=
  [("BEQ", "BRSEZ"), ("BNE", "BRSNZ"), ("BMI", "BRSEN"), ("BPL", "BRSEP"), ("BVC", "BRVEZ"),
    ("BVS", "BRVNZ"), ("BCC", "BRCEZ"), ("BCS", "BRCNZ"), ("BRA", "BRRNZ")]

def branchInFull? (short : String) : Option String :=
  (branchAliases.find? fun p => p.1 == short).map Prod.snd

def branchInShort? (full : String) : Option String :=
  (branchAliases.find? fun p => p.2 == full).map Prod.fst

end Instruction

end TernaryMachine
