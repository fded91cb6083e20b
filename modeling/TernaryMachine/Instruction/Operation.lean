import TernaryMachine.Flags

/-!
The operations of the machine and the ways to address an operand. Arithmetic operations come in
three addressing modes; an extended operation fixes its mode, and some of them are a further mode
of an arithmetic operation. A branch compares a flag with a digit.
-/

set_option autoImplicit false
set_option relaxedAutoImplicit false

namespace TernaryMachine

inductive AddressMode where
  | accumulator
  | immediate
  | absolute
  | absoluteX
  | absoluteY
  | indirect
  | indexedXIndirect
  | indirectIndexedY
  deriving DecidableEq, Repr

namespace AddressMode

def all : List AddressMode :=
  [.accumulator, .immediate, .absolute, .absoluteX, .absoluteY, .indirect, .indexedXIndirect,
    .indirectIndexedY]

def name : AddressMode → String
  | .accumulator => "Accumulator"
  | .immediate => "Immediate"
  | .absolute => "Absolute"
  | .absoluteX => "AbsoluteX"
  | .absoluteY => "AbsoluteY"
  | .indirect => "Indirect"
  | .indexedXIndirect => "IndexedXIndirect"
  | .indirectIndexedY => "IndirectIndexedY"

def ofName? (s : String) : Option AddressMode := all.find? fun m => m.name == s

def operandSize : AddressMode → Nat
  | .accumulator => 0
  | .immediate => 1
  | _ => 2

/-- The mode digit in the opcode of an arithmetic operation. -/
def aluTrit? : AddressMode → Option Trit
  | .absolute => some .minus
  | .accumulator => some .zero
  | .immediate => some .plus
  | _ => none

def ofAluTrit : Trit → AddressMode
  | .minus => .absolute
  | .zero => .accumulator
  | .plus => .immediate

@[simp] theorem aluTrit?_ofAluTrit (t : Trit) : (ofAluTrit t).aluTrit? = some t := by
  cases t <;> rfl

end AddressMode

/-- The arithmetic, logic and transfer operations that choose their addressing mode. -/
inductive AluOp where
  | shl | ldy | sty | shr | stx | ldx | but | ora | and | eor | cpx | cpy | dec | dnop | inc
  | adc | sta | lda | cmp | sbc | nti | sti | pti | fd | rd
  deriving DecidableEq, Repr

namespace AluOp

def all : List AluOp :=
  [.shl, .ldy, .sty, .shr, .stx, .ldx, .but, .ora, .and, .eor, .cpx, .cpy, .dec, .dnop, .inc,
    .adc, .sta, .lda, .cmp, .sbc, .nti, .sti, .pti, .fd, .rd]

/-- The code of an operation, the three upper digits of its opcodes. -/
def code : AluOp → Int
  | .shl => -13
  | .ldy => -12
  | .sty => -11
  | .shr => -10
  | .stx => -9
  | .ldx => -8
  | .but => -7
  | .ora => -6
  | .and => -5
  | .eor => -4
  | .cpx => -3
  | .cpy => -2
  | .dec => -1
  | .dnop => 0
  | .inc => 1
  | .adc => 3
  | .sta => 4
  | .lda => 5
  | .cmp => 6
  | .sbc => 7
  | .nti => 8
  | .sti => 9
  | .pti => 10
  | .fd => 11
  | .rd => 12

def name : AluOp → String
  | .shl => "Shl"
  | .ldy => "Ldy"
  | .sty => "Sty"
  | .shr => "Shr"
  | .stx => "Stx"
  | .ldx => "Ldx"
  | .but => "But"
  | .ora => "Ora"
  | .and => "And"
  | .eor => "Eor"
  | .cpx => "Cpx"
  | .cpy => "Cpy"
  | .dec => "Dec"
  | .dnop => "Dnop"
  | .inc => "Inc"
  | .adc => "Adc"
  | .sta => "Sta"
  | .lda => "Lda"
  | .cmp => "Cmp"
  | .sbc => "Sbc"
  | .nti => "Nti"
  | .sti => "Sti"
  | .pti => "Pti"
  | .fd => "Fd"
  | .rd => "Rd"

def mnemonic : AluOp → String
  | .shl => "SHL"
  | .ldy => "LDY"
  | .sty => "STY"
  | .shr => "SHR"
  | .stx => "STX"
  | .ldx => "LDX"
  | .but => "BUT"
  | .ora => "ORA"
  | .and => "AND"
  | .eor => "EOR"
  | .cpx => "CPX"
  | .cpy => "CPY"
  | .dec => "DEC"
  | .dnop => "DNOP"
  | .inc => "INC"
  | .adc => "ADC"
  | .sta => "STA"
  | .lda => "LDA"
  | .cmp => "CMP"
  | .sbc => "SBC"
  | .nti => "NTI"
  | .sti => "STI"
  | .pti => "PTI"
  | .fd => "FD"
  | .rd => "RD"

def ofCode? (n : Int) : Option AluOp := all.find? fun op => decide (op.code = n)

def ofName? (s : String) : Option AluOp := all.find? fun op => op.name == s

/-- The operation of a mnemonic; `TOR` and `TAND` are further mnemonics of `ORA` and `AND`. -/
def ofMnemonic? (s : String) : Option AluOp :=
  if s = "TOR" then some .ora
  else if s = "TAND" then some .and
  else all.find? fun op => op.mnemonic == s

def opcode (op : AluOp) (mode : Trit) : Int := op.code * 9 + mode.toInt * 3

theorem code_range (op : AluOp) : -13 ≤ op.code ∧ op.code ≤ 12 := by cases op <;> decide

end AluOp

/-- The operations that fix their addressing mode. -/
inductive ExtendedOp where
  | haltN | haltZ | haltP
  | ldaIndY | ldaX | ldaY | ldaXInd | staIndY | staX | staY | staXInd | cmpIndY | cmpX | cmpY
  | ldxY | ldyX | stxY | styX
  | stz | stzX | stzY | stzIndY | stzXInd
  | clc | secp | secn | clv | cli | sein | seip | cld | sedp | sedn
  | intN | intZ | intP
  | nop
  | tax | tay | txa | tya | inx | iny | dex | dey | txys | tsxy
  | pha | phx | phy | php | pla | plx | ply | plp
  | jsr | jmp | jmpInd | rts
  deriving DecidableEq, Repr

namespace ExtendedOp

def all : List ExtendedOp :=
  [.haltN, .haltZ, .haltP, .ldaIndY, .ldaX, .ldaY, .ldaXInd, .staIndY, .staX, .staY, .staXInd,
    .cmpIndY, .cmpX, .cmpY, .ldxY, .ldyX, .stxY, .styX, .stz, .stzX, .stzY, .stzIndY, .stzXInd,
    .clc, .secp, .secn, .clv, .cli, .sein, .seip, .cld, .sedp, .sedn, .intN, .intZ, .intP, .nop,
    .tax, .tay, .txa, .tya, .inx, .iny, .dex, .dey, .txys, .tsxy, .pha, .phx, .phy, .php, .pla,
    .plx, .ply, .plp, .jsr, .jmp, .jmpInd, .rts]

structure Row where
  /-- The four upper digits of the opcode. -/
  code : Int
  mnemonic : String
  name : String
  mode? : Option AddressMode
  /-- The arithmetic operation that is performed in this mode. -/
  alu? : Option AluOp

def row : ExtendedOp → Row
  | .haltN => ⟨-40, "HALTN", "HaltN", none, none⟩
  | .haltZ => ⟨-39, "HALTZ", "HaltZ", none, none⟩
  | .haltP => ⟨-38, "HALTP", "HaltP", none, none⟩
  | .ldaIndY => ⟨-37, "LDA", "LdaIndY", some .indirectIndexedY, some .lda⟩
  | .ldaX => ⟨-36, "LDA", "LdaX", some .absoluteX, some .lda⟩
  | .ldaY => ⟨-35, "LDA", "LdaY", some .absoluteY, some .lda⟩
  | .ldaXInd => ⟨-34, "LDA", "LdaXInd", some .indexedXIndirect, some .lda⟩
  | .staIndY => ⟨-33, "STA", "StaIndY", some .indirectIndexedY, some .sta⟩
  | .staX => ⟨-32, "STA", "StaX", some .absoluteX, some .sta⟩
  | .staY => ⟨-31, "STA", "StaY", some .absoluteY, some .sta⟩
  | .staXInd => ⟨-30, "STA", "StaXInd", some .indexedXIndirect, some .sta⟩
  | .cmpIndY => ⟨-29, "CMP", "CmpIndY", some .indirectIndexedY, some .cmp⟩
  | .cmpX => ⟨-28, "CMP", "CmpX", some .absoluteX, some .cmp⟩
  | .cmpY => ⟨-27, "CMP", "CmpY", some .absoluteY, some .cmp⟩
  | .ldxY => ⟨-26, "LDX", "LdxY", some .absoluteY, some .ldx⟩
  | .ldyX => ⟨-25, "LDY", "LdyX", some .absoluteX, some .ldy⟩
  | .stxY => ⟨-24, "STX", "StxY", some .absoluteY, some .stx⟩
  | .styX => ⟨-23, "STY", "StyX", some .absoluteX, some .sty⟩
  | .stz => ⟨-22, "STZ", "Stz", some .absolute, none⟩
  | .stzX => ⟨-21, "STZ", "StzX", some .absoluteX, none⟩
  | .stzY => ⟨-20, "STZ", "StzY", some .absoluteY, none⟩
  | .stzIndY => ⟨-19, "STZ", "StzIndY", some .indirectIndexedY, none⟩
  | .stzXInd => ⟨-18, "STZ", "StzXInd", some .indexedXIndirect, none⟩
  | .clc => ⟨-16, "CLC", "Clc", none, none⟩
  | .secp => ⟨-15, "SECP", "Secp", none, none⟩
  | .secn => ⟨-14, "SECN", "Secn", none, none⟩
  | .clv => ⟨-13, "CLV", "Clv", none, none⟩
  | .cli => ⟨-12, "CLI", "Cli", none, none⟩
  | .sein => ⟨-11, "SEIN", "Sein", none, none⟩
  | .seip => ⟨-10, "SEIP", "Seip", none, none⟩
  | .cld => ⟨-9, "CLD", "Cld", none, none⟩
  | .sedp => ⟨-8, "SEDP", "Sedp", none, none⟩
  | .sedn => ⟨-7, "SEDN", "Sedn", none, none⟩
  | .intN => ⟨-6, "INTN", "IntN", none, none⟩
  | .intZ => ⟨-5, "INTZ", "IntZ", none, none⟩
  | .intP => ⟨-4, "INTP", "IntP", none, none⟩
  | .nop => ⟨0, "NOP", "Nop", none, none⟩
  | .tax => ⟨1, "TAX", "Tax", none, none⟩
  | .tay => ⟨2, "TAY", "Tay", none, none⟩
  | .txa => ⟨3, "TXA", "Txa", none, none⟩
  | .tya => ⟨4, "TYA", "Tya", none, none⟩
  | .inx => ⟨5, "INX", "Inx", none, none⟩
  | .iny => ⟨6, "INY", "Iny", none, none⟩
  | .dex => ⟨7, "DEX", "Dex", none, none⟩
  | .dey => ⟨8, "DEY", "Dey", none, none⟩
  | .txys => ⟨9, "TXYS", "Txys", none, none⟩
  | .tsxy => ⟨10, "TSXY", "Tsxy", none, none⟩
  | .pha => ⟨11, "PHA", "Pha", none, none⟩
  | .phx => ⟨12, "PHX", "Phx", none, none⟩
  | .phy => ⟨13, "PHY", "Phy", none, none⟩
  | .php => ⟨14, "PHP", "Php", none, none⟩
  | .pla => ⟨15, "PLA", "Pla", none, none⟩
  | .plx => ⟨16, "PLX", "Plx", none, none⟩
  | .ply => ⟨17, "PLY", "Ply", none, none⟩
  | .plp => ⟨18, "PLP", "Plp", none, none⟩
  | .jsr => ⟨33, "JSR", "Jsr", some .absolute, none⟩
  | .jmp => ⟨34, "JMP", "Jmp", some .absolute, none⟩
  | .jmpInd => ⟨35, "JMP", "JmpInd", some .indirect, none⟩
  | .rts => ⟨36, "RTS", "Rts", none, none⟩

def code (op : ExtendedOp) : Int := op.row.code

def mnemonic (op : ExtendedOp) : String := op.row.mnemonic

def name (op : ExtendedOp) : String := op.row.name

def mode? (op : ExtendedOp) : Option AddressMode := op.row.mode?

/-- The arithmetic operation of which this is a further mode. -/
def alu? (op : ExtendedOp) : Option AluOp := op.row.alu?

def ofCode? (n : Int) : Option ExtendedOp := all.find? fun op => decide (op.code = n)

def ofName? (s : String) : Option ExtendedOp := all.find? fun op => op.name == s

def find? (mnemonic : String) (mode? : Option AddressMode) : Option ExtendedOp :=
  all.find? fun op => op.mnemonic == mnemonic && op.mode? == mode?

def isMnemonic (s : String) : Bool := all.any fun op => op.mnemonic == s

def opcode (op : ExtendedOp) : Int := op.code * 3 - 1

theorem code_range (op : ExtendedOp) : -40 ≤ op.code ∧ op.code ≤ 36 := by cases op <;> decide

end ExtendedOp

/-- How a branch compares a flag with a digit. -/
inductive Comparison where
  | less
  | equal
  | notEqual
  deriving DecidableEq, Repr

namespace Comparison

def all : List Comparison := [.less, .equal, .notEqual]

def name : Comparison → String
  | .less => "Less"
  | .equal => "Equal"
  | .notEqual => "NotEqual"

def ofName? (s : String) : Option Comparison := all.find? fun c => c.name == s

/-- The comparison of a digit in a branch opcode. -/
def ofTrit : Trit → Comparison
  | .minus => .less
  | .zero => .equal
  | .plus => .notEqual

def toTrit : Comparison → Trit
  | .less => .minus
  | .equal => .zero
  | .notEqual => .plus

def letter : Comparison → Char
  | .less => 'L'
  | .equal => 'E'
  | .notEqual => 'N'

def ofLetter? (c : Char) : Option Comparison :=
  if c = 'L' ∨ c = '<' then some .less
  else if c = 'E' ∨ c = '=' then some .equal
  else if c = 'N' ∨ c = '!' then some .notEqual
  else none

def holds (c : Comparison) (flag digit : Trit) : Bool :=
  match c with
  | .less => flag.less digit
  | .equal => decide (flag = digit)
  | .notEqual => decide (flag ≠ digit)

@[simp] theorem toTrit_ofTrit (t : Trit) : (ofTrit t).toTrit = t := by cases t <;> rfl

end Comparison

namespace Trit

def branchLetter : Trit → Char
  | .minus => 'N'
  | .zero => 'Z'
  | .plus => 'P'

def ofBranchLetter? (c : Char) : Option Trit :=
  if c = 'N' then some .minus
  else if c = 'Z' then some .zero
  else if c = 'P' then some .plus
  else none

@[simp] theorem ofBranchLetter?_branchLetter (t : Trit) :
    ofBranchLetter? t.branchLetter = some t := by
  cases t <;> decide

end Trit

end TernaryMachine
