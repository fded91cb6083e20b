import TernaryMachine.Machine.Core

/-!
What each instruction does to registers and store. Interrupts and the debugging instruction are
not performed here but reported as the way in which execution continues.
-/

set_option autoImplicit false
set_option relaxedAutoImplicit false

namespace TernaryMachine

/-- What is left to do after an arithmetic operation. -/
inductive AluEffect where
  | proceed
  | debugNop
  deriving DecidableEq, Repr

/-- How execution continues after an instruction. -/
inductive Flow where
  /-- With the tryte after the instruction, in run direction. -/
  | next
  | jump (target : Int)
  | interrupt (number : Trit)
  | debugNop
  deriving DecidableEq, Repr

namespace Core

def performAlu (op : AluOp) (o : Operand) : Action AluEffect := do
  match op with
  | .lda => load .accumulator o
  | .ldx => load .indexX o
  | .ldy => load .indexY o
  | .sta => save .accumulator o
  | .stx => save .indexX o
  | .sty => save .indexY o
  | .adc => addWithCarry (← readOperand o)
  | .sbc => addWithCarry (-(← readOperand o))
  | .inc => modify o Tryte.inc
  | .dec => modify o Tryte.dec
  | .cmp => compare .accumulator o
  | .cpx => compare .indexX o
  | .cpy => compare .indexY o
  | .nti => modify o (Tryte.map Trit.nti)
  | .sti => modify o (Tryte.map Trit.negate)
  | .pti => modify o (Tryte.map Trit.pti)
  | .fd => modify o (Tryte.map Trit.forwardDiode)
  | .rd => modify o (Tryte.map Trit.reverseDiode)
  | .ora => combine o Tryte.tor
  | .and => combine o Tryte.tand
  | .but => combine o Tryte.but
  | .eor => combine o Tryte.exclusiveMax
  | .shl => shiftUp o
  | .shr => shiftDown o
  | .dnop => return .debugNop
  return .proceed

def halt (code : Trit) : Action Flow := do
  setFlag .haltCode code
  setFlag .direction .zero
  return .next

def andNext (x : Action Unit) : Action Flow := do
  x
  return .next

def pushRegister (f : Registers → Tryte) : Action Flow := andNext do
  onStack (Stack.push (← ask f))

def pullInto (o : Operand) : Action Flow := andNext do
  let v ← onStack Stack.pull
  modify o fun _ => v

def transfer (source target : Operand) : Action Flow := andNext do
  let v ← readOperand source
  modify target fun _ => v

def storeZero (mode : AddressMode) (value : Int) : Action Flow := andNext do
  writeOperand (← resolve mode value) Tryte.zero

/-- Splits the stack pointer into the index registers. -/
def splitPointer : Action Flow := andNext do
  let pointer ← ask Registers.stackPointer
  let _ ← inRange (Digits.Bounded.split? pointer)
  update fun r =>
    { r with indexX := Tryte.ofDigits pointer 0, indexY := Tryte.ofDigits pointer 5 }

/-- Pushes the address of the last tryte of a call and jumps. -/
def enterSubroutine (target last : Int) : Action Flow := do
  let site ← inRange (Word.ofInt? last)
  onStack (Stack.pushWord site)
  return .jump target

/-- Jumps to the tryte after the pulled address, in run direction. -/
def leaveSubroutine : Action Flow := do
  let site ← onStack Stack.pullWord
  let step ← ask fun r => r.direction.toInt
  return .jump (← inRange (Signed32.add? site.val step))

/-- Performs an extended operation; `value` is its operand and `last` the address of its last
tryte. -/
def performExtended (op : ExtendedOp) (value last : Int) : Action Flow :=
  match op.alu? with
  | some alu => andNext do
    let o ← resolve (op.mode?.getD .accumulator) value
    let _ ← performAlu alu o
  | none =>
    match op with
    | .haltN => halt .minus
    | .haltZ => halt .zero
    | .haltP => halt .plus
    | .stz | .stzX | .stzY | .stzIndY | .stzXInd =>
      storeZero (op.mode?.getD .accumulator) value
    | .clc => andNext (setFlag .carry .zero)
    | .secp => andNext (setFlag .carry .plus)
    | .secn => andNext (setFlag .carry .minus)
    | .clv => andNext (setFlag .overflow .zero)
    | .cli => andNext (setFlag .mask .zero)
    | .sein => andNext (setFlag .mask .minus)
    | .seip => andNext (setFlag .mask .plus)
    | .cld => andNext (setFlag .data .zero)
    | .sedp => andNext (setFlag .data .plus)
    | .sedn => andNext (setFlag .data .minus)
    | .intN => pure (.interrupt .minus)
    | .intZ => pure (.interrupt .zero)
    | .intP => pure (.interrupt .plus)
    | .nop => pure .next
    | .tax => transfer .accumulator .indexX
    | .tay => transfer .accumulator .indexY
    | .txa => transfer .indexX .accumulator
    | .tya => transfer .indexY .accumulator
    | .inx => andNext (modify .indexX Tryte.inc)
    | .iny => andNext (modify .indexY Tryte.inc)
    | .dex => andNext (modify .indexX Tryte.dec)
    | .dey => andNext (modify .indexY Tryte.dec)
    | .txys => andNext (update fun r => { r with stackPointer := r.pointerWord.val })
    | .tsxy => splitPointer
    | .pha => pushRegister Registers.accumulator
    | .phx => pushRegister Registers.indexX
    | .phy => pushRegister Registers.indexY
    | .php => andNext do
      let packed ← inRange (← ask fun r => r.flags.toWord?)
      onStack (Stack.pushWord packed)
    | .pla => pullInto .accumulator
    | .plx => pullInto .indexX
    | .ply => pullInto .indexY
    | .plp => andNext do
      let packed ← onStack Stack.pullWord
      update fun r => { r with flags := Flags.ofWord packed }
    | .jsr => enterSubroutine value last
    | .jmp => pure (.jump value)
    | .jmpInd => do return .jump (← onStore (Store.readWord value)).val
    | .rts => leaveSubroutine
    | .ldaIndY | .ldaX | .ldaY | .ldaXInd | .staIndY | .staX | .staY | .staXInd | .cmpIndY
    | .cmpX | .cmpY | .ldxY | .ldyX | .stxY | .styX => pure .next

/-- Performs a branch: if the flag passes, execution continues `value` trytes after the branch. -/
def performBranch (flag : Flag) (comparison : Comparison) (digit : Trit) (value last : Int) :
    Action Flow := do
  if comparison.holds (← ask fun r => r.flags.get flag) digit then
    let after ← inRange (Signed32.add? last (← ask fun r => r.direction.toInt))
    return .jump (← inRange (Signed32.add? after value))
  else return .next

def perform (i : Instruction) (value last : Int) : Action Flow :=
  match i with
  | .alu op mode => do
    let o ← resolve mode value
    match ← performAlu op o with
    | .proceed => return .next
    | .debugNop => return .debugNop
  | .branch flag comparison digit => performBranch flag comparison digit value last
  | .extended op => performExtended op value last

/-- The cell `k` steps ahead of the program counter, in run direction. -/
def fetchAhead (k : Nat) : Action Tryte := do
  onStore (Store.read (← inRange (← ask fun r => r.ahead? k)))

/-- Reads the instruction at the program counter: the instruction, its operand and the address of
its last tryte. -/
def fetch : Action (Instruction × Int × Int) := do
  let pc ← ask Registers.pc
  match Instruction.decode (← onStore (Store.read pc)) with
  | .error cause => throw (.decode pc cause)
  | .ok i =>
    let value ← Instruction.fetchOperand i.mode fetchAhead
    let last ← inRange (← ask fun r => r.ahead? i.operandSize)
    return (i, value, last)

end Core

end TernaryMachine
