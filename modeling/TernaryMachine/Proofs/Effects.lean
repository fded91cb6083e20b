import TernaryMachine.Proofs.Places

/-!
What each instruction may change, as tables: the places it writes, the trytes that it pulls and
pushes, what it does to the flags, and what it leaves when it fails. Performing an instruction
without peripherals keeps to the tables, in every addressing mode and in either run direction.
-/

set_option autoImplicit false
set_option relaxedAutoImplicit false

namespace TernaryMachine

inductive FlagEffect where
  | unchanged
  /-- Sign and lowest digit of what is written. -/
  | result
  /-- The result, and the digit carried out of a sum in carry and overflow; the operand counts with
  a factor of one or minus one. -/
  | sum (factor : Int)
  /-- The result, and the top digit of the old value in the carry. -/
  | shiftUp
  /-- The result, and the lowest digit of the old value in the data flag. -/
  | shiftDown
  /-- Sign of the difference between a register and the operand, lowest digit of the tryte to which
  the difference wraps. -/
  | difference (register : Operand)
  | single (f : Flag) (t : Trit)
  | halted (code : Trit)
  | pulled

namespace AluOp

def target? (op : AluOp) (o : Operand) : Option Operand :=
  match op with
  | .lda | .adc | .sbc | .ora | .and | .but | .eor => some .accumulator
  | .ldx => some .indexX
  | .ldy => some .indexY
  | .sta | .stx | .sty | .inc | .dec | .nti | .sti | .pti | .fd | .rd | .shl | .shr => some o
  | .cmp | .cpx | .cpy | .dnop => none

def flagEffect : AluOp → FlagEffect
  | .lda | .ldx | .ldy | .inc | .dec | .nti | .sti | .pti | .fd | .rd | .ora | .and | .but
  | .eor => .result
  | .adc => .sum 1
  | .sbc => .sum (-1)
  | .shl => .shiftUp
  | .shr => .shiftDown
  | .cmp => .difference .accumulator
  | .cpx => .difference .indexX
  | .cpy => .difference .indexY
  | .sta | .stx | .sty | .dnop => .unchanged

end AluOp

namespace Instruction

/-- The arithmetic operation that an instruction performs, be it in a further mode. -/
def alu? : Instruction → Option AluOp
  | .alu op _ => some op
  | .branch .. => none
  | .extended op => op.alu?

def pulled : Instruction → Nat
  | .extended .pla | .extended .plx | .extended .ply => 1
  | .extended .plp | .extended .rts => 2
  | _ => 0

def pushed : Instruction → Nat
  | .extended .pha | .extended .phx | .extended .phy => 1
  | .extended .php | .extended .jsr => 2
  | _ => 0

def targets (i : Instruction) (c : Core) : List Operand :=
  match i.alu? with
  | some op => ((c.place? i).bind op.target?).toList
  | none => match i with
    | .extended .stz | .extended .stzX | .extended .stzY | .extended .stzIndY
    | .extended .stzXInd => (c.place? i).toList
    | .extended .tax | .extended .inx | .extended .dex | .extended .plx => [.indexX]
    | .extended .tay | .extended .iny | .extended .dey | .extended .ply => [.indexY]
    | .extended .txa | .extended .tya | .extended .pla => [.accumulator]
    | .extended .tsxy => [.indexX, .indexY]
    | .extended .pha | .extended .phx | .extended .phy => [.address c.registers.stackPointer]
    | .extended .php | .extended .jsr =>
      [.address c.registers.stackPointer, .address (c.registers.stackPointer + 1)]
    | _ => []

def pointerAfter (i : Instruction) (c : Core) : Int :=
  match i with
  | .extended .txys => c.registers.pointerWord.val
  | .extended .pha | .extended .phx | .extended .phy => c.registers.stackPointer + 1
  | .extended .php | .extended .jsr => c.registers.stackPointer + 2
  | .extended .pla | .extended .plx | .extended .ply => c.registers.stackPointer - 1
  | .extended .plp | .extended .rts => c.registers.stackPointer - 2
  | _ => c.registers.stackPointer

def flagEffect (i : Instruction) : FlagEffect :=
  match i.alu? with
  | some op => op.flagEffect
  | none => match i with
    | .extended .tax | .extended .tay | .extended .txa | .extended .tya | .extended .inx
    | .extended .iny | .extended .dex | .extended .dey | .extended .pla | .extended .plx
    | .extended .ply => .result
    | .extended .haltN => .halted .minus
    | .extended .haltZ => .halted .zero
    | .extended .haltP => .halted .plus
    | .extended .clc => .single .carry .zero
    | .extended .secp => .single .carry .plus
    | .extended .secn => .single .carry .minus
    | .extended .clv => .single .overflow .zero
    | .extended .cli => .single .mask .zero
    | .extended .sein => .single .mask .minus
    | .extended .seip => .single .mask .plus
    | .extended .cld => .single .data .zero
    | .extended .sedp => .single .data .plus
    | .extended .sedn => .single .data .minus
    | .extended .plp => .pulled
    | _ => .unchanged

/-- The word that an instruction pushes, the flags or the address of its own last tryte. -/
def pushedWord? (i : Instruction) (c : Core) : Option Word :=
  match i with
  | .extended .php => c.registers.flags.toWord?
  | .extended .jsr =>
    Word.ofInt? (c.registers.pc + i.operandSize * c.registers.direction.toInt)
  | _ => none

def interrupt? : Instruction → Option Trit
  | .extended .intN => some .minus
  | .extended .intZ => some .zero
  | .extended .intP => some .plus
  | _ => none

/-- Whether execution continues elsewhere: a branch whose flag passes, a jump, a call, a return. -/
def leaves (i : Instruction) (c : Core) : Bool :=
  match i with
  | .branch f comparison digit => comparison.holds (c.registers.flags.get f) digit
  | _ => i.isJump

theorem pointerAfter_eq {i : Instruction} (h : i ≠ .extended .txys) (c : Core) :
    i.pointerAfter c = c.registers.stackPointer + i.pushed - i.pulled := by
  cases i with
  | alu | branch => exact (Int.sub_zero _).trans (Int.add_zero _) |>.symm
  | extended op =>
    cases op with
    | txys => exact absurd rfl h
    | _ =>
      simp only [pointerAfter, pushed, pulled]
      omega

theorem pulled_of_operand {i : Instruction} (h : 0 < i.operandSize) : i.pulled = 0 := by
  cases i with
  | alu | branch => rfl
  | extended op => cases op <;> first | rfl | exact absurd h (Nat.lt_irrefl 0)

theorem pushed_of_pushedWord? {i : Instruction} {c : Core} {w : Word}
    (h : i.pushedWord? c = some w) : i.pushed = 2 := by
  cases i with
  | alu | branch => cases h
  | extended op => cases op <;> first | rfl | cases h

section Requests

variable {i : Instruction} {number : Trit}

theorem pulled_of_interrupt? (h : i.interrupt? = some number) : i.pulled = 0 := by
  cases i with
  | alu | branch => cases h
  | extended op => cases op <;> first | rfl | cases h

theorem flagEffect_of_interrupt? (h : i.interrupt? = some number) : i.flagEffect = .unchanged := by
  cases i with
  | alu | branch => cases h
  | extended op => cases op <;> first | rfl | cases h

theorem eq_intZ_of_interrupt? (h : i.interrupt? = some .zero) : i = .extended .intZ := by
  cases i with
  | alu | branch => cases h
  | extended op => cases op <;> first | rfl | cases h

end Requests

theorem stackless_of_alu? {i : Instruction} {op : AluOp} (h : i.alu? = some op) :
    i.pulled = 0 ∧ i.pushed = 0 ∧ ∀ c, i.pointerAfter c = c.registers.stackPointer := by
  cases i with
  | alu op mode => exact ⟨rfl, rfl, fun _ => rfl⟩
  | branch flag comparison digit => cases h
  | extended op => cases op <;> first | exact ⟨rfl, rfl, fun _ => rfl⟩ | cases h

theorem cell_of_targets {i : Instruction} {c : Core} {a : Int} (h : .address a ∈ i.targets c) :
    (i.pushed = 0 ∧ c.place? i = some (.address a))
      ∨ ∃ k : Nat, k < i.pushed ∧ a = c.registers.stackPointer + k := by
  cases arithmetic : i.alu? with
  | some op =>
    simp only [targets, arithmetic] at h
    obtain ⟨o, found, target⟩ := Option.bind_eq_some_iff.mp (Option.mem_toList.mp h)
    have here : o = .address a := by
      cases op <;> simp_all [AluOp.target?]
    rw [here] at found
    exact .inl ⟨(stackless_of_alu? arithmetic).2.1, found⟩
  | none =>
    cases i with
    | alu op mode => cases arithmetic
    | branch flag comparison digit => exact absurd h List.not_mem_nil
    | extended op =>
      cases op with
      | stz | stzX | stzY | stzIndY | stzXInd => exact .inl ⟨rfl, Option.mem_toList.mp h⟩
      | pha | phx | phy =>
        have top : .address a = Operand.address c.registers.stackPointer := List.mem_singleton.mp h
        exact .inr ⟨0, Nat.one_pos, (Operand.address.inj top).trans (Int.add_zero _).symm⟩
      | php | jsr =>
        have cells : a = c.registers.stackPointer ∨ a = c.registers.stackPointer + 1 := by
          simpa [targets, alu?, ExtendedOp.alu?, ExtendedOp.row] using h
        rcases cells with rfl | rfl
        · exact .inr ⟨0, Nat.two_pos, (Int.add_zero _).symm⟩
        · exact .inr ⟨1, Nat.one_lt_two, rfl⟩
      | _ => simp_all [targets, alu?, ExtendedOp.alu?, ExtendedOp.row]

end Instruction

/-- What the flags show of an effect, between registers and store before and after an instruction
that writes the given places and finds its operand at the given one. -/
def FlagEffect.Shown (effect : FlagEffect) (targets : List Operand) (place? : Option Operand)
    (c d : Core) : Prop :=
  let Changes := Flags.Changes c.registers.flags d.registers.flags
  match effect with
  | .unchanged => d.registers.flags = c.registers.flags
  | .result => ∃ p v, targets = [p] ∧ d.valueAt? p = some v
    ∧ Changes [(.lowest, v.lowest), (.sign, v.sign)]
  | .sum factor => ∃ o b carry, place? = some o ∧ c.valueAt? o = some b
    ∧ d.registers.accumulator.val + 243 * Trit.toInt carry
      = c.registers.accumulator.val + factor * b.val + (c.registers.flags.get .carry).toInt
    ∧ Changes [(.lowest, d.registers.accumulator.lowest), (.sign, d.registers.accumulator.sign),
      (.overflow, carry), (.carry, carry)]
  | .shiftUp => ∃ p old new, targets = [p] ∧ c.valueAt? p = some old ∧ d.valueAt? p = some new
    ∧ Changes [(.lowest, new.lowest), (.sign, new.sign), (.carry, old.trit 4)]
  | .shiftDown => ∃ p old new, targets = [p] ∧ c.valueAt? p = some old ∧ d.valueAt? p = some new
    ∧ Changes [(.lowest, new.lowest), (.sign, new.sign), (.data, old.trit 0)]
  | .difference register => ∃ o a b wrapped carry, place? = some o
    ∧ c.valueAt? register = some a ∧ c.valueAt? o = some b
    ∧ Tryte.val wrapped + 243 * Trit.toInt carry = a.val - b.val
    ∧ Changes [(.lowest, wrapped.lowest), (.sign, Trit.ofSign (a.val - b.val))]
  | .single f t => Changes [(f, t)]
  | .halted code => Changes [(.direction, .zero), (.haltCode, code)]
  | .pulled => ∃ low high, c.store.get? (c.registers.stackPointer - 2) = some low
    ∧ c.store.get? (c.registers.stackPointer - 1) = some high
    ∧ ∀ f, d.registers.flags.get f = Digits.trit (Word.ofHalves low high).val f.index

namespace Core

/-- Nothing but the given places, the stack pointer and the flags has changed. -/
structure Confined (c : Core) (targets : List Operand) (pointer : Int) (d : Core) : Prop where
  frame : ∀ p, p ∉ targets → d.valueAt? p = c.valueAt? p
  pc : d.registers.pc = c.registers.pc
  pointer : d.registers.stackPointer = pointer
  maps : d.store.maps = c.store.maps

namespace Confined

variable {c d e : Core} {targets : List Operand} {pointer : Int}

theorem refl (c : Core) : Confined c [] c.registers.stackPointer c :=
  ⟨fun _ _ => rfl, rfl, rfl, rfl⟩

theorem assign (c : Core) (p : Operand) (v : Tryte) :
    Confined c [p] c.registers.stackPointer (c.assign p v) where
  frame _ outside := valueAt?_assign_of_ne v (List.ne_of_not_mem_cons outside)
  pc := pc_assign c p v
  pointer := pointer_assign c p v
  maps := maps_assign c p v

theorem withFlags (h : Confined c targets pointer d) (s : Flags) :
    Confined c targets pointer (d.withFlags s) where
  frame p outside := (valueAt?_withFlags d p s).trans (h.frame p outside)
  pc := h.pc
  pointer := h.pointer
  maps := h.maps

theorem withPointer (h : Confined c targets pointer d) (a : Int) :
    Confined c targets a (d.withPointer a) where
  frame p outside := (valueAt?_withPointer d p a).trans (h.frame p outside)
  pc := h.pc
  pointer := rfl
  maps := h.maps

theorem trans {further : List Operand} {last : Int} (h : Confined c targets pointer d)
    (h' : Confined d further last e) : Confined c (targets ++ further) last e where
  frame p outside := by
    rw [List.mem_append, not_or] at outside
    exact (h'.frame p outside.2).trans (h.frame p outside.1)
  pc := h'.pc.trans h.pc
  pointer := h'.pointer
  maps := h'.maps.trans h.maps

theorem push (c : Core) (v : Tryte) :
    Confined c [.address c.registers.stackPointer] (c.registers.stackPointer + 1) (c.push v) :=
  (assign c (.address c.registers.stackPointer) v).withPointer _

theorem pushWord (c : Core) (w : Word) :
    Confined c [.address c.registers.stackPointer, .address (c.registers.stackPointer + 1)]
      (c.registers.stackPointer + 2) ((c.push w.low).push w.high) := by
  have both := (push c w.low).trans (push (c.push w.low) w.high)
  rw [pointer_push, Int.add_assoc] at both
  exact both

end Confined

variable {c d : Core}

theorem shown_result (place? : Option Operand) {p : Operand} (writable : c.Writable p) (v : Tryte) :
    FlagEffect.result.Shown [p] place? c ((c.assign p v).record v) := by
  refine ⟨p, v, rfl, ?_, ?_⟩
  · rw [record, valueAt?_withFlags]
    exact valueAt?_assign_self v writable
  · rw [record, flags_withFlags, flags_assign]
    exact (Flags.Changes.refl _).recordResult v

theorem meets_addWithCarry {o : Operand} {b addend : Tryte} (value : c.valueAt? o = some b)
    {factor : Int} (counts : addend.val = factor * b.val) :
    Meets (fun _ d => Confined c [.accumulator] c.registers.stackPointer d
      ∧ (FlagEffect.sum factor).Shown [.accumulator] (some o) c d) (Untouched c)
      (addWithCarry addend c) := by
  let sum := Tryte.add c.registers.accumulator addend (c.registers.flags.get .carry)
  have full : sum.full = c.registers.accumulator.val + factor * b.val
      + (c.registers.flags.get .carry).toInt := by
    rw [← counts]
    exact Tryte.full_add _ _ _
  change Meets _ _ (.ok () ((c.assign .accumulator sum.result).withFlags
    (((c.registers.flags.set .carry sum.carry).set .overflow sum.overflow).recordResult
      sum.result)))
  refine ⟨(Confined.assign c .accumulator sum.result).withFlags _, ?_⟩
  exact ⟨o, b, sum.carry, rfl, value, full,
    (((Flags.Changes.refl _).set .carry _).set .overflow _).recordResult sum.result⟩

structure Computed (op : AluOp) (o : Operand) (c : Core) (effect : AluEffect) (d : Core) :
    Prop where
  confined : Confined c (op.target? o).toList c.registers.stackPointer d
  flags : op.flagEffect.Shown (op.target? o).toList (some o) c d
  still : effect = .debugNop → d = c

section Unmapped

variable (unmapped : c.store.maps = [])
include unmapped

theorem meets_performAlu (op : AluOp) (o : Operand) :
    Meets (Computed op o c) (Untouched c) (performAlu op o c) := by
  have proceed {x : Action Unit} (h : Meets (fun _ d => Computed op o c .proceed d)
      (Untouched c) (x c)) : Meets (Computed op o c) (Untouched c)
        ((x >>= fun _ => pure AluEffect.proceed : Action AluEffect) c) :=
    h.bind fun _ _ computed => computed
  cases op with
  | lda | ldx | ldy =>
    refine proceed ((meets_load unmapped _ o).weaken ?_)
    rintro _ _ ⟨v, -, writable, rfl⟩
    exact ⟨(Confined.assign c _ v).withFlags _, shown_result _ writable v, nofun⟩
  | sta | stx | sty =>
    refine proceed ((meets_save unmapped _ o).weaken ?_)
    rintro _ _ ⟨v, -, -, rfl⟩
    exact ⟨Confined.assign c o v, flags_assign c o v, nofun⟩
  | inc | dec | nti | sti | pti | fd | rd =>
    refine proceed ((meets_modify unmapped o _).weaken ?_)
    rintro _ _ ⟨v, -, writable, rfl⟩
    exact ⟨(Confined.assign c o _).withFlags _, shown_result _ writable _, nofun⟩
  | ora | and | but | eor =>
    refine proceed ((meets_combine unmapped o _).weaken ?_)
    rintro _ _ ⟨v, rfl⟩
    exact ⟨(Confined.assign c .accumulator v).withFlags _,
      shown_result (p := .accumulator) _ trivial v, nofun⟩
  | adc =>
    refine (meets_readOperand unmapped o).bind ?_
    rintro b d ⟨same, value⟩
    rw [same]
    refine proceed ((meets_addWithCarry value (Int.one_mul b.val).symm).weaken ?_)
    rintro _ _ ⟨confined, shown⟩
    exact ⟨confined, shown, nofun⟩
  | sbc =>
    refine (meets_readOperand unmapped o).bind ?_
    rintro b d ⟨same, value⟩
    rw [same]
    have negated : (-b).val = -1 * b.val := (Int.neg_one_mul b.val).symm
    refine proceed ((meets_addWithCarry value negated).weaken ?_)
    rintro _ _ ⟨confined, shown⟩
    exact ⟨confined, shown, nofun⟩
  | cmp | cpx | cpy =>
    refine proceed ((meets_compare unmapped _ o).weaken ?_)
    rintro _ _ ⟨a, b, first, second, rfl⟩
    refine ⟨(Confined.refl c).withFlags _, ?_, nofun⟩
    have full : _ = a.val + -b.val + 0 := Tryte.full_add a (-b) .zero
    refine ⟨o, a, b, (Tryte.add a (-b) .zero).result, (Tryte.add a (-b) .zero).carry, rfl, first,
      second, ?_, ((Flags.Changes.refl _).set .sign _).set .lowest _⟩
    rw [Tryte.Sum.full] at full
    omega
  | shl =>
    refine proceed ((meets_shiftUp unmapped o).weaken ?_)
    rintro _ _ ⟨old, new, value, writable, rfl⟩
    refine ⟨((Confined.assign c o new).withFlags _).withFlags _, ?_, nofun⟩
    exact ⟨o, old, new, rfl, value, by simp [record, valueAt?_assign_self new writable],
      ((Flags.Changes.refl _).set .carry _).recordResult new⟩
  | shr =>
    refine proceed ((meets_shiftDown unmapped o).weaken ?_)
    rintro _ _ ⟨old, new, value, writable, rfl⟩
    refine ⟨((Confined.assign c o new).withFlags _).withFlags _, ?_, nofun⟩
    exact ⟨o, old, new, rfl, value, by simp [record, valueAt?_assign_self new writable],
      ((Flags.Changes.refl _).set .data _).recordResult new⟩
  | dnop => exact ⟨Confined.refl c, rfl, fun _ => rfl⟩

end Unmapped

theorem meets_andNext {x : Action Unit} {P : Core → Prop} {F : MachineError → Core → Prop}
    (h : Meets (fun _ d => P d) F (x c)) :
    Meets (fun flow d => flow = .next ∧ P d) F (andNext x c) :=
  h.bind fun _ _ met => ⟨rfl, met⟩

theorem meets_splitPointer : Meets (fun flow d => flow = .next
      ∧ d = (c.assign .indexX (Tryte.ofDigits c.registers.stackPointer 0)).assign .indexY
        (Tryte.ofDigits c.registers.stackPointer 5)) (Untouched c) (splitPointer c) := by
  refine meets_andNext (Meets.bind (Meets.ask _ _) ?_)
  rintro p d ⟨same, pointer⟩
  rw [same, pointer]
  refine (meets_inRange _).bind ?_
  rintro _ d ⟨same, -⟩
  rw [same]
  exact rfl

section Unmapped

variable (unmapped : c.store.maps = [])
include unmapped

theorem meets_storeZero (mode : AddressMode) (value : Int) :
    Meets (fun flow d => flow = .next ∧ ∃ o, c.operand? mode value = some o
      ∧ d = c.assign o Tryte.zero) (Untouched c) (storeZero mode value c) := by
  refine meets_andNext ((meets_resolve unmapped mode value).bind ?_)
  rintro o d ⟨same, found⟩
  rw [same]
  refine (meets_writeOperand unmapped o Tryte.zero).weaken ?_
  rintro _ d ⟨-, written⟩
  exact ⟨o, found, written⟩

theorem meets_transfer (source target : Operand) :
    Meets (fun flow d => flow = .next ∧ ∃ v, c.Writable target
      ∧ d = (c.assign target v).record v) (Untouched c) (transfer source target c) := by
  refine meets_andNext ((meets_readOperand unmapped source).bind ?_)
  rintro v d ⟨same, -⟩
  rw [same]
  refine (meets_modify unmapped target _).weaken ?_
  rintro _ d ⟨_, -, writable, written⟩
  exact ⟨v, writable, written⟩

theorem meets_pushRegister (f : Registers → Tryte) :
    Meets (fun flow d => flow = .next ∧ d = c.push (f c.registers)) (Untouched c)
      (pushRegister f c) := by
  refine meets_andNext (Meets.bind (Meets.ask _ _) ?_)
  rintro v d ⟨same, value⟩
  rw [same, value]
  exact (meets_push unmapped _).imp (fun _ _ h => h.2) fun _ _ h => h.2

theorem meets_enterSubroutine (target last : Int) :
    Meets (fun flow d => flow = .jump target ∧ ∃ site, Word.ofInt? last = some site
        ∧ d = (c.push site.low).push site.high)
      (fun _ d => d = c ∨ ∃ site, Word.ofInt? last = some site
        ∧ c.store.Contains c.registers.stackPointer
        ∧ ¬ c.store.Contains (c.registers.stackPointer + 1) ∧ d = c.push site.low)
      (enterSubroutine target last c) := by
  refine ((meets_inRange (Word.ofInt? last)).imp_failed fun _ _ h => .inl h).bind ?_
  rintro site d ⟨same, found⟩
  rw [same]
  refine Meets.bind ((meets_pushWord unmapped site).imp_failed ?_) ?_
  · rintro _ d (whole | half)
    · exact .inl whole
    · exact .inr ⟨site, found, half⟩
  · intro _ d pushed
    exact ⟨rfl, site, found, pushed⟩

theorem meets_leaveSubroutine :
    Meets (fun flow d => ∃ low high, c.store.get? (c.registers.stackPointer - 1) = some high
        ∧ c.store.get? (c.registers.stackPointer - 2) = some low
        ∧ flow = .jump ((Word.ofHalves low high).val + c.registers.direction.toInt)
        ∧ d = c.withPointer (c.registers.stackPointer - 2))
      (fun e d => (e = .rangeFault ∧ d = c)
        ∨ (¬ c.store.Contains (c.registers.stackPointer - 1)
          ∧ d = c.withPointer (c.registers.stackPointer - 1))
        ∨ c.store.Contains (c.registers.stackPointer - 1)
          ∧ ¬ c.store.Contains (c.registers.stackPointer - 2)
          ∧ d = c.withPointer (c.registers.stackPointer - 2)) (leaveSubroutine c) := by
  refine (meets_pullWord unmapped).bind ?_
  rintro site _ ⟨low, high, first, second, rfl, rfl⟩
  -- a word is a step away from the limits of 32 bits
  have target : Signed32.add? (Word.ofHalves low high).val c.registers.direction.toInt
      = some ((Word.ofHalves low high).val + c.registers.direction.toInt) := by
    have := (Word.ofHalves low high).lower
    have := (Word.ofHalves low high).upper
    have := c.registers.direction.neg_one_le_toInt
    have := c.registers.direction.toInt_le_one
    exact add?_of_near (by omega) (by omega)
  refine Meets.bind (Meets.ask _ _) ?_
  rintro step d ⟨same, asked⟩
  have direction : step = c.registers.direction.toInt := asked
  rw [same, direction, target]
  exact ⟨low, high, first, second, rfl, rfl⟩

end Unmapped

/-- What a failing instruction leaves of registers and store. A pull that fails has moved the
pointer, unless the pointer has no room to move; the first tryte of a word stays on the stack when
there is no cell for the second. -/
inductive Residue (c : Core) (i : Instruction) : MachineError → Core → Prop
  | whole {e : MachineError} (bare : i.pulled = 0 ∨ e = .rangeFault) : Residue c i e c
  | pulling {e : MachineError} (k : Nat) (positive : 0 < k) (within : k ≤ i.pulled)
    (above : ∀ j, 0 < j → j < k → c.store.Contains (c.registers.stackPointer - j))
    (outside : ¬ c.store.Contains (c.registers.stackPointer - k)) :
    Residue c i e (c.withPointer (c.registers.stackPointer - k))
  | pushing {e : MachineError} (w : Word) (pushed : i.pushedWord? c = some w)
    (first : c.store.Contains c.registers.stackPointer)
    (second : ¬ c.store.Contains (c.registers.stackPointer + 1)) : Residue c i e (c.push w.low)

/-- What an instruction that is performed does, and how execution may continue. -/
structure Performed (i : Instruction) (c : Core) (flow : Flow) (d : Core) : Prop where
  confined : Confined c (i.targets c) (i.pointerAfter c) d
  flags : i.flagEffect.Shown (i.targets c) (c.place? i) c d
  jump : ∀ target, flow = .jump target → i.leaves c = true
  debugNop : flow = .debugNop → d = c ∧ i.pulled = 0
  interrupt : ∀ number, flow = .interrupt number → d = c ∧ i.interrupt? = some number

namespace Performed

variable {i : Instruction}

theorem next (confined : Confined c (i.targets c) (i.pointerAfter c) d)
    (flags : i.flagEffect.Shown (i.targets c) (c.place? i) c d) : Performed i c .next d where
  confined := confined
  flags := flags
  jump _ other := nomatch other
  debugNop other := nomatch other
  interrupt _ other := nomatch other

theorem jumped {target : Int} (leaves : i.leaves c = true)
    (confined : Confined c (i.targets c) (i.pointerAfter c) d)
    (flags : i.flagEffect.Shown (i.targets c) (c.place? i) c d) :
    Performed i c (.jump target) d where
  confined := confined
  flags := flags
  jump _ _ := leaves
  debugNop other := nomatch other
  interrupt _ other := nomatch other

end Performed

theorem performed_andNext {i : Instruction} {x : Action Unit} {F : MachineError → Core → Prop}
    (h : Meets (fun _ d => Confined c (i.targets c) (i.pointerAfter c) d
      ∧ i.flagEffect.Shown (i.targets c) (c.place? i) c d) F (x c))
    (failed : ∀ e d, F e d → Residue c i e d) :
    Meets (Performed i c) (Residue c i) (andNext x c) := by
  refine (meets_andNext h).imp ?_ failed
  rintro _ d ⟨rfl, confined, shown⟩
  exact .next confined shown

theorem Computed.performed {i : Instruction} {op : AluOp} {o : Operand} {effect : AluEffect}
    (h : Computed op o c effect d) (known : i.alu? = some op) (found : c.place? i = some o) :
    Confined c (i.targets c) (i.pointerAfter c) d
      ∧ i.flagEffect.Shown (i.targets c) (c.place? i) c d := by
  have targets : i.targets c = (op.target? o).toList := by
    simp only [Instruction.targets, known, found, Option.bind_some]
  have flagEffect : i.flagEffect = op.flagEffect := by
    simp only [Instruction.flagEffect, known]
  rw [targets, flagEffect, found, (Instruction.stackless_of_alu? known).2.2]
  exact ⟨h.confined, h.flags⟩

theorem Residue.of_untouched {i : Instruction} (bare : i.pulled = 0) (e : MachineError) (d : Core)
    (h : Untouched c e d) : Residue c i e d := by
  rw [h]
  exact .whole (.inl bare)

theorem Residue.of_pull {i : Instruction} {e : MachineError} (pulls : 1 ≤ i.pulled)
    (h : (e = .rangeFault ∧ Signed32.add? c.registers.stackPointer (-1) = none ∧ d = c)
      ∨ ¬ c.store.Contains (c.registers.stackPointer - 1)
        ∧ d = c.withPointer (c.registers.stackPointer - 1)) : Residue c i e d := by
  rcases h with ⟨fault, -, rfl⟩ | ⟨outside, rfl⟩
  · exact .whole (.inr fault)
  · exact .pulling 1 Nat.one_pos pulls (fun j _ _ => by omega) outside

theorem Residue.of_pullWord {i : Instruction} {e : MachineError} (pulls : 2 ≤ i.pulled)
    (h : (e = .rangeFault ∧ d = c)
      ∨ (¬ c.store.Contains (c.registers.stackPointer - 1)
        ∧ d = c.withPointer (c.registers.stackPointer - 1))
      ∨ c.store.Contains (c.registers.stackPointer - 1)
        ∧ ¬ c.store.Contains (c.registers.stackPointer - 2)
        ∧ d = c.withPointer (c.registers.stackPointer - 2)) : Residue c i e d := by
  rcases h with ⟨fault, rfl⟩ | ⟨outside, rfl⟩ | ⟨inside, outside, rfl⟩
  · exact .whole (.inr fault)
  · exact .pulling 1 Nat.one_pos (by omega) (fun j _ _ => by omega) outside
  · refine .pulling 2 Nat.two_pos pulls (fun j positive below => ?_) outside
    have one : j = 1 := by omega
    rw [one]
    exact inside

theorem Residue.of_pushWord {i : Instruction} {e : MachineError} {w : Word}
    (pushed : i.pushedWord? c = some w) (bare : i.pulled = 0)
    (h : d = c ∨ c.store.Contains c.registers.stackPointer
      ∧ ¬ c.store.Contains (c.registers.stackPointer + 1) ∧ d = c.push w.low) :
    Residue c i e d := by
  rcases h with rfl | ⟨first, second, rfl⟩
  · exact .whole (.inl bare)
  · exact .pushing w pushed first second

theorem meets_performBranch (flag : Flag) (comparison : Comparison) (digit : Trit)
    (value last : Int) :
    Meets (Performed (.branch flag comparison digit) c) (Residue c (.branch flag comparison digit))
      (performBranch flag comparison digit value last c) := by
  refine Meets.bind (Meets.ask _ _) ?_
  rintro t d ⟨same, read⟩
  rw [same, read]
  split
  · rename_i passes
    refine Meets.bind (Meets.ask _ _) ?_
    rintro step d ⟨same, -⟩
    rw [same]
    refine ((meets_inRange _).imp_failed (Residue.of_untouched rfl)).bind ?_
    rintro after d ⟨same, -⟩
    rw [same]
    refine ((meets_inRange _).imp_failed (Residue.of_untouched rfl)).bind ?_
    rintro target d ⟨same, -⟩
    rw [same]
    exact Performed.jumped passes (Confined.refl c) rfl
  · exact Performed.next (Confined.refl c) rfl

section Unmapped

variable (unmapped : c.store.maps = [])
include unmapped

theorem meets_performExtended {op : ExtendedOp} {value last : Int}
    (literal : c.literal? (.extended op) = some value)
    (ends : last = c.registers.pc
      + (Instruction.extended op).operandSize * c.registers.direction.toInt) :
    Meets (Performed (.extended op) c) (Residue c (.extended op))
      (performExtended op value last c) := by
  unfold performExtended
  cases further : op.alu? with
  | some alu =>
    have known : (Instruction.extended op).alu? = some alu := further
    have untouched := Residue.of_untouched (c := c) (Instruction.stackless_of_alu? known).1
    refine performed_andNext ((meets_resolve unmapped _ value).bind ?_) untouched
    rintro o d ⟨same, found⟩
    rw [same]
    refine (meets_performAlu unmapped alu o).bind ?_
    intro _ d computed
    exact computed.performed known (place?_of_literal literal found)
  | none =>
    cases op with
    | ldaIndY | ldaX | ldaY | ldaXInd | staIndY | staX | staY | staXInd | cmpIndY | cmpX | cmpY
    | ldxY | ldyX | stxY | styX => contradiction
    | haltN | haltZ | haltP =>
      exact Performed.next ((Confined.refl c).withFlags _)
        (((Flags.Changes.refl _).set .haltCode _).set .direction _)
    | stz | stzX | stzY | stzIndY | stzXInd =>
      refine (meets_storeZero unmapped _ value).imp ?_ (Residue.of_untouched rfl)
      rintro _ _ ⟨rfl, o, found, rfl⟩
      refine .next ?_ (flags_assign c o Tryte.zero)
      have targets := congrArg Option.toList (place?_of_literal literal found)
      have confined := Confined.assign c o Tryte.zero
      rw [← Option.toList_some, ← targets] at confined
      exact confined
    | clc | secp | secn | clv | cli | sein | seip | cld | sedp | sedn =>
      exact Performed.next ((Confined.refl c).withFlags _) ((Flags.Changes.refl _).set _ _)
    | intN | intZ | intP =>
      exact ⟨Confined.refl c, rfl, nofun, nofun, fun _ same => ⟨rfl, by cases same; rfl⟩⟩
    | nop => exact .next (Confined.refl c) rfl
    | tax | tay | txa | tya =>
      refine (meets_transfer unmapped _ _).imp ?_ (Residue.of_untouched rfl)
      rintro _ _ ⟨rfl, v, writable, rfl⟩
      exact .next ((Confined.assign c _ v).withFlags _) (shown_result _ writable v)
    | inx | iny | dex | dey =>
      refine performed_andNext ((meets_modify unmapped _ _).weaken ?_) (Residue.of_untouched rfl)
      rintro _ _ ⟨v, -, writable, rfl⟩
      exact ⟨(Confined.assign c _ _).withFlags _, shown_result _ writable _⟩
    | txys => exact .next ((Confined.refl c).withPointer _) rfl
    | tsxy =>
      refine meets_splitPointer.imp ?_ (Residue.of_untouched rfl)
      rintro _ _ ⟨rfl, rfl⟩
      have both := (Confined.assign c .indexX (Tryte.ofDigits c.registers.stackPointer 0)).trans
        (Confined.assign _ .indexY (Tryte.ofDigits c.registers.stackPointer 5))
      exact .next both rfl
    | pha | phx | phy =>
      refine (meets_pushRegister unmapped _).imp ?_ (Residue.of_untouched rfl)
      rintro _ _ ⟨rfl, rfl⟩
      exact .next (Confined.push c _) (flags_push c _)
    | php =>
      refine performed_andNext (F := Residue c (.extended .php))
        (Meets.bind (Meets.ask _ _) fun packed? d asked => ?_) fun _ _ h => h
      rw [asked.1]
      refine ((meets_inRange packed?).imp_failed (Residue.of_untouched rfl)).bind
        fun packed d found => ?_
      rw [found.1]
      have pushed := asked.2.symm.trans found.2
      refine (meets_pushWord unmapped packed).imp ?_ ?_
      · rintro _ _ rfl
        exact ⟨Confined.pushWord c packed, flags_pushWord c packed⟩
      · exact fun _ _ h => .of_pushWord pushed rfl h
    | pla | plx | ply =>
      refine performed_andNext ((meets_pull unmapped).bind fun v d pulled => ?_) ?_
      · rw [pulled.2]
        refine ⟨(((Confined.refl c).withPointer _).trans (Confined.assign _ _ v)).withFlags _, ?_⟩
        exact shown_result (c := c.withPointer _) none (by trivial) v
      · exact fun _ _ h => .of_pull (Nat.le_refl 1) h
    | plp =>
      refine performed_andNext ((meets_pullWord unmapped).bind fun w d pulled => ?_) ?_
      · obtain ⟨low, high, first, second, word, same⟩ := pulled
        rw [same]
        refine ⟨((Confined.refl c).withPointer _).withFlags (Flags.ofWord w), low, high, second,
          first, fun f => ?_⟩
        rw [← word]
        exact Flags.get_ofWord w f
      · exact fun _ _ h => .of_pullWord (Nat.le_refl 2) h
    | jsr =>
      refine (meets_enterSubroutine unmapped value last).imp ?_ ?_
      · rintro _ _ ⟨rfl, site, -, rfl⟩
        exact .jumped rfl (Confined.pushWord c site) (flags_pushWord c site)
      · rintro e d (whole | ⟨site, found, half⟩)
        · exact .of_untouched rfl e d whole
        · have pushed : (Instruction.extended .jsr).pushedWord? c = some site := by
            rw [← found, ends]
            rfl
          exact .of_pushWord pushed rfl (.inr half)
    | jmp => exact Performed.jumped rfl (Confined.refl c) rfl
    | jmpInd =>
      refine ((meets_readWord unmapped value).imp_failed (Residue.of_untouched rfl)).bind
        fun w d read => ?_
      rw [read.1]
      exact Performed.jumped rfl (Confined.refl c) rfl
    | rts =>
      refine (meets_leaveSubroutine unmapped).imp ?_ ?_
      · rintro _ _ ⟨low, high, -, -, rfl, rfl⟩
        exact .jumped rfl ((Confined.refl c).withPointer _) rfl
      · exact fun _ _ h => .of_pullWord (Nat.le_refl 2) h

/-- Performing an instruction keeps to the tables. -/
theorem meets_perform {i : Instruction} {value last : Int} (literal : c.literal? i = some value)
    (ends : last = c.registers.pc + i.operandSize * c.registers.direction.toInt) :
    Meets (Performed i c) (Residue c i) (perform i value last c) := by
  cases i with
  | alu op mode =>
    have untouched := Residue.of_untouched (c := c) (i := .alu op mode) rfl
    refine ((meets_resolve unmapped mode value).imp_failed untouched).bind ?_
    rintro o d ⟨same, found⟩
    rw [same]
    refine ((meets_performAlu unmapped op o).imp_failed untouched).bind ?_
    intro effect d computed
    obtain ⟨confined, shown⟩ := computed.performed rfl (place?_of_literal literal found)
    cases effect with
    | proceed => exact .next confined shown
    | debugNop => exact ⟨confined, shown, nofun, fun _ => ⟨computed.still rfl, rfl⟩, nofun⟩
  | branch flag comparison digit => exact meets_performBranch flag comparison digit _ _
  | extended op => exact meets_performExtended unmapped literal ends

end Unmapped

end Core

end TernaryMachine
