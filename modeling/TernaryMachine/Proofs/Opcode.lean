import TernaryMachine.Disassembly

/-!
Opcodes and operands as trytes. An occurrence is an instruction that has an opcode together with an
operand value of its width; its trytes are the opcode and the operand, low half first. Encoding and
decoding are inverse to each other, and a block of trytes begins with an instruction exactly where
it begins with the trytes of an occurrence.
-/

set_option autoImplicit false
set_option relaxedAutoImplicit false

namespace TernaryMachine

namespace Tryte

theorem drop_five_val (t : Tryte) : Digits.drop 5 t.val = 0 := by
  have h : (ofDigits t.val 0).val + 243 * Digits.drop 5 t.val = t.val := val_ofDigits t.val 0
  have := t.lower
  have := t.upper
  have := (ofDigits t.val 0).lower
  have := (ofDigits t.val 0).upper
  omega

@[simp] theorem ofDigits_val (t : Tryte) : ofDigits t.val 0 = t := by
  have h : (ofDigits t.val 0).val + 243 * Digits.drop 5 t.val = t.val := val_ofDigits t.val 0
  rw [t.drop_five_val] at h
  exact ext (by omega)

theorem val_eq_trits (t : Tryte) :
    t.val = (t.trit 0).toInt + 3 * (t.trit 1).toInt + 9 * (t.trit 2).toInt
      + 27 * (t.trit 3).toInt + 81 * (t.trit 4).toInt := by
  have h : (ofDigits t.val 0).val = t.val := congrArg val t.ofDigits_val
  exact h.symm

theorem slice_two_five (t : Tryte) :
    Digits.slice t.val 2 5
      = (t.trit 2).toInt + 3 * (t.trit 3).toInt + 9 * (t.trit 4).toInt := by
  change (t.trit 2).toInt + 3 * ((t.trit 3).toInt + 3 * ((t.trit 4).toInt + 3 * 0)) = _
  omega

theorem slice_one_five (t : Tryte) :
    Digits.slice t.val 1 5 = (t.trit 1).toInt + 3 * (t.trit 2).toInt + 9 * (t.trit 3).toInt
      + 27 * (t.trit 4).toInt := by
  change (t.trit 1).toInt + 3 * ((t.trit 2).toInt + 3 * ((t.trit 3).toInt
    + 3 * ((t.trit 4).toInt + 3 * 0))) = _
  omega

end Tryte

theorem Flag.offset_ofTrits (high low : Trit) :
    (Flag.ofTrits high low).offset = 3 * high.toInt + low.toInt := by
  cases high <;> cases low <;> rfl

theorem AluOp.code_of_ofCode? {n : Int} {op : AluOp} (h : AluOp.ofCode? n = some op) :
    op.code = n := by
  unfold AluOp.ofCode? at h
  simpa using List.find?_some h

theorem ExtendedOp.code_of_ofCode? {n : Int} {op : ExtendedOp}
    (h : ExtendedOp.ofCode? n = some op) : op.code = n := by
  unfold ExtendedOp.ofCode? at h
  simpa using List.find?_some h

namespace Instruction

/-- An instruction that an opcode stands for: an arithmetic operation has a mode digit. -/
def HasOpcode : Instruction → Prop
  | .alu _ mode => mode.aluTrit?.isSome
  | .branch .. => True
  | .extended _ => True

instance (i : Instruction) : Decidable i.HasOpcode :=
  match i with
  | .alu _ mode => inferInstanceAs (Decidable (mode.aluTrit?.isSome = true))
  | .branch .. => isTrue trivial
  | .extended _ => isTrue trivial

theorem decode_encode {i : Instruction} (h : i.HasOpcode) : decode i.encode = .ok i := by
  cases i with
  | alu op mode =>
    cases mode with
    | accumulator => cases op <;> rfl
    | immediate => cases op <;> rfl
    | absolute => cases op <;> rfl
    | _ => simp [HasOpcode, AddressMode.aluTrit?] at h
  | branch flag comparison digit => cases flag <;> cases comparison <;> cases digit <;> rfl
  | extended op => cases op <;> rfl

theorem encode_of_decode {t : Tryte} {i : Instruction} (h : decode t = .ok i) :
    i.encode = t ∧ i.HasOpcode := by
  have hv := t.val_eq_trits
  unfold decode at h
  cases ht : t.lowest with
  | zero =>
    have h0 : (t.trit 0).toInt = 0 := congrArg Trit.toInt ht
    simp only [ht] at h
    split at h
    · rename_i op hop
      cases h
      have hc := AluOp.code_of_ofCode? hop
      rw [t.slice_two_five] at hc
      refine ⟨Tryte.ext ?_, ?_⟩
      · simp only [encode, opcode, AluOp.opcode, AddressMode.aluTrit?_ofAluTrit, Option.getD_some]
        omega
      · simp [HasOpcode]
    · cases h
  | plus =>
    have h0 : (t.trit 0).toInt = 1 := congrArg Trit.toInt ht
    simp only [ht] at h
    cases h
    refine ⟨Tryte.ext ?_, trivial⟩
    simp only [encode, opcode, Flag.offset_ofTrits, Comparison.toTrit_ofTrit]
    omega
  | minus =>
    have h0 : (t.trit 0).toInt = -1 := congrArg Trit.toInt ht
    simp only [ht] at h
    split at h
    · rename_i op hop
      cases h
      have hc := ExtendedOp.code_of_ofCode? hop
      rw [t.slice_one_five] at hc
      refine ⟨Tryte.ext ?_, trivial⟩
      simp only [encode, opcode, ExtendedOp.opcode]
      omega
    · cases h

def Holds (size : Nat) (value : Int) : Prop :=
  match size with
  | 0 => value = 0
  | 1 => -121 ≤ value ∧ value ≤ 121
  | _ => -29524 ≤ value ∧ value ≤ 29524

def operandTrytes (size : Nat) (value : Int) : List Tryte :=
  match size with
  | 0 => []
  | 1 => [Tryte.ofDigits value 0]
  | _ => [Tryte.ofDigits value 0, Tryte.ofDigits value 5]

theorem length_operandTrytes (mode : AddressMode) (value : Int) :
    (operandTrytes mode.operandSize value).length = mode.operandSize := by
  cases mode <;> rfl

theorem operandOf_operandTrytes {mode : AddressMode} {value : Int}
    (h : Holds mode.operandSize value) (first : Tryte) (rest : List Tryte) :
    operandOf mode (first :: (operandTrytes mode.operandSize value ++ rest)) = .ok value := by
  unfold operandOf fetchOperand
  generalize mode.operandSize = size at h ⊢
  match size, h with
  | 0, h => exact congrArg Except.ok h.symm
  | 1, h =>
    have hv := congrArg Tryte.val (Tryte.ofDigits_val ⟨value, h.1, h.2⟩)
    exact congrArg Except.ok hv
  | _ + 2, h =>
    have hv := congrArg Word.val (Word.ofHalves_low_high ⟨value, h.1, h.2⟩)
    exact congrArg Except.ok hv

theorem operandTrytes_of_operandOf {mode : AddressMode} {value : Int} {first : Tryte}
    {code : List Tryte} (h : operandOf mode (first :: code) = .ok value) :
    Holds mode.operandSize value ∧ operandTrytes mode.operandSize value <+: code := by
  unfold operandOf fetchOperand at h
  generalize mode.operandSize = size at h ⊢
  match size, code, h with
  | 0, code, h => exact ⟨(Except.ok.inj h).symm, List.nil_prefix⟩
  | 1, low :: rest, h =>
    obtain rfl : low.val = value := Except.ok.inj h
    refine ⟨⟨low.lower, low.upper⟩, rest, ?_⟩
    simp [operandTrytes]
  | _ + 2, low :: high :: rest, h =>
    obtain rfl : (Word.ofHalves low high).val = value := Except.ok.inj h
    refine ⟨⟨(Word.ofHalves low high).lower, (Word.ofHalves low high).upper⟩, rest, ?_⟩
    change (Word.ofHalves low high).low :: (Word.ofHalves low high).high :: rest = _
    rw [Word.low_ofHalves, Word.high_ofHalves]

/-- An instruction with an opcode and an operand value of its width. -/
structure Occurrence where
  instruction : Instruction
  value : Int
  hasOpcode : instruction.HasOpcode
  holds : Holds instruction.operandSize value

namespace Occurrence

def trytes (o : Occurrence) : List Tryte :=
  o.instruction.encode :: operandTrytes o.instruction.operandSize o.value

def text (o : Occurrence) : List Char := o.instruction.write o.value

theorem length_trytes (o : Occurrence) : o.trytes.length = o.instruction.length := by
  rw [trytes, List.length_cons, operandSize, length_operandTrytes, Nat.add_comm]
  rfl

end Occurrence

theorem readFrom_eq_ok_iff {code : List Tryte} {i : Instruction} {value : Int} :
    readFrom code = .ok (i, value)
      ↔ ∃ o : Occurrence, o.instruction = i ∧ o.value = value ∧ o.trytes <+: code := by
  constructor
  · intro h
    cases code with
    | nil => cases h
    | cons t code =>
      cases hd : decode t with
      | error e => simp [readFrom, hd, bind, Except.bind] at h
      | ok j =>
        cases hv : operandOf j.mode (t :: code) with
        | error e => simp [readFrom, hd, hv, bind, Except.bind] at h
        | ok v =>
          simp only [readFrom, hd, hv, bind, Except.bind, pure, Except.pure, Except.ok.injEq,
            Prod.mk.injEq] at h
          obtain ⟨rfl, rfl⟩ := h
          obtain ⟨rfl, hasOpcode⟩ := encode_of_decode hd
          obtain ⟨holds, pre⟩ := operandTrytes_of_operandOf hv
          exact ⟨⟨j, v, hasOpcode, holds⟩, rfl, rfl, List.prefix_cons_iff.mpr (.inr ⟨_, rfl, pre⟩)⟩
  · rintro ⟨o, rfl, rfl, rest, rfl⟩
    have hd := decode_encode o.hasOpcode
    have hv := operandOf_operandTrytes o.holds o.instruction.encode rest
    simp only [Occurrence.trytes, List.cons_append, readFrom, hd, bind, Except.bind]
    rw [operandSize, hv]
    rfl

end Instruction

end TernaryMachine
