import Mathlib.Algebra.BigOperators.Fin
import Mathlib.Tactic.LinearCombination
import Mathlib.Tactic.Ring
import TernaryMachine.Proofs.Places

/-!
Numbers of many trytes. They are added one column after the other from the lowest tryte on, each
time by loading a tryte, adding one and storing the result. Loads and stores leave the carry, so
that it passes from one column to the next, and the trytes stored with the last carry above them
make up the exact sum. Subtraction is the addition of the negated trytes, with the same carry.
-/

set_option autoImplicit false
set_option relaxedAutoImplicit false

namespace TernaryMachine

/-- The integer that trytes make up, lowest tryte first. -/
def number (ts : List Tryte) : Int := ∑ i : Fin ts.length, (ts.get i).val * 243 ^ i.val

theorem number_cons (t : Tryte) (ts : List Tryte) :
    number (t :: ts) = t.val + 243 * number ts := by
  show ∑ i : Fin (ts.length + 1), ((t :: ts).get i).val * 243 ^ i.val = _
  rw [Fin.sum_univ_succ, number, Finset.mul_sum]
  congr 1
  · exact Int.mul_one t.val
  · apply Finset.sum_congr rfl
    intro i _
    rw [Fin.val_succ, Int.pow_succ, ← Int.mul_assoc, Int.mul_comm]
    rfl

theorem number_map_neg (ts : List Tryte) : number (ts.map (-·)) = -number ts := by
  induction ts with
  | nil => rfl
  | cons t ts ih =>
    rw [List.map_cons, number_cons, number_cons, ih, Tryte.val_neg]
    ring

/-- Two operands and the cell for their sum. -/
structure Column where
  left : Operand
  right : Operand
  result : Int

def Column.operands (k : Column) : List Operand := [k.left, k.right, .address k.result]

namespace Store

/-- A literal, or a cell outside every range, that has a value. -/
inductive Supplies (s : Store) : Operand → Tryte → Prop
  | literal (t : Tryte) : Supplies s (.immediate t) t
  | cell {a : Int} {t : Tryte} (value : s.get? a = some t) (own : s.mapAt? a = none) :
    Supplies s (.address a) t

structure Receives (s : Store) (a : Int) : Prop where
  inside : s.Contains a
  own : s.mapAt? a = none

/-- The left operands of columns supply one number and the right operands another, and the result of
each column goes to a cell that no later column reads or writes. -/
inductive Ready (s : Store) : List Column → List Tryte → List Tryte → Prop
  | nil : Ready s [] [] []
  | cons {k : Column} {ks : List Column} {x y : Tryte} {a b : List Tryte}
    (left : s.Supplies k.left x) (right : s.Supplies k.right y) (result : s.Receives k.result)
    (apart : ∀ l ∈ ks, .address k.result ∉ l.operands) (rest : Ready s ks a b) :
    Ready s (k :: ks) (x :: a) (y :: b)

theorem Supplies.put {s : Store} {a : Int} {o : Operand} {t : Tryte} (h : s.Supplies o t)
    (apart : .address a ≠ o) (inside : s.Contains a) (v : Tryte) :
    (s.put a inside v).Supplies o t := by
  cases h with
  | literal => exact .literal t
  | @cell b t value own =>
    have other : b ≠ a := fun same => apart (congrArg Operand.address same.symm)
    refine .cell ?_ own
    rw [get?_put, if_neg other]
    exact value

theorem Ready.put {s : Store} {ks : List Column} {a b : List Tryte} (h : s.Ready ks a b)
    {cell : Int} (apart : ∀ l ∈ ks, .address cell ∉ l.operands) (inside : s.Contains cell)
    (v : Tryte) : (s.put cell inside v).Ready ks a b := by
  induction h with
  | nil => exact .nil
  | @cons k ks x y a b left right result beside _ ih =>
    obtain ⟨free, apart⟩ := List.forall_mem_cons.mp apart
    have atLeft := List.ne_of_not_mem_cons free
    have atRight := List.ne_of_not_mem_cons (List.not_mem_of_not_mem_cons free)
    exact .cons (left.put atLeft inside v) (right.put atRight inside v) ⟨result.inside, result.own⟩
      beside (ih apart)

end Store

namespace Core

def column (op : AluOp) (k : Column) : Action Unit := do
  let _ ← performAlu .lda k.left
  let _ ← performAlu op k.right
  let _ ← performAlu .sta (.address k.result)

def chain (op : AluOp) : List Column → Action Unit
  | [] => pure ()
  | k :: ks => do
    column op k
    chain op ks

def Adds (op : AluOp) (f : Tryte → Tryte) : Prop :=
  ∀ o, performAlu op o = readOperand o >>= fun b => addWithCarry (f b) >>= fun _ => pure .proceed

theorem adds_adc : Adds .adc id := fun _ => rfl

theorem adds_sbc : Adds .sbc (-·) := fun _ => rfl

theorem bind_of_ok {α β : Type} {x : Action α} {f : α → Action β} {a : α} {c d : Core}
    (h : x c = .ok a d) : (x >>= f) c = f a d := by
  show EStateM.bind x f c = _
  rw [EStateM.bind, h]

theorem readOperand_of_supplies {c : Core} {o : Operand} {t : Tryte}
    (h : c.store.Supplies o t) : readOperand o c = .ok t c := by
  obtain ⟨registers, store⟩ := c
  cases h with
  | literal => rfl
  | @cell a t value own =>
    have silent : store.readAnswer? a = none := by
      rw [Store.readAnswer?, own]
    have inside : store.Contains a := by
      by_contra outside
      rw [Store.get?_eq_none_iff.mpr outside] at value
      cases value
    rw [Store.get?, dif_pos inside] at value
    show onStore (Store.read a) ⟨registers, store⟩ = _
    simp only [onStore, Store.read, dif_pos inside, silent]
    rw [Option.some.inj value]

theorem writeOperand_of_receives {c : Core} {a : Int} (h : c.store.Receives a) (v : Tryte) :
    writeOperand (.address a) v c = .ok () { c with store := c.store.put a h.inside v } := by
  obtain ⟨registers, store⟩ := c
  have silent : store.writeListener? a = none := by
    rw [Store.writeListener?, show store.mapAt? a = none from h.own]
  show onStore (Store.write a v) ⟨registers, store⟩ = _
  simp only [onStore, Store.write, dif_pos h.inside, silent]

def loaded (c : Core) (t : Tryte) : Core := (c.assign .accumulator t).record t

theorem performAlu_lda {c : Core} {o : Operand} {t : Tryte} (h : c.store.Supplies o t) :
    performAlu .lda o c = .ok .proceed (c.loaded t) := by
  have load : load .accumulator o c = .ok () (c.loaded t) := by
    show (readOperand o >>= fun v => writeOperand .accumulator v >>= fun _ => recordResult v) c = _
    rw [bind_of_ok (readOperand_of_supplies h)]
    rfl
  show (Core.load .accumulator o >>= fun _ => pure AluEffect.proceed : Action AluEffect) c = _
  rw [bind_of_ok load]
  rfl

theorem performAlu_sta {c : Core} {a : Int} (h : c.store.Receives a) :
    performAlu .sta (.address a) c
      = .ok .proceed { c with store := c.store.put a h.inside c.registers.accumulator } := by
  have stored := writeOperand_of_receives h c.registers.accumulator
  show (writeOperand (.address a) c.registers.accumulator >>= fun _ => pure AluEffect.proceed
    : Action AluEffect) c = _
  rw [bind_of_ok stored]
  rfl

def added (c : Core) (t : Tryte) : Core :=
  let sum := Tryte.add c.registers.accumulator t (c.registers.flags.get .carry)
  (c.assign .accumulator sum.result).withFlags
    (((c.registers.flags.set .carry sum.carry).set .overflow sum.overflow).recordResult sum.result)

theorem addWithCarry_eq (c : Core) (t : Tryte) : addWithCarry t c = .ok () (c.added t) := rfl

theorem get_added (c : Core) (t : Tryte) :
    (c.added t).registers.flags.get .carry
        = (Tryte.add c.registers.accumulator t (c.registers.flags.get .carry)).carry
      ∧ (c.added t).registers.flags.get .overflow = (c.added t).registers.flags.get .carry := by
  simp [added, Flags.recordResult, Flags.get_set, Tryte.Sum.overflow]

section Column

variable {op : AluOp} {f : Tryte → Tryte} (adds : Adds op f) {c : Core}
include adds

theorem performAlu_of_supplies {o : Operand} {t : Tryte} (h : c.store.Supplies o t) :
    performAlu op o c = .ok .proceed (c.added (f t)) := by
  rw [adds o, bind_of_ok (readOperand_of_supplies h), bind_of_ok (addWithCarry_eq c (f t))]
  rfl

theorem overflow_eq_carry {o : Operand} {effect : AluEffect} {d : Core}
    (done : performAlu op o c = .ok effect d) :
    d.registers.flags.get .overflow = d.registers.flags.get .carry := by
  rw [adds o] at done
  cases read : readOperand o c with
  | error e s =>
    change EStateM.bind _ _ c = _ at done
    rw [EStateM.bind, read] at done
    cases done
  | ok t s =>
    rw [bind_of_ok read, bind_of_ok (addWithCarry_eq s (f t))] at done
    cases done
    exact (get_added s (f t)).2

theorem column_of_supplies {k : Column} {x y : Tryte} (left : c.store.Supplies k.left x)
    (right : c.store.Supplies k.right y) (result : c.store.Receives k.result) :
    ∃ d v, column op k c = .ok () d ∧ d.store = c.store.put k.result result.inside v
      ∧ v.val + 243 * (d.registers.flags.get .carry).toInt
        = x.val + (f y).val + (c.registers.flags.get .carry).toInt := by
  have carry : (c.loaded x).registers.flags.get .carry = c.registers.flags.get .carry := by
    show (c.registers.flags.recordResult x).get .carry = _
    simp [Flags.recordResult, Flags.get_set]
  have full : (Tryte.add x (f y) ((c.loaded x).registers.flags.get .carry)).full = _ :=
    Tryte.full_add _ _ _
  let s := (c.loaded x).added (f y)
  have receives : s.store.Receives k.result := result
  refine ⟨{ s with store := c.store.put k.result result.inside s.registers.accumulator },
    s.registers.accumulator, ?_, rfl, ?_⟩
  · show (performAlu .lda k.left >>= fun _ => performAlu op k.right >>= fun _ =>
      performAlu .sta (.address k.result) >>= fun _ => pure ()) c = _
    have summed : performAlu op k.right (c.loaded x) = .ok .proceed s :=
      performAlu_of_supplies adds right
    rw [bind_of_ok (performAlu_lda left), bind_of_ok summed, bind_of_ok (performAlu_sta receives)]
    rfl
  · rw [← carry, ← full, (get_added (c.loaded x) (f y)).1]
    rfl

/-- A chain adds up its columns, and leaves every cell that is not the result of one. -/
theorem chain_of_ready {ks : List Column} {a b : List Tryte} (h : c.store.Ready ks a b) :
    ∃ d r, chain op ks c = .ok () d
      ∧ (∀ x, (∀ k ∈ ks, .address x ∉ k.operands) → d.store.get? x = c.store.get? x)
      ∧ List.Forall₂ (fun k t => d.store.get? k.result = some t) ks r
      ∧ number r + (d.registers.flags.get .carry).toInt * 243 ^ ks.length
        = number a + number (b.map f) + (c.registers.flags.get .carry).toInt := by
  induction ks generalizing c a b with
  | nil =>
    cases h
    refine ⟨c, [], rfl, fun _ _ => rfl, .nil, ?_⟩
    rw [List.length_nil, Int.pow_zero, Int.mul_one]
    rfl
  | cons k ks ih =>
    cases h with
    | @cons _ _ x y a b left right result apart rest =>
      obtain ⟨d, v, first, store, digit⟩ := column_of_supplies adds left right result
      have ready : d.store.Ready ks a b := by
        rw [store]
        exact rest.put apart result.inside v
      obtain ⟨e, r, later, kept, results, sum⟩ := ih ready
      refine ⟨e, v :: r, ?_, ?_, .cons ?_ results, ?_⟩
      · show (column op k >>= fun _ => chain op ks) c = _
        rw [bind_of_ok first]
        exact later
      · intro x free
        obtain ⟨here, above⟩ := List.forall_mem_cons.mp free
        have other : x ≠ k.result := by
          rintro rfl
          exact here (by simp [Column.operands])
        rw [kept x above, store, Store.get?_put, if_neg other]
      · rw [kept k.result apart, store, Store.get?_put, if_pos rfl]
      · rw [number_cons, number_cons, List.map_cons, number_cons, List.length_cons, Int.pow_succ]
        linear_combination digit + 243 * sum

end Column

/-- Two numbers of equally many trytes are added, or the second is subtracted from the first, with
the digit that was in the carry: the trytes stored and the last carry make up the exact result.
Every single addition leaves the same digit in carry and overflow. -/
theorem carry_chain_exact {c : Core} {ks : List Column} {a b : List Tryte}
    (ready : c.store.Ready ks a b) :
    (∃ d r, chain .adc ks c = .ok () d
      ∧ List.Forall₂ (fun k t => d.store.get? k.result = some t) ks r
      ∧ number r + (d.registers.flags.get .carry).toInt * 243 ^ ks.length
        = number a + number b + (c.registers.flags.get .carry).toInt)
    ∧ (∃ d r, chain .sbc ks c = .ok () d
      ∧ List.Forall₂ (fun k t => d.store.get? k.result = some t) ks r
      ∧ number r + (d.registers.flags.get .carry).toInt * 243 ^ ks.length
        = number a - number b + (c.registers.flags.get .carry).toInt)
    ∧ ∀ op ∈ [AluOp.adc, .sbc], ∀ o effect before after,
      performAlu op o before = .ok effect after →
        after.registers.flags.get .overflow = after.registers.flags.get .carry := by
  refine ⟨?_, ?_, ?_⟩
  · obtain ⟨d, r, done, -, results, sum⟩ := chain_of_ready adds_adc ready
    rw [List.map_id] at sum
    exact ⟨d, r, done, results, sum⟩
  · obtain ⟨d, r, done, -, results, sum⟩ := chain_of_ready adds_sbc ready
    rw [number_map_neg, ← Int.sub_eq_add_neg] at sum
    exact ⟨d, r, done, results, sum⟩
  · intro op addition o effect before after done
    rcases List.mem_cons.mp addition with rfl | addition
    · exact overflow_eq_carry adds_adc done
    · obtain rfl := List.mem_singleton.mp addition
      exact overflow_eq_carry adds_sbc done

theorem carry_chain_exact_of_two_columns :
    let t (n : Int) := Tryte.ofDigits n 0
    let s : Store := ⟨2, #[t 121, t 5, t 0, t 0, t 0], rfl, by decide,
      [("timer", ⟨2, 2, none, true⟩)], []⟩
    let c : Core := ⟨{ Registers.initial with flags := Flags.reset.set .carry .plus }, s⟩
    let ks : List Column := [⟨.immediate (t 121), .address (-2), 0⟩,
      ⟨.immediate (t (-121)), .address (-1), 1⟩]
    s.Ready ks [t 121, t (-121)] [t 121, t 5] ∧ (∃ d r, chain .adc ks c = .ok () d
      ∧ List.Forall₂ (fun k t => d.store.get? k.result = some t) ks r
      ∧ number r + (d.registers.flags.get .carry).toInt * 243 ^ 2
        = (121 + -121 * 243) + (121 + 5 * 243) + 1)
    ∧ ∃ effect d, performAlu .sbc (.address (-2)) c = .ok effect d
      ∧ d.registers.flags.get .overflow = d.registers.flags.get .carry := by
  intro t s c ks
  have ready : s.Ready ks [t 121, t (-121)] [t 121, t 5] := by
    apply Store.Ready.cons (.literal _) (.cell rfl rfl) ⟨by decide, rfl⟩ (by decide)
    exact .cons (.literal _) (.cell rfl rfl) ⟨by decide, rfl⟩ (List.forall_mem_nil _) .nil
  obtain ⟨⟨d, r, done, results, sum⟩, -, even⟩ := carry_chain_exact (c := c) ready
  have subtracted : ∃ effect d, performAlu .sbc (.address (-2)) c = .ok effect d := ⟨_, _, rfl⟩
  obtain ⟨effect, e, performed⟩ := subtracted
  exact ⟨ready, ⟨d, r, done, results, sum.trans rfl⟩, effect, e, performed,
    even .sbc (by decide) _ effect c e performed⟩

end Core

end TernaryMachine
