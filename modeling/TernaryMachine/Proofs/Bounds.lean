import TernaryMachine.Proofs.Expansion
import TernaryMachine.Proofs.Stepping

/-!
Bounds of the registers. A packed status register has no digit beyond the ninth; the program counter
goes no further than a branch reaches from the last cell; the stack pointer goes up only behind a
cell that was written. An operation of the store or the stack that starts within these bounds ends
within them, whether it fails or not, and the stack pointer leaves 32 bits only where it stood at
the least integer.
-/

set_option autoImplicit false
set_option relaxedAutoImplicit false

namespace TernaryMachine

structure Registers.Bounded (r : Registers) : Prop where
  pc : -29646 ≤ r.pc ∧ r.pc ≤ 29646
  flags : r.flags.Bounded
  pointer : Signed32.minValue ≤ r.stackPointer ∧ r.stackPointer ≤ 29525

theorem Registers.bounded_initial : Registers.initial.Bounded :=
  ⟨by decide, Flags.bounded_reset, by decide⟩

theorem add?_of_near {a b : Int} (ha : -60000 ≤ a ∧ a ≤ 60000) (hb : -60000 ≤ b ∧ b ≤ 60000) :
    Signed32.add? a b = some (a + b) := by
  apply Signed32.check?_of_inRange
  unfold Signed32.InRange Signed32.minValue Signed32.maxValue
  omega

theorem Registers.ahead?_of_near {r : Registers} (pc : -30000 ≤ r.pc ∧ r.pc ≤ 30000) {k : Nat}
    (near : k ≤ 2) : r.ahead? k = some (r.pc + k * r.direction.toInt) := by
  have distance : -2 ≤ k * r.direction.toInt ∧ k * r.direction.toInt ≤ 2 := by
    cases r.direction with
    | minus => simp only [Trit.toInt]; omega
    | zero => simp only [Trit.toInt]; omega
    | plus => simp only [Trit.toInt]; omega
  have step : Signed32.mul? k r.direction.toInt = some (k * r.direction.toInt) := by
    apply Signed32.check?_of_inRange
    unfold Signed32.InRange Signed32.minValue Signed32.maxValue
    omega
  rw [Registers.ahead?, step]
  exact add?_of_near (by omega) (by omega)

theorem Registers.Bounded.ahead? {r : Registers} (h : r.Bounded) {k : Nat} (near : k ≤ 2) :
    r.ahead? k = some (r.pc + k * r.direction.toInt) := by
  have pc := h.pc
  exact ahead?_of_near (by omega) near

/-- The pointer is above the least 32-bit integer, so that it can be moved down and its digits can
be read off. -/
def Registers.HasRoom (r : Registers) : Prop := Signed32.minValue < r.stackPointer

def Meets {ε σ α : Type} (ok : α → σ → Prop) (failed : ε → σ → Prop) : EStateM.Result ε σ α → Prop
  | .ok a s => ok a s
  | .error e s => failed e s

theorem Meets.bind {ε σ α β : Type} {x : EStateM ε σ α} {f : α → EStateM ε σ β} {s : σ}
    {P : α → σ → Prop} {ok : β → σ → Prop} {failed : ε → σ → Prop}
    (hx : Meets P failed (x s)) (hf : ∀ a t, P a t → Meets ok failed (f a t)) :
    Meets ok failed ((x >>= f) s) := by
  change Meets ok failed (EStateM.bind x f s)
  unfold EStateM.bind
  cases result : x s with
  | ok a t =>
    rw [result] at hx
    exact hf a t hx
  | error e t =>
    rw [result] at hx
    exact hx

theorem Meets.weaken {ε σ α : Type} {r : EStateM.Result ε σ α} {P ok : α → σ → Prop}
    {failed : ε → σ → Prop} (h : Meets P failed r) (weaker : ∀ a s, P a s → ok a s) :
    Meets ok failed r := by
  cases r with
  | ok a s => exact weaker a s h
  | error e s => exact h

section Bounded

variable {n : Nat} {room : Prop} {α β : Type}

namespace Store

/-- A store operation that keeps the ends of a store up to `n`; `Q` holds of its value. -/
def Safe (n : Nat) (x : Access α) (Q : α → Prop) : Prop := ∀ s : Store, s.maxAddress = n →
  Meets (fun a d => d.maxAddress = n ∧ Q a) (fun _ d => d.maxAddress = n) (x s)

theorem Safe.bind {x : Access α} {f : α → Access β} {P : α → Prop} {Q : β → Prop}
    (hx : Safe n x P) (hf : ∀ a, P a → Safe n (f a) Q) : Safe n (x >>= f) Q := by
  intro s ends
  exact (hx s ends).bind fun a d h => hf a h.2 d h.1

theorem safe_read (a : Int) : Safe n (read a) fun _ => -29524 ≤ a ∧ a ≤ 29524 := by
  intro s ends
  unfold read
  split
  · rename_i contains
    have bounds := bounds_of_contains contains
    cases s.readAnswer? a with
    | none => exact ⟨ends, bounds⟩
    | some answer =>
      obtain ⟨name, answer⟩ := answer
      cases answer with
      | none => exact ⟨ends, bounds⟩
      | some v => exact ⟨ends, bounds⟩
  · exact ends

theorem safe_write (a : Int) (v : Tryte) :
    Safe n (write a v) fun _ => -29524 ≤ a ∧ a ≤ 29524 := by
  intro s ends
  unfold write
  split
  · rename_i contains
    have bounds := bounds_of_contains contains
    cases s.writeListener? a with
    | none => exact ⟨ends, bounds⟩
    | some name => exact ⟨ends, bounds⟩
  · exact ends

theorem safe_readWord (a : Int) : Safe n (readWord a) fun _ => True :=
  (safe_read a).bind fun _ _ => (safe_read (a + 1)).bind fun _ _ => fun _ ends => ⟨ends, trivial⟩

theorem Safe.weaken {x : Access α} {P Q : α → Prop} (h : Safe n x P) (hPQ : ∀ a, P a → Q a) :
    Safe n x Q := by
  intro s ends
  exact (h s ends).weaken fun a _ met => ⟨met.1, hPQ a met.2⟩

theorem safe_writeWord (a : Int) (w : Word) : Safe n (writeWord a w) fun _ => True :=
  (safe_write a w.low).bind fun _ _ => (safe_write (a + 1) w.high).weaken fun _ _ => trivial

theorem safe_writeArray (a : Int) (ts : List Tryte) : Safe n (writeArray a ts) fun _ => True := by
  induction ts generalizing a with
  | nil => exact fun _ ends => ⟨ends, trivial⟩
  | cons t ts ih => exact (safe_write a t).bind fun _ _ => ih (a + 1)

end Store

namespace Stack

/-- The bounds of a stack over a store up to `n`. If there was `room` at the start, there is now. -/
structure Sound (n : Nat) (room : Prop) (s : Stack) : Prop where
  ends : s.store.maxAddress = n
  pointer : Signed32.minValue ≤ s.pointer ∧ s.pointer ≤ 29525
  room : room → Signed32.minValue < s.pointer

structure Stopped (n : Nat) (room : Prop) (e : StackError) (s : Stack) : Prop where
  ends : s.store.maxAddress = n
  pointer : Signed32.minValue ≤ s.pointer ∧ s.pointer ≤ 29525
  room : room → e ≠ .pointerOverflow

def Safe (n : Nat) (room : Prop) (x : Access α) : Prop := ∀ s, Sound n room s →
  Meets (fun _ d => Sound n room d) (Stopped n room) (x s)

theorem Safe.bind {x : Access α} {f : α → Access β} (hx : Safe n room x)
    (hf : ∀ a, Safe n room (f a)) : Safe n room (x >>= f) := by
  intro s sound
  exact (hx s sound).bind fun a d h => hf a d h

theorem safe_push (v : Tryte) : Safe n room (push v) := by
  intro ⟨store, pointer⟩ sound
  have bounds := sound.pointer
  dsimp only at bounds
  have written := Store.safe_write pointer v store sound.ends
  have above : Signed32.InRange (pointer + 1) := by
    unfold Signed32.InRange Signed32.maxValue
    omega
  change Meets _ _ (EStateM.bind (onStore (Store.write pointer v)) (fun _ => movePointer 1) _)
  unfold EStateM.bind onStore
  dsimp only
  cases result : Store.write pointer v store with
  | error e d =>
    rw [result] at written
    exact ⟨written, bounds, fun _ => by simp⟩
  | ok _ d =>
    rw [result] at written
    obtain ⟨ends, -, upper⟩ := written
    dsimp only [movePointer, Signed32.add?]
    rw [Signed32.check?_of_inRange above]
    refine ⟨ends, ?_, ?_⟩
    · dsimp only
      omega
    · intro
      dsimp only
      omega

theorem safe_pull : Safe n room pull := by
  intro ⟨store, pointer⟩ sound
  have bounds := sound.pointer
  dsimp only at bounds
  change Meets _ _ (EStateM.bind (movePointer (-1)) (fun _ => top >>= fun p => onStore (Store.read p)) _)
  unfold EStateM.bind movePointer
  dsimp only
  cases moved : Signed32.add? pointer (-1) with
  | none =>
    refine ⟨sound.ends, bounds, ?_⟩
    intro before
    have above : Signed32.minValue < pointer := sound.room before
    have fits : Signed32.InRange (pointer + -1) := by
      unfold Signed32.InRange Signed32.maxValue
      omega
    rw [Signed32.add?, Signed32.check?_of_inRange fits] at moved
    cases moved
  | some p =>
    obtain ⟨fits, rfl⟩ := Signed32.check?_eq_some_iff.mp moved
    have moved : Signed32.minValue ≤ pointer + -1 ∧ pointer + -1 ≤ 29525 := ⟨fits.1, by omega⟩
    have read := Store.safe_read (pointer + -1) store sound.ends
    change Meets _ _ (onStore (Store.read (pointer + -1)) ⟨store, pointer + -1⟩)
    unfold onStore
    dsimp only
    cases result : Store.read (pointer + -1) store with
    | error e d =>
      rw [result] at read
      exact ⟨read, moved, fun _ => by simp⟩
    | ok t d =>
      rw [result] at read
      obtain ⟨ends, lower, -⟩ := read
      have above : Signed32.minValue < pointer + -1 := by
        unfold Signed32.minValue
        omega
      exact ⟨ends, moved, fun _ => above⟩

theorem safe_pushWord (w : Word) : Safe n room (pushWord w) :=
  (safe_push w.low).bind fun _ => safe_push w.high

theorem safe_pullWord : Safe n room pullWord :=
  safe_pull.bind fun _ => safe_pull.bind fun _ => fun _ sound => sound

end Stack

end Bounded

end TernaryMachine
