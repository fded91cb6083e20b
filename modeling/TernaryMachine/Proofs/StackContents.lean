import Mathlib.Data.List.Infix
import TernaryMachine.Proofs.Places

/-!
The stack of a store without peripherals as a list of trytes. The list stands in the cells from a
bottom up to the pointer, its head in the highest of them. A use of the stack does to these cells
what the same use does to the list, as long as the list is not used up and the cells do not end,
and it changes no cell below the bottom or above the highest level that it reaches. Main statement:
every answer of a sequence of uses is the answer of the list, and flags that were put on the stack
are restored after any balanced use of the stack above them.
-/

set_option autoImplicit false
set_option relaxedAutoImplicit false

namespace TernaryMachine

namespace Stack

inductive Use where
  | push (v : Tryte)
  | pull
  | pushWord (w : Word)
  | pullWord
  deriving DecidableEq, Repr

inductive Answer where
  | nothing
  | tryte (v : Tryte)
  | word (w : Word)
  deriving DecidableEq, Repr

namespace Use

def perform : Use → Access Answer
  | .push v => do
    Stack.push v
    return .nothing
  | .pull => do return .tryte (← Stack.pull)
  | .pushWord w => do
    Stack.pushWord w
    return .nothing
  | .pullWord => do return .word (← Stack.pullWord)

/-- The same use of a list of trytes, the top first. A word is two trytes, the high one on top; a
list that is too short gives no answer. -/
def onList : Use → StateT (List Tryte) Option Answer
  | .push v, rest => some (.nothing, v :: rest)
  | .pull, v :: rest => some (.tryte v, rest)
  | .pushWord w, rest => some (.nothing, w.high :: w.low :: rest)
  | .pullWord, high :: low :: rest => some (.word (Word.ofHalves low high), rest)
  | _, _ => none

def rise : Use → Int
  | .push _ => 1
  | .pull => -1
  | .pushWord _ => 2
  | .pullWord => -2

end Use

/-- How many trytes uses leave on a stack, less those that were there before. -/
def height : List Use → Int
  | [] => 0
  | use :: uses => use.rise + height uses

/-- From the bottom on, uses neither take more trytes than there are nor reach beyond the end of
the store. -/
def Room (store : Store) (bottom : Int) (uses : List Use) : Prop :=
  ∀ done, done <+: uses → 0 ≤ height done ∧ bottom + height done ≤ store.maxAddress + 1

instance (store : Store) (bottom : Int) (uses : List Use) : Decidable (Room store bottom uses) :=
  decidable_of_iff
    (∀ done ∈ uses.inits, 0 ≤ height done ∧ bottom + height done ≤ store.maxAddress + 1)
    (forall_congr' fun done => by rw [List.mem_inits])

theorem Room.of_size {store store' : Store} {bottom : Int} {uses : List Use}
    (room : Room store bottom uses) (size : store'.maxAddress = store.maxAddress) :
    Room store' bottom uses := by
  unfold Room
  rw [size]
  exact room

end Stack

namespace Store

/-- The cells from the bottom up hold the trytes of a list, the last one lowest. -/
def Holds (store : Store) (bottom : Int) : List Tryte → Prop
  | [] => True
  | v :: rest => store.get? (bottom + rest.length) = some v ∧ store.Holds bottom rest

theorem Holds.of_same {store store' : Store} {bottom : Int} {contents : List Tryte}
    (h : store.Holds bottom contents)
    (same : ∀ a, bottom ≤ a → a < bottom + contents.length → store'.get? a = store.get? a) :
    store'.Holds bottom contents := by
  induction contents with
  | nil => trivial
  | cons v rest ih =>
    rw [List.length_cons] at same
    refine ⟨(same _ (by omega) (by omega)).trans h.1, ih h.2 fun a above below => ?_⟩
    exact same a above (by omega)

structure Kept (changed : Int → Prop) (before after : Store) : Prop where
  size : after.maxAddress = before.maxAddress
  cells : ∀ a, ¬ changed a → after.get? a = before.get? a

namespace Kept

variable {changed further : Int → Prop} {before between after : Store}

theorem refl (changed : Int → Prop) (store : Store) : Kept changed store store :=
  ⟨rfl, fun _ _ => rfl⟩

theorem trans (h : Kept changed before between) (h' : Kept changed between after) :
    Kept changed before after :=
  ⟨h'.size.trans h.size, fun a out => (h'.cells a out).trans (h.cells a out)⟩

theorem mono (h : Kept changed before after) (more : ∀ a, changed a → further a) :
    Kept further before after :=
  ⟨h.size, fun a out => h.cells a fun inside => out (more a inside)⟩

end Kept

end Store

namespace Stack

/-- The trytes of a list fill the cells from the bottom up to the pointer, in a store without
peripherals. -/
structure Represents (bottom : Int) (contents : List Tryte) (t : Stack) : Prop where
  unmapped : t.store.maps = []
  pointer : t.pointer = bottom + contents.length
  cells : t.store.Holds bottom contents

variable {bottom : Int} {contents : List Tryte} {t : Stack}

theorem push_of_represents (h : Represents bottom contents t) (above : t.store.minAddress ≤ bottom)
    (v : Tryte) (room : bottom + contents.length ≤ t.store.maxAddress) :
    ∃ u, push v t = .ok () u ∧ Represents bottom (v :: contents) u
      ∧ Store.Kept (fun a => a = bottom + contents.length) t.store u.store := by
  obtain ⟨store, pointer⟩ := t
  obtain ⟨unmapped, rfl, cells⟩ := h
  dsimp only at unmapped cells
  have contains : store.Contains (bottom + contents.length) := by
    unfold Store.minAddress at above
    exact ⟨by dsimp only at above; omega, room⟩
  have silent := Store.writeListener?_of_unmapped unmapped (bottom + contents.length)
  have next : Signed32.add? (bottom + contents.length) 1 = some (bottom + contents.length + 1) := by
    have bounds := Store.bounds_of_contains contains
    exact add?_of_near (by omega) (by omega)
  have put (a : Int) : (store.put _ contains v).get? a
      = if a = bottom + contents.length then some v else store.get? a :=
    store.get?_put _ a contains v
  refine ⟨⟨store.put _ contains v, bottom + contents.length + 1⟩, ?_, ⟨unmapped, ?_, ?_, ?_⟩, ?_⟩
  · simp [push, onStore, top, movePointer, Store.write, contains, silent, next, bind, EStateM.bind]
  · rw [List.length_cons, Int.natCast_add, Int.add_assoc]
    rfl
  · exact (put _).trans (if_pos rfl)
  · refine cells.of_same fun a _ below => ?_
    exact (put a).trans (if_neg (by omega))
  · exact ⟨rfl, fun a out => (put a).trans (if_neg out)⟩

theorem pull_of_represents {v : Tryte} (h : Represents bottom (v :: contents) t) :
    ∃ u, pull t = .ok v u ∧ Represents bottom contents u ∧ u.store = t.store := by
  obtain ⟨store, pointer⟩ := t
  obtain ⟨unmapped, rfl, top, cells⟩ := h
  dsimp only at unmapped top cells
  have below : Signed32.add? (bottom + (v :: contents).length) (-1)
      = some (bottom + contents.length) := by
    have bounds := Core.bounds_of_cell top
    rw [List.length_cons, add?_of_near (by omega) (by omega)]
    congr 1
    omega
  have read : Store.read (bottom + contents.length) store = .ok v store := by
    rw [Store.read_eq_peek unmapped, Store.peek, top]
  refine ⟨⟨store, bottom + contents.length⟩, ?_, ⟨unmapped, rfl, cells⟩, rfl⟩
  simp only [pull, bind, EStateM.bind, movePointer, below, Stack.top, onStore, read]

theorem pushWord_of_represents (h : Represents bottom contents t)
    (above : t.store.minAddress ≤ bottom) (w : Word)
    (room : bottom + contents.length + 1 ≤ t.store.maxAddress) :
    ∃ u, pushWord w t = .ok () u ∧ Represents bottom (w.high :: w.low :: contents) u
      ∧ Store.Kept (fun a => bottom + contents.length ≤ a ∧ a < bottom + contents.length + 2)
        t.store u.store := by
  obtain ⟨u, low, between, kept⟩ := push_of_represents h above w.low (by omega)
  have size := kept.size
  obtain ⟨u', high, represents, kept'⟩ := push_of_represents between
    (by unfold Store.minAddress at above ⊢; omega) w.high (by rw [List.length_cons]; omega)
  rw [List.length_cons] at kept'
  refine ⟨u', ?_, represents, (kept.mono ?_).trans (kept'.mono ?_)⟩
  · simp [pushWord, bind, EStateM.bind, low, high]
  · rintro a rfl
    omega
  · rintro a rfl
    omega

theorem pullWord_of_represents {low high : Tryte}
    (h : Represents bottom (high :: low :: contents) t) :
    ∃ u, pullWord t = .ok (Word.ofHalves low high) u ∧ Represents bottom contents u
      ∧ u.store = t.store := by
  obtain ⟨u, first, between, same⟩ := pull_of_represents h
  obtain ⟨u', second, represents, same'⟩ := pull_of_represents between
  refine ⟨u', ?_, represents, same'.trans same⟩
  simp [pullWord, bind, EStateM.bind, first, second, pure, EStateM.pure]

/-- A use within the room answers as the list does. It changes cells only on the levels that it
fills. -/
theorem perform_of_represents (h : Represents bottom contents t)
    (above : t.store.minAddress ≤ bottom) (use : Use) (enough : 0 ≤ contents.length + use.rise)
    (room : bottom + contents.length + use.rise ≤ t.store.maxAddress + 1) :
    ∃ answer rest u, use.onList contents = some (answer, rest) ∧ use.perform t = .ok answer u
      ∧ (rest.length : Int) = contents.length + use.rise ∧ Represents bottom rest u
      ∧ Store.Kept (fun a => bottom + contents.length ≤ a ∧ a < bottom + rest.length)
        t.store u.store := by
  cases use with
  | push v =>
    rw [Use.rise] at room
    obtain ⟨u, pushed, represents, kept⟩ := push_of_represents h above v (by omega)
    refine ⟨.nothing, v :: contents, u, rfl, ?_, rfl, represents, kept.mono ?_⟩
    · simp [Use.perform, bind, EStateM.bind, pushed, pure, EStateM.pure]
    · rintro a rfl
      rw [List.length_cons]
      omega
  | pull =>
    cases contents with
    | nil => exact absurd enough (by decide)
    | cons v rest =>
      obtain ⟨u, pulled, represents, same⟩ := pull_of_represents h
      refine ⟨.tryte v, rest, u, rfl, ?_, ?_, represents, same ▸ Store.Kept.refl _ _⟩
      · simp [Use.perform, bind, EStateM.bind, pulled, pure, EStateM.pure]
      · rw [List.length_cons, Use.rise]
        omega
  | pushWord w =>
    rw [Use.rise] at room
    obtain ⟨u, pushed, represents, kept⟩ := pushWord_of_represents h above w (by omega)
    refine ⟨.nothing, w.high :: w.low :: contents, u, rfl, ?_, ?_, represents, kept.mono ?_⟩
    · simp [Use.perform, bind, EStateM.bind, pushed, pure, EStateM.pure]
    · rw [List.length_cons, List.length_cons, Use.rise]
      omega
    · rintro a ⟨low, high⟩
      rw [List.length_cons, List.length_cons]
      omega
  | pullWord =>
    match contents with
    | [] | [_] => exact absurd enough (by rw [Use.rise]; simp)
    | high :: low :: rest =>
      obtain ⟨u, pulled, represents, same⟩ := pullWord_of_represents h
      refine ⟨.word (Word.ofHalves low high), rest, u, rfl, ?_, ?_, represents,
        same ▸ Store.Kept.refl _ _⟩
      · simp [Use.perform, bind, EStateM.bind, pulled, pure, EStateM.pure]
      · rw [List.length_cons, List.length_cons, Use.rise]
        omega

/-- Uses that begin at a level have filled the stack up to an address at some time. -/
def Reaches (level : Int) (uses : List Use) (a : Int) : Prop :=
  ∃ early, early <+: uses ∧ a < level + height early

theorem performAll_of_represents (uses : List Use) (h : Represents bottom contents t)
    (above : t.store.minAddress ≤ bottom)
    (room : ∀ done, done <+: uses → 0 ≤ contents.length + height done
      ∧ bottom + contents.length + height done ≤ t.store.maxAddress + 1) :
    ∃ answers rest u, uses.mapM Use.onList contents = some (answers, rest)
      ∧ uses.mapM Use.perform t = .ok answers u
      ∧ (rest.length : Int) = contents.length + height uses ∧ Represents bottom rest u
      ∧ Store.Kept (fun a => bottom ≤ a ∧ Reaches (bottom + contents.length) uses a)
        t.store u.store := by
  induction uses generalizing contents t with
  | nil =>
    refine ⟨[], contents, t, rfl, rfl, ?_, h, Store.Kept.refl _ _⟩
    rw [height]
    omega
  | cons use uses ih =>
    have first := room [use] ⟨uses, rfl⟩
    rw [height, height] at first
    obtain ⟨answer, between, u, listed, performed, length, represents, kept⟩ :=
      perform_of_represents h above use (by omega) (by omega)
    have size := kept.size
    have later (done : List Use) (h : done <+: uses) : use :: done <+: use :: uses :=
      (List.cons_prefix_cons).mpr ⟨rfl, h⟩
    obtain ⟨answers, rest, u', listed', performed', length', represents', kept'⟩ :=
      ih represents (by unfold Store.minAddress at above ⊢; omega) fun done started => by
        have := room (use :: done) (later done started)
        rw [height] at this
        omega
    refine ⟨answer :: answers, rest, u', ?_, ?_, ?_, represents', ?_⟩
    · rw [List.mapM_cons]
      simp only [bind, StateT.bind, listed, listed', Option.bind_some]
      rfl
    · rw [List.mapM_cons]
      simp only [bind, EStateM.bind, performed, performed']
      rfl
    · rw [height]
      omega
    · refine (kept.mono ?_).trans (kept'.mono ?_)
      · rintro a ⟨low, high⟩
        refine ⟨by omega, [use], ⟨uses, rfl⟩, ?_⟩
        rw [height, height]
        omega
      · rintro a ⟨low, early, started, high⟩
        refine ⟨low, use :: early, later early started, ?_⟩
        rw [height]
        omega

theorem performAll_of_room {store : Store} {bottom : Int} {uses : List Use}
    (unmapped : store.maps = []) (above : store.minAddress ≤ bottom)
    (room : Room store bottom uses) :
    ∃ answers contents u, uses.mapM Use.onList [] = some (answers, contents)
      ∧ uses.mapM Use.perform ⟨store, bottom⟩ = .ok answers u
      ∧ (contents.length : Int) = height uses ∧ Represents bottom contents u
      ∧ Store.Kept (fun a => bottom ≤ a ∧ Reaches bottom uses a) store u.store := by
  have empty : Represents bottom [] ⟨store, bottom⟩ :=
    ⟨unmapped, (Int.add_zero bottom).symm, trivial⟩
  obtain ⟨answers, contents, u, listed, performed, length, represents, kept⟩ :=
    performAll_of_represents uses empty above fun done started => by
      have := room done started
      rw [List.length_nil]
      dsimp only
      omega
  rw [List.length_nil] at length kept
  refine ⟨answers, contents, u, listed, performed, by omega, represents, kept.mono ?_⟩
  rintro a ⟨low, early, started, high⟩
  exact ⟨low, early, started, by omega⟩

theorem pullWord_of_balanced {store : Store} {bottom : Int} {w : Word} {uses : List Use}
    (unmapped : store.maps = []) (above : store.minAddress ≤ bottom)
    (room : Room store (bottom + 2) uses) (balanced : height uses = 0) :
    ∃ t answers u v, pushWord w ⟨store, bottom⟩ = .ok () t
      ∧ uses.mapM Use.perform t = .ok answers u ∧ pullWord u = .ok w v
      ∧ v.pointer = bottom := by
  have start := (room [] List.nil_prefix).2
  rw [height] at start
  have empty : Represents bottom [] ⟨store, bottom⟩ :=
    ⟨unmapped, (Int.add_zero bottom).symm, trivial⟩
  obtain ⟨t, pushed, represents, kept⟩ := pushWord_of_represents empty above w
    (by rw [List.length_nil]; dsimp only; omega)
  have size := kept.size
  obtain ⟨store', pointer⟩ := t
  obtain ⟨unmapped', rfl, cells⟩ := represents
  have above' : store'.minAddress ≤ bottom + 2 := by
    unfold Store.minAddress at above ⊢
    dsimp only at size
    omega
  obtain ⟨answers, contents, u, -, performed, length, represents', kept'⟩ :=
    performAll_of_room unmapped' above' (room.of_size size)
  -- the uses above the word leave its two cells as they were
  have under : Represents bottom [w.high, w.low] u :=
    ⟨represents'.unmapped, represents'.pointer.trans (by rw [length, balanced, Int.add_zero]; rfl),
      cells.of_same fun a _ below => kept'.cells a fun h => by
        simp only [List.length_cons, List.length_nil] at below
        have := h.1
        omega⟩
  obtain ⟨v, pulled, last, -⟩ := pullWord_of_represents under
  rw [Word.ofHalves_low_high] at pulled
  exact ⟨_, answers, u, v, pushed, performed, pulled, last.pointer.trans (Int.add_zero bottom)⟩

end Stack

theorem Flags.ofWord_of_toWord? {s : Flags} {w : Word} (nine : s.Bounded)
    (packed : s.toWord? = some w) : ofWord w = s := by
  have same : w.val = s.packed := Word.ofInt?_eq_some_iff.mp packed
  have digits := congrArg (fun n => Digits.value (Digits.take 9 n)) same
  exact congrArg Flags.mk (digits.trans nine.value_take)

namespace Core

theorem perform_php_eq {c : Core} {w : Word} (packed : c.registers.flags.toWord? = some w)
    (value last : Int) :
    perform (.extended .php) value last c = andNext (onStack (Stack.pushWord w)) c := by
  change andNext _ c = _
  simp only [andNext, bind, EStateM.bind, ask, packed, inRange, pure, EStateM.pure]

theorem perform_php {c : Core} {w : Word} (packed : c.registers.flags.toWord? = some w)
    (value last : Int) {u : Stack}
    (pushed : Stack.pushWord w ⟨c.store, c.registers.stackPointer⟩ = .ok () u) :
    perform (.extended .php) value last c
      = .ok .next ⟨{ c.registers with stackPointer := u.pointer }, u.store⟩ := by
  rw [perform_php_eq packed]
  obtain ⟨registers, store⟩ := c
  simp only [andNext, bind, EStateM.bind, pure, EStateM.pure, onStack, pushed]

theorem perform_plp {c : Core} {w : Word} (value last : Int) {u : Stack}
    (pulled : Stack.pullWord ⟨c.store, c.registers.stackPointer⟩ = .ok w u) :
    perform (.extended .plp) value last c
      = .ok .next ⟨{ c.registers with stackPointer := u.pointer, flags := Flags.ofWord w },
        u.store⟩ := by
  obtain ⟨registers, store⟩ := c
  change andNext _ _ = _
  simp only [andNext, bind, EStateM.bind, onStack, pulled, update, pure, EStateM.pure]

end Core

/-- The stack is a list. Every prefix of a sequence of uses that the list and the store have room
for answers as the list does, leaves the list between the bottom and the pointer, and changes no
cell that it has not reached. Flags on the stack outlast every balanced use above them. -/
theorem uses_answer_as_list {c : Core} (unmapped : c.store.maps = [])
    (above : c.store.minAddress ≤ c.registers.stackPointer) :
    (∀ uses, Stack.Room c.store c.registers.stackPointer uses → ∀ done, done <+: uses →
      ∃ answers contents u, done.mapM Stack.Use.onList [] = some (answers, contents)
        ∧ done.mapM Stack.Use.perform ⟨c.store, c.registers.stackPointer⟩ = .ok answers u
        ∧ u.pointer = c.registers.stackPointer + contents.length
        ∧ u.store.Holds c.registers.stackPointer contents
        ∧ ∀ a, (a < c.registers.stackPointer
            ∨ ∀ early, early <+: done → c.registers.stackPointer + Stack.height early ≤ a)
          → u.store.get? a = c.store.get? a)
    ∧ (c.registers.flags.Bounded → ∀ uses,
      Stack.Room c.store (c.registers.stackPointer + 2) uses → Stack.height uses = 0 →
      ∀ value last, ∃ d answers u, Core.perform (.extended .php) value last c = .ok .next d
        ∧ uses.mapM Stack.Use.perform ⟨d.store, d.registers.stackPointer⟩ = .ok answers u
        ∧ ∀ (r : Registers) (value last : Int), r.stackPointer = u.pointer →
          ∃ e, Core.perform (.extended .plp) value last ⟨r, u.store⟩ = .ok .next e
            ∧ e.registers.flags = c.registers.flags
            ∧ e.registers.stackPointer = c.registers.stackPointer) := by
  constructor
  · intro uses room done started
    obtain ⟨answers, contents, u, listed, performed, -, represents, kept⟩ :=
      Stack.performAll_of_room unmapped above fun early h => room early (h.trans started)
    refine ⟨answers, contents, u, listed, performed, represents.pointer, represents.cells, ?_⟩
    rintro a out
    refine kept.cells a ?_
    rintro ⟨low, early, h, high⟩
    rcases out with below | beyond
    · omega
    · have := beyond early h
      omega
  · intro nine uses room balanced value last
    obtain ⟨w, packed⟩ := nine.toWord?
    obtain ⟨t, answers, u, v, pushed, performed, pulled, back⟩ :=
      Stack.pullWord_of_balanced (w := w) unmapped above room balanced
    refine ⟨_, answers, u, Core.perform_php packed value last pushed, performed, ?_⟩
    intro r value last same
    refine ⟨_, Core.perform_plp value last (c := ⟨r, u.store⟩) (w := w) (u := v) ?_,
      Flags.ofWord_of_toWord? nine packed, back⟩
    dsimp only
    rw [same]
    exact pulled

theorem uses_answer_as_list_at_end :
    let store : Store := ⟨4, Array.replicate 9 Tryte.zero, by decide, by decide, [], []⟩
    let c : Core := ⟨{ Registers.initial with stackPointer := 2 }, store⟩
    let v : Tryte := ⟨7, by decide, by decide⟩
    let w : Word := ⟨-479, by decide, by decide⟩
    let uses : List Stack.Use := [.push v, .push w.high, .pullWord, .pushWord w, .push v, .pull]
    (∃ u, uses.mapM Stack.Use.perform ⟨store, 2⟩
        = .ok [.nothing, .nothing, .word w, .nothing, .nothing, .tryte v] u
      ∧ u.pointer = 4 ∧ u.store.get? 1 = store.get? 1)
    ∧ ∃ d answers u, Core.perform (.extended .php) 0 0 c = .ok .next d
      ∧ [.push v, .pull].mapM Stack.Use.perform ⟨d.store, d.registers.stackPointer⟩ = .ok answers u
      ∧ ∃ e, Core.perform (.extended .plp) 0 0 ⟨{ c.registers with
            stackPointer := u.pointer, flags := .clear }, u.store⟩ = .ok .next e
        ∧ e.registers.flags = c.registers.flags := by
  intro store c v w uses
  have above : c.store.minAddress ≤ c.registers.stackPointer := by decide
  obtain ⟨lists, flags⟩ := uses_answer_as_list (c := c) rfl above
  constructor
  · obtain ⟨answers, contents, u, listed, performed, pointer, -, kept⟩ :=
      lists uses (by decide) uses (List.prefix_refl uses)
    have expected : uses.mapM Stack.Use.onList []
        = some ([.nothing, .nothing, .word w, .nothing, .nothing, .tryte v], [w.high, w.low]) := by
      decide +kernel
    obtain ⟨rfl, rfl⟩ := Prod.mk.inj (Option.some.inj (listed.symm.trans expected))
    exact ⟨u, performed, pointer, kept 1 (.inl (by decide))⟩
  · obtain ⟨d, answers, u, pushed, performed, restores⟩ :=
      flags Flags.bounded_reset [.push v, .pull] (by decide) (by decide) 0 0
    obtain ⟨e, pulled, same, -⟩ :=
      restores { c.registers with stackPointer := u.pointer, flags := .clear } 0 0 rfl
    exact ⟨d, answers, u, pushed, performed, e, pulled, same⟩

end TernaryMachine
