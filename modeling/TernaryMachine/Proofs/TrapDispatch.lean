import Mathlib.Data.List.Basic
import TernaryMachine.Store

/-!
Dispatch to peripherals. However a store was used before, an access to a cell calls one peripheral
at most: that of the first registered range that holds the address, if it hears of such accesses.
Words and arrays are accesses to their cells one after the other, up to one outside the store. Names
stay in the order in which they were registered first, and a name that is registered again keeps its
place. Nothing here looks into a peripheral: its answers are any function of the calls so far, and
one that changes on its own is one that is registered again.
-/

set_option autoImplicit false
set_option relaxedAutoImplicit false

namespace TernaryMachine

namespace Store

variable {s t u : Store} {a : Int} {name : String} {m : MemoryMap}

def names (s : Store) : List String := s.maps.map Prod.fst

theorem setMap_of_registered {before after : List (String × MemoryMap)}
    (first : name ∉ before.map Prod.fst) (old m : MemoryMap) :
    setMap name m (before ++ (name, old) :: after) = before ++ (name, m) :: after := by
  induction before with
  | nil => simp [setMap]
  | cons x before ih =>
    obtain ⟨other, first⟩ := not_or.mp (mt List.mem_cons.mpr first)
    rw [List.cons_append, setMap, if_neg (Ne.symm other), ih first, List.cons_append]

theorem setMap_of_new {maps : List (String × MemoryMap)} (new : name ∉ maps.map Prod.fst)
    (m : MemoryMap) : setMap name m maps = maps ++ [(name, m)] := by
  induction maps with
  | nil => rfl
  | cons x maps ih =>
    obtain ⟨other, new⟩ := not_or.mp (mt List.mem_cons.mpr new)
    rw [setMap, if_neg (Ne.symm other), ih new, List.cons_append]

/-- What a registration does: a range with a name that is known takes the place of the old one, any
other one comes last. -/
structure Registered (s : Store) (name : String) (m : MemoryMap) (t : Store) : Prop where
  beside : t = { s with maps := t.maps }
  replaced : ∀ before old after, s.maps = before ++ (name, old) :: after →
    name ∉ before.map Prod.fst → t.maps = before ++ (name, m) :: after
  added : name ∉ s.names → t.maps = s.maps ++ [(name, m)]

theorem registered_register (s : Store) (name : String) (m : MemoryMap) :
    Registered s name m (s.register name m) where
  beside := rfl
  replaced before old after whole first := by
    rw [register, whole, setMap_of_registered first]
  added new := setMap_of_new new m

theorem Registered.names_eq (h : Registered s name m t) :
    t.names = if name ∈ s.names then s.names else s.names ++ [name] := by
  split
  · rename_i known
    obtain ⟨before, after, whole, first⟩ := List.eq_append_cons_of_mem known
    obtain ⟨xs, rest, maps, rfl, others⟩ := List.map_eq_append_iff.mp whole
    obtain ⟨⟨_, old⟩, ys, rfl, rfl, rfl⟩ := List.map_eq_cons_iff.mp others
    simp [names, maps, h.replaced xs old ys maps first]
  · rename_i new
    simp [names, h.added new]

def FirstAt (s : Store) (a : Int) (name : String) (m : MemoryMap) : Prop :=
  ∃ before after, s.maps = before ++ (name, m) :: after
    ∧ (∀ x ∈ before, x.2.contains a = false) ∧ m.contains a = true

theorem firstAt_iff : s.FirstAt a name m ↔ s.mapAt? a = some (name, m) := by
  rw [mapAt?, List.find?_eq_some_iff_append]
  constructor
  · rintro ⟨before, after, whole, others, holds⟩
    exact ⟨holds, before, after, whole, by simpa using others⟩
  · rintro ⟨holds, before, after, whole, others⟩
    exact ⟨before, after, whole, by simpa using others, holds⟩

theorem readAnswer?_eq_none_iff :
    s.readAnswer? a = none ↔ ∀ name m, s.FirstAt a name m → m.onRead = none := by
  simp only [firstAt_iff, readAnswer?]
  cases s.mapAt? a with
  | none => simp
  | some entry =>
    obtain ⟨name, m⟩ := entry
    simp

theorem readAnswer?_eq_some_iff {given : Option Tryte} : s.readAnswer? a = some (name, given)
    ↔ ∃ m answer, s.FirstAt a name m ∧ m.onRead = some answer ∧ given = answer s.calls a := by
  simp only [firstAt_iff, readAnswer?]
  cases s.mapAt? a with
  | none => simp
  | some entry =>
    obtain ⟨name', m⟩ := entry
    simp only [Option.map_eq_some_iff, Option.some.injEq, Prod.mk.injEq]
    constructor
    · rintro ⟨answer, trap, rfl, rfl⟩
      exact ⟨m, answer, ⟨rfl, rfl⟩, trap, rfl⟩
    · rintro ⟨_, answer, ⟨rfl, rfl⟩, trap, rfl⟩
      exact ⟨answer, trap, rfl, rfl⟩

theorem writeListener?_eq_none_iff :
    s.writeListener? a = none ↔ ∀ name m, s.FirstAt a name m → m.onWrite = false := by
  simp only [firstAt_iff, writeListener?]
  cases s.mapAt? a with
  | none => simp
  | some entry =>
    obtain ⟨name, m⟩ := entry
    simp

theorem writeListener?_eq_some_iff :
    s.writeListener? a = some name ↔ ∃ m, s.FirstAt a name m ∧ m.onWrite = true := by
  simp only [firstAt_iff, writeListener?]
  cases s.mapAt? a with
  | none => simp
  | some entry =>
    obtain ⟨name', m⟩ := entry
    simp [and_comm]

/-- What a read of a cell does. It leaves the value that it returns, and changes no other cell. The
peripheral of the first range that holds the address is called if it hears of reads, and no other;
the value is its answer, or what was in the cell if it gives none. -/
structure ReadLaw (s : Store) (a : Int) (v : Tryte) (t : Store) : Prop where
  result : read a s = .ok v t
  own : t.peek a = .ok v
  others : ∀ b, b ≠ a → t.peek b = s.peek b
  maps : t.maps = s.maps
  silent : (∀ name m, s.FirstAt a name m → m.onRead = none) → t = s
  heard : ∀ name m answer, s.FirstAt a name m → m.onRead = some answer →
    t.calls = .read name a (answer s.calls a) :: s.calls
      ∧ (answer s.calls a).or (s.peek a).toOption = some v

/-- What a write to a cell does. It stores the value and changes no other cell. The peripheral of
the first range that holds the address is called if it hears of writes, and no other, and by then
the value is stored. -/
structure WriteLaw (s : Store) (a : Int) (v : Tryte) (t : Store) : Prop where
  result : write a v s = .ok () t
  own : t.peek a = .ok v
  others : ∀ b, b ≠ a → t.peek b = s.peek b
  maps : t.maps = s.maps
  steps : ∃ stored : Store, stored.peek a = .ok v ∧ stored.calls = s.calls
    ∧ ((∀ name m, s.FirstAt a name m → m.onWrite = false) → t = stored)
    ∧ ∀ name m, s.FirstAt a name m → m.onWrite = true → t = stored.record (.write name a v)

private theorem readLaw_of_asked {given : Option Tryte} {v : Tryte}
    (asked : s.readAnswer? a = some (name, given)) (result : read a s = .ok v t)
    (own : t.peek a = .ok v) (others : ∀ b, b ≠ a → t.peek b = s.peek b) (maps : t.maps = s.maps)
    (calls : t.calls = .read name a given :: s.calls)
    (value : given.or (s.peek a).toOption = some v) : ReadLaw s a v t where
  result := result
  own := own
  others := others
  maps := maps
  silent none := by
    rw [readAnswer?_eq_none_iff.mpr none] at asked
    cases asked
  heard name' m answer first trap := by
    rw [readAnswer?_eq_some_iff.mpr ⟨m, answer, first, trap, rfl⟩] at asked
    cases asked
    exact ⟨calls, value⟩

theorem exists_readLaw (inside : s.Contains a) : ∃ v t, ReadLaw s a v t := by
  have peeked := peek_of_contains inside
  cases asked : s.readAnswer? a with
  | none =>
    refine ⟨s.cell a inside, s, by simp [read, inside, asked], peeked, fun _ _ => rfl, rfl,
      fun _ => rfl, fun name m answer first trap => ?_⟩
    rw [readAnswer?_eq_none_iff.mp asked name m first] at trap
    cases trap
  | some call =>
    obtain ⟨name, given⟩ := call
    cases given with
    | none =>
      refine ⟨s.cell a inside, s.record (.read name a none), readLaw_of_asked asked
        (by simp [read, inside, asked]) peeked (fun _ _ => rfl) rfl rfl ?_⟩
      rw [peeked]
      rfl
    | some v =>
      refine ⟨v, (s.put a inside v).record (.read name a (some v)), readLaw_of_asked asked
        (by simp [read, inside, asked]) ?_ (fun b other => ?_) rfl rfl rfl⟩
      · exact (peek_put s a a inside v).trans (if_pos rfl)
      · exact (peek_put s a b inside v).trans (if_neg other)

theorem exists_writeLaw (inside : s.Contains a) (v : Tryte) : ∃ t, WriteLaw s a v t := by
  have own : (s.put a inside v).peek a = .ok v := (peek_put s a a inside v).trans (if_pos rfl)
  have others (b : Int) (other : b ≠ a) : (s.put a inside v).peek b = s.peek b :=
    (peek_put s a b inside v).trans (if_neg other)
  cases heard : s.writeListener? a with
  | none =>
    refine ⟨s.put a inside v, by simp [write, inside, heard], own, others, rfl,
      s.put a inside v, own, rfl, fun _ => rfl, fun name m first trap => ?_⟩
    rw [writeListener?_eq_none_iff.mp heard name m first] at trap
    cases trap
  | some name =>
    refine ⟨(s.put a inside v).record (.write name a v), by simp [write, inside, heard], own,
      others, rfl, s.put a inside v, own, rfl, fun none => ?_, fun name' m first trap => ?_⟩
    · rw [writeListener?_eq_none_iff.mpr none] at heard
      cases heard
    · rw [writeListener?_eq_some_iff.mpr ⟨m, first, trap⟩] at heard
      cases heard
      rfl

theorem ReadLaw.calls_eq {v : Tryte} (law : ReadLaw s a v t) :
    t.calls = s.calls ∨ ∃ call, t.calls = call :: s.calls := by
  by_cases silent : ∀ name m, s.FirstAt a name m → m.onRead = none
  · exact .inl (congrArg Store.calls (law.silent silent))
  · push Not at silent
    obtain ⟨name, m, first, trap⟩ := silent
    obtain ⟨answer, trap⟩ := Option.ne_none_iff_exists'.mp trap
    exact .inr ⟨_, (law.heard name m answer first trap).1⟩

theorem WriteLaw.calls_eq {v : Tryte} (law : WriteLaw s a v t) :
    t.calls = s.calls ∨ ∃ call, t.calls = call :: s.calls := by
  obtain ⟨stored, -, calls, quiet, heard⟩ := law.steps
  by_cases silent : ∀ name m, s.FirstAt a name m → m.onWrite = false
  · rw [quiet silent]
    exact .inl calls
  · push Not at silent
    obtain ⟨name, m, first, trap⟩ := silent
    rw [heard name m first (by simpa using trap)]
    exact .inr ⟨_, congrArg (_ :: ·) calls⟩

inductive CellAccess where
  | read (a : Int)
  | write (a : Int) (v : Tryte)

/-- Accesses to cells one after the other, each as the law has it, up to one outside the store,
which calls nobody and changes nothing. -/
inductive Accesses : Store → List CellAccess → Store → Prop
  | done (s : Store) : Accesses s [] s
  | read {s t u : Store} {a : Int} {v : Tryte} {rest : List CellAccess} (law : ReadLaw s a v t)
    (further : Accesses t rest u) : Accesses s (.read a :: rest) u
  | write {s t u : Store} {a : Int} {v : Tryte} {rest : List CellAccess} (law : WriteLaw s a v t)
    (further : Accesses t rest u) : Accesses s (.write a v :: rest) u
  | readOutside {s : Store} {a : Int} (outside : ¬ s.Contains a)
    (refused : Store.read a s = .error (s.outside a) s) (rest : List CellAccess) :
    Accesses s (.read a :: rest) s
  | writeOutside {s : Store} {a : Int} {v : Tryte} (outside : ¬ s.Contains a)
    (refused : Store.write a v s = .error (s.outside a) s) (rest : List CellAccess) :
    Accesses s (.write a v :: rest) s

theorem Accesses.maps_eq {cells : List CellAccess} (h : Accesses s cells t) : t.maps = s.maps := by
  induction h with
  | done | readOutside | writeOutside => rfl
  | read law _ ih => exact ih.trans law.maps
  | write law _ ih => exact ih.trans law.maps

theorem Accesses.calls_suffix {cells : List CellAccess} (h : Accesses s cells t) :
    s.calls <:+ t.calls ∧ t.calls.length ≤ s.calls.length + cells.length := by
  have one {s t u : Store} {rest : List CellAccess}
      (first : t.calls = s.calls ∨ ∃ call, t.calls = call :: s.calls)
      (further : t.calls <:+ u.calls ∧ u.calls.length ≤ t.calls.length + rest.length) :
      s.calls <:+ u.calls ∧ u.calls.length ≤ s.calls.length + (rest.length + 1) := by
    obtain ⟨grown, bound⟩ := further
    rcases first with same | ⟨call, more⟩
    · rw [same] at grown bound
      exact ⟨grown, by omega⟩
    · rw [more] at grown bound
      rw [List.length_cons] at bound
      exact ⟨(List.suffix_cons call s.calls).trans grown, by omega⟩
  induction h with
  | done => exact ⟨List.suffix_refl _, Nat.le_refl _⟩
  | readOutside | writeOutside => exact ⟨List.suffix_refl _, Nat.le_add_right _ _⟩
  | read law _ ih => exact one law.calls_eq ih
  | write law _ ih => exact one law.calls_eq ih

def left {α : Type} : EStateM.Result MemoryError Store α → Store
  | .ok _ s => s
  | .error _ s => s

section Sequence

variable {α : Type} {cells : List CellAccess}

theorem accesses_read {f : Tryte → Access α}
    (further : ∀ v t, Accesses t cells (left (f v t))) (s : Store) (a : Int) :
    Accesses s (.read a :: cells) (left ((read a >>= f) s)) := by
  change Accesses s _ (left (EStateM.bind (read a) f s))
  unfold EStateM.bind
  by_cases inside : s.Contains a
  · obtain ⟨v, t, law⟩ := exists_readLaw inside
    rw [law.result]
    exact .read law (further v t)
  · have refused : read a s = .error (s.outside a) s := by simp [read, inside]
    rw [refused]
    exact .readOutside inside refused cells

theorem accesses_write {f : Unit → Access α} (v : Tryte)
    (further : ∀ t, Accesses t cells (left (f () t))) (s : Store) (a : Int) :
    Accesses s (.write a v :: cells) (left ((write a v >>= f) s)) := by
  change Accesses s _ (left (EStateM.bind (write a v) f s))
  unfold EStateM.bind
  by_cases inside : s.Contains a
  · obtain ⟨t, law⟩ := exists_writeLaw inside v
    rw [law.result]
    exact .write law (further t)
  · have refused : write a v s = .error (s.outside a) s := by simp [write, inside]
    rw [refused]
    exact .writeOutside inside refused cells

end Sequence

def arrayWrites (a : Int) : List Tryte → List CellAccess
  | [] => []
  | v :: ts => .write a v :: arrayWrites (a + 1) ts

theorem accesses_writeArray (ts : List Tryte) (s : Store) (a : Int) :
    Accesses s (arrayWrites a ts) (left (writeArray a ts s)) := by
  induction ts generalizing s a with
  | nil => exact .done s
  | cons v ts ih => exact accesses_write v (fun t => ih t (a + 1)) s a

inductive Operation where
  | register (name : String) (m : MemoryMap)
  | read (a : Int)
  | write (a : Int) (v : Tryte)
  | peek (a : Int)
  | readWord (a : Int)
  | writeWord (a : Int) (w : Word)
  | writeArray (a : Int) (ts : List Tryte)
  | subarray (start stop : Int)
  | clear

namespace Operation

def after (s : Store) : Operation → Store
  | .register name m => s.register name m
  | .read a => left (Store.read a s)
  | .write a v => left (Store.write a v s)
  | .readWord a => left (Store.readWord a s)
  | .writeWord a w => left (Store.writeWord a w s)
  | .writeArray a ts => left (Store.writeArray a ts s)
  | .peek _ | .subarray _ _ => s
  | .clear => s.clear

def cells : Operation → List CellAccess
  | .read a => [.read a]
  | .write a v => [.write a v]
  | .readWord a => [.read a, .read (a + 1)]
  | .writeWord a w => [.write a w.low, .write (a + 1) w.high]
  | .writeArray a ts => arrayWrites a ts
  | .register _ _ | .peek _ | .subarray _ _ | .clear => []

/-- What an operation does to the ranges and to the calls. -/
def Obeyed (s t : Store) (op : Operation) : Prop :=
  match op with
  | .register name m => Registered s name m t
  | .peek _ | .subarray _ _ => t = s
  | .clear => t.calls = s.calls ∧ t.maps = s.maps
  | .read _ | .write _ _ | .readWord _ | .writeWord _ _ | .writeArray _ _ => Accesses s op.cells t

theorem obeyed_after (s : Store) (op : Operation) : op.Obeyed s (op.after s) := by
  cases op with
  | register name m => exact registered_register s name m
  | read a =>
    have single := accesses_read (f := pure) (fun _ t => .done t) s a
    rwa [bind_pure] at single
  | write a v =>
    have single := accesses_write (f := pure) v .done s a
    rwa [bind_pure] at single
  | readWord a =>
    exact accesses_read (fun _ t => accesses_read (fun _ u => .done u) t (a + 1)) s a
  | writeWord a w =>
    have high (t : Store) :
        Accesses t [.write (a + 1) w.high] (left (Store.write (a + 1) w.high t)) := by
      have single := accesses_write (f := pure) w.high .done t (a + 1)
      rwa [bind_pure] at single
    exact accesses_write w.low high s a
  | writeArray a ts => exact accesses_writeArray ts s a
  | peek | subarray => rfl
  | clear => exact ⟨rfl, rfl⟩

theorem Obeyed.names_eq {op : Operation} (h : op.Obeyed s t) :
    t.names = s.names ∨ ∃ name, name ∉ s.names ∧ t.names = s.names ++ [name] := by
  have same (maps : t.maps = s.maps) : t.names = s.names := congrArg (List.map Prod.fst) maps
  cases op with
  | register name m =>
    rw [Registered.names_eq h]
    split
    · exact .inl rfl
    · exact .inr ⟨name, ‹_›, rfl⟩
  | read | write | readWord | writeWord | writeArray => exact .inl (same (Accesses.maps_eq h))
  | peek | subarray => exact .inl (congrArg Store.names h)
  | clear => exact .inl (same h.2)

theorem Obeyed.calls_suffix {op : Operation} (h : op.Obeyed s t) :
    s.calls <:+ t.calls ∧ t.calls.length ≤ s.calls.length + op.cells.length := by
  have same (calls : t.calls = s.calls) :
      s.calls <:+ t.calls ∧ t.calls.length ≤ s.calls.length + op.cells.length := by
    rw [calls]
    exact ⟨List.suffix_refl _, Nat.le_add_right _ _⟩
  cases op with
  | register name m =>
    have calls : t.calls = { s with maps := t.maps }.calls :=
      congrArg Store.calls (Registered.beside h)
    exact same calls
  | read | write | readWord | writeWord | writeArray => exact Accesses.calls_suffix h
  | peek | subarray => exact same (congrArg Store.calls h)
  | clear => exact same h.1

theorem names_foldl (ops : List Operation) (s : Store) (unique : s.names.Nodup) :
    (ops.foldl after s).names.Nodup ∧ s.names <+: (ops.foldl after s).names := by
  induction ops generalizing s with
  | nil => exact ⟨unique, List.prefix_refl _⟩
  | cons op ops ih =>
    have step : (op.after s).names.Nodup ∧ s.names <+: (op.after s).names := by
      rcases (obeyed_after s op).names_eq with same | ⟨name, new, grown⟩
      · rw [same]
        exact ⟨unique, List.prefix_refl _⟩
      · rw [grown]
        refine ⟨List.nodup_append.mpr ⟨unique, by simp, ?_⟩, List.prefix_append _ _⟩
        rintro x known y last rfl
        exact new (List.mem_singleton.mp last ▸ known)
    obtain ⟨nodup, grown⟩ := ih (op.after s) step.1
    exact ⟨nodup, step.2.trans grown⟩

/-- The law of dispatch. After every sequence of operations, failed ones among them, the names of
the ranges are different from each other and stand in the order of their first registration. Every
further operation calls peripherals at most once for each access to a cell, and does to ranges and
calls what the law has it do. -/
theorem dispatch_after (s : Store) (unique : s.names.Nodup) (ops : List Operation) :
    let t := ops.foldl after s
    (t.names.Nodup ∧ s.names <+: t.names)
    ∧ ∀ op : Operation, (t.calls <:+ (op.after t).calls
        ∧ (op.after t).calls.length ≤ t.calls.length + op.cells.length)
      ∧ op.Obeyed t (op.after t) := by
  refine ⟨names_foldl ops s unique, fun op => ?_⟩
  have obeyed := obeyed_after (ops.foldl after s) op
  exact ⟨obeyed.calls_suffix, obeyed⟩

theorem dispatch_after_of_overlapping_ranges :
    let count : List TrapCall → Int → Option Tryte := fun calls _ =>
      some (Tryte.ofDigits calls.length 0)
    let ops : List Operation := [.register "clock" ⟨-2, 0, some count, false⟩,
      .register "port" ⟨0, 2, none, true⟩, .register "clock" ⟨-2, 1, some count, false⟩,
      .readWord 0, .writeArray 1 [Tryte.ofDigits 5 0, Tryte.ofDigits 7 0, Tryte.ofDigits 9 0]]
    ∃ s, Store.create 5 = .ok s ∧ s.names.Nodup ∧
      let t := ops.foldl after s
      t.names = ["clock", "port"] ∧ t.calls = [.write "port" 2 (Tryte.ofDigits 7 0),
        .read "clock" 1 (some (Tryte.ofDigits 1 0)), .read "clock" 0 (some (Tryte.ofDigits 0 0))]
      ∧ t.names.Nodup ∧ ∀ op : Operation, op.Obeyed t (op.after t) := by
  intro count ops
  let s : Store :=
    ⟨2, Array.replicate 5 Tryte.zero, by rw [Array.size_replicate], by decide, [], []⟩
  have unique : s.names.Nodup := List.nodup_nil
  obtain ⟨⟨nodup, -⟩, obeyed⟩ := dispatch_after s unique ops
  exact ⟨s, rfl, unique, rfl, by decide +kernel, nodup, fun op => (obeyed op).2⟩

end Operation

end Store

end TernaryMachine
