import TernaryMachine.Text.Quoted
import TernaryMachine.Word

/-!
The memory of the machine: an odd number of trytes addressed from `-maxAddress` to `maxAddress`,
with address ranges that belong to peripherals. A read inside a range may be answered by its
peripheral, and the answer is stored; a write is stored first and then reported. Of several ranges
that contain an address only the one registered first is asked. The store records every call of a
peripheral, newest first, and a peripheral answers from that record, so that its state is a
function of what it was asked before.
-/

set_option autoImplicit false
set_option relaxedAutoImplicit false

namespace TernaryMachine

inductive TrapCall where
  | read (range : String) (address : Int) (answer : Option Tryte)
  | write (range : String) (address : Int) (value : Tryte)
  deriving DecidableEq, Repr

/-- An address range that belongs to a peripheral. -/
structure MemoryMap where
  first : Int
  last : Int
  /-- What the peripheral answers to a read, given the calls so far and the address. -/
  onRead : Option (List TrapCall → Int → Option Tryte)
  onWrite : Bool

namespace MemoryMap

def contains (m : MemoryMap) (a : Int) : Bool := decide (m.first ≤ a ∧ a ≤ m.last)

def describe (m : MemoryMap) : String :=
  "MemoryMap \x7b " ++ s!"start: {m.first}, end: {m.last}, read: {m.onRead.isSome}, "
    ++ s!"write: {m.onWrite}" ++ " \x7d"

end MemoryMap

inductive MemoryError where
  | addressOutOfRange (address min max : Int)
  | invalidSize (size : Nat)
  deriving DecidableEq, Repr

def MemoryError.message : MemoryError → String
  | .addressOutOfRange a lo hi => s!"memory address {a} out of range ({lo} to {hi})"
  | .invalidSize n => s!"memory size {n} must be odd"

/-- The cells, the address ranges of peripherals in order of registration, and the calls made. -/
structure Store where
  maxAddress : Nat
  cells : Array Tryte
  size_cells : cells.size = 2 * maxAddress + 1
  maxAddress_le : maxAddress ≤ 29524
  maps : List (String × MemoryMap)
  calls : List TrapCall

namespace Store

/-- An operation on the store; where it fails, the changes made before stay. -/
abbrev Access (α : Type) : Type := EStateM MemoryError Store α

/-- The greatest number of cells, one for every word. -/
def fullSize : Nat := 59049

def full : Store :=
  ⟨29524, Array.replicate 59049 Tryte.zero, by rw [Array.size_replicate], by decide, [], []⟩

def create (n : Nat) : Except MemoryError Store :=
  if h : n % 2 = 1 ∧ n ≤ 59049 then
    .ok ⟨n / 2, Array.replicate n Tryte.zero, by rw [Array.size_replicate]; omega, by omega, [], []⟩
  else .error (.invalidSize n)

def size (s : Store) : Nat := s.cells.size

def minAddress (s : Store) : Int := -s.maxAddress

def Contains (s : Store) (a : Int) : Prop := -(s.maxAddress : Int) ≤ a ∧ a ≤ s.maxAddress

instance (s : Store) (a : Int) : Decidable (s.Contains a) := inferInstanceAs (Decidable (_ ∧ _))

def index (s : Store) (a : Int) : Nat := (a + s.maxAddress).toNat

theorem index_lt {s : Store} {a : Int} (h : s.Contains a) : s.index a < s.cells.size := by
  have := s.size_cells
  unfold Contains at h
  unfold index
  omega

def outside (s : Store) (a : Int) : MemoryError :=
  .addressOutOfRange a s.minAddress s.maxAddress

def cell (s : Store) (a : Int) (h : s.Contains a) : Tryte :=
  have := index_lt h
  s.cells[s.index a]

def get? (s : Store) (a : Int) : Option Tryte :=
  if h : s.Contains a then some (s.cell a h) else none

def put (s : Store) (a : Int) (h : s.Contains a) (v : Tryte) : Store :=
  { s with
    cells := s.cells.set (s.index a) v (index_lt h)
    size_cells := by rw [Array.size_set]; exact s.size_cells }

def record (s : Store) (call : TrapCall) : Store := { s with calls := call :: s.calls }

/-- The range that is asked about an address: the first registered one that contains it. -/
def mapAt? (s : Store) (a : Int) : Option (String × MemoryMap) :=
  s.maps.find? fun m => m.2.contains a

/-- The name and the answer of the peripheral that hears of a read, if one does. -/
def readAnswer? (s : Store) (a : Int) : Option (String × Option Tryte) :=
  match s.mapAt? a with
  | none => none
  | some (name, m) => m.onRead.map fun answer => (name, answer s.calls a)

def writeListener? (s : Store) (a : Int) : Option String :=
  match s.mapAt? a with
  | none => none
  | some (name, m) => if m.onWrite then some name else none

/-- Replaces the range of a name where it stands, or adds it at the end. -/
def setMap (name : String) (m : MemoryMap) :
    List (String × MemoryMap) → List (String × MemoryMap)
  | [] => [(name, m)]
  | x :: xs => if x.1 = name then (name, m) :: xs else x :: setMap name m xs

def register (s : Store) (name : String) (m : MemoryMap) : Store :=
  { s with maps := setMap name m s.maps }

/-- Reads a cell without asking a peripheral. -/
def peek (s : Store) (a : Int) : Except MemoryError Tryte :=
  match s.get? a with
  | some v => .ok v
  | none => .error (s.outside a)

/-- Reads a cell; what a peripheral answers is stored and returned. -/
def read (a : Int) : Access Tryte := fun s =>
  if h : s.Contains a then
    match s.readAnswer? a with
    | none => .ok (s.cell a h) s
    | some (name, none) =>
      .ok (s.cell a h) (s.record (.read name a none))
    | some (name, some v) => .ok v ((s.put a h v).record (.read name a (some v)))
  else .error (s.outside a) s

/-- Writes a cell and then reports the write to a peripheral. -/
def write (a : Int) (v : Tryte) : Access Unit := fun s =>
  if h : s.Contains a then
    match s.writeListener? a with
    | none => .ok () (s.put a h v)
    | some name => .ok () ((s.put a h v).record (.write name a v))
  else .error (s.outside a) s

/-- Reads two cells as a word, the low half first. -/
def readWord (a : Int) : Access Word := do
  let low ← read a
  let high ← read (a + 1)
  return Word.ofHalves low high

def writeWord (a : Int) (w : Word) : Access Unit := do
  write a w.low
  write (a + 1) w.high

def writeArray : Int → List Tryte → Access Unit
  | _, [] => pure ()
  | a, t :: ts => do
    write a t
    writeArray (a + 1) ts

/-- The cells from `start` up to, but not including, `stop`. -/
def subarray (s : Store) (start stop : Int) : Except MemoryError (List Tryte) :=
  if ¬ s.Contains start then .error (s.outside start)
  else if stop ≤ start then .ok []
  else if ¬ s.Contains (stop - 1) then .error (s.outside (stop - 1))
  else .ok (s.cells.extract (s.index start) (s.index (stop - 1) + 1)).toList

/-- The cells from an address on, at most `n` and none beyond the end of the store. -/
def window (s : Store) : Nat → Int → List Tryte
  | 0, _ => []
  | n + 1, a =>
    match s.get? a with
    | some t => t :: s.window n (a + 1)
    | none => []

def clear (s : Store) : Store :=
  { s with
    cells := Array.replicate s.cells.size Tryte.zero
    size_cells := by rw [Array.size_replicate]; exact s.size_cells }

/-- The addresses and values of the cells that are not zero, in ascending order. -/
def nonzero (s : Store) : List (Int × Tryte) :=
  s.cells.toList.zipIdx.filterMap fun (t, i) =>
    if t.isZero then none else some (s.minAddress + i, t)

def describe (s : Store) : String :=
  let used := s.cells.foldl (fun n t => if t.isZero then n else n + 1) 0
  let names := ", ".intercalate (s.maps.map fun m => Text.quoted m.1)
  "Memory \x7b " ++ s!"non_zero_cells: {used}, total_cells: {s.size}, maps: [{names}]" ++ " \x7d"

theorem get?_eq_none_iff {s : Store} {a : Int} : s.get? a = none ↔ ¬ s.Contains a := by
  unfold get?
  split <;> simp_all

theorem get?_put (s : Store) (a b : Int) (h : s.Contains a) (v : Tryte) :
    (s.put a h v).get? b = if b = a then some v else s.get? b := by
  unfold get?
  by_cases hb : s.Contains b
  · have hb' : (s.put a h v).Contains b := hb
    rw [dif_pos hb', dif_pos hb]
    by_cases hab : b = a
    · subst hab
      simp [put, index, cell]
    · rw [if_neg hab]
      have hne : s.index a ≠ s.index b := by
        unfold Contains at h hb
        unfold index
        omega
      simp only [put, index, cell] at hne ⊢
      rw [Array.getElem_set_ne _ _ hne]
  · have hb' : ¬ (s.put a h v).Contains b := hb
    rw [dif_neg hb', dif_neg hb]
    rw [if_neg]
    rintro rfl
    exact hb h

theorem readAnswer?_of_unmapped {s : Store} (unmapped : s.maps = []) (a : Int) :
    s.readAnswer? a = none := by
  rw [readAnswer?, mapAt?, unmapped]
  rfl

theorem writeListener?_of_unmapped {s : Store} (unmapped : s.maps = []) (a : Int) :
    s.writeListener? a = none := by
  rw [writeListener?, mapAt?, unmapped]
  rfl

theorem peek_of_contains {s : Store} {a : Int} (h : s.Contains a) :
    s.peek a = .ok (s.cell a h) := by
  rw [peek, get?, dif_pos h]

theorem peek_of_not_contains {s : Store} {a : Int} (h : ¬ s.Contains a) :
    s.peek a = .error (s.outside a) := by
  rw [peek, get?, dif_neg h]

theorem peek_put (s : Store) (a b : Int) (h : s.Contains a) (v : Tryte) :
    (s.put a h v).peek b = if b = a then .ok v else s.peek b := by
  unfold peek
  rw [get?_put]
  by_cases same : b = a
  · rw [if_pos same, if_pos same]
  · rw [if_neg same, if_neg same]
    rfl

end Store

end TernaryMachine
