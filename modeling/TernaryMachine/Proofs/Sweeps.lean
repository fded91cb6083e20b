import TernaryMachine.Debugger
import TernaryMachine.Proofs.ImageText
import TernaryMachine.Proofs.StepView

/-!
Disassembly in its three places. A block is swept for a listing; an image is written tryte by tryte,
with a remark wherever the sweep begins an instruction; and the debugger reads three cells at a time
from the program counter on. They stay in step, because no instruction is longer than three trytes
and what begins no instruction is passed over tryte by tryte.
-/

set_option autoImplicit false
set_option relaxedAutoImplicit false

namespace TernaryMachine

open Instruction (Occurrence)

namespace Text

private theorem wordsFrom_append {cs : List Char} (ink : ∀ c ∈ cs, isInk c = true)
    (word rest : List Char) :
    wordsFrom word (cs ++ rest) = wordsFrom (cs.reverse ++ word) rest := by
  induction cs generalizing word with
  | nil => rfl
  | cons c cs ih =>
    obtain ⟨first, others⟩ := List.forall_mem_cons.mp ink
    rw [List.cons_append, wordsFrom, isBlank_eq_false_of_isInk first]
    simp [ih others]

theorem words_intercalate {ws : List (List Char)} (nonempty : ∀ w ∈ ws, w ≠ [])
    (ink : ∀ w ∈ ws, ∀ c ∈ w, isInk c = true) : words (List.intercalate [' '] ws) = ws := by
  have space : isBlank ' ' = true := by decide
  induction ws with
  | nil => rfl
  | cons w ws ih =>
    obtain ⟨filled, nonempty⟩ := List.forall_mem_cons.mp nonempty
    obtain ⟨inked, ink⟩ := List.forall_mem_cons.mp ink
    cases ws with
    | nil =>
      have last := wordsFrom_append inked [] []
      rw [List.append_nil, List.append_nil] at last
      rw [List.intercalate_singleton, words, last, wordsFrom]
      simp [filled]
    | cons v vs =>
      have rest := ih nonempty ink
      rw [words] at rest
      rw [List.intercalate_cons_cons, List.append_assoc, words, wordsFrom_append inked,
        List.append_nil, List.singleton_append, wordsFrom, space]
      simp [filled, rest]

theorem lines_flatMap {α : Type} {line : α → List Char} {xs : List α}
    (single : ∀ x ∈ xs, '\n' ∉ line x ∧ '\r' ∉ line x) :
    lines (xs.flatMap fun x => line x ++ ['\n']) = xs.map line := by
  induction xs with
  | nil => rfl
  | cons x xs ih =>
    obtain ⟨first, others⟩ := List.forall_mem_cons.mp single
    rw [List.flatMap_cons, List.append_assoc, List.singleton_append,
      lines_append_newline first.1 first.2, ih others, List.map_cons]

end Text

namespace Disassembly

open Assembly (isPlain isPlain_of_mem_decimal)

/-- Entries that cover the offsets from `start` to `stop`: each begins where the one before it ends,
and none is longer than an instruction. -/
def Tiles : Nat → List Entry → Nat → Prop
  | start, [], stop => start = stop
  | start, e :: es, stop => e.offset = start ∧ 1 ≤ e.raw.length ∧ e.raw.length ≤ 3
    ∧ Tiles (start + e.raw.length) es stop

structure Entry.StandsIn (code : List Tryte) (e : Entry) : Prop where
  raw : e.raw = (code.drop e.offset).take e.raw.length
  text : (Instruction.disassemble (code.drop e.offset)).toOption
    = e.instruction?.map fun text => (text, e.raw.length)
  data : e.instruction? = none → e.raw = [e.first]

theorem length_occurrence (o : Occurrence) : 1 ≤ o.trytes.length ∧ o.trytes.length ≤ 3 := by
  have size := o.instruction.operandSize_le
  rw [o.length_trytes, Instruction.length]
  omega

theorem tiles_sweepFrom (offset : Nat) (code : List Tryte) :
    Tiles offset (sweepFrom offset code) (offset + code.length) := by
  induction code using sweep_induction generalizing offset with
  | nil => simp [sweepFrom, Tiles]
  | instruction o rest ih =>
    have length := length_occurrence o
    have next := ih (offset + o.trytes.length)
    rw [Nat.add_assoc, ← List.length_append] at next
    rw [sweepFrom_append]
    exact ⟨rfl, length.1, length.2, next⟩
  | data t rest e bad ih =>
    have next := ih (offset + 1)
    rw [Nat.add_assoc, Nat.add_comm 1] at next
    rw [sweepFrom_cons_of_error offset bad]
    exact ⟨rfl, le_refl 1, by simp [Entry.raw], next⟩

theorem standsIn_sweepFrom (before code : List Tryte) :
    ∀ e ∈ sweepFrom before.length code, e.StandsIn (before ++ code) := by
  induction code using sweep_induction generalizing before with
  | nil => simp [sweepFrom]
  | instruction o rest ih =>
    have next := ih (before ++ o.trytes)
    rw [List.length_append, List.append_assoc] at next
    rw [sweepFrom_append]
    refine List.forall_mem_cons.mpr ⟨⟨?_, ?_, ?_⟩, next⟩
    · change o.trytes = ((before ++ (o.trytes ++ rest)).drop before.length).take o.trytes.length
      rw [List.drop_left, List.take_left]
    · change (Instruction.disassemble
        ((before ++ (o.trytes ++ rest)).drop before.length)).toOption = _
      rw [List.drop_left, o.disassemble_append]
      rfl
    · intro absent
      cases absent
  | data t rest e bad ih =>
    have next := ih (before ++ [t])
    rw [List.length_append, List.append_assoc] at next
    rw [sweepFrom_cons_of_error _ bad]
    refine List.forall_mem_cons.mpr ⟨⟨?_, ?_, fun _ => rfl⟩, next⟩
    · change [t] = ((before ++ t :: rest).drop before.length).take 1
      rw [List.drop_left]
      rfl
    · change (Instruction.disassemble ((before ++ t :: rest).drop before.length)).toOption = _
      rw [List.drop_left, bad]
      rfl

theorem offset_le_of_tiles {start stop : Nat} {es : List Entry} (h : Tiles start es stop) :
    ∀ e ∈ es, start ≤ e.offset := by
  induction es generalizing start with
  | nil => simp
  | cons e es ih =>
    obtain ⟨first, -, -, next⟩ := h
    refine List.forall_mem_cons.mpr ⟨first.ge, ?_⟩
    intro e' member
    have := ih next e' member
    omega

/-- The column of raw trytes in a line of a listing: the words behind the semicolon. -/
def rawColumn (line : List Char) : List (List Char) :=
  Text.words ((line.dropWhile fun c => c != ';').drop 1)

def entryLine (origin : Int) (e : Entry) : List Char :=
  Text.padLeft 6 (Text.decimal (origin + e.offset)) ++ ": ".toList ++ Text.padRight 20 e.text
    ++ " ; ".toList ++ writeRaw e.raw

private theorem plain_front {origin : Int} {e : Entry}
    (plain : ∀ c ∈ e.text, isPlain c = true ∨ c = ' ') :
    ∀ c ∈ Text.padLeft 6 (Text.decimal (origin + e.offset)) ++ ": ".toList
      ++ Text.padRight 20 e.text ++ [' '], isPlain c = true ∨ c = ' ' := by
  have colon : ∀ c ∈ ": ".toList, isPlain c = true ∨ c = ' ' :=
    Text.forall_mem_of_all (by decide +kernel)
  have spaces (n : Nat) : ∀ c ∈ List.replicate n ' ', isPlain c = true ∨ c = ' ' :=
    fun c h => .inr (List.eq_of_mem_replicate h)
  have number : ∀ c ∈ Text.decimal (origin + e.offset), isPlain c = true ∨ c = ' ' :=
    fun c h => .inl (isPlain_of_mem_decimal h)
  unfold Text.padLeft Text.padRight
  simp only [List.forall_mem_append]
  exact ⟨⟨⟨⟨spaces _, number⟩, colon⟩, plain, spaces _⟩, by simp⟩

private theorem isInk_of_mem_chars {raw : List Tryte} :
    ∀ w ∈ raw.map Tryte.chars, ∀ c ∈ w, Text.isInk c = true := by
  intro w member c h
  obtain ⟨t, -, rfl⟩ := List.mem_map.mp member
  exact Assembly.isInk_of_isPlain (Tryte.isPlain_of_mem_chars h)

private theorem plain_writeRaw (raw : List Tryte) :
    ∀ c ∈ writeRaw raw, isPlain c = true ∨ c = ' ' := by
  induction raw with
  | nil => simp [writeRaw]
  | cons t ts ih =>
    have first : ∀ c ∈ t.chars, isPlain c = true ∨ c = ' ' :=
      fun c h => .inl (Tryte.isPlain_of_mem_chars h)
    cases ts with
    | nil =>
      rw [writeRaw, List.map_singleton, List.intercalate_singleton]
      exact first
    | cons u us =>
      rw [writeRaw, List.map_cons, List.map_cons, List.intercalate_cons_cons]
      rw [writeRaw, List.map_cons] at ih
      exact List.forall_mem_append.mpr ⟨List.forall_mem_append.mpr ⟨first, by simp⟩, ih⟩

private theorem entryLine_eq (origin : Int) (e : Entry) : entryLine origin e
    = (Text.padLeft 6 (Text.decimal (origin + e.offset)) ++ ": ".toList
      ++ Text.padRight 20 e.text ++ [' ']) ++ ';' :: ' ' :: writeRaw e.raw := by
  simp [entryLine]

theorem rawColumn_entryLine (origin : Int) {e : Entry}
    (plain : ∀ c ∈ e.text, isPlain c = true ∨ c = ' ') :
    rawColumn (entryLine origin e) = e.raw.map Tryte.chars := by
  have front : ∀ c ∈ Text.padLeft 6 (Text.decimal (origin + e.offset)) ++ ": ".toList
      ++ Text.padRight 20 e.text ++ [' '], (c != ';') = true := by
    intro c member
    rcases plain_front plain c member with letter | rfl
    · have other : c ≠ ';' := by
        rintro rfl
        exact absurd letter (by decide)
      simp [other]
    · decide
  have filled : ∀ w ∈ e.raw.map Tryte.chars, w ≠ [] := by
    intro w member
    obtain ⟨t, -, rfl⟩ := List.mem_map.mp member
    simp [Tryte.chars_eq]
  rw [rawColumn, entryLine_eq, List.dropWhile_append_of_pos front]
  exact Text.words_intercalate filled isInk_of_mem_chars

private theorem not_mem_entryLine (origin : Int) {e : Entry}
    (plain : ∀ c ∈ e.text, isPlain c = true ∨ c = ' ') :
    '\n' ∉ entryLine origin e ∧ '\r' ∉ entryLine origin e := by
  apply Image.not_mem_of_isPlain
  rw [entryLine_eq]
  refine List.forall_mem_append.mpr ⟨?_, List.forall_mem_cons.mpr ⟨.inr (.inr rfl), ?_⟩⟩
  · intro c member
    exact (plain_front plain c member).imp_right .inl
  · refine List.forall_mem_cons.mpr ⟨.inr (.inl rfl), ?_⟩
    intro c member
    exact (plain_writeRaw e.raw c member).imp_right .inl

def summaryLine (p : Program) : List Char :=
  "; origin ".toList ++ Text.decimal p.origin ++ ", ".toList ++ Text.natDigits p.code.length
    ++ " trytes".toList

private theorem plain_summaryLine (p : Program) :
    ∀ c ∈ summaryLine p, isPlain c = true ∨ c = ' ' ∨ c = ';' := by
  have front : ∀ c ∈ "; origin ".toList, isPlain c = true ∨ c = ' ' ∨ c = ';' :=
    Text.forall_mem_of_all (by decide +kernel)
  have middle : ∀ c ∈ ", ".toList, isPlain c = true ∨ c = ' ' ∨ c = ';' :=
    Text.forall_mem_of_all (by decide +kernel)
  have back : ∀ c ∈ " trytes".toList, isPlain c = true ∨ c = ' ' ∨ c = ';' :=
    Text.forall_mem_of_all (by decide +kernel)
  have origin : ∀ c ∈ Text.decimal p.origin, isPlain c = true ∨ c = ' ' ∨ c = ';' :=
    fun c h => .inl (isPlain_of_mem_decimal h)
  have count : ∀ c ∈ Text.natDigits p.code.length, isPlain c = true ∨ c = ' ' ∨ c = ';' :=
    fun c h => .inl (Assembly.isPlain_of_isDigit (Text.isDigit_of_mem_natDigits _ c h))
  intro c member
  rcases List.mem_append.mp member with member | member
  · rcases List.mem_append.mp member with member | member
    · rcases List.mem_append.mp member with member | member
      · rcases List.mem_append.mp member with member | member
        · exact front c member
        · exact origin c member
      · exact middle c member
    · exact count c member
  · exact back c member

theorem lines_listing (p : Program) : Text.lines (listing p)
    = "; trit-cpu disassembly".toList :: summaryLine p :: []
      :: (sweep p.code).map (entryLine p.origin) := by
  have title : '\n' ∉ "; trit-cpu disassembly".toList ∧ '\r' ∉ "; trit-cpu disassembly".toList := by
    decide +kernel
  have summary := Image.not_mem_of_isPlain (plain_summaryLine p)
  have entries : Text.lines ((sweep p.code).flatMap (writeEntry p.origin))
      = (sweep p.code).map (entryLine p.origin) := by
    apply Text.lines_flatMap
    intro e member
    exact not_mem_entryLine p.origin (line_spec p.code e.text (List.mem_map_of_mem member)).2
  generalize swept : (sweep p.code).flatMap (writeEntry p.origin) = body at entries
  have first : "; trit-cpu disassembly\n; origin ".toList
      = "; trit-cpu disassembly".toList ++ '\n' :: "; origin ".toList := by decide +kernel
  have second : " trytes\n\n".toList = " trytes".toList ++ ['\n', '\n'] := by decide +kernel
  have parts : listing p = "; trit-cpu disassembly".toList ++ '\n' :: (summaryLine p ++ '\n' ::
      ([] ++ '\n' :: body)) := by
    unfold listing summaryLine
    rw [swept, first, second]
    simp only [List.append_assoc, List.cons_append, List.nil_append]
  rw [parts, Text.lines_append_newline title.1 title.2,
    Text.lines_append_newline summary.1 summary.2, Text.lines_append_newline (by simp) (by simp),
    entries]

theorem flatMap_rawColumn (p : Program) :
    ((Text.lines (listing p)).drop 3).flatMap rawColumn = p.code.map Tryte.chars := by
  have column (e : Entry) (member : e ∈ sweep p.code) :
      rawColumn (entryLine p.origin e) = e.raw.map Tryte.chars :=
    rawColumn_entryLine p.origin (line_spec p.code e.text (List.mem_map_of_mem member)).2
  calc ((Text.lines (listing p)).drop 3).flatMap rawColumn
      = (sweep p.code).flatMap fun e => rawColumn (entryLine p.origin e) := by
        rw [lines_listing, List.drop_succ_cons, List.drop_succ_cons, List.drop_succ_cons,
          List.drop_zero, List.flatMap_map]
    _ = (sweep p.code).flatMap fun e => e.raw.map Tryte.chars := List.flatMap_congr column
    _ = ((sweep p.code).flatMap Entry.raw).map Tryte.chars := List.map_flatMap.symm
    _ = p.code.map Tryte.chars := congrArg _ (flatMap_raw_sweepFrom 0 p.code)

/-- The text of the instruction that begins at an offset, none if the sweep begins none there. -/
def instructionAt? (es : List Entry) (offset : Nat) : Option (List Char) :=
  (es.find? fun e => e.offset == offset).bind Entry.instruction?

theorem instructionAt?_cons_of_ne {e : Entry} {offset : Nat} (h : e.offset ≠ offset)
    (es : List Entry) : instructionAt? (e :: es) offset = instructionAt? es offset := by
  rw [instructionAt?, List.find?_cons_of_neg (by simpa using h)]
  rfl

theorem instructionAt?_of_lt {offset k : Nat} (h : k < offset) (code : List Tryte) :
    instructionAt? (sweepFrom offset code) k = none := by
  have nothing : (sweepFrom offset code).find? (fun e => e.offset == k) = none := by
    rw [List.find?_eq_none]
    intro e member
    have := offset_le_of_tiles (tiles_sweepFrom offset code) e member
    simp only [beq_iff_eq]
    omega
  rw [instructionAt?, nothing]
  rfl

end Disassembly

namespace Image

open Disassembly (Entry sweep sweepFrom sweepFrom_append sweepFrom_cons_of_error sweep_induction
  instructionAt? instructionAt?_cons_of_ne instructionAt?_of_lt line_spec)
open Assembly (isPlain)

def remark : Option (List Char) → List Char
  | some text => ' ' :: ' ' :: text
  | none => []

/-- The lines of trytes in one pass, an instruction being looked for at the offset `next` only:
where there is one, the next is looked for behind it, and where there is none, at the tryte that
follows. -/
def markedLines (base : Int) : Nat → Nat → List Tryte → List (List Char)
  | _, _, [] => []
  | next, offset, t :: ts =>
    if offset = next then
      match Instruction.disassemble (t :: ts) with
      | .ok (text, length) =>
        tryteLine (base + offset) t (remark (some text))
          :: markedLines base (next + length) (offset + 1) ts
      | .error _ =>
        tryteLine (base + offset) t (remark none) :: markedLines base (next + 1) (offset + 1) ts
    else tryteLine (base + offset) t (remark none) :: markedLines base next (offset + 1) ts

def entryLines (base : Int) (e : Entry) : List (List Char) :=
  tryteLine (base + e.offset) e.first (remark e.instruction?)
    :: e.operand.mapIdx fun k t => tryteLine (base + e.offset + 1 + k) t (remark none)

theorem lines_writeTrytes (address : Int) (ts : List Tryte) (rest : List Char) :
    Text.lines (writeTrytes address ts ++ rest)
      = ts.mapIdx (fun k t => tryteLine (address + k) t (remark none)) ++ Text.lines rest := by
  induction ts generalizing address with
  | nil => rfl
  | cons t ts ih =>
    have bare : ∀ c ∈ remark none, isPlain c = true ∨ c = ' ' := by simp [remark]
    have first := lines_writeTryte address t bare (writeTrytes (address + 1) ts ++ rest)
    rw [writeTrytes, List.append_assoc]
    refine first.trans ?_
    rw [ih, List.mapIdx_cons, List.cons_append]
    simp [Int.add_assoc, Int.add_comm 1]

theorem lines_writeEntry (base : Int) {e : Entry}
    (plain : ∀ c ∈ remark e.instruction?, isPlain c = true ∨ c = ' ') (rest : List Char) :
    Text.lines (writeEntry base e ++ rest) = entryLines base e ++ Text.lines rest := by
  have written : writeEntry base e = writeTryte (base + e.offset) e.first (remark e.instruction?)
      ++ writeTrytes (base + e.offset + 1) e.operand := by
    obtain ⟨offset, first, operand, shown⟩ := e
    cases shown <;> rfl
  rw [written, List.append_assoc, lines_writeTryte _ _ plain, lines_writeTrytes]
  rfl

theorem lines_sweepFrom (base : Int) (offset : Nat) (block : List Tryte) :
    Text.lines ((sweepFrom offset block).flatMap (writeEntry base))
      = (sweepFrom offset block).flatMap (entryLines base) := by
  induction block using sweep_induction generalizing offset with
  | nil => simp [sweepFrom, Text.lines, Text.linesFrom]
  | instruction o rest ih =>
    have plain : ∀ c ∈ remark (o.entry offset).instruction?, isPlain c = true ∨ c = ' ' :=
      List.forall_mem_cons.mpr ⟨.inr rfl,
        List.forall_mem_cons.mpr ⟨.inr rfl, o.isPlain_of_mem_text⟩⟩
    rw [sweepFrom_append, List.flatMap_cons, lines_writeEntry base plain, ih, List.flatMap_cons]
  | data t rest e bad ih =>
    have plain : ∀ c ∈ remark (⟨offset, t, [], none⟩ : Entry).instruction?,
        isPlain c = true ∨ c = ' ' := by simp [remark]
    rw [sweepFrom_cons_of_error offset bad, List.flatMap_cons, lines_writeEntry base plain, ih,
      List.flatMap_cons]

theorem markedLines_append (base : Int) (offset : Nat) (ts rest : List Tryte) :
    markedLines base (offset + ts.length) offset (ts ++ rest)
      = ts.mapIdx (fun k t => tryteLine (base + offset + k) t (remark none))
        ++ markedLines base (offset + ts.length) (offset + ts.length) rest := by
  induction ts generalizing offset with
  | nil => rfl
  | cons t ts ih =>
    have behind : offset ≠ offset + (t :: ts).length := by simp
    have next := ih (offset + 1)
    have shifted : offset + 1 + ts.length = offset + (t :: ts).length := by
      rw [List.length_cons]
      omega
    rw [shifted] at next
    rw [List.cons_append, markedLines, if_neg behind, next, List.mapIdx_cons, List.cons_append]
    simp [Int.add_assoc, Int.add_comm 1]

theorem flatMap_entryLines (base : Int) (offset : Nat) (block : List Tryte) :
    (sweepFrom offset block).flatMap (entryLines base) = markedLines base offset offset block := by
  induction block using sweep_induction generalizing offset with
  | nil => simp [sweepFrom, markedLines]
  | instruction o rest ih =>
    let operand := Instruction.operandTrytes o.instruction.operandSize o.value
    have read : Instruction.disassemble (o.instruction.encode :: (operand ++ rest))
        = .ok (o.text, o.trytes.length) := o.disassemble_append rest
    have length : offset + o.trytes.length = offset + 1 + operand.length := by
      change offset + (operand.length + 1) = _
      omega
    have behind := markedLines_append base (offset + 1) operand rest
    rw [sweepFrom_append, List.flatMap_cons, ih]
    change _ = markedLines base offset offset (o.instruction.encode :: (operand ++ rest))
    rw [markedLines, if_pos rfl, read]
    simp only
    rw [length, behind]
    simp [entryLines, Occurrence.entry, Int.add_assoc, operand]
  | data t rest e bad ih =>
    rw [sweepFrom_cons_of_error offset bad, List.flatMap_cons, ih, markedLines, if_pos rfl, bad]
    rfl

private theorem mapIdx_raw_append (base : Int) (e : Entry) (rest : List Tryte) :
    (e.raw ++ rest).mapIdx (fun k t => tryteLine (base + (e.offset + k : Nat)) t
        (remark (instructionAt? (e :: sweepFrom (e.offset + e.raw.length) rest) (e.offset + k))))
      = entryLines base e ++ rest.mapIdx fun k t =>
        tryteLine (base + (e.offset + e.raw.length + k : Nat)) t
          (remark (instructionAt? (sweepFrom (e.offset + e.raw.length) rest)
            (e.offset + e.raw.length + k))) := by
  have length : e.raw.length = e.operand.length + 1 := rfl
  rw [List.mapIdx_append]
  congr 1
  · have found (es : List Entry) : instructionAt? (e :: es) e.offset = e.instruction? := by
      rw [instructionAt?, List.find?_cons_of_pos (by simp)]
      rfl
    rw [Entry.raw, List.mapIdx_cons, entryLines, Nat.add_zero, found]
    congr 1
    rw [List.mapIdx_eq_mapIdx_iff]
    intro k inside
    rw [instructionAt?_cons_of_ne (by omega),
      instructionAt?_of_lt (by rw [List.length_cons]; omega)]
    congr 1
    omega
  · rw [List.mapIdx_eq_mapIdx_iff]
    intro k _
    have place : e.offset + (k + e.raw.length) = e.offset + e.raw.length + k := by omega
    rw [place, instructionAt?_cons_of_ne (by omega)]

theorem flatMap_entryLines_eq_mapIdx (base : Int) (offset : Nat) (block : List Tryte) :
    (sweepFrom offset block).flatMap (entryLines base) = block.mapIdx fun k t =>
      tryteLine (base + (offset + k : Nat)) t
        (remark (instructionAt? (sweepFrom offset block) (offset + k))) := by
  induction block using sweep_induction generalizing offset with
  | nil => simp [sweepFrom]
  | instruction o rest ih =>
    rw [sweepFrom_append, List.flatMap_cons, ih]
    exact (mapIdx_raw_append base (o.entry offset) rest).symm
  | data t rest e bad ih =>
    rw [sweepFrom_cons_of_error offset bad, List.flatMap_cons, ih]
    exact (mapIdx_raw_append base ⟨offset, t, [], none⟩ rest).symm

end Image

namespace Store

def cellsFrom (s : Store) (a : Int) : List Tryte := s.window (s.maxAddress + 1 - a).toNat a

theorem getElem?_window {s : Store} {a : Int} (above : s.minAddress ≤ a) (n k : Nat) :
    (s.window n a)[k]? = if k < n then s.get? (a + k) else none := by
  induction n generalizing a k with
  | zero => rfl
  | succ n ih =>
    rw [window]
    cases cell : s.get? a with
    | none =>
      have beyond := get?_eq_none_iff.mp cell
      have next : s.get? (a + k) = none := by
        rw [get?_eq_none_iff]
        unfold Contains minAddress at *
        omega
      simp [next]
    | some t =>
      cases k with
      | zero => simp [cell]
      | succ k =>
        have place : a + 1 + (k : Int) = a + (k + 1 : Nat) := by omega
        simp only [List.getElem?_cons_succ, Nat.add_lt_add_iff_right]
        rw [ih (by omega), place]

theorem getElem?_cellsFrom {s : Store} {a : Int} (above : s.minAddress ≤ a) (k : Nat) :
    (s.cellsFrom a)[k]? = s.get? (a + k) := by
  rw [cellsFrom, getElem?_window above]
  split
  · rfl
  · rw [eq_comm, get?_eq_none_iff]
    unfold Contains
    omega

theorem drop_cellsFrom {s : Store} {a : Int} (above : s.minAddress ≤ a) (k : Nat) :
    (s.cellsFrom a).drop k = s.cellsFrom (a + k) := by
  apply List.ext_getElem?
  intro i
  rw [List.getElem?_drop, getElem?_cellsFrom above, getElem?_cellsFrom (by omega)]
  congr 1
  omega

theorem cellsFrom_of_append {s : Store} {a : Int} {front rest : List Tryte}
    (above : s.minAddress ≤ a) (cells : s.cellsFrom a = front ++ rest) :
    s.cellsFrom (a + front.length) = rest := by
  rw [← drop_cellsFrom above, cells, List.drop_left]

theorem window_three {s : Store} {a : Int} (above : s.minAddress ≤ a) :
    s.window 3 a = (s.cellsFrom a).take 3 := by
  apply List.ext_getElem?
  intro i
  rw [List.getElem?_take, getElem?_window above, getElem?_cellsFrom above]

end Store

namespace Debugger

open Disassembly (Entry sweep sweepFrom sweepFrom_append sweepFrom_cons_of_error sweep_induction
  length_occurrence tiles_sweepFrom offset_le_of_tiles)

theorem textAt_of_occurrence {s : Store} {a : Int} (above : s.minAddress ≤ a) {o : Occurrence}
    {rest : List Tryte} (cells : s.cellsFrom a = o.trytes ++ rest) :
    textAt s a = (o.text, o.trytes.length) := by
  have seen : s.window 3 a = o.trytes ++ rest.take (3 - o.trytes.length) := by
    rw [Store.window_three above, cells, List.take_append, List.take_of_length_le]
    exact (length_occurrence o).2
  simp only [textAt, seen, o.disassemble_append]

theorem textAt_of_error {s : Store} {a : Int} (above : s.minAddress ≤ a) {t : Tryte}
    {rest : List Tryte} {e : DecodeError} (cells : s.cellsFrom a = t :: rest)
    (bad : Instruction.disassemble (t :: rest) = .error e) :
    textAt s a = (".tryte ".toList ++ Text.decimal t.val, 1) := by
  have seen : s.window 3 a = t :: rest.take 2 := by
    rw [Store.window_three above, cells]
    rfl
  have none : ∃ e', Instruction.disassemble (t :: rest.take 2) = .error e' := by
    cases read : Instruction.disassemble (t :: rest.take 2) with
    | error e' => exact ⟨e', rfl⟩
    | ok found =>
      obtain ⟨text, length⟩ := found
      obtain ⟨o, tail, split, -⟩ := Instruction.exists_occurrence_of_disassemble read
      have whole : t :: rest = o.trytes ++ (tail ++ rest.drop 2) := by
        rw [← List.append_assoc, ← split, List.cons_append, List.take_append_drop]
      rw [whole, o.disassemble_append] at bad
      contradiction
  obtain ⟨e', read⟩ := none
  simp only [textAt, seen, read]

/-- From a cell on, the debugger shows the sweep of the cells up to the last one. -/
theorem disassemblyFrom_eq_sweepFrom {s : Store} {pc : Int} (above : s.minAddress ≤ pc)
    (n k : Nat) : disassemblyFrom s pc n (pc + k)
      = ((sweepFrom k (s.cellsFrom (pc + k))).take n).map fun e =>
        (pc + e.offset, e.text, e.offset == 0) := by
  induction n generalizing k with
  | zero => rfl
  | succ n ih =>
    have here : decide (pc + (k : Int) = pc) = (k == 0) := by
      rw [Bool.eq_iff_iff]
      simp
    have above : s.minAddress ≤ pc + k := by omega
    rw [disassemblyFrom]
    split
    · rename_i beyond
      have empty : s.cellsFrom (pc + k) = [] := by
        have none : (s.maxAddress + 1 - (pc + k)).toNat = 0 := by omega
        rw [Store.cellsFrom, none, Store.window]
      simp [empty, sweepFrom]
    · rename_i inside
      generalize cells : s.cellsFrom (pc + k) = block
      cases block using sweep_induction with
      | nil =>
        have first := Store.getElem?_cellsFrom above 0
        rw [cells] at first
        have outside := Store.get?_eq_none_iff.mp first.symm
        unfold Store.Contains Store.minAddress at *
        omega
      | instruction o rest _ =>
        have tail := Store.cellsFrom_of_append above cells
        have next := ih (k + o.trytes.length)
        rw [Int.natCast_add, ← Int.add_assoc, tail] at next
        rw [textAt_of_occurrence above cells, sweepFrom_append, List.take_succ_cons, List.map_cons,
          ← next]
        simp only [here]
        rfl
      | data t rest e bad _ =>
        have tail : s.cellsFrom (pc + k + (1 : Nat)) = rest :=
          @Store.cellsFrom_of_append s (pc + k) [t] rest above cells
        have next := ih (k + 1)
        rw [Int.natCast_add, ← Int.add_assoc, tail] at next
        rw [textAt_of_error above cells bad, sweepFrom_cons_of_error k bad, List.take_succ_cons,
          List.map_cons, ← next]
        simp only [here]
        rfl

private theorem map_sweep {β : Type} (f : Bool → Entry → β) (code : List Tryte) (n : Nat) :
    ((sweep code).take n).map (fun e => f (e.offset == 0) e)
      = ((sweep code).take n).mapIdx fun k e => f (k == 0) e := by
  have tiles := tiles_sweepFrom 0 code
  rw [sweep]
  generalize sweepFrom 0 code = es at tiles
  cases es with
  | nil => simp
  | cons e es =>
    obtain ⟨first, filled, -, next⟩ := tiles
    cases n with
    | zero => rfl
    | succ n =>
      rw [List.take_succ_cons, List.map_cons, List.mapIdx_cons, first]
      congr 1
      have behind : ∀ e' ∈ es.take n, f (e'.offset == 0) e' = f false e' := by
        intro e' member
        have later := offset_le_of_tiles next e' (List.mem_of_mem_take member)
        have other : e'.offset ≠ 0 := by omega
        rw [beq_eq_false_iff_ne.mpr other]
      rw [List.map_congr_left behind]
      apply List.ext_getElem?
      intro k
      rw [List.getElem?_map, List.getElem?_mapIdx]
      rfl

end Debugger

namespace Image

def heading (p : Program) : List (List Char) :=
  [titleLine, originLine p.origin, countLine p.code.length, []]

end Image

/-- The three disassemblies of a block agree. The entries of its sweep cover it without gaps, each
with the trytes and the text at its offset, and the columns of raw trytes in a listing are the
block. An image has a line for every tryte, with a remark on exactly those at which the sweep begins
an instruction; one pass over the trytes with a marker for the next instruction writes the same. And
the debugger shows the first lines of the sweep of the cells from the program counter to the last
one, with their addresses, of which only the first is marked. -/
theorem sweeps_agree (p : Program) (d : Debugger) (n : Nat)
    (inside : d.machine.store.Contains d.machine.registers.pc) :
    (Disassembly.Tiles 0 (Disassembly.sweep p.code) p.code.length
      ∧ (∀ e ∈ Disassembly.sweep p.code, e.StandsIn p.code)
      ∧ ((Text.lines (Disassembly.listing p)).drop 3).flatMap Disassembly.rawColumn
        = p.code.map Tryte.chars)
    ∧ (Text.lines (Image.write p) = Image.heading p ++ p.code.mapIdx fun k t =>
        Image.tryteLine (p.origin + k) t
          (Image.remark (Disassembly.instructionAt? (Disassembly.sweep p.code) k)))
    ∧ Text.lines (Image.write p) = Image.heading p ++ Image.markedLines p.origin 0 0 p.code
    ∧ (∀ k : Nat, (d.machine.store.cellsFrom d.machine.registers.pc)[k]?
        = d.machine.store.get? (d.machine.registers.pc + k))
    ∧ d.disassembly n
      = ((Disassembly.sweep (d.machine.store.cellsFrom d.machine.registers.pc)).take n).mapIdx
        fun k e => (d.machine.registers.pc + e.offset, e.text, k == 0) := by
  have above : d.machine.store.minAddress ≤ d.machine.registers.pc := inside.1
  have tiles := Disassembly.tiles_sweepFrom 0 p.code
  rw [Nat.zero_add] at tiles
  have image := (Image.lines_write p).trans
    (congrArg (Image.heading p ++ ·) (Image.lines_sweepFrom p.origin 0 p.code))
  refine ⟨⟨tiles, Disassembly.standsIn_sweepFrom [] p.code, Disassembly.flatMap_rawColumn p⟩,
    image.trans ?_, image.trans ?_, Store.getElem?_cellsFrom above, ?_⟩
  · have remarks := Image.flatMap_entryLines_eq_mapIdx p.origin 0 p.code
    simp only [Nat.zero_add] at remarks
    exact congrArg (Image.heading p ++ ·) remarks
  · exact congrArg (Image.heading p ++ ·) (Image.flatMap_entryLines p.origin 0 p.code)
  · have shown := Debugger.disassemblyFrom_eq_sweepFrom above n 0
    simp only [Nat.cast_zero, Int.add_zero] at shown
    exact shown.trans (Debugger.map_sweep
      (fun first e => (d.machine.registers.pc + e.offset, e.text, first)) _ n)

theorem sweeps_agree_at_the_end :
    let empty : Store := ⟨13, Array.replicate 27 Tryte.zero, by decide, by decide, [], []⟩
    let lda := (Instruction.alu .lda .immediate).encode
    let p : Program := ⟨11, [lda, Tryte.ofDigits 5 0, lda]⟩
    let m := (((Machine.powerOn {} empty).load p).machine).update fun r => { r with pc := 11 }
    let d : Debugger := ⟨m, p, {}, [], false, false, "", 0⟩
    Disassembly.Tiles 0 (Disassembly.sweep p.code) 3
    ∧ d.machine.store.Contains d.machine.registers.pc
    ∧ d.machine.store.cellsFrom d.machine.registers.pc = p.code
    ∧ d.disassembly 5 = ((Disassembly.sweep p.code).take 5).mapIdx fun k e =>
      (11 + (e.offset : Int), e.text, k == 0) := by
  intro empty lda p m d
  have inside : d.machine.store.Contains d.machine.registers.pc := by decide +kernel
  have cells : d.machine.store.cellsFrom d.machine.registers.pc = p.code := by decide +kernel
  have counter : d.machine.registers.pc = 11 := by decide +kernel
  obtain ⟨⟨tiles, -, -⟩, -, -, -, shown⟩ := sweeps_agree p d 5 inside
  rw [cells, counter] at shown
  exact ⟨tiles, inside, cells, shown⟩

end TernaryMachine
