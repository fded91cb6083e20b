import TernaryMachine.Image
import TernaryMachine.Proofs.Patching
import TernaryMachine.Proofs.RoundTrip

/-!
Program images are read as they were written. The reader takes the digits of a line up to its first
semicolon, so that no remark is read as data, and of the comment lines only the one that begins with
the word for the origin counts. The origin is a word; where it is none, reading stops at its line.
-/

set_option autoImplicit false
set_option relaxedAutoImplicit false

namespace TernaryMachine

namespace Text

theorem trimEnd_append_cons (xs : List Char) {c : Char} (ink : isInk c = true) (ys : List Char) :
    trimEnd (xs ++ c :: ys) = xs ++ c :: trimEnd ys := by
  have blank : ¬ isBlank c = true := by simp [isBlank_eq_false_of_isInk ink]
  have turned : (xs ++ c :: ys).reverse = ys.reverse ++ c :: xs.reverse := by simp
  unfold trimEnd trimStart
  rw [turned, List.dropWhile_append]
  split
  · rename_i nothing
    rw [List.isEmpty_iff.mp nothing, List.dropWhile_cons_of_neg blank]
    simp
  · simp

theorem trimStart_cons {c : Char} (ink : isInk c = true) (cs : List Char) :
    trimStart (c :: cs) = c :: cs :=
  List.dropWhile_cons_of_neg (by simp [isBlank_eq_false_of_isInk ink])

theorem trim_cons {c : Char} (ink : isInk c = true) (cs : List Char) :
    trim (c :: cs) = c :: trimEnd cs := by
  rw [trim, trimStart_cons ink]
  exact trimEnd_append_cons [] ink cs

theorem trim_append_blank {cs : List Char} (ink : ∀ c ∈ cs, isInk c = true) :
    trim (cs ++ [' ']) = cs := by
  cases cs with
  | nil => rfl
  | cons first others =>
    rw [List.cons_append, trim_cons (ink first List.mem_cons_self)]
    congr 1
    rcases List.eq_nil_or_concat others with rfl | ⟨front, last, rfl⟩
    · rfl
    · rw [List.concat_eq_append, List.append_assoc] at *
      exact trimEnd_append_cons front (ink last (by simp)) [' ']

theorem trimEnd_decimal (cs : List Char) (n : Int) : trimEnd (cs ++ decimal n) = cs ++ decimal n := by
  obtain ⟨front, d, same, digit⟩ := exists_decimal_eq_append n
  have ink := Assembly.isInk_of_isPlain (Assembly.isPlain_of_isDigit digit)
  rw [same, ← List.append_assoc]
  exact trimEnd_append_cons (cs ++ front) ink []

theorem trim_decimal (n : Int) : trim (decimal n) = decimal n := by
  have ink (c : Char) (h : c ∈ decimal n) : isInk c = true :=
    Assembly.isInk_of_isPlain (Assembly.isPlain_of_mem_decimal h)
  apply trim_of_ink
  · intro c h
    exact ink c (List.mem_of_head? h)
  · intro c h
    exact ink c (List.mem_of_getLast? h)

end Text

theorem Trit.isPlain_toChar (t : Trit) : Assembly.isPlain t.toChar = true := by
  cases t <;> decide

namespace Tryte

theorem chars_eq (t : Tryte) : t.chars = [(t.trit 4).toChar, (t.trit 3).toChar, (t.trit 2).toChar,
    (t.trit 1).toChar, (t.trit 0).toChar] := rfl

theorem isPlain_of_mem_chars {t : Tryte} {c : Char} (h : c ∈ t.chars) :
    Assembly.isPlain c = true := by
  obtain ⟨d, -, rfl⟩ := List.mem_map.mp h
  exact d.isPlain_toChar

private theorem readFrom_toChar (text : String) {n : Int} (d : Trit) (cs : List Char)
    (fits : Signed32.InRange (n * 3 + d.toInt)) :
    Radix.ternary.readFrom text n (d.toChar :: cs)
      = Radix.ternary.readFrom text (n * 3 + d.toInt) cs := by
  have digit : Radix.ternary.digit? d.toChar = some d.toInt := by
    simp [Radix.digit?]
  have sum : Signed32.check? (n * Radix.ternary.base + d.toInt) = some (n * 3 + d.toInt) :=
    Signed32.check?_of_inRange fits
  rw [Radix.readFrom, digit]
  simp only [sum]

theorem read_chars (t : Tryte) : Radix.ternary.read t.chars = .ok t.val := by
  have value := t.val_eq_trits
  have lower (i : Fin 5) := (t.trit i).neg_one_le_toInt
  have upper (i : Fin 5) := (t.trit i).toInt_le_one
  have l0 := lower 0
  have l1 := lower 1
  have l2 := lower 2
  have l3 := lower 3
  have l4 := lower 4
  have u0 := upper 0
  have u1 := upper 1
  have u2 := upper 2
  have u3 := upper 3
  have u4 := upper 4
  have range : ∀ n : Int, -121 ≤ n → n ≤ 121 → Signed32.InRange n := by
    intro n low high
    simp only [Signed32.InRange, Signed32.minValue, Signed32.maxValue]
    omega
  rw [Radix.read, chars_eq]
  change Radix.ternary.readFrom _ 0 _ = _
  -- the value of every beginning of the literal is a tryte too
  rw [readFrom_toChar _ _ _ (range _ (by omega) (by omega)),
    readFrom_toChar _ _ _ (range _ (by omega) (by omega)),
    readFrom_toChar _ _ _ (range _ (by omega) (by omega)),
    readFrom_toChar _ _ _ (range _ (by omega) (by omega)),
    readFrom_toChar _ _ _ (range _ (by omega) (by omega)), Radix.readFrom]
  congr 1
  omega

end Tryte

namespace Image

open Assembly (isPlain isInk_of_isPlain)
open Disassembly (sweepFrom sweepFrom_append sweepFrom_cons_of_error sweep_induction)

theorem Line.parse_remark {digits : List Char} (filled : digits ≠ [])
    (plain : ∀ c ∈ digits, isPlain c = true) (remark : List Char) :
    Line.parse (digits ++ ' ' :: ';' :: remark) = parseDigits digits := by
  obtain ⟨first, others, rfl⟩ := List.exists_cons_of_ne_nil filled
  have ink : Text.isInk first = true := isInk_of_isPlain (plain first List.mem_cons_self)
  have data : first ≠ ';' := by
    rintro rfl
    exact absurd (plain ';' List.mem_cons_self) (by decide)
  have trimmed : Text.trim (first :: others ++ ' ' :: ';' :: remark)
      = first :: (others ++ ' ' :: ';' :: Text.trimEnd remark) := by
    rw [List.cons_append, Text.trim_cons ink]
    congr 1
    have semicolon := Text.trimEnd_append_cons (others ++ [' ']) (c := ';') (by decide) remark
    simpa using semicolon
  have cut : (first :: (others ++ ' ' :: ';' :: Text.trimEnd remark)).takeWhile (fun c => c != ';')
      = first :: others ++ [' '] := by
    have kept : ∀ c ∈ first :: others ++ [' '], (c != ';') = true := by
      intro c hc
      rcases List.mem_append.mp hc with hc | hc
      · have := plain c hc
        simp only [isPlain, Bool.and_eq_true] at this
        exact this.2
      · rw [List.mem_singleton.mp hc]
        decide
    have joined : first :: (others ++ ' ' :: ';' :: Text.trimEnd remark)
        = (first :: others ++ [' ']) ++ ';' :: Text.trimEnd remark := by simp
    rw [joined, List.takeWhile_append_of_pos kept]
    simp
  have bare : Text.trim (first :: others ++ [' ']) = first :: others :=
    Text.trim_append_blank fun c hc => isInk_of_isPlain (plain c hc)
  unfold Line.parse
  rw [trimmed]
  split
  · rename_i comment same
    exact absurd (List.cons.inj same).1 data
  · rw [cut, bare]

theorem Line.parse_comment (comment : List Char) :
    Line.parse (';' :: comment) = parseComment (Text.trimEnd comment) := by
  have trimmed : Text.trim (';' :: comment) = ';' :: Text.trimEnd comment :=
    Text.trim_cons (by decide) comment
  unfold Line.parse
  rw [trimmed]
  rfl

theorem parseDigits_chars (t : Tryte) : parseDigits t.chars = .ok (.tryte t) := by
  have filled : t.chars.isEmpty = false := rfl
  have width : ¬ t.chars.length ≠ Tryte.width := not_not.mpr rfl
  unfold parseDigits
  rw [filled, if_neg width, t.read_chars]
  simp

def tryteLine (address : Int) (t : Tryte) (remark : List Char) : List Char :=
  t.chars ++ " ; ".toList ++ Text.padLeft 6 (Text.decimal address) ++ remark

theorem parse_tryteLine (address : Int) (t : Tryte) (remark : List Char) :
    Line.parse (tryteLine address t remark) = .ok (.tryte t) := by
  have written : tryteLine address t remark
      = t.chars ++ ' ' :: ';' :: (' ' :: (Text.padLeft 6 (Text.decimal address) ++ remark)) := by
    simp [tryteLine]
  rw [written, Line.parse_remark (by simp [Tryte.chars_eq]) fun _ => Tryte.isPlain_of_mem_chars]
  exact parseDigits_chars t

private theorem not_mem_tryteLine {address : Int} {t : Tryte} {remark : List Char} {c : Char}
    (ending : c = '\n' ∨ c = '\r') (h : c ∉ remark) : c ∉ tryteLine address t remark := by
  intro found
  have written : ∀ d ∈ tryteLine address t [], isPlain d = true ∨ d = ' ' ∨ d = ';' := by
    intro d hd
    simp only [tryteLine, Text.padLeft, List.append_nil, List.mem_append, List.mem_replicate] at hd
    rcases hd with (hd | hd) | ⟨-, rfl⟩ | hd
    · exact .inl (Tryte.isPlain_of_mem_chars hd)
    · have : d = ' ' ∨ d = ';' ∨ d = ' ' := by simpa using hd
      rcases this with rfl | rfl | rfl <;> simp
    · exact .inr (.inl rfl)
    · exact .inl (Assembly.isPlain_of_mem_decimal hd)
  have split : tryteLine address t remark = tryteLine address t [] ++ remark := by
    simp [tryteLine]
  rw [split] at found
  rcases List.mem_append.mp found with found | found
  · have := written c found
    rcases ending with rfl | rfl
    · exact absurd this (by decide)
    · exact absurd this (by decide)
  · exact h found

theorem lines_writeTryte (address : Int) (t : Tryte) {remark : List Char}
    (plain : ∀ c ∈ remark, isPlain c = true ∨ c = ' ') (rest : List Char) :
    Text.lines (writeTryte address t remark ++ rest)
      = tryteLine address t remark :: Text.lines rest := by
  have feed : '\n' ∉ remark := fun h => absurd (plain _ h) (by decide)
  have ret : '\r' ∉ remark := fun h => absurd (plain _ h) (by decide)
  have ended : writeTryte address t remark ++ rest
      = tryteLine address t remark ++ '\n' :: rest := by
    simp [writeTryte, tryteLine]
  rw [ended, Text.lines_append_newline (not_mem_tryteLine (.inl rfl) feed)
    (not_mem_tryteLine (.inr rfl) ret)]

theorem parseLines_writeTryte (number : Nat) (origin : Int) (code : List Tryte) (address : Int)
    (t : Tryte) {remark : List Char} (plain : ∀ c ∈ remark, isPlain c = true ∨ c = ' ')
    (rest : List Char) :
    parseLines number origin code (Text.lines (writeTryte address t remark ++ rest))
      = parseLines (number + 1) origin (t :: code) (Text.lines rest) := by
  rw [lines_writeTryte address t plain, parseLines, parse_tryteLine]

theorem parseLines_writeTrytes (number : Nat) (origin : Int) (code : List Tryte) (address : Int)
    (ts : List Tryte) (rest : List Char) :
    parseLines number origin code (Text.lines (writeTrytes address ts ++ rest))
      = parseLines (number + ts.length) origin (ts.reverse ++ code) (Text.lines rest) := by
  induction ts generalizing number code address with
  | nil => rfl
  | cons t ts ih =>
    have bare : ∀ c ∈ ([] : List Char), isPlain c = true ∨ c = ' ' := by simp
    have first := parseLines_writeTryte number origin code address t bare
      (writeTrytes (address + 1) ts ++ rest)
    rw [writeTrytes, List.append_assoc, first, ih, List.length_cons, List.reverse_cons,
      List.append_assoc]
    congr 1
    omega

private theorem exists_remark (base : Int) (e : Disassembly.Entry)
    (plain : ∀ text, e.instruction? = some text → ∀ c ∈ text, isPlain c = true ∨ c = ' ') :
    ∃ remark, (∀ c ∈ remark, isPlain c = true ∨ c = ' ')
      ∧ writeEntry base e = writeTryte (base + e.offset) e.first remark
        ++ writeTrytes (base + e.offset + 1) e.operand := by
  cases shown : e.instruction? with
  | none => exact ⟨[], by simp, by simp [writeEntry, shown]⟩
  | some text =>
    refine ⟨' ' :: ' ' :: text, ?_, by simp [writeEntry, shown]⟩
    intro c hc
    rcases List.mem_cons.mp hc with rfl | hc
    · exact .inr rfl
    · rcases List.mem_cons.mp hc with rfl | hc
      · exact .inr rfl
      · exact plain text shown c hc

theorem parseLines_writeEntry (number : Nat) (origin : Int) (code : List Tryte) (base : Int)
    (e : Disassembly.Entry)
    (plain : ∀ text, e.instruction? = some text → ∀ c ∈ text, isPlain c = true ∨ c = ' ')
    (rest : List Char) :
    parseLines number origin code (Text.lines (writeEntry base e ++ rest))
      = parseLines (number + e.raw.length) origin (e.raw.reverse ++ code) (Text.lines rest) := by
  obtain ⟨remark, plain, written⟩ := exists_remark base e plain
  rw [written, List.append_assoc, parseLines_writeTryte number origin code _ _ plain,
    parseLines_writeTrytes]
  simp only [Disassembly.Entry.raw, List.length_cons, List.reverse_cons, List.append_assoc,
    List.singleton_append]
  congr 1
  omega

theorem parseLines_sweep (number : Nat) (origin : Int) (code : List Tryte) (base : Int)
    (offset : Nat) (block : List Tryte) :
    parseLines number origin code
        (Text.lines ((sweepFrom offset block).flatMap (writeEntry base)))
      = .ok ⟨origin, code.reverse ++ block⟩ := by
  induction block using sweep_induction generalizing number code offset with
  | nil => simp [sweepFrom, Text.lines, Text.linesFrom, parseLines]
  | instruction o rest ih =>
    have read := parseLines_writeEntry number origin code base (o.entry offset)
      (fun text shown => (Option.some.inj shown) ▸ o.isPlain_of_mem_text)
      ((sweepFrom (offset + o.trytes.length) rest).flatMap (writeEntry base))
    rw [sweepFrom_append, List.flatMap_cons, read, ih]
    have raw : (o.entry offset).raw = o.trytes := rfl
    rw [raw]
    simp
  | data t rest e bad ih =>
    have read := parseLines_writeEntry number origin code base ⟨offset, t, [], none⟩
      (by intro text shown; cases shown)
      ((sweepFrom (offset + 1) rest).flatMap (writeEntry base))
    rw [sweepFrom_cons_of_error offset bad, List.flatMap_cons, read, ih]
    simp [Disassembly.Entry.raw]

def originLine (n : Int) : List Char := "; origin ".toList ++ Text.decimal n

def countLine (n : Nat) : List Char := "; ".toList ++ Text.natDigits n ++ " trytes".toList

theorem not_mem_of_isPlain {cs : List Char}
    (plain : ∀ c ∈ cs, isPlain c = true ∨ c = ' ' ∨ c = ';') : '\n' ∉ cs ∧ '\r' ∉ cs := by
  constructor
  · intro h
    exact absurd (plain _ h) (by decide)
  · intro h
    exact absurd (plain _ h) (by decide)

private theorem plain_originLine (n : Int) :
    ∀ c ∈ originLine n, isPlain c = true ∨ c = ' ' ∨ c = ';' := by
  have fixed : ∀ c ∈ "; origin ".toList, isPlain c = true ∨ c = ' ' ∨ c = ';' :=
    Text.forall_mem_of_all (by decide +kernel)
  intro c hc
  rcases List.mem_append.mp hc with hc | hc
  · exact fixed c hc
  · exact .inl (Assembly.isPlain_of_mem_decimal hc)

private theorem plain_countLine (n : Nat) :
    ∀ c ∈ countLine n, isPlain c = true ∨ c = ' ' ∨ c = ';' := by
  have front : ∀ c ∈ "; ".toList, isPlain c = true ∨ c = ' ' ∨ c = ';' :=
    Text.forall_mem_of_all (by decide +kernel)
  have back : ∀ c ∈ " trytes".toList, isPlain c = true ∨ c = ' ' ∨ c = ';' :=
    Text.forall_mem_of_all (by decide +kernel)
  intro c hc
  rcases List.mem_append.mp hc with hc | hc
  · rcases List.mem_append.mp hc with hc | hc
    · exact front c hc
    · exact .inl (Assembly.isPlain_of_isDigit (Text.isDigit_of_mem_natDigits n c hc))
  · exact back c hc

def titleLine : List Char := "; trit-cpu TROM image".toList

theorem lines_write (p : Program) :
    Text.lines (write p) = titleLine :: originLine p.origin :: countLine p.code.length :: []
      :: Text.lines ((Disassembly.sweep p.code).flatMap (writeEntry p.origin)) := by
  have title : '\n' ∉ titleLine ∧ '\r' ∉ titleLine := by decide +kernel
  have origin := not_mem_of_isPlain (plain_originLine p.origin)
  have count := not_mem_of_isPlain (plain_countLine p.code.length)
  generalize body : (Disassembly.sweep p.code).flatMap (writeEntry p.origin) = entries
  have first : "; trit-cpu TROM image\n; origin ".toList
      = titleLine ++ '\n' :: "; origin ".toList := by decide +kernel
  have second : "\n; ".toList = '\n' :: "; ".toList := by decide +kernel
  have third : " trytes\n\n".toList = " trytes".toList ++ ['\n', '\n'] := by decide +kernel
  have parts : write p = titleLine ++ '\n' :: (originLine p.origin ++ '\n' ::
      (countLine p.code.length ++ '\n' :: ([] ++ '\n' :: entries))) := by
    unfold write originLine countLine
    rw [body, first, second, third]
    simp only [List.append_assoc, List.cons_append, List.nil_append]
  rw [parts, Text.lines_append_newline title.1 title.2,
    Text.lines_append_newline origin.1 origin.2, Text.lines_append_newline count.1 count.2,
    Text.lines_append_newline (by simp) (by simp)]

theorem parse_titleLine : Line.parse titleLine = .ok .blank := by decide +kernel

private theorem word_of_decimal (n : Int) :
    (Text.signed32? (Text.decimal n)).bind Word.ofInt? = Word.ofInt? n := by
  rw [Text.signed32?, Text.integer?_decimal]
  change (Signed32.check? n).bind Word.ofInt? = Word.ofInt? n
  by_cases fits : Signed32.InRange n
  · rw [Signed32.check?_of_inRange fits]
    rfl
  · have refused : Signed32.check? n = none := if_neg fits
    have outside : ¬ (-29524 ≤ n ∧ n ≤ 29524) := by
      simp only [Signed32.InRange, Signed32.minValue, Signed32.maxValue] at fits
      omega
    rw [refused, Word.ofInt?, dif_neg outside]
    rfl

theorem parse_originLine (n : Int) : Line.parse (originLine n)
    = match Word.ofInt? n with
      | some w => .ok (.origin w)
      | none => .error (.invalidOrigin (String.ofList (Text.decimal n))) := by
  have blank : Text.trim (" origin ".toList ++ Text.decimal n)
      = Text.trimEnd ("origin ".toList ++ Text.decimal n) := rfl
  have named : afterStart? "origin".toList ("origin ".toList ++ Text.decimal n)
      = some (' ' :: Text.decimal n) := rfl
  have number : Text.trim (' ' :: Text.decimal n) = Text.decimal n := Text.trim_decimal n
  have written : originLine n = ';' :: (" origin ".toList ++ Text.decimal n) := rfl
  rw [written, Line.parse_comment, Text.trimEnd_decimal, parseComment, blank,
    Text.trimEnd_decimal, named]
  have value := word_of_decimal n
  cases found : Word.ofInt? n with
  | some w =>
    rw [found] at value
    simp only [number, value]
  | none =>
    rw [found] at value
    simp only [number, value]

theorem parse_countLine (n : Nat) : Line.parse (countLine n) = .ok .blank := by
  obtain ⟨d, ds, digits⟩ := List.exists_cons_of_ne_nil (Text.natDigits_ne_nil n)
  have digit : Text.isDigit d = true :=
    Text.isDigit_of_mem_natDigits n d (digits ▸ List.mem_cons_self)
  have ink := isInk_of_isPlain (Assembly.isPlain_of_isDigit digit)
  have other : 'o' ≠ d := by
    rintro rfl
    exact absurd digit (by decide)
  have blank : Text.trim (' ' :: d :: (ds ++ " trytes".toList))
      = Text.trim (d :: (ds ++ " trytes".toList)) := rfl
  have unnamed (cs : List Char) : afterStart? "origin".toList (d :: cs) = none := by
    change (if 'o' = d then _ else none) = none
    rw [if_neg other]
  have ended : Text.trimEnd (' ' :: d :: (ds ++ " trytes".toList))
      = ' ' :: d :: (ds ++ " trytes".toList) := by
    have last := Text.trimEnd_append_cons (' ' :: d :: (ds ++ " tryte".toList)) (c := 's')
      (by decide) []
    have joined : ' ' :: d :: (ds ++ " tryte".toList) ++ ['s']
        = ' ' :: d :: (ds ++ " trytes".toList) := by simp
    rw [joined] at last
    rw [last]
    exact joined
  have written : countLine n = ';' :: (' ' :: d :: (ds ++ " trytes".toList)) := by
    simp [countLine, digits]
  rw [written, Line.parse_comment, ended, parseComment, blank, Text.trim_cons ink, unnamed]

/-- A written image is read as its program if the origin is a word, and refused at the line of the
origin if it is none. -/
theorem parse_write_eq (p : Program) : parse (write p)
    = match Word.ofInt? p.origin with
      | some _ => .ok p
      | none => .error ⟨2, .invalidOrigin (String.ofList (Text.decimal p.origin))⟩ := by
  have empty : Line.parse [] = .ok .blank := rfl
  rw [parse, lines_write, parseLines, parse_titleLine]
  simp only [parseLines, parse_originLine]
  cases origin : Word.ofInt? p.origin with
  | none => rfl
  | some w =>
    have same : w.val = p.origin := Word.ofInt?_eq_some_iff.mp origin
    simp only [parse_countLine, empty, same]
    exact parseLines_sweep _ _ _ _ _ _

theorem exists_word_of_parseLines {number : Nat} {origin : Int} {code : List Tryte}
    {texts : List (List Char)} {p : Program} (word : ∃ w : Word, w.val = origin)
    (h : parseLines number origin code texts = .ok p) : ∃ w : Word, w.val = p.origin := by
  induction texts generalizing number origin code with
  | nil =>
    cases h
    exact word
  | cons text rest ih =>
    unfold parseLines at h
    split at h
    · cases h
    · exact ih word h
    · rename_i w _
      exact ih ⟨w, rfl⟩ h
    · exact ih word h

end Image

namespace Assembly

def HasWordOrigin (a : Assembly) : Prop := ∃ w : Word, w.val = a.origin

theorem HasWordOrigin.define {a b : Assembly} {name : String} {value : Int}
    (word : a.HasWordOrigin) (h : a.define name value = .ok b) : b.HasWordOrigin := by
  unfold Assembly.define at h
  split at h
  · cases h
  · cases h
    exact word

theorem HasWordOrigin.label {a b : Assembly} {name : String} (word : a.HasWordOrigin)
    (h : a.label name = .ok b) : b.HasWordOrigin := by
  obtain ⟨c, defined, h⟩ := bind_eq_ok_iff.mp h
  have kept := word.define defined
  cases h
  split
  · exact kept
  · exact kept

theorem HasWordOrigin.emitValue {a b : Assembly} {line : Nat} {layout : Layout} {e : Expression}
    (word : a.HasWordOrigin) (h : a.emitValue line layout e = .ok b) : b.HasWordOrigin := by
  unfold Assembly.emitValue at h
  split at h
  · cases h
  · obtain ⟨trytes, -, rfl⟩ := map_eq_ok_iff.mp h
    exact word
  · cases h
    exact word

theorem HasWordOrigin.emit {a b : Assembly} {line : Nat} {statement : Statement}
    (word : a.HasWordOrigin) (h : a.emit line statement = .ok b) : b.HasWordOrigin := by
  cases statement with
  | origin target =>
    obtain ⟨value, -, h⟩ := bind_eq_ok_iff.mp h
    obtain ⟨w, -, h⟩ := bind_eq_ok_iff.mp h
    unfold setOrigin at h
    split at h
    · cases h
      exact ⟨w, rfl⟩
    · split at h
      · cases h
      · cases h
        exact word
  | define name value =>
    obtain ⟨_, -, h⟩ := bind_eq_ok_iff.mp h
    obtain ⟨w, -, h⟩ := bind_eq_ok_iff.mp h
    obtain ⟨c, whole, h⟩ := bind_eq_ok_iff.mp h
    obtain ⟨d, low, high⟩ := bind_eq_ok_iff.mp h
    exact ((word.define whole).define low).define high
  | value layout e => exact word.emitValue h
  | data trytes =>
    cases h
    exact word
  | instruction i argument? =>
    cases argument? with
    | none =>
      cases h
      exact word
    | some argument => exact HasWordOrigin.emitValue (a := a.append [i.encode]) word h

theorem HasWordOrigin.emitLine {a b : Assembly} {number : Nat} {text : List Char}
    (word : a.HasWordOrigin) (h : a.emitLine number text = .ok b) : b.HasWordOrigin := by
  have stated {c : Assembly} {x : Except Cause (Option Statement)}
      {f : Option Statement → Except Cause Assembly} (kept : c.HasWordOrigin)
      (nothing : f none = .ok c) (something : ∀ statement, f (some statement) = c.emit number statement)
      (h : (x >>= f) = .ok b) : b.HasWordOrigin := by
    obtain ⟨statement?, -, h⟩ := bind_eq_ok_iff.mp h
    cases statement? with
    | none =>
      rw [nothing] at h
      cases h
      exact kept
    | some statement =>
      rw [something] at h
      exact kept.emit h
  obtain ⟨⟨label?, statement⟩, -, h⟩ := bind_eq_ok_iff.mp h
  cases label? with
  | none => exact stated word rfl (fun _ => rfl) h
  | some name =>
    obtain ⟨c, labelled, h⟩ := bind_eq_ok_iff.mp h
    exact stated (word.label labelled) rfl (fun _ => rfl) h

theorem HasWordOrigin.emitLines {a b : Assembly} {number : Nat} {texts : List (List Char)}
    (word : a.HasWordOrigin) (h : a.emitLines number texts = .ok b) : b.HasWordOrigin := by
  induction texts generalizing a number with
  | nil =>
    cases h
    exact word
  | cons text rest ih =>
    obtain ⟨c, line, h⟩ := bind_eq_ok_iff.mp h
    exact ih (word.emitLine (onLine_eq_ok_iff.mp line)) h

theorem HasWordOrigin.fillAll {a b : Assembly} {patches : List Patch}
    (word : a.HasWordOrigin) (h : a.fillAll patches = .ok b) : b.HasWordOrigin := by
  induction patches generalizing a with
  | nil =>
    cases h
    exact word
  | cons p patches ih =>
    obtain ⟨c, filled, h⟩ := bind_eq_ok_iff.mp h
    obtain ⟨value, -, filled⟩ := bind_eq_ok_iff.mp (onLine_eq_ok_iff.mp filled)
    obtain ⟨trytes, -, filled⟩ := bind_eq_ok_iff.mp filled
    cases filled
    exact ih (a := { a with code := overlay a.code p.offset trytes }) word h

theorem exists_word_of_assemble {source : List Char} {p : Program} (h : assemble source = .ok p) :
    ∃ w : Word, w.val = p.origin := by
  obtain ⟨a, laid, h⟩ := bind_eq_ok_iff.mp h
  obtain ⟨b, filled, h⟩ := bind_eq_ok_iff.mp h
  have start : HasWordOrigin {} := ⟨.zero, rfl⟩
  cases h
  exact (start.emitLines laid).fillAll filled

end Assembly

namespace Image

/-- Images lose nothing. A program whose origin is a word is read back from its image; the programs
of the assembler and of the reader have such an origin, so that writing and reading again changes
none of them; and a program with another origin is refused at the second line of its image. -/
theorem parse_written_image (p : Program) (source text : List Char) :
    (-29524 ≤ p.origin ∧ p.origin ≤ 29524 → parse (write p) = .ok p)
    ∧ (∀ q, Assembly.assemble source = .ok q ∨ parse text = .ok q →
        (-29524 ≤ q.origin ∧ q.origin ≤ 29524) ∧ parse (write q) = .ok q)
    ∧ ((parse text).bind fun q => parse (write q)) = parse text
    ∧ (¬ (-29524 ≤ p.origin ∧ p.origin ≤ 29524) →
        parse (write p) = .error ⟨2, .invalidOrigin (String.ofList (Text.decimal p.origin))⟩)
    ∧ ((∀ k < p.code.length, Signed32.InRange (p.origin + k)) → write? p = some (write p)) := by
  have back (q : Program) (word : ∃ w : Word, w.val = q.origin) : parse (write q) = .ok q := by
    obtain ⟨w, same⟩ := word
    rw [parse_write_eq, Word.ofInt?_eq_some_iff.mpr same]
  have start : ∃ w : Word, w.val = 0 := ⟨.zero, rfl⟩
  have read (q : Program) (h : parse text = .ok q) := exists_word_of_parseLines start h
  refine ⟨?_, ?_, ?_, ?_, ?_⟩
  · rintro ⟨lower, upper⟩
    exact back p ⟨⟨p.origin, lower, upper⟩, rfl⟩
  · intro q given
    have word : ∃ w : Word, w.val = q.origin := by
      rcases given with assembled | parsed
      · exact Assembly.exists_word_of_assemble assembled
      · exact read q parsed
    refine ⟨?_, back q word⟩
    obtain ⟨w, same⟩ := word
    rw [← same]
    exact ⟨w.lower, w.upper⟩
  · cases parsed : parse text with
    | error e => rfl
    | ok q => exact back q (read q parsed)
  · intro outside
    rw [parse_write_eq, Word.ofInt?, dif_neg outside]
  · intro inside
    refine if_pos ?_
    by_cases empty : p.code.isEmpty = true
    · exact .inl empty
    · have filled : 0 < p.code.length := by
        rw [List.length_pos_iff]
        simpa using empty
      have last := inside (p.code.length - 1) (by omega)
      right
      rw [show p.origin + p.code.length - 1 = p.origin + ((p.code.length - 1 : Nat) : Int) by omega]
      exact last

theorem parse_written_image_of_truncated :
    let cut : Program := ⟨-50, [101, 7].map fun n => Tryte.ofDigits n 0⟩
    let source := ".org 4\nnop".toList
    let far : Program := ⟨29525, cut.code⟩
    let text := "; origin 7\n0000i ; origin 9".toList
    parse (write cut) = .ok cut
    ∧ Assembly.assemble source = .ok ⟨4, [Tryte.ofDigits (-1) 0]⟩
    ∧ parse (write ⟨4, [Tryte.ofDigits (-1) 0]⟩) = .ok ⟨4, [Tryte.ofDigits (-1) 0]⟩
    ∧ parse text = .ok ⟨7, [Tryte.ofDigits (-1) 0]⟩
    ∧ parse (write ⟨7, [Tryte.ofDigits (-1) 0]⟩) = .ok ⟨7, [Tryte.ofDigits (-1) 0]⟩
    ∧ write? far = some (write far)
    ∧ parse (write far) = .error ⟨2, .invalidOrigin "29525"⟩ := by
  intro cut source far text
  have assembled : Assembly.assemble source = .ok ⟨4, [Tryte.ofDigits (-1) 0]⟩ := by
    decide +kernel
  have parsed : parse text = .ok ⟨7, [Tryte.ofDigits (-1) 0]⟩ := by decide +kernel
  obtain ⟨near, known, -, -, -⟩ := parse_written_image cut source text
  obtain ⟨-, -, -, refused, fits⟩ := parse_written_image far source text
  have wording : String.ofList (Text.decimal 29525) = "29525" := by decide +kernel
  refine ⟨near (by decide), assembled, (known _ (.inl assembled)).2, parsed,
    (known _ (.inr parsed)).2, fits (by decide), ?_⟩
  rw [← wording]
  exact refused (by decide)

end Image

end TernaryMachine
