import Mathlib.Data.List.Induction
import Mathlib.Logic.Relation
import TernaryMachine.Proofs.ImageText
import TernaryMachine.Proofs.Words

/-!
Remarks in program images. The reader goes through the lines of an image one by one, and a line that
holds no tryte and no origin leaves the program as it is. Such are blank lines and the comments
whose first word does not begin with the word for the origin. A comment whose first word does is a
header even where that word goes on: it sets the origin if a number follows, and is refused if not.
-/

set_option autoImplicit false
set_option relaxedAutoImplicit false

namespace TernaryMachine

namespace Text

theorem trimEnd_append {after : List Char} (blank : Blanks after) (cs : List Char) :
    trimEnd (cs ++ after) = trimEnd cs := by
  have turned : ∀ c ∈ after.reverse, isBlank c = true :=
    fun c member => blank c (List.mem_reverse.mp member)
  rw [trimEnd, List.reverse_append, trimStart, List.dropWhile_append_of_pos turned]
  rfl

theorem trim_append {after : List Char} (blank : Blanks after) (cs : List Char) :
    trim (cs ++ after) = trim cs := by
  have front : trimStart (cs ++ after) = trimStart cs ++ after ∨ Blanks cs := by
    by_cases blanks : Blanks cs
    · exact .inr blanks
    · left
      have some : ¬ cs.dropWhile isBlank = [] := fun none =>
        blanks (List.dropWhile_eq_nil_iff.mp none)
      rw [trimStart, List.dropWhile_append, if_neg (by simpa using some)]
      rfl
  rcases front with front | blanks
  · rw [trim, front, trimEnd_append blank]
    rfl
  · rw [trim_of_blanks blanks, trim_of_blanks (blanks.append blank)]

theorem exists_trimEnd (cs : List Char) : ∃ after, Blanks after ∧ cs = trimEnd cs ++ after := by
  refine ⟨(cs.reverse.takeWhile isBlank).reverse, fun c member => ?_, ?_⟩
  · exact List.mem_takeWhile_imp (List.mem_reverse.mp member)
  · rw [trimEnd, ← List.reverse_append, trimStart, List.takeWhile_append_dropWhile,
      List.reverse_reverse]

theorem trim_trimEnd (cs : List Char) : trim (trimEnd cs) = trim cs := by
  obtain ⟨after, blank, whole⟩ := exists_trimEnd cs
  conv => rhs; rw [whole, trim_append blank]

theorem trim_dropReturn (line : List Char) : trim (dropReturn line) = trim line := by
  unfold dropReturn
  split
  · rename_i r turned
    have whole : line = r.reverse ++ ['\r'] := by
      rw [← List.reverse_cons, ← turned, List.reverse_reverse]
    rw [whole, trim_append (by simp [Blanks, isBlank])]
  · rfl

def EndsLine (cs : List Char) : Prop := ∀ c ∈ cs.getLast?, c = '\n'

def StartsLine (cs : List Char) : Prop := ∀ c ∈ cs.head?, c = '\n'

private theorem linesFrom_newline (line front back : List Char) :
    linesFrom line (front ++ '\n' :: back) = linesFrom line (front ++ ['\n']) ++ lines back := by
  induction front generalizing line with
  | nil => rfl
  | cons c front ih =>
    simp only [List.cons_append, linesFrom]
    split
    · rw [ih, List.cons_append]
    · exact ih _

theorem lines_append {front : List Char} (ends : EndsLine front) (back : List Char) :
    lines (front ++ back) = lines front ++ lines back := by
  rcases List.eq_nil_or_concat front with rfl | ⟨init, c, rfl⟩
  · rfl
  · rw [List.concat_eq_append] at *
    obtain rfl : c = '\n' := ends c (by simp)
    rw [List.append_assoc]
    exact linesFrom_newline [] init back

theorem exists_last_line (text : List Char) :
    ∃ front last, text = front ++ last ∧ EndsLine front ∧ '\n' ∉ last := by
  induction text using List.reverseRecOn with
  | nil => exact ⟨[], [], rfl, by simp [EndsLine], by simp⟩
  | append_singleton init c ih =>
    by_cases newline : c = '\n'
    · exact ⟨init ++ [c], [], by simp, by simp [EndsLine, newline], by simp⟩
    · obtain ⟨front, last, rfl, ends, clean⟩ := ih
      exact ⟨front, last ++ [c], by simp, ends, by simp [clean, Ne.symm newline]⟩

theorem exists_first_line {line back : List Char} (clean : '\n' ∉ line) (starts : StartsLine back)
    (nonempty : line ++ back ≠ []) :
    ∃ first, trim first = trim line ∧ lines (line ++ back) = first :: lines (back.drop 1) := by
  cases back with
  | nil =>
    rw [List.append_nil] at nonempty ⊢
    exact ⟨line, rfl, lines_of_not_mem nonempty clean⟩
  | cons c back =>
    obtain rfl : c = '\n' := starts c rfl
    exact ⟨dropReturn line, trim_dropReturn line, lines_append_cons clean back⟩

end Text

namespace Image

theorem Line.parse_of_trim {line line' : List Char} (same : Text.trim line = Text.trim line') :
    Line.parse line = Line.parse line' := by
  unfold Line.parse
  rw [same]

theorem afterStart?_eq_some_iff {xs cs rest : List Char} :
    afterStart? xs cs = some rest ↔ cs = xs ++ rest := by
  induction xs generalizing cs with
  | nil => simp [afterStart?]
  | cons x xs ih =>
    cases cs with
    | nil => simp [afterStart?]
    | cons c cs =>
      unfold afterStart?
      split
      · rename_i same
        simp [ih, same]
      · rename_i other
        simp [Ne.symm other]

/-- Whether the first word of a comment begins with the word for the origin. -/
def NamesOrigin (comment : List Char) : Prop :=
  "origin".toList <+: Text.headWord (Text.trim comment)

theorem namesOrigin_iff {comment : List Char} :
    NamesOrigin comment ↔ ∃ rest, Text.trim comment = "origin".toList ++ rest := by
  constructor
  · intro named
    obtain ⟨rest, whole⟩ := named.trans (List.takeWhile_prefix Text.isInk)
    exact ⟨rest, whole.symm⟩
  · rintro ⟨rest, whole⟩
    have ink : ∀ c ∈ "origin".toList, Text.isInk c = true := by simp [Text.isInk, Text.isBlank]
    rw [NamesOrigin, whole, Text.headWord, List.takeWhile_append_of_pos ink]
    exact List.prefix_append _ _

theorem Line.parse_gap {gap : List Char} (blank : Text.Blanks gap) (comment : List Char) :
    Line.parse (gap ++ ';' :: comment) = parseComment (Text.trimEnd comment) := by
  have trimmed : Text.trim (gap ++ ';' :: comment) = ';' :: Text.trimEnd comment := by
    rw [← Text.trim_cons (by decide) comment, Text.trim, Text.trimStart,
      List.dropWhile_append_of_pos blank]
    rfl
  unfold Line.parse
  rw [trimmed]
  rfl

theorem parseComment_of_not_namesOrigin {comment : List Char} (other : ¬ NamesOrigin comment) :
    parseComment (Text.trimEnd comment) = .ok .blank := by
  unfold parseComment
  rw [Text.trim_trimEnd]
  cases found : afterStart? "origin".toList (Text.trim comment) with
  | none => rfl
  | some rest =>
    exact absurd (namesOrigin_iff.mpr ⟨rest, afterStart?_eq_some_iff.mp found⟩) other

theorem parseComment_of_namesOrigin {comment rest : List Char}
    (named : Text.trim comment = "origin".toList ++ rest) : parseComment (Text.trimEnd comment)
      = match (Text.signed32? (Text.trim rest)).bind Word.ofInt? with
        | some w => .ok (.origin w)
        | none => .error (.invalidOrigin (String.ofList (Text.trim rest))) := by
  unfold parseComment
  rw [Text.trim_trimEnd]
  cases found : afterStart? "origin".toList (Text.trim comment) with
  | none =>
    rw [afterStart?_eq_some_iff.mpr named] at found
    cases found
  | some rest' =>
    rw [afterStart?_eq_some_iff.mpr named] at found
    cases found
    rfl

inductive Ignored : List Char → Prop
  | blank {line : List Char} (blank : Text.Blanks line) : Ignored line
  | comment {gap comment : List Char} (blank : Text.Blanks gap) (other : ¬ NamesOrigin comment) :
    Ignored (gap ++ ';' :: comment)

theorem Ignored.parse_eq {line : List Char} (h : Ignored line) : Line.parse line = .ok .blank := by
  cases h with
  | blank blank =>
    unfold Line.parse
    rw [Text.trim_of_blanks blank]
    rfl
  | comment blank other => rw [Line.parse_gap blank, parseComment_of_not_namesOrigin other]

theorem exists_of_parse_tryte {line : List Char} {t : Tryte}
    (h : Line.parse line = .ok (.tryte t)) :
    ∃ c cs, Text.trim line = c :: cs ∧ c ≠ ';' ∧ Text.isInk c = true := by
  obtain ⟨-, -, -, -, -, solid⟩ := Text.exists_trim line
  unfold Line.parse at h
  split at h
  · unfold parseComment at h
    split at h
    · cases h
    · dsimp only at h
      split at h <;> cases h
  · rename_i other
    cases whole : Text.trim line with
    | nil =>
      rw [whole] at h
      cases h
    | cons c cs =>
      refine ⟨c, cs, rfl, ?_, solid.first c (by rw [whole]; rfl)⟩
      rintro rfl
      exact other cs whole

theorem Line.parse_append_remark {line : List Char} {t : Tryte}
    (h : Line.parse line = .ok (.tryte t)) (remark : List Char) :
    Line.parse (line ++ ' ' :: ';' :: remark) = .ok (.tryte t) := by
  obtain ⟨c, cs, text, data, ink⟩ := exists_of_parse_tryte h
  obtain ⟨before, after, blank, blank', whole, -⟩ := Text.exists_trim line
  rw [text] at whole
  have read {line cs : List Char} (trimmed : Text.trim line = c :: cs) : Line.parse line
      = parseDigits (Text.trim ((c :: cs).takeWhile fun c => c != ';')) := by
    unfold Line.parse
    rw [trimmed]
    split
    · rename_i same
      exact absurd (List.cons.inj same).1 data
    · rfl
  have trimmed : Text.trim (line ++ ' ' :: ';' :: remark)
      = c :: (cs ++ after ++ ' ' :: ';' :: Text.trimEnd remark) := by
    have joined : line ++ ' ' :: ';' :: remark
        = before ++ (c :: (cs ++ after ++ [' '] ++ ';' :: remark)) := by simp [whole]
    rw [joined, Text.trim, Text.trimStart, List.dropWhile_append_of_pos blank]
    change Text.trimEnd (Text.trimStart _) = _
    rw [Text.trimStart_cons ink, ← List.cons_append,
      Text.trimEnd_append_cons _ (by decide) remark]
    simp
  have ends : Text.Blanks (after ++ [' ']) := blank'.append Text.blanks_space
  rw [read text] at h
  rw [read trimmed, ← h]
  -- The digits end at a semicolon of their own or at the one of the remark, behind blanks.
  have split : c :: (cs ++ after ++ ' ' :: ';' :: Text.trimEnd remark)
      = (c :: cs) ++ ((after ++ [' ']) ++ ';' :: Text.trimEnd remark) := by simp
  have gap : ((after ++ [' ']) ++ ';' :: Text.trimEnd remark).takeWhile (fun c => c != ';')
      = after ++ [' '] := by
    have plain : ∀ c ∈ after ++ [' '], (c != ';') = true := by
      intro c member
      rw [bne_iff_ne]
      rintro rfl
      exact absurd (ends ';' member) (by decide)
    rw [List.takeWhile_append_of_pos plain]
    simp
  rw [split, List.takeWhile_append]
  split_ifs with bare
  · rw [gap, Text.trim_append ends, List.takeWhile_eq_self_iff.mpr]
    exact List.takeWhile_eq_self_iff.mp ((List.takeWhile_prefix _).eq_of_length bare)
  · rfl

def Line.addTo (p : Program) : Line → Program
  | .blank => p
  | .origin w => { p with origin := w.val }
  | .tryte t => { p with code := p.code ++ [t] }

def readLine? (p : Program) (text : List Char) : Option Program :=
  (Line.parse text).toOption.map (Line.addTo p)

theorem toOption_parseLines (number : Nat) (origin : Int) (code : List Tryte)
    (texts : List (List Char)) : (parseLines number origin code texts).toOption
      = texts.foldlM readLine? ⟨origin, code.reverse⟩ := by
  induction texts generalizing number origin code with
  | nil => rfl
  | cons text rest ih =>
    rw [List.foldlM_cons, readLine?, parseLines]
    split
    · rename_i refused
      rw [refused]
      rfl
    all_goals
      rename_i found
      rw [found, ih]
      simp [Except.toOption, Line.addTo]

theorem readLine?_ignored {line : List Char} (h : Ignored line) (p : Program) :
    readLine? p line = some p := by
  rw [readLine?, h.parse_eq]
  rfl

theorem toOption_parse_append {front line back : List Char} (ends : Text.EndsLine front)
    (clean : '\n' ∉ line) (starts : Text.StartsLine back) :
    (parse (front ++ (line ++ back))).toOption
      = (parse front).toOption.bind fun p => (readLine? p line).bind fun q =>
        (Text.lines (back.drop 1)).foldlM readLine? q := by
  unfold parse
  rw [toOption_parseLines, toOption_parseLines, Text.lines_append ends, List.foldlM_append]
  refine congrArg (Option.bind _) (funext fun p => ?_)
  by_cases nonempty : line ++ back = []
  · obtain ⟨rfl, rfl⟩ := List.append_eq_nil_iff.mp nonempty
    rfl
  · obtain ⟨first, same, lines⟩ := Text.exists_first_line clean starts nonempty
    rw [lines, List.foldlM_cons, readLine?, Line.parse_of_trim same]
    rfl

/-- An image is refused at its first line that is neither a comment nor a tryte. -/
theorem parseLines_append_error {number : Nat} {origin : Int} {code : List Tryte} {p : Program}
    {texts : List (List Char)} (accepted : parseLines number origin code texts = .ok p)
    {line : List Char} {cause : Cause} (refused : Line.parse line = .error cause)
    (rest : List (List Char)) : parseLines number origin code (texts ++ line :: rest)
      = .error ⟨number + texts.length, cause⟩ := by
  induction texts generalizing number origin code with
  | nil =>
    rw [List.nil_append, parseLines, refused]
    rfl
  | cons text texts ih =>
    rw [parseLines] at accepted
    rw [List.cons_append, parseLines]
    have later : number + 1 + texts.length = number + (text :: texts).length := by
      rw [List.length_cons]
      omega
    rw [← later]
    split at accepted
    · cases accepted
    all_goals exact ih accepted

/-- A remark is put into an image: on a line of its own between two lines or behind the last one,
or behind a tryte. -/
inductive Remark : List Char → List Char → Prop
  | between {front line back : List Char} (ends : Text.EndsLine front) (clean : '\n' ∉ line)
    (ignored : Ignored line) : Remark (front ++ back) (front ++ (line ++ '\n' :: back))
  | last {text line : List Char} (clean : '\n' ∉ line) (ignored : Ignored line) :
    Remark text (text ++ '\n' :: line)
  | behind {front line back remark : List Char} {t : Tryte} (ends : Text.EndsLine front)
    (clean : '\n' ∉ line) (holds : Line.parse line = .ok (.tryte t)) (clean' : '\n' ∉ remark)
    (starts : Text.StartsLine back) :
    Remark (front ++ (line ++ back)) (front ++ (line ++ ' ' :: ';' :: (remark ++ back)))

theorem toOption_parse_of_remark {text text' : List Char} (h : Remark text text') :
    (parse text').toOption = (parse text).toOption := by
  cases h with
  | @between front line back ends clean ignored =>
    rw [toOption_parse_append ends clean (by simp [Text.StartsLine])]
    unfold parse
    rw [toOption_parseLines, toOption_parseLines, Text.lines_append ends, List.foldlM_append]
    simp [readLine?_ignored ignored]
  | @last _ line clean ignored =>
    obtain ⟨front, last, rfl, ends, clean'⟩ := Text.exists_last_line text
    have before := @toOption_parse_append front last [] ends clean' (by simp [Text.StartsLine])
    have after := @toOption_parse_append front last ('\n' :: line) ends clean'
      (by simp [Text.StartsLine])
    have nothing (q : Program) : (Text.lines line).foldlM readLine? q = some q := by
      by_cases empty : line = []
      · rw [empty]
        rfl
      · rw [Text.lines_of_not_mem empty clean, List.foldlM_cons, readLine?_ignored ignored]
        rfl
    rw [List.append_nil] at before
    rw [List.append_assoc, after, before]
    simp only [List.drop_one, List.tail_cons, nothing]
    rfl
  | @behind front line back remark t ends clean holds clean' starts =>
    have remarked : '\n' ∉ line ++ ' ' :: ';' :: remark := by simp [clean, clean']
    have joined : line ++ ' ' :: ';' :: (remark ++ back)
        = (line ++ ' ' :: ';' :: remark) ++ back := by simp
    rw [joined, toOption_parse_append ends remarked starts, toOption_parse_append ends clean starts]
    simp only [readLine?, Line.parse_append_remark holds, holds]

theorem toOption_parse_of_remarks {text text' : List Char}
    (remarks : Relation.ReflTransGen Remark text text') :
    (parse text').toOption = (parse text).toOption := by
  induction remarks with
  | refl => rfl
  | tail _ remark ih => rw [toOption_parse_of_remark remark, ih]

structure CommentBehind (front gap comment : List Char) (p : Program) : Prop where
  accepted : parse front = .ok p
  ends : Text.EndsLine front
  blank : Text.Blanks gap
  clean : '\n' ∉ gap ++ ';' :: comment

namespace CommentBehind

variable {front gap comment rest : List Char} {p : Program}

theorem parse_header (h : CommentBehind front gap comment p)
    (named : Text.trim comment = "origin".toList ++ rest) {w : Word}
    (number : (Text.signed32? (Text.trim rest)).bind Word.ofInt? = some w) :
    parse (front ++ (gap ++ ';' :: comment)) = .ok { p with origin := w.val } := by
  have header : Line.parse (gap ++ ';' :: comment) = .ok (.origin w) := by
    rw [Line.parse_gap h.blank, parseComment_of_namesOrigin named, number]
  have read : readLine? p (gap ++ ';' :: comment) = some { p with origin := w.val } := by
    rw [readLine?, header]
    rfl
  have whole := @toOption_parse_append front _ [] h.ends h.clean (by simp [Text.StartsLine])
  rw [List.append_nil, h.accepted] at whole
  refine Assembly.toOption_eq_some_iff.mp (whole.trans ?_)
  change (readLine? p (gap ++ ';' :: comment)).bind some = _
  rw [read]
  rfl

theorem parse_badHeader (h : CommentBehind front gap comment p)
    (named : Text.trim comment = "origin".toList ++ rest)
    (number : (Text.signed32? (Text.trim rest)).bind Word.ofInt? = none) {back : List Char}
    (starts : Text.StartsLine back) :
    parse (front ++ (gap ++ ';' :: comment ++ back)) = .error
      ⟨(Text.lines front).length + 1, .invalidOrigin (String.ofList (Text.trim rest))⟩ := by
  obtain ⟨first, same, lines⟩ := Text.exists_first_line h.clean starts (by simp)
  have refused : Line.parse first = .error (.invalidOrigin (String.ofList (Text.trim rest))) := by
    rw [Line.parse_of_trim same, Line.parse_gap h.blank, parseComment_of_namesOrigin named, number]
  rw [parse, Text.lines_append h.ends, lines, parseLines_append_error h.accepted refused,
    Nat.add_comm]

end CommentBehind

/-- Remarks do not matter. Blank lines, comments whose first word does not begin with the word for
the origin, and remarks behind trytes change neither the program that is read of an image nor
whether one is. A comment whose first word does begin with that word is a header: behind lines that
are accepted it sets the origin to the number that follows, and is refused where no word does. -/
theorem parse_with_remarks (text text' front gap comment rest : List Char) (p : Program) :
    (Relation.ReflTransGen Remark text text' → (parse text' = .ok p ↔ parse text = .ok p))
    ∧ (CommentBehind front gap comment p → Text.trim comment = "origin".toList ++ rest →
      match (Text.signed32? (Text.trim rest)).bind Word.ofInt? with
      | some w => parse (front ++ (gap ++ ';' :: comment)) = .ok { p with origin := w.val }
      | none => ∀ back, Text.StartsLine back →
        parse (front ++ (gap ++ ';' :: comment ++ back)) = .error
          ⟨(Text.lines front).length + 1, .invalidOrigin (String.ofList (Text.trim rest))⟩) := by
  constructor
  · intro remarks
    rw [← Assembly.toOption_eq_some_iff, ← Assembly.toOption_eq_some_iff,
      toOption_parse_of_remarks remarks]
  · intro behind named
    split
    · exact behind.parse_header named ‹_›
    · exact fun back starts => behind.parse_badHeader named ‹_› starts

theorem parse_with_remarks_of_notes :
    let text := "; origin 4\n0000i".toList
    let text' := "; origin 4\n; the origin 9\n0000i ; origin 5\n ".toList
    let p : Program := ⟨4, [Tryte.ofDigits (-1) 0]⟩
    Relation.ReflTransGen Remark text text' ∧ parse text = .ok p ∧ parse text' = .ok p
      ∧ parse "; origin 4\n0000i\n;origin-7".toList = .ok { p with origin := -7 } := by
  intro text text' p
  have holds : Line.parse "0000i".toList = .ok (.tryte (Tryte.ofDigits (-1) 0)) := by
    decide +kernel
  have fresh : Remark text "; origin 4\n0000i ; origin 5".toList :=
    @Remark.behind "; origin 4\n".toList "0000i".toList [] " origin 5".toList _
      (by simp [Text.EndsLine]) (by decide) holds (by decide) (by simp [Text.StartsLine])
  have other : ¬ NamesOrigin " the origin 9".toList := by
    unfold NamesOrigin
    decide +kernel
  have noted : Remark "; origin 4\n0000i ; origin 5".toList
      "; origin 4\n; the origin 9\n0000i ; origin 5".toList :=
    @Remark.between "; origin 4\n".toList "; the origin 9".toList _ (by simp [Text.EndsLine])
      (by decide) (@Ignored.comment [] _ Text.blanks_nil other)
  have padded : Remark "; origin 4\n; the origin 9\n0000i ; origin 5".toList text' :=
    @Remark.last _ [' '] (by decide) (.blank Text.blanks_space)
  have remarks := ((Relation.ReflTransGen.single fresh).tail noted).tail padded
  have read : parse text = .ok p := by decide +kernel
  have behind : CommentBehind "; origin 4\n0000i\n".toList [] "origin-7".toList p :=
    ⟨by decide +kernel, by simp [Text.EndsLine], Text.blanks_nil, by decide⟩
  obtain ⟨kept, header⟩ := parse_with_remarks text text' _ [] "origin-7".toList "-7".toList p
  exact ⟨remarks, read, (kept remarks).mpr read, header behind (by decide +kernel)⟩

/-- A comment whose first word is another one than that for the origin is refused. -/
theorem comment_refused :
    let text := "00001".toList
    let comment := " originally at zero".toList
    parse text = .ok ⟨0, [Tryte.ofDigits 1 0]⟩
      ∧ Text.headWord (Text.trim comment) ≠ "origin".toList
      ∧ parse (';' :: comment ++ '\n' :: text) = .error ⟨1, .invalidOrigin "ally at zero"⟩ := by
  decide +kernel

end Image

end TernaryMachine
