import TernaryMachine.Proofs.OperandGrammar

/-!
The words of a text. Blanks part a text into words. The first one, the blanks before it and what
stands behind it are determined by the text, and so are the words that follow.
-/

set_option autoImplicit false
set_option relaxedAutoImplicit false

namespace TernaryMachine

namespace Text

def Inked (cs : List Char) : Prop := ∀ c ∈ cs, isInk c = true

def Detached (cs : List Char) : Prop := ∀ c ∈ cs.head?, isBlank c = true

theorem blanks_nil : Blanks [] := List.forall_mem_nil _

theorem blanks_space : Blanks [' '] := by simp [Blanks, isBlank]

theorem isInk_eq_false_of_isBlank {c : Char} (h : isBlank c = true) : isInk c = false := by
  simp [isInk, h]

theorem Blanks.detached {cs : List Char} (h : Blanks cs) : Detached cs :=
  fun c member => h c (List.mem_of_head? member)

theorem Blanks.append {xs ys : List Char} (h : Blanks xs) (k : Blanks ys) : Blanks (xs ++ ys) :=
  List.forall_mem_append.mpr ⟨h, k⟩

theorem Detached.append {xs ys : List Char} (h : Detached xs) (k : xs = [] → Detached ys) :
    Detached (xs ++ ys) := by
  cases xs with
  | nil => exact k rfl
  | cons x xs => exact h

theorem Solid.append {xs zs : List Char} (h : Solid xs) (nonempty : xs ≠ []) (k : Solid zs)
    (nonempty' : zs ≠ []) (between : List Char) : Solid (xs ++ (between ++ zs)) := by
  constructor
  · intro c member
    rw [List.head?_append_of_ne_nil _ nonempty] at member
    exact h.first c member
  · intro c member
    rw [← List.append_assoc, List.getLast?_append_of_ne_nil _ nonempty'] at member
    exact k.last c member

theorem Inked.solid {cs : List Char} (h : Inked cs) : Solid cs where
  first c member := h c (List.mem_of_head? member)
  last c member := h c (List.mem_of_getLast? member)

theorem detached_afterWord (cs : List Char) : Detached (afterWord cs) := by
  intro c member
  have stop := List.head?_dropWhile_not isInk cs
  rw [afterWord] at member
  rw [Option.mem_def.mp member] at stop
  simpa [isInk] using stop

theorem inked_headWord (cs : List Char) : Inked (headWord cs) :=
  fun _ member => List.mem_takeWhile_imp member

theorem headWord_append_afterWord (cs : List Char) : headWord cs ++ afterWord cs = cs :=
  List.takeWhile_append_dropWhile

theorem trim_drop_one {cs : List Char} (h : Detached cs) : trim (cs.drop 1) = trim cs := by
  cases cs with
  | nil => rfl
  | cons c cs => simp [trim, trimStart, h c rfl]

theorem trim_of_blanks {cs : List Char} (h : Blanks cs) : trim cs = [] := by
  have none : trimStart cs = [] := List.dropWhile_eq_nil_iff.mpr h
  rw [trim, none]
  rfl

theorem blanks_of_trim {cs : List Char} (h : trim cs = []) : Blanks cs := by
  obtain ⟨before, after, blank, blank', whole, -⟩ := exists_trim cs
  rw [h, List.append_nil] at whole
  rw [whole]
  exact blank.append blank'

theorem span_blanks {before rest : List Char} {c : Char} (blank : Blanks before)
    (ink : isInk c = true) : (before ++ c :: rest).takeWhile isBlank = before
      ∧ (before ++ c :: rest).dropWhile isBlank = c :: rest := by
  have stop : ¬ isBlank c = true := by simp [isBlank_eq_false_of_isInk ink]
  rw [List.takeWhile_append_of_pos blank, List.dropWhile_append_of_pos blank,
    List.takeWhile_cons_of_neg stop, List.dropWhile_cons_of_neg stop, List.append_nil]
  exact ⟨rfl, rfl⟩

theorem first_word_unique {before before' word word' rest rest' : List Char} (blank : Blanks before)
    (blank' : Blanks before') (ink : Inked word) (ink' : Inked word') (nonempty : word ≠ [])
    (nonempty' : word' ≠ []) (stop : Detached rest) (stop' : Detached rest')
    (same : before ++ (word ++ rest) = before' ++ (word' ++ rest')) :
    before = before' ∧ word = word' ∧ rest = rest' := by
  have front {before word rest : List Char} (blank : Blanks before) (ink : Inked word)
      (nonempty : word ≠ []) : (before ++ (word ++ rest)).takeWhile isBlank = before := by
    obtain ⟨c, cs, rfl⟩ := List.exists_cons_of_ne_nil nonempty
    exact (span_blanks blank (ink c List.mem_cons_self)).1
  obtain rfl : before = before' := by
    rw [← front blank ink nonempty, same, front blank' ink' nonempty']
  have same := List.append_cancel_left same
  obtain rfl : word = word' := by
    rw [← headWord_append ink stop, same, headWord_append ink' stop']
  exact ⟨rfl, rfl, List.append_cancel_left same⟩

private theorem wordsFrom_blanks {before : List Char} (blank : Blanks before) (rest : List Char) :
    wordsFrom [] (before ++ rest) = wordsFrom [] rest := by
  induction before with
  | nil => rfl
  | cons c before ih =>
    obtain ⟨first, others⟩ := List.forall_mem_cons.mp blank
    rw [List.cons_append, wordsFrom, if_pos first]
    exact ih others

private theorem wordsFrom_inked (front : List Char) {word : List Char} (ink : Inked word)
    (rest : List Char) :
    wordsFrom front (word ++ rest) = wordsFrom (word.reverse ++ front) rest := by
  induction word generalizing front with
  | nil => rfl
  | cons c word ih =>
    obtain ⟨first, others⟩ := List.forall_mem_cons.mp ink
    have ink := isBlank_eq_false_of_isInk first
    rw [List.cons_append, wordsFrom, if_neg (by simp [ink]), ih _ others]
    simp

theorem words_of_blanks {cs : List Char} (blank : Blanks cs) : words cs = [] := by
  have none := wordsFrom_blanks blank []
  rw [List.append_nil] at none
  exact none

theorem words_append {before word rest : List Char} (blank : Blanks before) (ink : Inked word)
    (nonempty : word ≠ []) (stop : Detached rest) :
    words (before ++ (word ++ rest)) = word :: words rest := by
  have filled : word.reverse.isEmpty = false := by simpa using nonempty
  rw [words, wordsFrom_blanks blank, wordsFrom_inked [] ink, List.append_nil]
  cases rest with
  | nil => simp [wordsFrom, filled, words]
  | cons c rest =>
    have blank := stop c rfl
    simp [wordsFrom, filled, words, blank]

private theorem exists_first_word {cs : List Char} (h : trim cs ≠ []) :
    ∃ before word rest, Blanks before ∧ Inked word ∧ word ≠ [] ∧ Detached rest
      ∧ cs = before ++ (word ++ rest) := by
  obtain ⟨before, after, blank, blank', whole, solid⟩ := exists_trim cs
  refine ⟨before, headWord (trim cs), afterWord (trim cs) ++ after, blank, inked_headWord _, ?_,
    (detached_afterWord _).append fun _ => blank'.detached, ?_⟩
  · obtain ⟨c, rest, same⟩ := List.exists_cons_of_ne_nil h
    rw [same] at solid ⊢
    rw [headWord, List.takeWhile_cons_of_pos (solid.first c rfl)]
    exact List.cons_ne_nil _ _
  · rw [← List.append_assoc (headWord _), headWord_append_afterWord, ← List.append_assoc]
    exact whole

theorem blanks_of_words {cs : List Char} (h : words cs = []) : Blanks cs := by
  by_cases empty : trim cs = []
  · exact blanks_of_trim empty
  · obtain ⟨before, word, rest, blank, ink, nonempty, stop, rfl⟩ := exists_first_word empty
    rw [words_append blank ink nonempty stop] at h
    cases h

theorem exists_of_words_eq_cons {cs word : List Char} {others : List (List Char)}
    (h : words cs = word :: others) : ∃ before rest, Blanks before ∧ Inked word ∧ word ≠ []
      ∧ Detached rest ∧ cs = before ++ (word ++ rest) ∧ words rest = others := by
  by_cases empty : trim cs = []
  · rw [words_of_blanks (blanks_of_trim empty)] at h
    cases h
  · obtain ⟨before, word, rest, blank, ink, nonempty, stop, rfl⟩ := exists_first_word empty
    rw [words_append blank ink nonempty stop] at h
    obtain ⟨rfl, rfl⟩ := List.cons.inj h
    exact ⟨before, rest, blank, ink, nonempty, stop, rfl, rfl⟩

end Text

end TernaryMachine
