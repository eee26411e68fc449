import GroupCalendar.Text.Blank

/-! # Words of a text

A text is read in one way only as words with blanks between them and around them.
-/

namespace GroupCalendar.Text

/-- Some characters without a blank one. -/
def IsWord (word : List Char) : Prop :=
  word ≠ [] ∧ ∀ c ∈ word, isBlank c = false

/-- The words of a text in their order. What follows a word is blank or the end of the text. -/
inductive Spells : List (List Char) → List Char → Prop
  | nil {cs} (blank : ∀ c ∈ cs, isBlank c) : Spells [] cs
  | cons {ws before word rest} (blank : ∀ c ∈ before, isBlank c) (isWord : IsWord word)
    (parted : ∀ c ∈ rest.head?, isBlank c) (spells : Spells ws rest) :
    Spells (word :: ws) (before ++ word ++ rest)

variable {cs before word rest : List Char} {ws : List (List Char)}

theorem Spells.blank_cons {c : Char} (hc : isBlank c) (h : Spells ws cs) :
    Spells ws (c :: cs) := by
  cases h with
  | nil blank => exact .nil (List.forall_mem_cons.mpr ⟨hc, blank⟩)
  | cons blank isWord parted spells =>
    exact .cons (List.forall_mem_cons.mpr ⟨hc, blank⟩) isWord parted spells

theorem Spells.word_append (hw : IsWord word) (hr : ∀ c ∈ rest.head?, isBlank c)
    (h : Spells ws rest) : Spells (word :: ws) (word ++ rest) := by
  have hb : ∀ c ∈ ([] : List Char), isBlank c := List.forall_mem_nil _
  exact .cons hb hw hr h

theorem isWord_reverse (hne : word ≠ []) (hw : ∀ c ∈ word, isBlank c = false) :
    IsWord word.reverse :=
  ⟨List.reverse_ne_nil_iff.mpr hne, fun c hc => hw c (List.mem_reverse.mp hc)⟩

/-- The characters of the word that is being read come first, in reverse. -/
theorem spells_go (hw : ∀ c ∈ word, isBlank c = false) :
    Spells (words.go word cs) (word.reverse ++ cs) := by
  induction cs generalizing word with
  | nil =>
    cases word with
    | nil => exact .nil (List.forall_mem_nil _)
    | cons c word =>
      exact .word_append (isWord_reverse (by simp) hw) (by simp) (.nil (List.forall_mem_nil _))
  | cons c rest ih =>
    rw [words.go]
    by_cases hc : isBlank c
    · have hrest : Spells (words.go [] rest) (c :: rest) :=
        (ih (List.forall_mem_nil _)).blank_cons hc
      cases word with
      | nil => simpa [hc] using hrest
      | cons d word =>
        rw [if_pos hc]
        exact .word_append (isWord_reverse (by simp) hw) (by simpa using hc) hrest
    · have hword := ih (List.forall_mem_cons.mpr ⟨Bool.eq_false_iff.mpr hc, hw⟩)
      simpa [hc] using hword

theorem words_blanks_append (hb : ∀ c ∈ before, isBlank c) : words (before ++ cs) = words cs := by
  induction before with
  | nil => rfl
  | cons c before ih =>
    obtain ⟨hc, hb⟩ := List.forall_mem_cons.mp hb
    rw [List.cons_append, words, words.go, if_pos hc]
    exact ih hb

theorem go_word_append {read : List Char} (hw : ∀ c ∈ word, isBlank c = false) :
    words.go read (word ++ cs) = words.go (word.reverse ++ read) cs := by
  induction word generalizing read with
  | nil => rfl
  | cons c word ih =>
    obtain ⟨hc, hw⟩ := List.forall_mem_cons.mp hw
    rw [List.cons_append, words.go, if_neg (by simp [hc]), ih hw]
    simp

theorem words_word_append (hw : IsWord word) (hr : ∀ c ∈ rest.head?, isBlank c) :
    words (word ++ rest) = word :: words rest := by
  rw [words, go_word_append hw.2]
  cases rest with
  | nil => simp [words, words.go, hw.1]
  | cons c rest => simp [words, words.go, hw.1, hr c rfl]

theorem words_eq_iff : words cs = ws ↔ Spells ws cs := by
  constructor
  · rintro rfl
    exact spells_go (List.forall_mem_nil _)
  · intro h
    induction h with
    | @nil cs blank =>
      calc words cs = words (cs ++ []) := by rw [List.append_nil]
        _ = [] := words_blanks_append blank
    | cons blank isWord parted _ ih =>
      rw [List.append_assoc, words_blanks_append blank, words_word_append isWord parted, ih]

end GroupCalendar.Text
