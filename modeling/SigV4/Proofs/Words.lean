import SigV4.Proofs.Cutting
import SigV4.Text
import Mathlib.Data.List.Induction
import Mathlib.Data.List.TakeWhile

/-!
# Words and blanks

Collapsing blanks keeps the words of a text and puts one space between any two of them. The scan
remembers no more than what it has put out and whether a blank came last, so what it makes of the
rest of a text depends on that alone (`collapseBlanks_go_eq`):

* **`hasWords_iff`**: the words of a text are its maximal runs of other bytes, and a text has no other list
  of such runs.
* **`collapseBlanks_eq_join_words`**: the result is the words of the text, joined by single spaces.
* **`words_join`**: joined words are read back as they were, so a text that is collapsed already
  stays as it is (`collapseBlanks_of_collapsed`).
* **`Collapsed.join`**: collapsed texts with a comma between any two of them are collapsed as well,
  since the comma makes one word of what stands on its two sides.
-/

namespace SigV4

/-! ## Words -/

/-- A text that is one word. -/
structure IsWord (text : Bytes) : Prop where
  nonempty : text ≠ []
  blankFree : ∀ b ∈ text, isBlank b = false

/-- A byte that is no blank makes one word of itself and whatever other bytes follow it. This is how a scan
comes upon a word: by its first byte, and then by what it takes along. -/
theorem IsWord.cons {b : UInt8} (hb : isBlank b = false) {rest : Bytes}
    (hrest : ∀ b ∈ rest, isBlank b = false) : IsWord (b :: rest) := by
  refine ⟨List.cons_ne_nil b rest, fun other hother => ?_⟩
  rcases List.mem_cons.mp hother with rfl | hother
  · exact hb
  · exact hrest other hother

/-- A word is the only word of itself: without a blank the split has one part, and this one is not empty and
so is kept. -/
theorem words_of_isWord {word : Bytes} (h : IsWord word) : words word = [word] := by
  rw [words, Bytes.splitWhere_eq_splitOnP, List.splitOnP_eq_singleton h.blankFree]
  exact List.filter_eq_self.mpr (by simpa using h.nonempty)

/-- A blank ends what stands in front of it, so the words on its two sides are found apart. The split may
leave an empty part on either side, which is no word and is dropped there as well. -/
theorem words_append_blank {b : UInt8} (hb : isBlank b = true) (front rest : Bytes) :
    words (front ++ b :: rest) = words front ++ words rest := by
  simp only [words, Bytes.splitWhere_eq_splitOnP]
  rw [List.splitOnP_append_cons front rest hb, List.filter_append]

theorem words_blank {b : UInt8} (hb : isBlank b = true) (rest : Bytes) :
    words (b :: rest) = words rest :=
  words_append_blank hb [] rest

theorem blankFree_takeWhile (text : Bytes) :
    ∀ b ∈ text.takeWhile (!isBlank ·), isBlank b = false :=
  fun _ hb => by simpa using List.mem_takeWhile_imp hb

/-- What a run of other bytes leaves over starts with a blank, if there is anything left. This is the
condition under which a run is maximal. -/
theorem isBlank_of_head_dropWhile (text : Bytes) :
    ∀ b ∈ (text.dropWhile (!isBlank ·)).head?, isBlank b = true := by
  intro b hb
  have hhead := List.head?_dropWhile_not (!isBlank ·) text
  rw [Option.mem_def.mp hb] at hhead
  simpa using hhead

/-- A word ends where the text does or in front of a blank. Without the condition on what follows, the word
would go on into it and the two would be one. -/
theorem words_append_of_isWord {part text : Bytes} (hpart : IsWord part)
    (hend : ∀ b ∈ text.head?, isBlank b = true) : words (part ++ text) = part :: words text := by
  cases text with
  | nil =>
    rw [List.append_nil, words_of_isWord hpart]
    rfl
  | cons b rest =>
    have hb : isBlank b = true := hend b rfl
    rw [words_append_blank hb, words_of_isWord hpart, words_blank hb]
    rfl

/-- A word goes on up to the next blank. With `words_blank` this tells the words of any text from its first
byte, as the scan does. -/
theorem words_letter {b : UInt8} (hb : isBlank b = false) (rest : Bytes) :
    words (b :: rest)
      = (b :: rest.takeWhile (!isBlank ·)) :: words (rest.dropWhile (!isBlank ·)) := by
  have hword : IsWord (b :: rest.takeWhile (!isBlank ·)) := .cons hb (blankFree_takeWhile rest)
  have hwords := words_append_of_isWord hword (isBlank_of_head_dropWhile rest)
  rwa [List.cons_append, List.takeWhile_append_dropWhile] at hwords

/-- These are the maximal runs of bytes other than blanks, in the order in which they stand in the text. -/
inductive HasWords : Bytes → List Bytes → Prop where
  | nil : HasWords [] []
  | blank {b : UInt8} {text : Bytes} {parts : List Bytes} (hb : isBlank b = true)
      (h : HasWords text parts) : HasWords (b :: text) parts
  | word {part text : Bytes} {parts : List Bytes} (hpart : IsWord part)
      (hend : ∀ b ∈ text.head?, isBlank b = true) (h : HasWords text parts) :
      HasWords (part ++ text) (part :: parts)

namespace HasWords

variable {text : Bytes} {parts : List Bytes}

/-- Runs that are maximal are the words that splitting finds. The induction is on the runs: a blank is
passed over on both sides, and a run that ends in front of a blank is one part of the split. -/
theorem eq_words (h : HasWords text parts) : parts = words text := by
  induction h with
  | nil => rfl
  | blank hb _ ih => rw [words_blank hb, ih]
  | word hpart hend _ ih => rw [words_append_of_isWord hpart hend, ih]

/-- Each run was added as a word. -/
theorem isWord (h : HasWords text parts) : ∀ part ∈ parts, IsWord part := by
  induction h with
  | nil => simp
  | blank _ _ ih => exact ih
  | word hpart _ _ ih => exact List.forall_mem_cons.mpr ⟨hpart, ih⟩

end HasWords

/-- Every text has words, namely those that splitting finds. The induction is on its length, since a word is
passed in one step. -/
theorem hasWords_words (text : Bytes) : HasWords text (words text) := by
  induction hlength : text.length using Nat.strongRecOn generalizing text with
  | ind n ih =>
    cases text with
    | nil => exact .nil
    | cons b rest =>
      rw [List.length_cons] at hlength
      cases hb : isBlank b with
      | true =>
        rw [words_blank hb]
        exact .blank hb (ih rest.length (by omega) rest rfl)
      | false =>
        -- The word takes one byte at least, so what is left over is shorter than the text.
        have hshorter : (rest.dropWhile (!isBlank ·)).length < n := by
          have hle := (List.dropWhile_suffix (!isBlank ·) (l := rest)).length_le
          omega
        have hword : IsWord (b :: rest.takeWhile (!isBlank ·)) := .cons hb (blankFree_takeWhile rest)
        have hwords := HasWords.word hword (isBlank_of_head_dropWhile rest) (ih _ hshorter _ rfl)
        rw [List.cons_append, List.takeWhile_append_dropWhile] at hwords
        rwa [words_letter hb]

/-- A text has one list of words, so "the words of a text" is well defined by the runs alone. -/
theorem hasWords_iff {text : Bytes} {parts : List Bytes} : HasWords text parts ↔ parts = words text := by
  constructor
  · exact HasWords.eq_words
  · rintro rfl
    exact hasWords_words text

theorem isWord_of_mem_words {text word : Bytes} (h : word ∈ words text) : IsWord word :=
  (hasWords_words text).isWord word h

/-- Joined words are read back as they were, since a word has no blank by which it could come apart and is
not empty, so none gets lost. Induction on the list, with one space taken off in each step. -/
theorem words_join {parts : List Bytes} (h : ∀ part ∈ parts, IsWord part) :
    words (Bytes.join [32] parts) = parts := by
  induction parts with
  | nil => rfl
  | cons part parts ih =>
    have hpart := words_of_isWord (h part List.mem_cons_self)
    have hparts := ih fun other hother => h other (List.mem_cons_of_mem part hother)
    cases parts with
    | nil => rw [Bytes.join_singleton, hpart]
    | cons next parts =>
      rw [Bytes.join_cons_cons, List.append_assoc, List.singleton_append,
        words_append_blank (by decide), hpart, hparts]
      rfl

/-! ## The scan

The scan goes byte by byte and remembers whether it is within a word. Its state is told by the words
seen so far. -/

/-- What the scan makes of a text, when it has put something out and its last byte was no blank, and when it
was one. The two are proved together, since the scan goes back and forth between them; in the first case a
word may be going on, which ends at the first blank to come. -/
theorem collapseBlanks_go_eq (text : Bytes) {out : Bytes} (hout : out ≠ []) :
    collapseBlanks.go out false text
        = out.reverse ++ (text.takeWhile (!isBlank ·)
          ++ (words (text.dropWhile (!isBlank ·))).flatMap ([32] ++ ·))
      ∧ collapseBlanks.go out true text = out.reverse ++ (words text).flatMap ([32] ++ ·) := by
  induction text generalizing out with
  | nil => simp [collapseBlanks.go, words, Bytes.splitWhere, Bytes.splitWhere.go]
  | cons b rest ih =>
    have hgap : (!out.isEmpty) = true := by simpa using hout
    rw [collapseBlanks.go, collapseBlanks.go]
    cases hb : isBlank b with
    | true =>
      rw [if_pos rfl, if_pos rfl, hgap, (ih hout).2]
      simp [hb, words_blank hb]
    | false =>
      -- A letter is put out, behind a space if one is due.
      have hbyte := (ih (List.cons_ne_nil b out)).1
      have hspace := (ih (List.cons_ne_nil b (32 :: out))).1
      simp only [Bool.false_eq_true, if_false, if_true, hbyte, hspace, words_letter hb]
      simp [hb]

/-- **The scan puts one space between any two words and nothing around them.** In front of the first word
nothing was put out yet, so no space is due there whatever blanks there are; this part is an induction of
its own, and `collapseBlanks_go_eq` takes over at the first letter. -/
theorem collapseBlanks_eq_join_words (text : Bytes) :
    collapseBlanks text = Bytes.join [32] (words text) := by
  unfold collapseBlanks
  induction text with
  | nil => rfl
  | cons b rest ih =>
    rw [collapseBlanks.go]
    cases hb : isBlank b with
    | true => rw [if_pos rfl, words_blank hb]; exact ih
    | false =>
      simp only [Bool.false_eq_true, if_false]
      rw [(collapseBlanks_go_eq rest (List.cons_ne_nil b [])).1, words_letter hb, Bytes.join]
      rfl

/-! ## Collapsed texts -/

/-- A text in which there is nothing to collapse. -/
def Collapsed (text : Bytes) : Prop :=
  ∃ parts, (∀ part ∈ parts, IsWord part) ∧ text = Bytes.join [32] parts

/-- Collapsing blanks neither loses a word nor makes one of two. -/
theorem words_collapseBlanks (text : Bytes) : words (collapseBlanks text) = words text := by
  rw [collapseBlanks_eq_join_words]
  exact words_join fun _ => isWord_of_mem_words

theorem collapsed_collapseBlanks (text : Bytes) : Collapsed (collapseBlanks text) :=
  ⟨words text, fun _ => isWord_of_mem_words, collapseBlanks_eq_join_words text⟩

/-- A text that is collapsed already stays as it is, so collapsing twice is collapsing once. -/
theorem collapseBlanks_of_collapsed {text : Bytes} (h : Collapsed text) :
    collapseBlanks text = text := by
  obtain ⟨parts, hparts, rfl⟩ := h
  rw [collapseBlanks_eq_join_words, words_join hparts]

/-- Two joined lists of parts run into each other where the last part of one meets the first part of
the other. -/
theorem Bytes.join_append_join (separator : Bytes) (init : List Bytes) (last first : Bytes)
    (rest : List Bytes) :
    join separator (init ++ [last]) ++ join separator (first :: rest)
      = join separator (init ++ (last ++ first) :: rest) := by
  induction init with
  | nil => simp [join]
  | cons part init ih =>
    cases init with
    | nil => simp [join]
    | cons next init =>
      simp only [List.cons_append] at ih ⊢
      rw [join_cons_cons, join_cons_cons, List.append_assoc, ih]

/-- A byte other than a blank makes one word of what meets there: of the last word in front of it and the
first one behind it, either of which may be missing. -/
theorem Collapsed.append_cons {front rest : Bytes} {b : UInt8} (hfront : Collapsed front)
    (hb : isBlank b = false) (hrest : Collapsed rest) : Collapsed (front ++ b :: rest) := by
  -- Without words, a text ends in an empty piece of a word, and starts with one.
  obtain ⟨init, last, hinit, hlast, rfl⟩ : ∃ init last, (∀ part ∈ init, IsWord part)
      ∧ (∀ x ∈ last, isBlank x = false) ∧ front = Bytes.join [32] (init ++ [last]) := by
    obtain ⟨parts, hparts, rfl⟩ := hfront
    cases parts using List.reverseRecOn with
    | nil => exact ⟨[], [], by simp, by simp, rfl⟩
    | append_singleton init last _ =>
      exact ⟨init, last, fun part hpart => hparts part (by simp [hpart]),
        (hparts last (by simp)).blankFree, rfl⟩
  obtain ⟨first, others, hothers, hfirst, rfl⟩ : ∃ first others, (∀ part ∈ others, IsWord part)
      ∧ (∀ x ∈ first, isBlank x = false) ∧ rest = Bytes.join [32] (first :: others) := by
    obtain ⟨parts, hparts, rfl⟩ := hrest
    cases parts with
    | nil => exact ⟨[], [], by simp, by simp, rfl⟩
    | cons first others =>
      exact ⟨first, others, fun part hpart => hparts part (List.mem_cons_of_mem first hpart),
        (hparts first List.mem_cons_self).blankFree, rfl⟩
  -- The middle word is the only one that is new.
  refine ⟨init ++ (last ++ b :: first) :: others, fun part hpart => ?_, ?_⟩
  · rcases List.mem_append.mp hpart with hpart | hpart
    · exact hinit part hpart
    · rcases List.mem_cons.mp hpart with rfl | hpart
      · refine ⟨by simp, fun x hx => ?_⟩
        rcases List.mem_append.mp hx with hx | hx
        · exact hlast x hx
        · rcases List.mem_cons.mp hx with rfl | hx
          · exact hb
          · exact hfirst x hx
      · exact hothers part hpart
  · exact Bytes.join_append_join [32] init last (b :: first) others

/-- Collapsed texts with such a byte between any two of them make a collapsed text, some of them possibly
empty. For a comma this is what several values of one header come to. -/
theorem Collapsed.join {b : UInt8} (hb : isBlank b = false) {parts : List Bytes}
    (h : ∀ part ∈ parts, Collapsed part) : Collapsed (Bytes.join [b] parts) := by
  induction parts with
  | nil => exact ⟨[], by simp, rfl⟩
  | cons part parts ih =>
    have hparts := ih fun other hother => h other (List.mem_cons_of_mem part hother)
    cases parts with
    | nil => simpa using h part List.mem_cons_self
    | cons next parts =>
      rw [Bytes.join_cons_cons, List.append_assoc, List.singleton_append]
      exact .append_cons (h part List.mem_cons_self) hb hparts

end SigV4
