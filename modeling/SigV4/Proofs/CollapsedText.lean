import SigV4.Proofs.LineBreaks
import SigV4.Proofs.Words

/-!
# Collapsing blanks is splitting into words

A collapsed text is the join of the words of the text that it was made of, and all that is said of it
follows from this:

* **`Collapsed.around_space`**: what stands on either side of a space is not empty and collapsed again, so
  no space stands at an end or beside another one.
* **`filter_collapseBlanks`**: no byte other than a blank is lost, moved or added.
* **`collapseBlanks_append_space`**: what two texts become with a space between them is told by what each
  becomes alone.
* **`collapseBlanks_splits_words`**: the sum of it.
-/

namespace SigV4

/-! ## Spaces in a collapsed text -/

/-- The pieces between the spaces of a collapsed text are words, unless it is empty. The text was made by
joining words with spaces, and splitting at the spaces gives the words back, since they have none inside. -/
theorem Collapsed.isWord_of_mem_split {text part : Bytes} (h : Collapsed text) (hne : text ≠ [])
    (hpart : part ∈ Bytes.split 32 text) : IsWord part := by
  obtain ⟨parts, hparts, rfl⟩ := h
  have hspace : ∀ part ∈ parts, (32 : UInt8) ∉ part := by
    intro part hpart hmem
    have hblank := (hparts part hpart).blankFree 32 hmem
    contradiction
  have hnil : parts ≠ [] := by
    rintro rfl
    exact hne rfl
  rw [Bytes.split_join hnil hspace] at hpart
  exact hparts part hpart

/-- On either side of a space a collapsed text goes on, and both sides are collapsed. All that is said below
of where spaces stand is a case of this one fact. -/
theorem Collapsed.around_space {front rest : Bytes} (h : Collapsed (front ++ 32 :: rest)) :
    (front ≠ [] ∧ Collapsed front) ∧ rest ≠ [] ∧ Collapsed rest := by
  have hne : front ++ 32 :: rest ≠ [] := by simp
  have hword : ∀ part ∈ Bytes.split 32 front ++ Bytes.split 32 rest, IsWord part := by
    intro part hpart
    rw [← Bytes.split_append_cons] at hpart
    exact h.isWord_of_mem_split hne hpart
  -- A side without a word would be one empty piece.
  have hside : ∀ side : Bytes, (∀ part ∈ Bytes.split 32 side, IsWord part) →
      side ≠ [] ∧ Collapsed side := by
    intro side hparts
    refine ⟨?_, Bytes.split 32 side, hparts, (Bytes.join_split 32 side).symm⟩
    rintro rfl
    exact (hparts [] (by decide)).nonempty rfl
  exact ⟨hside front fun part hpart => hword part (List.mem_append_left _ hpart),
    hside rest fun part hpart => hword part (List.mem_append_right _ hpart)⟩

/-- The only blanks of a collapsed text are spaces: a tab could stand neither in a word nor between two
words. -/
theorem Collapsed.eq_space {text : Bytes} {b : UInt8} (h : Collapsed text) (hmem : b ∈ text)
    (hb : isBlank b = true) : b = 32 := by
  obtain ⟨parts, hparts, rfl⟩ := h
  by_contra hne
  have hnowhere : b ∉ Bytes.join [32] parts := by
    refine Bytes.not_mem_join (by simpa using hne) fun part hpart hin => ?_
    rw [(hparts part hpart).blankFree b hin] at hb
    contradiction
  exact hnowhere hmem

/-- No blank stands at the start. It would be a space, with a part in front of it that is not empty. -/
theorem Collapsed.head_ne_blank {text : Bytes} (h : Collapsed text) :
    ∀ b ∈ text.head?, isBlank b = false := by
  intro b hhead
  rw [← Bool.not_eq_true]
  intro hb
  obtain ⟨rest, rfl⟩ := List.head?_eq_some_iff.mp hhead
  obtain rfl := h.eq_space List.mem_cons_self hb
  have hspace : Collapsed ([] ++ 32 :: rest) := h
  exact hspace.around_space.1.1 rfl

/-- No blank stands at the end, for the same reason seen from the other side. -/
theorem Collapsed.getLast_ne_blank {text : Bytes} (h : Collapsed text) :
    ∀ b ∈ text.getLast?, isBlank b = false := by
  intro b hlast
  rw [← Bool.not_eq_true]
  intro hb
  obtain ⟨front, rfl⟩ := List.getLast?_eq_some_iff.mp hlast
  obtain rfl := h.eq_space (by simp) hb
  exact h.around_space.2.1 rfl

/-- No two spaces stand side by side, as each would have something on both sides and there is nothing
between them. -/
theorem Collapsed.no_two_spaces {text : Bytes} (h : Collapsed text) : ¬ [32, 32] <:+: text := by
  rintro ⟨front, rest, rfl⟩
  have hspaces : front ++ [32, 32] ++ rest = front ++ 32 :: ([] ++ 32 :: rest) := by simp
  rw [hspaces] at h
  exact (h.around_space.2.2).around_space.1.1 rfl

/-! ## What is kept -/

theorem filter_of_isWord {part : Bytes} (h : IsWord part) : part.filter (!isBlank ·) = part :=
  List.filter_eq_self.mpr fun b hb => by simp [h.blankFree b hb]

/-- The bytes of a text other than blanks are those of its words, in their order. Induction on the runs. -/
theorem HasWords.filter_eq {text : Bytes} {parts : List Bytes} (h : HasWords text parts) :
    text.filter (!isBlank ·) = parts.flatten := by
  induction h with
  | nil => rfl
  | blank hb _ ih => rw [List.filter_cons_of_neg (by simp [hb]), ih]
  | word hpart _ _ ih => rw [List.filter_append, filter_of_isWord hpart, ih, List.flatten_cons]

/-- Collapsing keeps all bytes that are no blanks, in their order, since it keeps the words. Quotes and line
breaks are such bytes. -/
theorem filter_collapseBlanks (text : Bytes) :
    (collapseBlanks text).filter (!isBlank ·) = text.filter (!isBlank ·) := by
  rw [(hasWords_words _).filter_eq, words_collapseBlanks, (hasWords_words text).filter_eq]

/-- Two texts with a space between them have the words of both, so what becomes of them is told by what
becomes of each alone. The two sides of the equation have the same words for this reason. -/
theorem collapseBlanks_append_space (front rest : Bytes) :
    collapseBlanks (front ++ 32 :: rest)
      = collapseBlanks (collapseBlanks front ++ 32 :: collapseBlanks rest) := by
  have hspace : isBlank 32 = true := rfl
  rw [collapseBlanks_eq_join_words, collapseBlanks_eq_join_words (collapseBlanks front ++ _),
    words_append_blank hspace, words_append_blank hspace, words_collapseBlanks,
    words_collapseBlanks]

/-- What a text is like when its blanks are collapsed. -/
structure Collapses (text result : Bytes) : Prop where
  /-- It is the words of the text with one space between any two. -/
  joined : ∃ parts, (∀ others, HasWords text others ↔ others = parts)
    ∧ result = Bytes.join (ascii " ") parts
  start : ∀ b ∈ result.head?, isBlank b = false
  finish : ∀ b ∈ result.getLast?, isBlank b = false
  tabFree : 9 ∉ result
  spaced : ¬ ascii "  " <:+: result
  /-- All other bytes are kept, line breaks and quotes among them. -/
  kept : result.filter (!isBlank ·) = text.filter (!isBlank ·)
  stable : collapseBlanks result = result

/-- **Collapsing blanks is splitting into words**, and it can be done for the parts of a text that a space
separates, each on its own. -/
theorem collapseBlanks_splits_words :
    (∀ text, Collapses text (collapseBlanks text))
      ∧ ∀ front rest, collapseBlanks (front ++ ascii " " ++ rest)
        = collapseBlanks (collapseBlanks front ++ ascii " " ++ collapseBlanks rest) := by
  constructor
  · intro text
    have hcollapsed := collapsed_collapseBlanks text
    exact {
      joined := ⟨words text, fun _ => hasWords_iff, collapseBlanks_eq_join_words text⟩
      start := hcollapsed.head_ne_blank
      finish := hcollapsed.getLast_ne_blank
      tabFree := fun htab => absurd (hcollapsed.eq_space htab rfl) (by decide)
      spaced := hcollapsed.no_two_spaces
      kept := filter_collapseBlanks text
      stable := collapseBlanks_of_collapsed hcollapsed }
  · intro front rest
    rw [List.append_assoc, List.append_assoc]
    exact collapseBlanks_append_space front rest

/-- Blanks at the ends, a tab among inner ones, and a line break in a word. -/
example : collapseBlanks (ascii "\t a \t \"b\r\n\"  c ") = ascii "a \"b\r\n\" c" := by decide

end SigV4
