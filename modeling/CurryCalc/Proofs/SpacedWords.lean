import CurryCalc.Proofs.Trimming

/-! Words and the texts that they stand in. Words with one space between each two are the words of
that text, and whatever occurs in a text without a blank character in it occurs within one of its
words. -/
namespace CurryCalc

/-- Characters of which none is blank, and not the empty text. -/
structure IsWord (w : String) : Prop where
  nonempty : w.toList ≠ []
  unbroken : ∀ c ∈ w.toList, isBlank c = false

instance (w : String) : Decidable (IsWord w) :=
  decidable_of_iff (w.toList ≠ [] ∧ w.toList.all (!isBlank ·) = true)
    ⟨fun h => ⟨h.1, by simpa using h.2⟩, fun h => ⟨h.nonempty, by simpa using h.unbroken⟩⟩

def spaced (ws : List String) : String := " ".intercalate ws

section Words

/-- Characters are read word by word. -/
theorem wordsOf_induction {P : List Char → Prop} (blank : ∀ cs, (∀ c ∈ cs, isBlank c) → P cs)
    (word : ∀ blanks word rest, (∀ c ∈ blanks, isBlank c) → word ≠ [] →
      (∀ c ∈ word, isBlank c = false) → (∀ c more, rest = c :: more → isBlank c) → P rest →
      P (blanks ++ (word ++ rest))) (cs : List Char) : P cs := by
  induction hn : cs.length using Nat.strongRecOn generalizing cs with
  | ind n ih =>
    rcases blank_or_word cs with hblank | ⟨blanks, chars, rest, rfl, hblanks, hne, hchars, hrest⟩
    · exact blank cs hblank
    · have hpos := List.length_pos_iff.2 hne
      refine word blanks chars rest hblanks hne hchars hrest (ih rest.length ?_ rest rfl)
      simp only [List.length_append] at hn
      omega

theorem isWord_of_mem {s w : String} (h : w ∈ words s) : IsWord w ∧ w.toList <:+: s.toList := by
  rw [words_eq] at h
  revert h
  induction s.toList using wordsOf_induction with
  | blank cs hblank =>
    rw [wordsOf_blank hblank]
    exact nofun
  | word blanks chars rest hblanks hne hchars hrest ih =>
    rw [wordsOf_append_blank hblanks, wordsOf_append_word hne hchars hrest, List.mem_cons]
    rintro (rfl | h)
    · rw [String.toList_ofList]
      exact ⟨⟨by simpa using hne, by simpa using hchars⟩, blanks, rest, by simp⟩
    · obtain ⟨hword, hin⟩ := ih h
      have hend : rest <:+ blanks ++ (chars ++ rest) :=
        (List.suffix_append chars rest).trans (List.suffix_append blanks _)
      exact ⟨hword, hin.trans hend.isInfix⟩

theorem IsWord.words_eq {w : String} (h : IsWord w) : words w = [w] := by
  have hword : wordsOf (w.toList ++ []) = _ := wordsOf_append_word h.nonempty h.unbroken nofun
  rw [List.append_nil, String.ofList_toList] at hword
  exact hword

theorem spaced_cons {w : String} {ws : List String} (h : ws ≠ []) :
    spaced (w :: ws) = w ++ " " ++ spaced ws :=
  String.intercalate_cons_of_ne_nil h

theorem words_spaced {ws : List String} (h : ∀ w ∈ ws, IsWord w) : words (spaced ws) = ws := by
  induction ws with
  | nil => rfl
  | cons w ws ih =>
    obtain ⟨hw, hws⟩ := List.forall_mem_cons.1 h
    by_cases hnil : ws = []
    · rw [hnil, spaced, String.intercalate_singleton, hw.words_eq]
    · rw [spaced_cons hnil, words_join, hw.words_eq, ih hws, List.singleton_append]

end Words

section Occurrences

variable {part : List Char}

/-- An occurrence of a part does not go over a character that the part has not. -/
theorem occurs_of_append_cons {c : Char} (hc : c ∉ part) {cs ds : List Char}
    (h : part <:+: cs ++ c :: ds) : part <:+: cs ∨ part <:+: ds := by
  induction cs with
  | nil =>
    rcases List.infix_cons_iff.1 h with hhere | hlater
    · have hhere : part <+: [] ++ c :: ds := hhere
      exact .inl (prefix_of_prefix_append_cons hc hhere).isInfix
    · exact .inr hlater
  | cons d cs ih =>
    rcases List.infix_cons_iff.1 h with hhere | hlater
    · have hhere : part <+: (d :: cs) ++ c :: ds := hhere
      exact .inl (prefix_of_prefix_append_cons hc hhere).isInfix
    · rcases ih hlater with hcs | hds
      · exact .inl (List.infix_cons hcs)
      · exact .inr hds

theorem occurs_of_append_blank (hne : part ≠ []) (hpart : ∀ c ∈ part, isBlank c = false)
    {blanks cs : List Char} (hblanks : ∀ c ∈ blanks, isBlank c) (h : part <:+: blanks ++ cs) :
    part <:+: cs := by
  induction blanks with
  | nil => exact h
  | cons b blanks ih =>
    obtain ⟨hb, hblanks⟩ := List.forall_mem_cons.1 hblanks
    have hnot : b ∉ part := fun hmem => by simp [hpart b hmem] at hb
    have h : part <:+: [] ++ b :: (blanks ++ cs) := h
    rcases occurs_of_append_cons hnot h with hnil | hlater
    · exact (not_infix_nil hne hnil).elim
    · exact ih hblanks hlater

theorem occurs_in_word (hne : part ≠ []) (hpart : ∀ c ∈ part, isBlank c = false) {s : String}
    (h : part <:+: s.toList) : ∃ w ∈ words s, part <:+: w.toList := by
  rw [words_eq]
  revert h
  induction s.toList using wordsOf_induction with
  | blank cs hblank =>
    intro h
    obtain ⟨c, hc⟩ := List.exists_mem_of_ne_nil part hne
    have hboth := hblank c (h.subset hc)
    simp [hpart c hc] at hboth
  | word blanks chars rest hblanks hword hchars hrest ih =>
    intro h
    rw [wordsOf_append_blank hblanks, wordsOf_append_word hword hchars hrest]
    have hfirst : part <:+: chars ++ rest → part <:+: chars ∨ part <:+: rest := by
      cases rest with
      | nil =>
        rw [List.append_nil]
        exact .inl
      | cons c more =>
        have hnot : c ∉ part := fun hmem => by simpa [hpart c hmem] using hrest c more rfl
        exact fun h => (occurs_of_append_cons hnot h).imp_right List.infix_cons
    rcases hfirst (occurs_of_append_blank hne hpart hblanks h) with hhere | hlater
    · exact ⟨String.ofList chars, List.mem_cons_self, by rwa [String.toList_ofList]⟩
    · obtain ⟨w, hw, hin⟩ := ih hlater
      exact ⟨w, List.mem_cons_of_mem _ hw, hin⟩

theorem occurrencesFrom_eq_nil (hpart : part ≠ []) {cs : List Char} (h : ¬ part <:+: cs) (i : Nat) :
    occurrencesFrom part i cs = [] := by
  induction cs generalizing i with
  | nil => simp [occurrencesFrom, hpart]
  | cons c cs ih =>
    rw [List.infix_cons_iff, not_or] at h
    rw [occurrencesFrom, if_neg (mt List.isPrefixOf_iff_prefix.1 h.1), ih h.2]

/-- A character that a part has not separates the occurrences before it from those after it. -/
theorem occurrencesFrom_append_cons (hpart : part ≠ []) {c : Char} (hc : c ∉ part) (i : Nat)
    (cs ds : List Char) : occurrencesFrom part i (cs ++ c :: ds) =
      occurrencesFrom part i cs ++ occurrencesFrom part (i + cs.length + 1) ds := by
  induction cs generalizing i with
  | nil =>
    have hnot : ¬ part.isPrefixOf (c :: ds) = true := by
      intro hprefix
      have hprefix : part <+: [] ++ c :: ds := List.isPrefixOf_iff_prefix.1 hprefix
      exact hpart (List.prefix_nil.1 (prefix_of_prefix_append_cons hc hprefix))
    simp [occurrencesFrom, hnot, hpart]
  | cons d cs ih =>
    have hsame : part.isPrefixOf (d :: (cs ++ c :: ds)) = part.isPrefixOf (d :: cs) := by
      rw [Bool.eq_iff_iff, List.isPrefixOf_iff_prefix, List.isPrefixOf_iff_prefix]
      exact ⟨fun h => prefix_of_prefix_append_cons hc h, fun h => h.trans (List.prefix_append _ _)⟩
    rw [List.cons_append, occurrencesFrom, occurrencesFrom, hsame, ih, List.length_cons,
      Nat.add_right_comm i 1, Nat.add_assoc i]
    split <;> rfl

end Occurrences

end CurryCalc
