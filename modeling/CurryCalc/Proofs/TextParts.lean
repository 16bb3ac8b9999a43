import CurryCalc.Text.Excerpt
import CurryCalc.Text.Words

/-! Words and pieces of texts. A text with one word is that word with blank characters around it,
and a mark that occurs once in a text cuts it in two. -/
namespace CurryCalc

section Words

def wordsOf (cs : List Char) : List String := (wordsFrom 0 [] [] cs).map Word.text

theorem words_eq (s : String) : words s = wordsOf s.toList := rfl

theorem closeRun_eq (i : Nat) (run : List Char) (found : List Word) :
    closeRun i run found = closeRun i run [] ++ found := by
  unfold closeRun
  split <;> rfl

theorem closeRun_text (i : Nat) (run : List Char) :
    (closeRun i run []).map Word.text =
      if run.isEmpty then [] else [String.ofList run.reverse] := by
  unfold closeRun
  split <;> rfl

/-- The words found before come first, and texts of words do not depend on their offsets. -/
theorem wordsFrom_text (i : Nat) (run : List Char) (found : List Word) (cs : List Char) :
    (wordsFrom i run found cs).map Word.text =
      found.reverse.map Word.text ++ (wordsFrom 0 run [] cs).map Word.text := by
  induction cs generalizing i run found with
  | nil =>
    simp only [wordsFrom, closeRun_eq i run found, List.reverse_append, List.map_append,
      List.map_reverse, closeRun_text]
  | cons c cs ih =>
    simp only [wordsFrom]
    split
    · rw [ih (i + 1), ih (0 + 1), closeRun_eq i run found]
      simp only [List.reverse_append, List.map_append, List.map_reverse, closeRun_text,
        List.append_assoc]
    · rw [ih (i + 1), ih (0 + 1) (c :: run) []]
      rfl

theorem wordsOf_cons_blank {c : Char} (h : isBlank c) (cs : List Char) :
    wordsOf (c :: cs) = wordsOf cs := by
  rw [wordsOf, wordsFrom, if_pos h, wordsFrom_text]
  rfl

/-- A blank character ends the words before it. -/
theorem wordsOf_append_cons {c : Char} (h : isBlank c) (cs ds : List Char) :
    wordsOf (cs ++ c :: ds) = wordsOf cs ++ wordsOf ds := by
  have hgeneral (i : Nat) (run : List Char) : (wordsFrom i run [] (cs ++ c :: ds)).map Word.text =
      (wordsFrom i run [] cs).map Word.text ++ wordsOf ds := by
    induction cs generalizing i run with
    | nil =>
      have hcut : wordsFrom i run [] (c :: ds) = wordsFrom (i + 1) [] (closeRun i run []) ds := by
        rw [wordsFrom, if_pos h]
      rw [List.nil_append, hcut, wordsFrom_text]
      rfl
    | cons d cs ih =>
      simp only [List.cons_append, wordsFrom]
      split
      · rw [wordsFrom_text (i + 1) [] _ (cs ++ c :: ds), ih 0 [], wordsFrom_text (i + 1) [] _ cs,
          List.append_assoc]
      · exact ih (i + 1) (d :: run)
  exact hgeneral 0 []

theorem wordsOf_append_blank {blanks : List Char} (h : ∀ c ∈ blanks, isBlank c) (cs : List Char) :
    wordsOf (blanks ++ cs) = wordsOf cs := by
  induction blanks with
  | nil => rfl
  | cons b blanks ih =>
    obtain ⟨hb, hblanks⟩ := List.forall_mem_cons.1 h
    rw [List.cons_append, wordsOf_cons_blank hb, ih hblanks]

/-- Characters that are not blank, up to the end or to one that is blank, make up a word. -/
theorem wordsOf_append_word {word rest : List Char} (hne : word ≠ [])
    (hword : ∀ c ∈ word, isBlank c = false) (hrest : ∀ c more, rest = c :: more → isBlank c) :
    wordsOf (word ++ rest) = String.ofList word :: wordsOf rest := by
  have hgeneral (i : Nat) (run : List Char) (hrun : run ≠ [] ∨ word ≠ []) :
      (wordsFrom i run [] (word ++ rest)).map Word.text =
        String.ofList (run.reverse ++ word) :: wordsOf rest := by
    clear hne
    induction word generalizing i run with
    | nil =>
      have hrun : run ≠ [] := by simpa using hrun
      cases rest with
      | nil => simp [wordsFrom, closeRun, hrun, wordsOf]
      | cons c more =>
        have hc := hrest c more rfl
        rw [List.nil_append, wordsFrom, if_pos hc, wordsFrom_text, wordsOf_cons_blank hc]
        simp [closeRun, hrun, wordsOf]
    | cons c word ih =>
      obtain ⟨hc, hword⟩ := List.forall_mem_cons.1 hword
      rw [List.cons_append, wordsFrom, if_neg (by simp [hc]), ih hword (i + 1) (c :: run) (by simp)]
      simp
  simpa [wordsOf] using hgeneral 0 [] (.inr hne)

theorem exists_span (test : Char → Bool) (cs : List Char) :
    ∃ front back, cs = front ++ back ∧ (∀ c ∈ front, test c) ∧
      ∀ c more, back = c :: more → test c = false := by
  refine ⟨cs.takeWhile test, cs.dropWhile test, List.takeWhile_append_dropWhile.symm,
    List.all_eq_true.1 List.all_takeWhile, ?_⟩
  intro c more hback
  have h := List.head?_dropWhile_not test cs
  rw [hback] at h
  simpa using h

/-- Characters are blank, or have a first word. -/
theorem blank_or_word (cs : List Char) : (∀ c ∈ cs, isBlank c) ∨
    ∃ blanks word rest, cs = blanks ++ (word ++ rest) ∧ (∀ c ∈ blanks, isBlank c) ∧ word ≠ [] ∧
      (∀ c ∈ word, isBlank c = false) ∧ ∀ c more, rest = c :: more → isBlank c := by
  obtain ⟨blanks, back, rfl, hblanks, hback⟩ := exists_span isBlank cs
  obtain ⟨word, rest, rfl, hword, hrest⟩ := exists_span (!isBlank ·) back
  by_cases hne : word = []
  · left
    subst hne
    cases rest with
    | nil => simpa using hblanks
    | cons c more =>
      have hc := hback c more rfl
      have hc' := hrest c more rfl
      simp [hc] at hc'
  · right
    refine ⟨blanks, word, rest, rfl, hblanks, hne, ?_, ?_⟩
    · simpa using hword
    · simpa using hrest

theorem blank_of_wordsOf_nil {cs : List Char} (h : wordsOf cs = []) : ∀ c ∈ cs, isBlank c := by
  rcases blank_or_word cs with hblank | ⟨blanks, word, rest, rfl, hblanks, hne, hword, hrest⟩
  · exact hblank
  · rw [wordsOf_append_blank hblanks, wordsOf_append_word hne hword hrest] at h
    cases h

theorem wordsOf_blank {cs : List Char} (h : ∀ c ∈ cs, isBlank c) : wordsOf cs = [] := by
  rw [← List.append_nil cs, wordsOf_append_blank h]
  rfl

theorem trimLeft_toList (s : String) : (trimLeft s).toList = s.toList.dropWhile isBlank :=
  String.toList_ofList

theorem trimRight_toList (s : String) :
    (trimRight s).toList = (s.toList.reverse.dropWhile isBlank).reverse :=
  String.toList_ofList

theorem dropWhile_blank {blanks cs : List Char} (hblanks : ∀ c ∈ blanks, isBlank c)
    (hcs : ∀ c more, cs = c :: more → isBlank c = false) :
    (blanks ++ cs).dropWhile isBlank = cs := by
  rw [List.dropWhile_append_of_pos hblanks]
  cases cs with
  | nil => rfl
  | cons c more => exact List.dropWhile_cons_of_neg (by simp [hcs c more rfl])

/-- Trimming takes off the blank characters around a word. -/
theorem trim_of_toList {s : String} {before word after : List Char}
    (hs : s.toList = before ++ (word ++ after)) (hbefore : ∀ c ∈ before, isBlank c)
    (hafter : ∀ c ∈ after, isBlank c) (hne : word ≠ []) (hword : ∀ c ∈ word, isBlank c = false) :
    trim s = String.ofList word := by
  have hleft : (trimLeft s).toList = word ++ after := by
    rw [trimLeft_toList, hs]
    apply dropWhile_blank hbefore
    intro c more h
    obtain ⟨first, others, rfl⟩ := List.exists_cons_of_ne_nil hne
    cases h
    exact hword _ List.mem_cons_self
  have hright : (trim s).toList = word := by
    rw [trim, trimRight_toList, hleft, List.reverse_append, dropWhile_blank, List.reverse_reverse]
    · simpa using hafter
    · intro c more h
      exact hword c (List.mem_reverse.1 (h ▸ List.mem_cons_self))
  rw [← hright, String.ofList_toList]

theorem trim_of_words {s word : String} (h : words s = [word]) :
    trim s = word ∧ word.toList ≠ [] ∧ ∀ c ∈ word.toList, isBlank c = false := by
  rw [words_eq] at h
  rcases blank_or_word s.toList with hblank | ⟨blanks, chars, rest, hs, hblanks, hne, hchars, hrest⟩
  · rw [wordsOf_blank hblank] at h
    cases h
  · rw [hs, wordsOf_append_blank hblanks, wordsOf_append_word hne hchars hrest] at h
    obtain ⟨rfl, hnone⟩ := List.cons.inj h
    rw [String.toList_ofList]
    exact ⟨trim_of_toList hs hblanks (blank_of_wordsOf_nil hnone) hne hchars, hne, hchars⟩

end Words

section Pieces

variable {part : List Char}

theorem firstOffset?_ge {i j : Nat} {cs : List Char} (h : firstOffset? part i cs = some j) :
    i ≤ j := by
  induction cs generalizing i with
  | nil =>
    rw [firstOffset?] at h
    split at h <;> cases h
    exact Nat.le_refl _
  | cons c cs ih =>
    rw [firstOffset?] at h
    split at h
    · cases h
      exact Nat.le_refl _
    · exact Nat.le_of_succ_le (ih h)

theorem occurrencesFrom_ge {i j : Nat} {cs : List Char} (h : j ∈ occurrencesFrom part i cs) :
    i ≤ j := by
  induction cs generalizing i with
  | nil =>
    rw [occurrencesFrom] at h
    split at h <;> simp_all
  | cons c cs ih =>
    rw [occurrencesFrom] at h
    split at h
    · rcases List.mem_cons.1 h with rfl | h
      · exact Nat.le_refl j
      · exact Nat.le_of_succ_le (ih h)
    · exact Nat.le_of_succ_le (ih h)

theorem firstOffset?_eq_head? (i : Nat) (cs : List Char) :
    firstOffset? part i cs = (occurrencesFrom part i cs).head? := by
  induction cs generalizing i with
  | nil =>
    rw [firstOffset?, occurrencesFrom]
    split <;> rfl
  | cons c cs ih =>
    rw [firstOffset?, occurrencesFrom]
    split
    · rfl
    · exact ih (i + 1)

/-- Occurrences in the end of a text are the last ones of the text. -/
theorem occurrencesFrom_drop (hpart : part ≠ []) (i n : Nat) (cs : List Char) :
    occurrencesFrom part (i + n) (cs.drop n) <:+ occurrencesFrom part i cs := by
  induction n generalizing i cs with
  | zero => exact List.suffix_refl _
  | succ n ih =>
    cases cs with
    | nil => simp [occurrencesFrom, hpart]
    | cons c cs =>
      have hlater := ih (i + 1) cs
      rw [Nat.add_right_comm] at hlater
      rw [List.drop_succ_cons, occurrencesFrom]
      split
      · exact hlater.trans (List.suffix_cons i _)
      · exact hlater

theorem piecesFrom_skip (n : Nat) (piece cs : List Char) :
    piecesFrom part n piece cs = piecesFrom part 0 piece (cs.drop n) := by
  induction n generalizing cs with
  | zero => rfl
  | succ n ih =>
    cases cs with
    | nil => rfl
    | cons c cs => exact ih cs

theorem piecesFrom_of_none {i : Nat} {cs : List Char} (h : firstOffset? part i cs = none)
    (piece : List Char) : piecesFrom part 0 piece cs = [String.ofList (piece.reverse ++ cs)] := by
  induction cs generalizing i piece with
  | nil => simp [piecesFrom]
  | cons c cs ih =>
    rw [firstOffset?] at h
    split at h
    · cases h
    next hne =>
      rw [piecesFrom, if_neg hne, ih h]
      simp

theorem piecesFrom_of_first (hpart : part ≠ []) {i j : Nat} {cs : List Char}
    (h : firstOffset? part i cs = some (i + j)) (piece : List Char) :
    piecesFrom part 0 piece cs = String.ofList (piece.reverse ++ cs.take j) ::
      piecesFrom part 0 [] (cs.drop (j + part.length)) := by
  induction cs generalizing i j piece with
  | nil => simp [firstOffset?, hpart] at h
  | cons c cs ih =>
    rw [firstOffset?] at h
    split at h
    next hhere =>
      obtain rfl : j = 0 := by
        have := Option.some.inj h
        omega
      have hlength : part.length = part.length - 1 + 1 := by
        have := List.length_pos_iff.2 hpart
        omega
      rw [piecesFrom, if_pos hhere, piecesFrom_skip, Nat.zero_add, hlength, List.drop_succ_cons]
      simp
    next hne =>
      have hj := firstOffset?_ge h
      obtain ⟨k, rfl⟩ : ∃ k, j = k + 1 := ⟨j - 1, by omega⟩
      have hlater : firstOffset? part (i + 1) cs = some (i + 1 + k) := by
        rw [h]
        congr 1
        omega
      rw [piecesFrom, if_neg hne, ih hlater, Nat.add_right_comm k 1]
      simp

/-- A mark that occurs once cuts a text in two. -/
theorem pieces_of_single {s mark : String} {i : Nat} (hmark : mark.toList ≠ [])
    (hfirst : findOffset? s mark = some i) (hlast : findLastOffset? s mark = some i) :
    pieces s mark = [String.ofList (s.toList.take i),
      String.ofList (s.toList.drop (i + mark.toList.length))] := by
  have hlength := List.length_pos_iff.2 hmark
  have hnone : firstOffset? mark.toList (0 + (i + mark.toList.length))
      (s.toList.drop (i + mark.toList.length)) = none := by
    have hsuffix := occurrencesFrom_drop hmark 0 (i + mark.toList.length) s.toList
    rw [firstOffset?_eq_head?, List.head?_eq_none_iff]
    cases hrest : occurrencesFrom mark.toList (0 + (i + mark.toList.length))
      (s.toList.drop (i + mark.toList.length)) with
    | nil => rfl
    | cons k more =>
      obtain ⟨earlier, hall⟩ := hsuffix
      rw [findLastOffset?, ← hall, hrest] at hlast
      have hmem : i ∈ k :: more := List.mem_of_getLast? (by simpa using hlast)
      have := occurrencesFrom_ge (hrest ▸ hmem)
      omega
  have hfront : firstOffset? mark.toList 0 s.toList = some (0 + i) := by
    rw [Nat.zero_add]
    exact hfirst
  rw [pieces, piecesFrom_of_first hmark hfront, piecesFrom_of_none hnone]
  rfl

end Pieces

end CurryCalc
