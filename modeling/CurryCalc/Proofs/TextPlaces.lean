import CurryCalc.Proofs.SpacedWords
import Mathlib.Data.List.Sort

/-! Places in texts. Excerpts are the parts that two offsets cut out of a text, and the words of a
text are its maximal runs of characters that are not blank, each with the offset that it starts
at. -/
namespace CurryCalc

section Excerpts

theorem clampOffset_natCast (n i : Nat) : clampOffset n (i : Int) = min i n := by
  rw [clampOffset, if_neg (by omega), Int.toNat_natCast]

theorem excerptTo_append (front back : String) :
    excerptTo (front ++ back) (front.length : Nat) = front := by
  rw [excerptTo, clampOffset_natCast, String.length_append, Nat.min_eq_left (Nat.le_add_right _ _),
    String.toList_append, ← String.length_toList, List.take_left, String.ofList_toList]

theorem excerpt_append (front part back : String) :
    excerpt (front ++ part ++ back) (front.length : Nat) ((front.length : Int) + part.length) =
      part := by
  have hstop : clampOffset (front ++ part ++ back).length ((front.length : Int) + part.length) =
      front.length + part.length := by
    rw [← Int.natCast_add, clampOffset_natCast, String.length_append, String.length_append]
    omega
  have hstart : clampOffset (front ++ part ++ back).length (front.length : Nat) = front.length := by
    rw [clampOffset_natCast, String.length_append, String.length_append]
    omega
  rw [excerpt, hstop, hstart, Nat.add_sub_cancel_left, String.append_assoc, String.toList_append,
    String.toList_append, ← String.length_toList, ← String.length_toList, List.drop_left,
    List.take_left, String.ofList_toList]

/-- What is before, between and after two offsets makes up the text. -/
theorem excerpt_whole (s : String) {i j : Nat} (h : i ≤ j) :
    excerptTo s i ++ excerpt s i j ++ excerptFrom s j = s := by
  have hle : min i s.length ≤ min j s.length := by omega
  apply String.toList_injective
  simp only [excerptTo, excerpt, excerptFrom, clampOffset_natCast, String.toList_append,
    String.toList_ofList]
  generalize min i s.length = a at hle ⊢
  generalize min j s.length = b at hle ⊢
  have hrest : (s.toList.drop a).drop (b - a) = s.toList.drop b := by
    rw [List.drop_drop, Nat.add_sub_cancel' hle]
  rw [List.append_assoc, ← hrest, List.take_append_drop, List.take_append_drop]

end Excerpts

section Found

theorem firstOffset?_cases {part : List Char} (hpart : part ≠ []) (i : Nat) (cs : List Char) :
    (firstOffset? part i cs = none ∧ ¬ part <:+: cs) ∨
    ∃ front back, firstOffset? part i cs = some (i + front.length) ∧ cs = front ++ (part ++ back) ∧
      ∀ front' back', cs = front' ++ (part ++ back') → front.length ≤ front'.length := by
  induction cs generalizing i with
  | nil => exact .inl ⟨by simp [firstOffset?, hpart], not_infix_nil hpart⟩
  | cons c cs ih =>
    rw [firstOffset?]
    split
    next hhere =>
      obtain ⟨back, hback⟩ := List.isPrefixOf_iff_prefix.1 hhere
      exact .inr ⟨[], back, rfl, hback.symm, fun _ _ _ => Nat.zero_le _⟩
    next hhere =>
      rw [List.isPrefixOf_iff_prefix] at hhere
      rcases ih (i + 1) with ⟨hnone, hnot⟩ | ⟨front, back, hfound, rfl, hfirst⟩
      · refine .inl ⟨hnone, fun hoccurs => ?_⟩
        exact (List.infix_cons_iff.1 hoccurs).elim hhere hnot
      · refine .inr ⟨c :: front, back, ?_, rfl, ?_⟩
        · rw [hfound, List.length_cons, Nat.add_right_comm, Nat.add_assoc]
        · intro front' back' h
          cases front' with
          | nil => exact (hhere ⟨back', h.symm⟩).elim
          | cons c' front' =>
            obtain ⟨-, h⟩ := List.cons.inj h
            exact Nat.succ_le_succ (hfirst front' back' h)

theorem toList_append_append (front part back : String) :
    (front ++ part ++ back).toList = front.toList ++ (part.toList ++ back.toList) := by
  rw [String.toList_append, String.toList_append, List.append_assoc]

theorem prefix_of_eq_append {s front part back : String} (h : s = front ++ part ++ back) :
    front.toList <+: s.toList := by
  rw [h, toList_append_append]
  exact List.prefix_append _ _

theorem findOffset?_cases {part : String} (hpart : part ≠ "") (s : String) :
    (findOffset? s part = none ∧ ∀ front back, s ≠ front ++ part ++ back) ∨
    ∃ front back, findOffset? s part = some front.length ∧ s = front ++ part ++ back ∧
      ∀ front' back', s = front' ++ part ++ back' → front.length ≤ front'.length := by
  have hpart : part.toList ≠ [] := by simpa using hpart
  rcases firstOffset?_cases hpart 0 s.toList with ⟨hnone, hnot⟩ | ⟨front, back, hfound, hs, hfirst⟩
  · refine .inl ⟨hnone, ?_⟩
    rintro front back rfl
    exact hnot ⟨front.toList, back.toList, by rw [toList_append_append, List.append_assoc]⟩
  · refine .inr ⟨String.ofList front, String.ofList back, ?_, String.toList_injective ?_, ?_⟩
    · rw [findOffset?, hfound, Nat.zero_add, ← String.length_toList, String.toList_ofList]
    · rw [hs, toList_append_append, String.toList_ofList, String.toList_ofList]
    · rintro front' back' rfl
      rw [← String.length_toList, ← String.length_toList, String.toList_ofList]
      exact hfirst _ _ (toList_append_append front' part back')

end Found

section Offsets

variable {cs : List Char}

theorem wordsFrom_found (i : Nat) (run : List Char) (found : List Word) (cs : List Char) :
    wordsFrom i run found cs = found.reverse ++ wordsFrom i run [] cs := by
  induction cs generalizing i run found with
  | nil => simp [wordsFrom, closeRun_eq i run found]
  | cons c cs ih =>
    simp only [wordsFrom]
    split
    · rw [ih (i + 1), ih (i + 1) [] (closeRun i run []), closeRun_eq i run found]
      simp
    · exact ih (i + 1) (c :: run) found

theorem wordsFrom_append_blank {blanks : List Char} (h : ∀ c ∈ blanks, isBlank c) (i : Nat)
    (cs : List Char) :
    wordsFrom i [] [] (blanks ++ cs) = wordsFrom (i + blanks.length) [] [] cs := by
  induction blanks generalizing i with
  | nil => rfl
  | cons b blanks ih =>
    obtain ⟨hb, hblanks⟩ := List.forall_mem_cons.1 h
    have hskip :
        wordsFrom i [] [] (b :: (blanks ++ cs)) = wordsFrom (i + 1) [] [] (blanks ++ cs) := by
      rw [wordsFrom, if_pos hb]
      rfl
    rw [List.cons_append, hskip, ih hblanks, List.length_cons, Nat.add_right_comm, Nat.add_assoc]

theorem wordsFrom_blank (h : ∀ c ∈ cs, isBlank c) (i : Nat) : wordsFrom i [] [] cs = [] := by
  rw [← List.append_nil cs, wordsFrom_append_blank h]
  rfl

/-- Characters that are not blank, up to the end or to one that is blank, make up a word. -/
theorem wordsFrom_append_word {word rest : List Char} (hne : word ≠ [])
    (hword : ∀ c ∈ word, isBlank c = false) (hrest : ∀ c more, rest = c :: more → isBlank c)
    (i : Nat) : wordsFrom i [] [] (word ++ rest) =
      ⟨i, String.ofList word⟩ :: wordsFrom (i + word.length) [] [] rest := by
  have hgeneral (i : Nat) (run : List Char) (hrun : run ++ word ≠ []) :
      wordsFrom (i + run.length) run [] (word ++ rest) =
        ⟨i, String.ofList (run.reverse ++ word)⟩ ::
          wordsFrom (i + run.length + word.length) [] [] rest := by
    clear hne
    induction word generalizing run with
    | nil =>
      have hrun : run ≠ [] := by simpa using hrun
      have hclose : closeRun (i + run.length) run [] = [⟨i, String.ofList run.reverse⟩] := by
        simp [closeRun, hrun]
      rw [List.nil_append, List.append_nil, List.length_nil, Nat.add_zero]
      cases rest with
      | nil =>
        rw [wordsFrom, hclose]
        rfl
      | cons c more =>
        rw [wordsFrom, wordsFrom, if_pos (hrest c more rfl), if_pos (hrest c more rfl), hclose,
          wordsFrom_found]
        rfl
    | cons c word ih =>
      obtain ⟨hc, hword⟩ := List.forall_mem_cons.1 hword
      have hnext := ih hword (c :: run) (by simp)
      rw [List.length_cons, ← Nat.add_assoc] at hnext
      rw [List.cons_append, wordsFrom, if_neg (by simp [hc]), hnext, List.length_cons,
        Nat.add_right_comm _ 1, Nat.add_assoc _ word.length]
      simp
  exact hgeneral i [] (by simpa using hne)

theorem word_append_inj {word rest word' rest' : List Char} (hword : ∀ c ∈ word, isBlank c = false)
    (hrest : ∀ c more, rest = c :: more → isBlank c) (hword' : ∀ c ∈ word', isBlank c = false)
    (hrest' : ∀ c more, rest' = c :: more → isBlank c) (h : word ++ rest = word' ++ rest') :
    word = word' ∧ rest = rest' := by
  have htake {word rest : List Char} (hword : ∀ c ∈ word, isBlank c = false)
      (hrest : ∀ c more, rest = c :: more → isBlank c) :
      (word ++ rest).takeWhile (!isBlank ·) = word := by
    rw [List.takeWhile_append_of_pos (by simpa using hword)]
    cases rest with
    | nil => simp
    | cons c more => simp [hrest c more rfl]
  have hsame : word = word' := by rw [← htake hword hrest, h, htake hword' hrest']
  subst hsame
  exact ⟨rfl, List.append_cancel_left h⟩

/-- A word within some characters: a run of characters that are not blank, which goes on on neither
side. -/
structure IsRunIn (cs : List Char) (front : List Char) (w : String) (back : List Char) : Prop where
  split : cs = front ++ (w.toList ++ back)
  isWord : IsWord w
  starts : ∀ c ∈ front.getLast?, isBlank c
  stops : ∀ c more, back = c :: more → isBlank c

theorem IsRunIn.not_blank {front back : List Char} {w : String} (h : IsRunIn cs front w back) :
    ¬ ∀ c ∈ cs, isBlank c := by
  intro hblank
  obtain ⟨c, hc⟩ := List.exists_mem_of_ne_nil _ h.isWord.nonempty
  have hb := hblank c (by rw [h.split]; simp [hc])
  simp [h.isWord.unbroken c hc] at hb

/-- A run that starts before the end of some blank characters starts right after them. -/
theorem eq_nil_of_word_eq {blanks rest back : List Char} {w : String} (hw : IsWord w)
    (hblanks : ∀ c ∈ blanks, isBlank c) (h : w.toList ++ back = blanks ++ rest) : blanks = [] := by
  obtain ⟨c, more, hcons⟩ := List.exists_cons_of_ne_nil hw.nonempty
  cases blanks with
  | nil => rfl
  | cons b blanks =>
    rw [hcons] at h
    obtain ⟨rfl, -⟩ := List.cons.inj h
    have hc := hw.unbroken c (by rw [hcons]; exact List.mem_cons_self)
    simp [hblanks c List.mem_cons_self] at hc

/-- A run in characters that start with a word is that word, or lies after it. -/
theorem IsRunIn.first_or_later {blanks word rest front back : List Char} {w : String}
    (hblanks : ∀ c ∈ blanks, isBlank c) (hword : ∀ c ∈ word, isBlank c = false)
    (hrest : ∀ c more, rest = c :: more → isBlank c)
    (h : IsRunIn (blanks ++ (word ++ rest)) front w back) :
    front = blanks ∧ w.toList = word ∨
      ∃ front', front = blanks ++ (word ++ front') ∧ IsRunIn rest front' w back := by
  rcases List.append_eq_append_iff.1 h.split with ⟨part, rfl, hpart⟩ | ⟨part, hpart, hcut⟩
  · rcases List.append_eq_append_iff.1 hpart with ⟨front', rfl, hrest'⟩ | ⟨cut, rfl, hcut⟩
    · refine .inr ⟨front', rfl, hrest', h.isWord, fun c hc => h.starts c ?_, h.stops⟩
      simp [List.getLast?_append, Option.mem_def.1 hc]
    · have hnil : part = [] := by
        by_contra hne
        obtain ⟨init, c, rfl⟩ := List.eq_nil_or_concat part |>.resolve_left hne
        have hc := h.starts c (by simp)
        simp [hword c (by simp)] at hc
      subst hnil
      refine .inl ⟨List.append_nil blanks, ?_⟩
      exact (word_append_inj h.isWord.unbroken h.stops hword hrest (by simpa using hpart.symm)).1
  · have hsuffix : ∀ c ∈ part, isBlank c := fun c hc => hblanks c (by rw [hpart]; simp [hc])
    obtain rfl := eq_nil_of_word_eq h.isWord hsuffix hcut
    rw [List.append_nil] at hpart
    exact .inl ⟨hpart.symm, (word_append_inj h.isWord.unbroken h.stops hword hrest hcut).1⟩

theorem mem_wordsFrom_iff {i : Nat} {w : Word} : w ∈ wordsFrom i [] [] cs ↔
    ∃ front back, IsRunIn cs front w.text back ∧ w.offset = i + front.length := by
  induction cs using wordsOf_induction generalizing i with
  | blank cs hblank =>
    rw [wordsFrom_blank hblank]
    exact iff_of_false nofun fun ⟨_, _, h, _⟩ => h.not_blank hblank
  | word blanks word rest hblanks hne hword hrest ih =>
    rw [wordsFrom_append_blank hblanks, wordsFrom_append_word hne hword hrest, List.mem_cons, ih]
    constructor
    · rintro (rfl | ⟨front, back, h, hoffset⟩)
      · refine ⟨blanks, rest, ⟨by simp, ⟨by simpa using hne, by simpa using hword⟩, ?_, hrest⟩, rfl⟩
        exact fun c hc => hblanks c (List.mem_of_getLast? hc)
      · refine ⟨blanks ++ (word ++ front), back, ⟨by simp [h.split], h.isWord, ?_, h.stops⟩, ?_⟩
        · intro c hc
          rcases List.eq_nil_or_concat front with rfl | ⟨init, d, rfl⟩
          · obtain ⟨d, more, hcons⟩ := List.exists_cons_of_ne_nil h.isWord.nonempty
            have hd := hrest d (more ++ back) (by rw [h.split, hcons]; rfl)
            simp [h.isWord.unbroken d (by rw [hcons]; exact List.mem_cons_self)] at hd
          · apply h.starts
            simpa [List.getLast?_append] using hc
        · simp only [hoffset, List.length_append]
          omega
    · rintro ⟨front, back, h, hoffset⟩
      rcases h.first_or_later hblanks hword hrest with ⟨rfl, hw⟩ | ⟨front', rfl, hlater⟩
      · left
        obtain ⟨offset, text⟩ := w
        obtain rfl : offset = i + front.length := hoffset
        rw [← hw, String.ofList_toList]
      · right
        refine ⟨front', back, hlater, ?_⟩
        simp only [hoffset, List.length_append]
        omega

theorem wordsFrom_pairwise (i : Nat) (cs : List Char) :
    (wordsFrom i [] [] cs).Pairwise fun v w => v.offset < w.offset := by
  induction cs using wordsOf_induction generalizing i with
  | blank cs hblank =>
    rw [wordsFrom_blank hblank]
    exact List.Pairwise.nil
  | word blanks word rest hblanks hne hword hrest ih =>
    rw [wordsFrom_append_blank hblanks, wordsFrom_append_word hne hword hrest]
    refine List.Pairwise.cons (fun w hw => ?_) (ih _)
    obtain ⟨front, -, -, hoffset⟩ := mem_wordsFrom_iff.1 hw
    have hpos := List.length_pos_iff.2 hne
    rw [hoffset]
    dsimp only
    omega

end Offsets

/-- A maximal run of characters of a text that are not blank, with the offset that it starts at. -/
def IsRun (s : String) (w : Word) : Prop :=
  ∃ front back, IsRunIn s.toList front w.text back ∧ w.offset = front.length

/-- The maximal runs of a text from left to right. -/
structure RunsOf (s : String) (ws : List Word) : Prop where
  mem_iff : ∀ w, w ∈ ws ↔ IsRun s w
  ordered : ws.Pairwise fun v w => v.offset < w.offset

theorem runsOf_wordsAt (s : String) : RunsOf s (wordsAt s) := by
  refine ⟨fun w => ?_, wordsFrom_pairwise 0 s.toList⟩
  rw [wordsAt, mem_wordsFrom_iff, IsRun]
  simp only [Nat.zero_add]

theorem RunsOf.eq_wordsAt {s : String} {ws : List Word} (h : RunsOf s ws) : ws = wordsAt s := by
  have hfound := runsOf_wordsAt s
  refine h.ordered.eq_of_mem_iff hfound.ordered fun w => ?_
  rw [h.mem_iff, hfound.mem_iff]

theorem IsRun.excerpt_eq {s : String} {w : Word} (h : IsRun s w) :
    excerpt s (w.offset : Nat) ((w.offset : Int) + w.text.length) = w.text := by
  obtain ⟨front, back, hrun, hoffset⟩ := h
  have hs : s = String.ofList front ++ w.text ++ String.ofList back := by
    apply String.toList_injective
    simp [hrun.split]
  have hfront : w.offset = (String.ofList front).length := by
    rw [hoffset, ← String.length_toList, String.toList_ofList]
  rw [hs, hfront]
  exact excerpt_append _ _ _

end CurryCalc
