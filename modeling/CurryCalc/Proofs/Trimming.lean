import CurryCalc.Proofs.TextParts

/-! Trimmed texts, and texts cut before a mark. What trimming leaves is the one part of a text that
starts and ends with a character that is not blank and has only blank characters around it. -/
namespace CurryCalc

section Trimming

/-- Characters without a blank one at either end. -/
def IsTrimmed (cs : List Char) : Prop :=
  (∀ c ∈ cs.head?, isBlank c = false) ∧ ∀ c ∈ cs.getLast?, isBlank c = false

theorem isTrimmed_nil : IsTrimmed [] := by simp [IsTrimmed]

theorem IsTrimmed.append {cs ds : List Char} (hcs : IsTrimmed cs) (hds : IsTrimmed ds)
    (hc : cs ≠ []) (hd : ds ≠ []) (between : List Char) : IsTrimmed (cs ++ (between ++ ds)) := by
  obtain ⟨d, front, rfl⟩ := List.exists_cons_of_ne_nil hc
  refine ⟨hcs.1, fun c hlast => hds.2 c ?_⟩
  rw [← List.append_assoc, List.getLast?_append] at hlast
  cases hend : ds.getLast? with
  | none => exact (hd (List.getLast?_eq_none_iff.1 hend)).elim
  | some e => rwa [hend] at hlast

theorem head?_dropWhile_isBlank (cs : List Char) :
    ∀ c ∈ (cs.dropWhile isBlank).head?, isBlank c = false := by
  intro c hc
  have h := List.head?_dropWhile_not isBlank cs
  rw [Option.mem_def.1 hc] at h
  simpa using h

theorem dropWhile_of_head? {cs : List Char} (h : ∀ c ∈ cs.head?, isBlank c = false) :
    cs.dropWhile isBlank = cs := by
  cases cs with
  | nil => rfl
  | cons c more => exact List.dropWhile_cons_of_neg (by simp [h c rfl])

theorem dropWhile_of_blank {cs : List Char} (h : ∀ c ∈ cs, isBlank c) :
    cs.dropWhile isBlank = [] := by
  rw [← List.append_nil cs]
  exact dropWhile_blank h nofun

/-- Blank characters at the end do not matter once those at the end are taken off. -/
theorem trimRight_append_blank {cs after : List Char} (h : ∀ c ∈ after, isBlank c) :
    trimRight (String.ofList (cs ++ after)) = trimRight (String.ofList cs) := by
  have hafter : ∀ c ∈ after.reverse, isBlank c := by simpa using h
  rw [trimRight, trimRight, String.toList_ofList, String.toList_ofList, List.reverse_append,
    List.dropWhile_append_of_pos hafter]

theorem exists_trimRight (s : String) : (∀ c ∈ (trimRight s).toList.getLast?, isBlank c = false) ∧
    ∃ after, (∀ c ∈ after, isBlank c) ∧ s.toList = (trimRight s).toList ++ after := by
  rw [trimRight_toList]
  refine ⟨fun c hc => ?_, (s.toList.reverse.takeWhile isBlank).reverse, fun c hc => ?_, ?_⟩
  · rw [List.getLast?_reverse] at hc
    exact head?_dropWhile_isBlank _ c hc
  · exact List.all_eq_true.1 List.all_takeWhile c (List.mem_reverse.1 hc)
  · rw [← List.reverse_append, List.takeWhile_append_dropWhile, List.reverse_reverse]

/-- A text is its trimmed form with blank characters around it. -/
theorem exists_trim (s : String) : IsTrimmed (trim s).toList ∧ ∃ before after,
    (∀ c ∈ before, isBlank c) ∧ (∀ c ∈ after, isBlank c) ∧
      s.toList = before ++ ((trim s).toList ++ after) := by
  rw [trim]
  obtain ⟨hlast, after, hafter, hleft⟩ := exists_trimRight (trimLeft s)
  have hsplit : s.toList = s.toList.takeWhile isBlank ++ (trimLeft s).toList := by
    rw [trimLeft_toList, List.takeWhile_append_dropWhile]
  refine ⟨⟨fun c hc => ?_, hlast⟩, s.toList.takeWhile isBlank, after,
    List.all_eq_true.1 List.all_takeWhile, hafter, ?_⟩
  · have hfirst := head?_dropWhile_isBlank s.toList
    rw [← trimLeft_toList, hleft] at hfirst
    apply hfirst
    rw [List.head?_append, Option.mem_def.1 hc]
    rfl
  · rw [← hleft]
    exact hsplit

/-- Trimming gives the trimmed part that has only blank characters around it. -/
theorem trim_eq_of_toList {s t : String} (before after : List Char) (ht : IsTrimmed t.toList)
    (hbefore : ∀ c ∈ before, isBlank c) (hafter : ∀ c ∈ after, isBlank c)
    (hs : s.toList = before ++ (t.toList ++ after)) : trim s = t := by
  have hleft : trimRight (trimLeft s) = trimRight t := by
    rw [trimLeft, hs]
    by_cases hne : t.toList = []
    · rw [hne, List.nil_append, dropWhile_of_blank]
      · rw [← String.ofList_toList (s := t), hne]
      · simp only [List.mem_append]
        rintro c (hc | hc)
        · exact hbefore c hc
        · exact hafter c hc
    · obtain ⟨c, more, hcons⟩ := List.exists_cons_of_ne_nil hne
      have hfirst : ∀ d rest, t.toList ++ after = d :: rest → isBlank d = false := by
        intro d rest hd
        rw [hcons] at hd
        cases hd
        exact ht.1 _ (by rw [hcons]; rfl)
      rw [dropWhile_blank hbefore hfirst, trimRight_append_blank hafter, String.ofList_toList]
  have hlast : (t.toList.reverse.dropWhile isBlank).reverse = t.toList := by
    rw [dropWhile_of_head?, List.reverse_reverse]
    simpa using ht.2
  rw [trim, hleft, trimRight, hlast, String.ofList_toList]

theorem trim_of_isTrimmed {s : String} (h : IsTrimmed s.toList) : trim s = s :=
  trim_eq_of_toList [] [] h nofun nofun (by simp)

@[simp] theorem trim_trim (s : String) : trim (trim s) = trim s :=
  trim_of_isTrimmed (exists_trim s).1

theorem trim_trimLeft (s : String) : trim (trimLeft s) = trim s := by
  have h : trimLeft (trimLeft s) = trimLeft s := by
    rw [trimLeft, trimLeft_toList, dropWhile_of_head? (head?_dropWhile_isBlank s.toList)]
    rfl
  rw [trim, h, trim]

@[simp] theorem words_trim (s : String) : words (trim s) = words s := by
  obtain ⟨-, before, after, hbefore, hafter, hs⟩ := exists_trim s
  have hright : wordsOf ((trim s).toList ++ after) = wordsOf (trim s).toList := by
    cases after with
    | nil => rw [List.append_nil]
    | cons c after =>
      obtain ⟨hc, hrest⟩ := List.forall_mem_cons.1 hafter
      rw [wordsOf_append_cons hc, wordsOf_blank hrest, List.append_nil]
  rw [words_eq, words_eq, hs, wordsOf_append_blank hbefore, hright]

theorem trim_eq_empty_iff {s : String} : trim s = "" ↔ words s = [] := by
  constructor
  · intro h
    rw [← words_trim, h]
    rfl
  · intro h
    have hblank := blank_of_wordsOf_nil ((words_eq s).symm.trans h)
    exact trim_eq_of_toList s.toList [] isTrimmed_nil hblank nofun (by simp)

theorem trim_infix_self (s : String) : (trim s).toList <:+: s.toList := by
  obtain ⟨-, before, after, -, -, hs⟩ := exists_trim s
  exact ⟨before, after, by rw [hs, List.append_assoc]⟩

theorem trim_isEmpty_iff {s : String} : (trim s).isEmpty = true ↔ words s = [] := by
  rw [String.isEmpty_iff, trim_eq_empty_iff]

theorem words_join (s t : String) : words (s ++ " " ++ t) = words s ++ words t := by
  have htoList : (s ++ " " ++ t).toList = s.toList ++ ' ' :: t.toList := by simp
  rw [words_eq, htoList, wordsOf_append_cons (by decide)]
  rfl

/-- A trimmed text goes on with the trimmed form of what is joined to it, unless that is blank. -/
theorem trim_join {s : String} (hs : trim s = s) (hne : s ≠ "") (t : String) :
    trim (s ++ " " ++ trimLeft t) = if words t = [] then s else s ++ " " ++ trim t := by
  have hs' : IsTrimmed s.toList := hs ▸ (exists_trim s).1
  have htoList (u : String) : (s ++ " " ++ u).toList = s.toList ++ ([' '] ++ u.toList) := by simp
  obtain ⟨htrim, before, after, hbefore, hafter, ht⟩ := exists_trim (trimLeft t)
  rw [trim_trimLeft] at htrim ht
  split
  next hblank =>
    refine trim_eq_of_toList [] ([' '] ++ (trimLeft t).toList) hs' nofun ?_ (by rw [htoList]; rfl)
    have hnone : words (trimLeft t) = [] := by rw [← words_trim, trim_trimLeft, words_trim, hblank]
    intro c hc
    rcases List.mem_append.1 hc with hc | hc
    · rw [List.mem_singleton.1 hc]
      decide
    · exact blank_of_wordsOf_nil hnone c hc
  next hwords =>
    have hnone : trim t ≠ "" := fun h => hwords (trim_eq_empty_iff.1 h)
    have hleft : before = [] := by
      cases before with
      | nil => rfl
      | cons c before =>
        have hfirst := head?_dropWhile_isBlank t.toList c
        rw [← trimLeft_toList, ht] at hfirst
        have := hbefore c List.mem_cons_self
        simp [hfirst rfl] at this
    subst hleft
    refine trim_eq_of_toList [] after ?_ nofun hafter ?_
    · rw [htoList]
      exact hs'.append htrim (by simpa using hne) (by simpa using hnone) [' ']
    · rw [htoList, htoList, ht]
      simp

/-- Blank characters at the front do not touch the end of characters that end with another one. -/
theorem getLast?_dropWhile {cs : List Char} (h : ∀ c ∈ cs.getLast?, isBlank c = false) :
    (cs.dropWhile isBlank).getLast? = cs.getLast? ∧
      (cs.dropWhile isBlank).dropLast = cs.dropLast.dropWhile isBlank := by
  induction cs with
  | nil => exact ⟨rfl, rfl⟩
  | cons c cs ih =>
    cases cs with
    | nil =>
      have hc : isBlank c = false := h c rfl
      simp [hc]
    | cons d cs =>
      obtain ⟨hlast, hfront⟩ := ih h
      cases hc : isBlank c with
      | true =>
        rw [List.dropWhile_cons_of_pos hc, List.dropLast_cons_cons, List.dropWhile_cons_of_pos hc]
        exact ⟨hlast, hfront⟩
      | false =>
        have hc : ¬ isBlank c = true := by simp [hc]
        rw [List.dropWhile_cons_of_neg hc, List.dropLast_cons_cons, List.dropWhile_cons_of_neg hc]
        exact ⟨rfl, rfl⟩

theorem trimLeft_trimRight (s : String) : trimLeft (trimRight s) = trim s := by
  obtain ⟨hlast, after, hafter, hs⟩ := exists_trimRight s
  have hsplit := List.takeWhile_append_dropWhile (p := isBlank) (l := (trimRight s).toList)
  refine (trim_eq_of_toList ((trimRight s).toList.takeWhile isBlank) after ?_
    (List.all_eq_true.1 List.all_takeWhile) hafter ?_).symm
  · rw [trimLeft_toList]
    refine ⟨head?_dropWhile_isBlank _, ?_⟩
    rwa [(getLast?_dropWhile hlast).1]
  · rw [trimLeft_toList, ← List.append_assoc, hsplit, hs]

theorem trimLeft_trim (s : String) : trimLeft (trim s) = trim s := by
  rw [trimLeft, dropWhile_of_head? (exists_trim s).1.1, String.ofList_toList]

theorem trim_join_trim {s : String} (hs : trim s = s) (hne : s ≠ "") (t : String) :
    trim (s ++ " " ++ trim t) = trim (s ++ " " ++ trimLeft t) := by
  have h := trim_join hs hne (trim t)
  rw [trimLeft_trim, words_trim, trim_trim] at h
  rw [h, trim_join hs hne]

theorem trim_space_trimLeft (t : String) : trim ("" ++ " " ++ trimLeft t) = trim t := by
  obtain ⟨htrimmed, before, after, hbefore, hafter, ht⟩ := exists_trim (trimLeft t)
  rw [trim_trimLeft] at htrimmed ht
  refine trim_eq_of_toList (' ' :: before) after htrimmed ?_ hafter (by simp [ht])
  intro c hc
  rcases List.mem_cons.1 hc with rfl | hc
  · decide
  · exact hbefore c hc

end Trimming

section Cutting

variable {part : List Char}

def cutList (part : List Char) : List Char → List Char
  | [] => []
  | c :: cs => if part.isPrefixOf (c :: cs) then [] else c :: cutList part cs

theorem firstOffset?_succ (i : Nat) (cs : List Char) :
    firstOffset? part (i + 1) cs = (firstOffset? part i cs).map (· + 1) := by
  induction cs generalizing i with
  | nil =>
    rw [firstOffset?, firstOffset?]
    split <;> rfl
  | cons c cs ih =>
    rw [firstOffset?, firstOffset?]
    split
    · rfl
    · exact ih (i + 1)

theorem cutBefore_toList {mark : String} (hmark : mark.toList ≠ []) (s : String) :
    (cutBefore mark s).toList = cutList mark.toList s.toList := by
  have hgeneral (cs : List Char) : (firstOffset? mark.toList 0 cs).elim cs cs.take =
      cutList mark.toList cs := by
    induction cs with
    | nil => simp [firstOffset?, hmark, cutList]
    | cons c cs ih =>
      rw [firstOffset?, cutList]
      split
      · rfl
      · rw [firstOffset?_succ, ← ih]
        cases firstOffset? mark.toList 0 cs <;> rfl
  rw [← hgeneral, cutBefore, findOffset?]
  cases firstOffset? mark.toList 0 s.toList <;> simp

theorem cutBefore_prefix_self (mark s : String) : (cutBefore mark s).toList <+: s.toList := by
  unfold cutBefore
  split
  · rw [String.toList_ofList]
    exact List.take_prefix _ _
  · exact List.prefix_rfl

theorem not_infix_nil (hpart : part ≠ []) : ¬ part <:+: [] := by
  simpa [List.infix_nil] using hpart

/-- What follows a part that has occurred is cut off with it. -/
theorem cutList_append_of_occurs (hpart : part ≠ []) {cs : List Char} (h : part <:+: cs)
    (ds : List Char) : cutList part (cs ++ ds) = cutList part cs := by
  induction cs with
  | nil => exact (not_infix_nil hpart h).elim
  | cons c cs ih =>
    have hiff : part <+: c :: (cs ++ ds) ↔ part <+: c :: cs := by
      have hfront := List.prefix_append (c :: cs) ds
      exact ⟨fun hall => List.prefix_of_prefix_length_le hall hfront h.length_le,
        fun hhere => hhere.trans hfront⟩
    simp only [List.cons_append, cutList, List.isPrefixOf_iff_prefix, hiff]
    split
    · rfl
    next hnone => rw [ih ((List.infix_cons_iff.1 h).resolve_left hnone)]

/-- A character that is not in a part ends every occurrence of the part. -/
theorem prefix_of_prefix_append_cons {c : Char} (hc : c ∉ part) {cs ds : List Char}
    (h : part <+: cs ++ c :: ds) : part <+: cs := by
  rcases List.prefix_or_prefix_of_prefix h (List.prefix_append cs (c :: ds)) with hcs | ⟨rest, rfl⟩
  · exact hcs
  · rw [List.prefix_append_right_inj] at h
    cases rest with
    | nil => simp
    | cons d rest =>
      obtain ⟨rfl, -⟩ := List.cons_prefix_cons.1 h
      simp at hc

theorem cutList_append_of_not_occurs (hpart : part ≠ []) {c : Char} (hc : c ∉ part) {cs : List Char}
    (h : ¬ part <:+: cs) (ds : List Char) :
    cutList part (cs ++ c :: ds) = cs ++ c :: cutList part ds := by
  induction cs with
  | nil =>
    have hnone : ¬ part <+: [] ++ c :: ds := fun hhere =>
      hpart (List.prefix_nil.1 (prefix_of_prefix_append_cons hc hhere))
    rw [List.nil_append] at hnone
    simp only [List.nil_append, cutList, List.isPrefixOf_iff_prefix, if_neg hnone]
  | cons d cs ih =>
    obtain ⟨hhere, hlater⟩ := not_or.1 (mt List.infix_cons_iff.2 h)
    have hnone : ¬ part <+: d :: (cs ++ c :: ds) := fun hall =>
      hhere (prefix_of_prefix_append_cons hc hall)
    simp only [List.cons_append, cutList, List.isPrefixOf_iff_prefix, if_neg hnone, ih hlater]

theorem cutList_of_not_occurs {cs : List Char} (h : ¬ part <:+: cs) : cutList part cs = cs := by
  induction cs with
  | nil => rfl
  | cons c cs ih =>
    obtain ⟨hhere, hlater⟩ := not_or.1 (mt List.infix_cons_iff.2 h)
    simp only [cutList, List.isPrefixOf_iff_prefix, if_neg hhere, ih hlater]

theorem cutList_append_of_notMem (hpart : part ≠ []) {before : List Char}
    (h : ∀ c ∈ before, c ∉ part) (cs : List Char) :
    cutList part (before ++ cs) = before ++ cutList part cs := by
  induction before with
  | nil => rfl
  | cons c before ih =>
    obtain ⟨hc, hbefore⟩ := List.forall_mem_cons.1 h
    have hcut := cutList_append_of_not_occurs hpart hc (not_infix_nil hpart) (before ++ cs)
    rw [List.nil_append, List.nil_append] at hcut
    rw [List.cons_append, hcut, ih hbefore, List.cons_append]

/-- Characters that are not in a part are kept after what comes before the part, or cut off
whole. -/
theorem exists_cutList_append (hpart : part ≠ []) (cs : List Char) {after : List Char}
    (h : ∀ c ∈ after, c ∉ part) :
    ∃ kept, kept <:+: after ∧ cutList part (cs ++ after) = cutList part cs ++ kept := by
  by_cases hoccurs : part <:+: cs
  · refine ⟨[], List.nil_infix, ?_⟩
    rw [cutList_append_of_occurs hpart hoccurs, List.append_nil]
  · refine ⟨after, List.infix_rfl, ?_⟩
    rw [cutList_of_not_occurs hoccurs]
    cases after with
    | nil =>
      rw [List.append_nil]
      exact cutList_of_not_occurs hoccurs
    | cons c after =>
      obtain ⟨hc, hafter⟩ := List.forall_mem_cons.1 h
      have hrest := cutList_append_of_notMem hpart hafter []
      rw [cutList, List.append_nil] at hrest
      rw [cutList_append_of_not_occurs hpart hc hoccurs, hrest]

theorem head?_cutList (part cs : List Char) : cutList part cs = [] ∨
    (cutList part cs).head? = cs.head? := by
  cases cs with
  | nil => exact .inl rfl
  | cons c cs =>
    rw [cutList]
    split
    · exact .inl rfl
    · exact .inr rfl

end Cutting

end CurryCalc
