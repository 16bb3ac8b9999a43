import CurryCalc.Proofs.CanonicalSource
import CurryCalc.Proofs.Underlining

/-! Where words start: in a line, and in the text of the tokens that the line is read as. The latter
has one space between each two tokens, so that the two agree only for some lines. -/
namespace CurryCalc

section Words

variable {i k : Nat} {cs : List Char} {v w : Word}

/-- What comes after some characters can add to their last word, but moves no word. -/
theorem wordsFrom_append (h : (wordsFrom i [] [] cs)[k]? = some v) (ds : List Char) :
    (wordsFrom i [] [] (cs ++ ds)).take k = (wordsFrom i [] [] cs).take k ∧
      ∃ w, (wordsFrom i [] [] (cs ++ ds))[k]? = some w ∧ w.offset = v.offset := by
  induction cs using wordsOf_induction generalizing i k with
  | blank cs hblank =>
    rw [wordsFrom_blank hblank] at h
    cases h
  | word blanks word rest hblanks hne hword hrest ih =>
    rw [wordsFrom_append_blank hblanks, wordsFrom_append_word hne hword hrest] at h
    rw [List.append_assoc, List.append_assoc, wordsFrom_append_blank hblanks,
      wordsFrom_append_blank hblanks, wordsFrom_append_word hne hword hrest]
    cases rest with
    | nil =>
      obtain ⟨more, back, rfl, hmore, hback⟩ := exists_span (!isBlank ·) ds
      have hlonger : ∀ c ∈ word ++ more, isBlank c = false := by
        intro c hc
        rcases List.mem_append.1 hc with hc | hc
        · exact hword c hc
        · simpa using hmore c hc
      rw [List.nil_append, ← List.append_assoc, wordsFrom_append_word (by simp [hne]) hlonger
        (by simpa using hback)]
      cases k with
      | zero =>
        cases h
        exact ⟨rfl, _, rfl, rfl⟩
      | succ k => cases h
    | cons c more =>
      have hrest' : ∀ d ds', c :: more ++ ds = d :: ds' → isBlank d := by
        rintro _ _ ⟨⟩
        exact hrest c more rfl
      rw [wordsFrom_append_word hne hword hrest']
      cases k with
      | zero =>
        cases h
        exact ⟨rfl, _, rfl, rfl⟩
      | succ k =>
        obtain ⟨htake, hlater⟩ := ih h
        exact ⟨by rw [List.take_succ_cons, List.take_succ_cons, htake], hlater⟩

theorem exists_front (h : (wordsFrom i [] [] cs)[k]? = some w) :
    ∃ front back, cs = front ++ back ∧ w.offset = i + front.length ∧
      front.filter (!isBlank ·) =
        (((wordsFrom i [] [] cs).take k).map Word.text).flatMap String.toList := by
  induction cs using wordsOf_induction generalizing i k with
  | blank cs hblank =>
    rw [wordsFrom_blank hblank] at h
    cases h
  | word blanks word rest hblanks hne hword hrest ih =>
    have hnone : blanks.filter (!isBlank ·) = [] := by simpa using hblanks
    have hall : word.filter (!isBlank ·) = word := by simpa using hword
    rw [wordsFrom_append_blank hblanks, wordsFrom_append_word hne hword hrest] at h ⊢
    cases k with
    | zero =>
      cases h
      exact ⟨blanks, word ++ rest, rfl, rfl, hnone⟩
    | succ k =>
      obtain ⟨front, back, rfl, hoffset, hfilter⟩ := ih h
      refine ⟨blanks ++ (word ++ front), back, by simp, ?_, ?_⟩
      · simp only [hoffset, List.length_append]
        omega
      · rw [List.filter_append, List.filter_append, hnone, hall, hfilter, List.take_succ_cons,
          List.map_cons, List.flatMap_cons, String.toList_ofList, List.nil_append]

theorem wordsFrom_gap (hv : (wordsFrom i [] [] cs)[k]? = some v)
    (hw : (wordsFrom i [] [] cs)[k + 1]? = some w) : v.offset + v.text.length + 1 ≤ w.offset := by
  induction cs using wordsOf_induction generalizing i k with
  | blank cs hblank =>
    rw [wordsFrom_blank hblank] at hv
    cases hv
  | word blanks word rest hblanks hne hword hrest ih =>
    rw [wordsFrom_append_blank hblanks, wordsFrom_append_word hne hword hrest] at hv hw
    cases k with
    | zero =>
      cases hv
      have hw : w ∈ wordsFrom (i + blanks.length + word.length) [] [] rest :=
        List.mem_of_getElem? hw
      cases rest with
      | nil => cases hw
      | cons c more =>
        have hc : ∀ d ∈ [c], isBlank d := by simpa using hrest c more rfl
        have hskip := wordsFrom_append_blank hc (i + blanks.length + word.length) more
        rw [List.singleton_append] at hskip
        rw [hskip] at hw
        obtain ⟨front, -, -, hoffset⟩ := mem_wordsFrom_iff.1 hw
        rw [hoffset, ← String.length_toList, String.toList_ofList]
        dsimp only [List.length_cons, List.length_nil]
        omega
    | succ k => exact ih hv hw

end Words

section Tokens

variable {tokens : List Token} {i k : Nat} {t : Token}

theorem isWord_of_tokenize {s : String} (h : tokenize s = .ok tokens) :
    tokens.map Token.text = words (cutBefore commentMark s) ∧ ∀ t ∈ tokens, IsWord t.text := by
  have hlexemes := lexemes_of_mapM (tokenize_eq_ok_iff.1 h)
  have hword : ∀ t ∈ tokens, IsWord t.lexeme := by
    intro t ht
    have hmem : t.lexeme ∈ words (cutBefore commentMark s) := by
      rw [← hlexemes]
      exact List.mem_map_of_mem ht
    exact (isWord_of_mem hmem).1
  refine ⟨?_, fun t ht => ?_⟩
  · rw [List.map_congr_left fun t ht => text_of_isWord (hword t ht), hlexemes]
  · rw [text_of_isWord (hword t ht)]
    exact hword t ht

theorem text_ne_empty_of_tokenize {s : String} (h : tokenize s = .ok tokens) :
    ∀ t ∈ tokens, t.text ≠ "" := by
  intro t ht hempty
  have hne := ((isWord_of_tokenize h).2 t ht).nonempty
  rw [hempty] at hne
  exact hne rfl

/-- In the text of a sequence, the words are the tokens and start at their offsets. -/
theorem wordsFrom_sourceOf (h : ∀ t ∈ tokens, IsWord t.text) (ht : tokens[k]? = some t) :
    (wordsFrom i [] [] (sourceOf tokens).toList)[k]? = some ⟨i + tokenOffset tokens k, t.text⟩ := by
  induction tokens generalizing i k with
  | nil => cases ht
  | cons u tokens ih =>
    obtain ⟨hu, htokens⟩ := List.forall_mem_cons.1 h
    by_cases hnil : tokens = []
    · subst hnil
      have hend : ∀ c more, ([] : List Char) = c :: more → isBlank c := nofun
      have hone := wordsFrom_append_word hu.nonempty hu.unbroken hend i
      rw [List.append_nil, String.ofList_toList] at hone
      rw [sourceOf_singleton, hone]
      cases k with
      | zero =>
        cases ht
        rfl
      | succ k => cases ht
    · have hspace : ∀ c more, ' ' :: (sourceOf tokens).toList = c :: more → isBlank c := by
        rintro _ _ ⟨⟩
        decide
      have hblank : ∀ c ∈ [' '], isBlank c := by simpa using hspace ' ' _ rfl
      have hskip :=
        wordsFrom_append_blank hblank (i + u.text.toList.length) (sourceOf tokens).toList
      rw [List.singleton_append] at hskip
      rw [sourceOf_cons hnil, String.append_assoc, String.toList_append, String.toList_append]
      show (wordsFrom i [] [] (u.text.toList ++ ' ' :: (sourceOf tokens).toList))[k]? = _
      rw [wordsFrom_append_word hu.nonempty hu.unbroken hspace, hskip, String.ofList_toList]
      cases k with
      | zero =>
        cases ht
        rfl
      | succ k =>
        have ht : tokens[k]? = some t := by simpa using ht
        rw [List.getElem?_cons_succ, ih htokens ht, tokenOffset, String.length_toList,
          List.length_singleton]
        simp only [Nat.add_assoc]

end Tokens

/-- The words of a text up to the one at `k` have nothing before them and one character between each
two. -/
structure OneApart (text : String) (k : Nat) : Prop where
  first : ∀ v, (wordsAt text)[0]? = some v → v.offset = 0
  next : ∀ i < k, ∀ v w, (wordsAt text)[i]? = some v → (wordsAt text)[i + 1]? = some w →
    w.offset = v.offset + v.text.length + 1

section Line

variable {text : String} {tokens : List Token} {k : Nat} {t : Token} {w : Word}

/-- A line starts with the words that it is read as. Only the last of them can go on in the line,
with a comment. -/
theorem exists_word (h : tokenize (trim text) = .ok tokens) (ht : tokens[k]? = some t) :
    ∃ w, (wordsAt text)[k]? = some w ∧
      ((wordsAt text).take k).map Word.text = (tokens.take k).map Token.text := by
  obtain ⟨-, before, after, hbefore, -, hs⟩ := exists_trim text
  obtain ⟨rest, hrest⟩ := cutBefore_prefix_self commentMark (trim text)
  obtain ⟨hwords, -⟩ := isWord_of_tokenize h
  generalize cutBefore commentMark (trim text) = code at hrest hwords
  have hline : wordsAt text = wordsFrom before.length [] [] (code.toList ++ (rest ++ after)) := by
    rw [wordsAt, hs, ← hrest, wordsFrom_append_blank hbefore, Nat.zero_add, List.append_assoc]
  have htexts :
      (wordsFrom before.length [] [] code.toList).map Word.text = tokens.map Token.text := by
    rw [wordsFrom_text, hwords, words_eq, wordsOf]
    rfl
  obtain ⟨v, hv⟩ : ∃ v, (wordsFrom before.length [] [] code.toList)[k]? = some v := by
    have hk : ((wordsFrom before.length [] [] code.toList).map Word.text)[k]? = some t.text := by
      rw [htexts, List.getElem?_map, ht]
      rfl
    rw [List.getElem?_map] at hk
    obtain ⟨v, hv, -⟩ := Option.map_eq_some_iff.1 hk
    exact ⟨v, hv⟩
  obtain ⟨htake, w, hw, -⟩ := wordsFrom_append hv (rest ++ after)
  rw [← hline] at htake hw
  exact ⟨w, hw, by rw [htake, List.map_take, htexts, List.map_take]⟩

/-- Where the text of the tokens occurs in the line, a token starts where the word does exactly if
the occurrence has only blank characters before it: the word has the same characters before it,
blank ones apart, in the line as in the text of the tokens. -/
theorem offset_eq_iff_blank (h : tokenize (trim text) = .ok tokens) (ht : tokens[k]? = some t)
    (hw : (wordsAt text)[k]? = some w) {front back : String}
    (hsplit : text = front ++ sourceOf tokens ++ back) :
    front.length + tokenOffset tokens k = w.offset ↔ ∀ c ∈ front.toList, isBlank c := by
  have hchars : text.toList = front.toList ++ ((sourceOf tokens).toList ++ back.toList) := by
    rw [hsplit, toList_append_append]
  have hisWord := (isWord_of_tokenize h).2
  rw [← String.length_toList]
  generalize front.toList = front at hchars ⊢
  generalize back.toList = back at hchars
  have hsource := wordsFrom_sourceOf (i := front.length) hisWord ht
  constructor
  · intro hoffset
    obtain ⟨_, hw', hline⟩ := exists_word h ht
    cases hw.symm.trans hw'
    have htexts : ((wordsFrom front.length [] [] (sourceOf tokens).toList).take k).map Word.text =
        (tokens.take k).map Token.text := by
      have hwords : words (sourceOf tokens) = tokens.map Token.text :=
        words_spaced (by simpa using hisWord)
      rw [List.map_take, wordsFrom_text, List.map_take, ← hwords]
      rfl
    obtain ⟨lineFront, lineBack, hlineSplit, hlineLength, hlineChars⟩ := exists_front hw
    obtain ⟨srcFront, srcBack, hsrcSplit, hsrcLength, hsrcChars⟩ := exists_front hsource
    have hboth : lineFront ++ lineBack = (front ++ srcFront) ++ (srcBack ++ back) := by
      rw [← hlineSplit, hchars, hsrcSplit, List.append_assoc, List.append_assoc]
    have hlength : lineFront.length = (front ++ srcFront).length := by
      rw [List.length_append]
      dsimp only at hsrcLength
      omega
    have hsame := List.append_inj_left hboth hlength
    have hfilter : lineFront.filter (!isBlank ·) = srcFront.filter (!isBlank ·) := by
      rw [hlineChars, hsrcChars, htexts, ← hline]
      rfl
    rw [hsame, List.filter_append, List.append_left_eq_self] at hfilter
    simpa using hfilter
  · intro hblank
    have hline : wordsAt text =
        wordsFrom front.length [] [] ((sourceOf tokens).toList ++ back) := by
      rw [wordsAt, hchars, wordsFrom_append_blank hblank, Nat.zero_add]
    obtain ⟨-, w', hw', hoffset⟩ := wordsFrom_append hsource back
    rw [← hline] at hw'
    cases hw.symm.trans hw'
    exact hoffset.symm

theorem tokenOffset_succ (ht : tokens[k]? = some t) :
    tokenOffset tokens (k + 1) = tokenOffset tokens k + t.text.length + 1 := by
  induction tokens generalizing k with
  | nil => cases ht
  | cons u tokens ih =>
    cases k with
    | zero =>
      cases ht
      have hzero : tokenOffset tokens 0 = 0 := by cases tokens <;> rfl
      rw [tokenOffset, hzero]
      simp [tokenOffset]
    | succ k =>
      have ht : tokens[k]? = some t := by simpa using ht
      rw [tokenOffset, ih ht, tokenOffset]
      omega

/-- No word starts before the token does in the text of the tokens. Both start at the same place if
the words are one character apart. -/
theorem offset_eq_iff_oneApart (h : tokenize (trim text) = .ok tokens) (ht : tokens[k]? = some t)
    (hw : (wordsAt text)[k]? = some w) :
    tokenOffset tokens k ≤ w.offset ∧ (tokenOffset tokens k = w.offset ↔ OneApart text k) := by
  induction k generalizing t w with
  | zero =>
    have hzero : tokenOffset tokens 0 = 0 := by cases tokens <;> rfl
    rw [hzero]
    refine ⟨Nat.zero_le _, fun hfirst => ⟨fun v hv => ?_, fun i hi => (Nat.not_lt_zero i hi).elim⟩,
      fun hapart => (hapart.first w hw).symm⟩
    cases hw.symm.trans hv
    exact hfirst.symm
  | succ k ih =>
    obtain ⟨u, hu⟩ : ∃ u, tokens[k]? = some u := by
      have hlt := (List.getElem?_eq_some_iff.1 ht).1
      exact ⟨_, List.getElem?_eq_getElem (Nat.lt_of_succ_lt hlt)⟩
    obtain ⟨v, hv, -⟩ := exists_word h hu
    obtain ⟨hle, hiff⟩ := ih hu hv
    have hgap : v.offset + v.text.length + 1 ≤ w.offset := wordsFrom_gap hv hw
    have htext : v.text = u.text := by
      obtain ⟨-, -, htexts⟩ := exists_word h ht
      have hk := congrArg (·[k]?) htexts
      simpa [hv, hu] using hk
    rw [tokenOffset_succ hu, ← htext]
    refine ⟨by omega, fun heq => ?_, fun hapart => ?_⟩
    · have hprev := hiff.1 (by omega)
      refine ⟨hprev.first, fun i hi v' w' hv' hw' => ?_⟩
      rcases Nat.lt_succ_iff_lt_or_eq.1 hi with hi | rfl
      · exact hprev.next i hi v' w' hv' hw'
      · cases hv.symm.trans hv'
        cases hw.symm.trans hw'
        omega
    · have hprev := hiff.2 ⟨hapart.first, fun i hi => hapart.next i (Nat.lt_succ_of_lt hi)⟩
      have hnext := hapart.next k (Nat.lt_succ_self k) v w hv hw
      omega

/-- Looking for the text of the tokens in a line leads to the word of a token exactly if only blank
characters come before that text, or it does not occur and the words are one character apart. -/
theorem found_offset_eq_iff (h : tokenize (trim text) = .ok tokens) (ht : tokens[k]? = some t)
    (hw : (wordsAt text)[k]? = some w) :
    max (offsetOf text (sourceOf tokens)) 0 + tokenOffset tokens k = w.offset ↔
      (∃ front back, text = front ++ sourceOf tokens ++ back ∧ ∀ c ∈ front.toList, isBlank c) ∨
      (∀ front back, text ≠ front ++ sourceOf tokens ++ back) ∧ OneApart text k := by
  have hne : sourceOf tokens ≠ "" := by
    refine sourceOf_ne_empty ?_ (text_ne_empty_of_tokenize h)
    rintro rfl
    cases ht
  rw [offsetOf]
  rcases findOffset?_cases hne text with ⟨hnone, hnot⟩ | ⟨front, back, hfound, hsplit, hfirst⟩
  · have hmax : max ((none : Option Nat).elim (-1) Int.ofNat) 0 + (tokenOffset tokens k : Int) =
        w.offset ↔ tokenOffset tokens k = w.offset := by
      rw [Option.elim_none]
      omega
    rw [hnone, hmax, (offset_eq_iff_oneApart h ht hw).2]
    constructor
    · exact fun hapart => .inr ⟨hnot, hapart⟩
    · rintro (⟨front, back, hsplit, -⟩ | ⟨-, hapart⟩)
      · exact (hnot front back hsplit).elim
      · exact hapart
  · have hmax : max ((some front.length).elim (-1) Int.ofNat) 0 + (tokenOffset tokens k : Int) =
        w.offset ↔ front.length + tokenOffset tokens k = w.offset := by
      rw [Option.elim_some, Int.ofNat_eq_natCast]
      omega
    rw [hfound, hmax, offset_eq_iff_blank h ht hw hsplit]
    constructor
    · exact fun hblank => .inl ⟨front, back, hsplit, hblank⟩
    · rintro (⟨front', back', hsplit', hblank⟩ | ⟨hnot, -⟩)
      · have hle := hfirst front' back' hsplit'
        rw [← String.length_toList, ← String.length_toList] at hle
        have hfront := List.prefix_of_prefix_length_le (prefix_of_eq_append hsplit)
          (prefix_of_eq_append hsplit') hle
        exact fun c hc => hblank c (hfront.subset hc)
      · exact (hnot front back hsplit).elim

end Line

end CurryCalc
