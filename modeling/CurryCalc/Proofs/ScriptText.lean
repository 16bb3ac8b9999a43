import CurryCalc.Proofs.LineGroups

/-! Statements read line by line. Typed lines are trimmed before they are read, blank ones are
skipped, and each other line ends the statement before it or goes on with it; a file joins its lines
in another way. Both ways give the same statements, up to blank characters around them, if no
continued line is blank before its mark and none has a blank line after it. -/
namespace CurryCalc

section Reading

theorem notMem_commentMark {c : Char} (h : isBlank c) : c ∉ commentMark.toList := by
  have hmark : commentMark.toList = [';', ';'] := by decide
  intro hc
  have hsemicolon : c = ';' := by simpa [hmark] using hc
  rw [hsemicolon] at h
  exact absurd h (by decide)

theorem commentMark_ne_nil : commentMark.toList ≠ [] := by decide

/-- A comment starts at the same character of a text and of its trimmed form. -/
theorem trim_cutBefore (s : String) : trimRight (cutBefore commentMark (trim s)) =
    trim (cutBefore commentMark s) := by
  obtain ⟨htrimmed, before, after, hbefore, hafter, hs⟩ := exists_trim s
  have hcut (t : String) := cutBefore_toList commentMark_ne_nil t
  have hleft : trimLeft (cutBefore commentMark (trim s)) = cutBefore commentMark (trim s) := by
    rw [trimLeft, dropWhile_of_head?, String.ofList_toList]
    rw [hcut]
    rcases head?_cutList commentMark.toList (trim s).toList with hnil | hhead
    · simp [hnil]
    · rw [hhead]
      exact htrimmed.1
  obtain ⟨kept, hkept, hright⟩ := exists_cutList_append commentMark_ne_nil (trim s).toList
    fun c hc => notMem_commentMark (hafter c hc)
  obtain ⟨hform, before', after', hbefore', hafter', hs'⟩ :=
    exists_trim (cutBefore commentMark (trim s))
  have hwhole (t : String) (ht : trimLeft t = t) : trimRight t = trim t := by rw [trim, ht]
  rw [hwhole _ hleft]
  refine (trim_eq_of_toList (before ++ before') (after' ++ kept) hform ?_ ?_ ?_).symm
  · intro c hc
    exact (List.mem_append.1 hc).elim (hbefore c) (hbefore' c)
  · intro c hc
    exact (List.mem_append.1 hc).elim (hafter' c) fun hc => hafter c (hkept.mem hc)
  · rw [hcut, hs, cutList_append_of_notMem commentMark_ne_nil fun c hc =>
      notMem_commentMark (hbefore c hc), hright, ← hcut, hs']
    simp only [List.append_assoc]

/-- A trimmed line is read as the line is, without the blank characters at its front. -/
theorem SourceLine.read_trim (raw : String) : SourceLine.read (trim raw) =
    ⟨trimLeft (SourceLine.read raw).text, (SourceLine.read raw).continued⟩ := by
  have htext := trim_cutBefore raw
  obtain ⟨hlast, -⟩ := exists_trimRight (cutBefore commentMark raw)
  rw [← trimLeft_trimRight (cutBefore commentMark raw)] at htext
  unfold SourceLine.read
  rw [htext]
  generalize trimRight (cutBefore commentMark raw) = text at hlast ⊢
  obtain ⟨hend, hfront⟩ := getLast?_dropWhile hlast
  dsimp only
  rw [trimLeft_toList, hend]
  split
  · rw [trimLeft, String.toList_ofList, hfront]
  · rfl

theorem SourceLine.read_of_blank {raw : String} (h : words raw = []) :
    words (SourceLine.read raw).text = [] ∧ (SourceLine.read raw).continued = false := by
  have hempty : SourceLine.read "" = ⟨"", false⟩ := by decide +kernel
  have hread := SourceLine.read_trim raw
  rw [trim_eq_empty_iff.2 h, hempty] at hread
  obtain ⟨htext, hcontinued⟩ := SourceLine.mk.inj hread
  refine ⟨?_, hcontinued.symm⟩
  rw [← words_trim, ← trim_trimLeft, ← htext]
  rfl

end Reading

section Files

def scriptText (lines : List String) : String :=
  String.ofList (lines.flatMap fun line => line.toList ++ ['\n'])

theorem fileLinesFrom_line {cs : List Char} (h : '\n' ∉ cs ∧ '\r' ∉ cs) (line : List Char)
    (lines : List String) (rest : List Char) :
    fileLinesFrom line lines (cs ++ '\n' :: rest) =
      fileLinesFrom [] (String.ofList (line.reverse ++ cs) :: lines) rest := by
  induction cs generalizing line with
  | nil => simp [fileLinesFrom]
  | cons c cs ih =>
    obtain ⟨hfeed, hreturn⟩ := h
    obtain ⟨hc, hfeed⟩ := not_or.1 (mt List.mem_cons.2 hfeed)
    obtain ⟨hc', hreturn⟩ := not_or.1 (mt List.mem_cons.2 hreturn)
    have hstep : fileLinesFrom line lines (c :: (cs ++ '\n' :: rest)) =
        fileLinesFrom (c :: line) lines (cs ++ '\n' :: rest) := by
      rw [fileLinesFrom, if_neg (by simp [Ne.symm hc, Ne.symm hc'])]
      exact fun _ hreturn => (hc' hreturn.symm).elim
    rw [List.cons_append, hstep, ih ⟨hfeed, hreturn⟩]
    simp

theorem fileLines_scriptText {lines : List String}
    (h : ∀ line ∈ lines, '\n' ∉ line.toList ∧ '\r' ∉ line.toList) :
    fileLines (scriptText lines) = lines := by
  have hgeneral (before : List String) :
      fileLinesFrom [] before (lines.flatMap fun line => line.toList ++ ['\n']) =
        before.reverse ++ lines := by
    induction lines generalizing before with
    | nil => simp [fileLinesFrom]
    | cons line lines ih =>
      obtain ⟨hline, hlines⟩ := List.forall_mem_cons.1 h
      rw [List.flatMap_cons, List.append_assoc, List.singleton_append, fileLinesFrom_line hline,
        ih hlines]
      simp
  rw [fileLines, scriptText, String.toList_ofList, hgeneral]
  rfl

end Files

section Order

/-- Statements have text, and come on ascending lines before a given one. -/
structure InOrder (number : Nat) (entries : List ScriptEntry) : Prop where
  ascending : entries.Pairwise fun a b => a.number < b.number
  below : ∀ entry ∈ entries, entry.number < number
  text : ∀ entry ∈ entries, words entry.text ≠ []

theorem addSourceLine_inOrder {number : Nat} {entries : List ScriptEntry}
    (h : InOrder number entries) (afterContinued : Bool) (line : SourceLine) :
    InOrder (number + 1) (addSourceLine entries afterContinued number line) := by
  have hlater : InOrder (number + 1) entries :=
    { h with below := fun entry hentry => Nat.lt_succ_of_lt (h.below entry hentry) }
  by_cases hstarts : afterContinued = true → entries = []
  · rw [addSourceLine_starts afterContinued hstarts]
    split
    · exact hlater
    next htext =>
      constructor
      · simpa [List.pairwise_append] using ⟨h.ascending, h.below⟩
      · simpa [or_imp, forall_and] using hlater.below
      · simpa [or_imp, forall_and] using ⟨h.text, htext⟩
  · obtain ⟨rfl, hne⟩ := not_forall.1 hstarts
    obtain ⟨front, last, rfl⟩ := List.eq_nil_or_concat entries |>.resolve_left hne
    rw [List.concat_eq_append] at hlater ⊢
    rw [addSourceLine_goesOn]
    constructor
    · simpa [List.pairwise_append] using hlater.ascending
    · simpa [or_imp, forall_and] using hlater.below
    · have htext := hlater.text
      simp only [List.mem_append, List.mem_singleton, or_imp, forall_and, forall_eq] at htext ⊢
      exact ⟨htext.1, by simp [words_join, htext.2]⟩

theorem readScript_inOrder (lines : List String) :
    InOrder (lines.length + 1) (readScript lines) := by
  have hgeneral (number : Nat) (afterContinued : Bool) (entries : List ScriptEntry)
      (h : InOrder number entries) :
      InOrder (number + lines.length) (readScriptFrom number afterContinued entries lines) := by
    induction lines generalizing number afterContinued entries with
    | nil => exact h
    | cons raw lines ih =>
      have hrest := ih (number + 1) (SourceLine.read raw).continued _
        (addSourceLine_inOrder h afterContinued (SourceLine.read raw))
      rwa [Nat.add_right_comm] at hrest
  have hempty : InOrder 1 [] := ⟨.nil, nofun, nofun⟩
  have hall := hgeneral 1 false [] hempty
  rwa [Nat.add_comm] at hall

end Order

section Statements

/-- The statements that lines complete when they are typed in, after the beginning of one. Blank
lines and blank statements are skipped. -/
def statements (unfinished : String) : List String → List String
  | [] => []
  | raw :: rest =>
    if words raw = [] then statements unfinished rest
    else
      let line := SourceLine.read (trim raw)
      let statement := trim (unfinished ++ " " ++ line.text)
      if line.continued then statements statement rest
      else if statement = "" then statements "" rest
      else statement :: statements "" rest

/-- Continued lines have text before their mark and a line with something on it after them. -/
structure SpelledOut (lines : List String) : Prop where
  text : ∀ line ∈ lines, (SourceLine.read line).continued = true →
    words (SourceLine.read line).text ≠ []
  goesOn : lines.IsChain fun line next => (SourceLine.read line).continued = true → words next ≠ []
  ends : ∀ line ∈ lines.getLast?, (SourceLine.read line).continued = false

theorem SpelledOut.tail {raw : String} {lines : List String} (h : SpelledOut (raw :: lines)) :
    SpelledOut lines := by
  refine ⟨(List.forall_mem_cons.1 h.text).2, h.goesOn.tail, fun line hline => h.ends line ?_⟩
  rw [List.getLast?_cons, Option.mem_def.1 hline]
  rfl

theorem SpelledOut.next {raw : String} {lines : List String} (h : SpelledOut (raw :: lines))
    (hcontinued : (SourceLine.read raw).continued = true) :
    ∃ next rest, lines = next :: rest ∧ words next ≠ [] := by
  cases lines with
  | nil =>
    have hends := h.ends raw rfl
    rw [hcontinued] at hends
    cases hends
  | cons next rest => exact ⟨next, rest, rfl, (List.isChain_cons_cons.1 h.goesOn).1 hcontinued⟩

variable {raw : String} (lines : List String)

theorem statements_blank (h : words raw = []) (unfinished : String) :
    statements unfinished (raw :: lines) = statements unfinished lines := by
  rw [statements, if_pos h]

theorem statements_continued (h : words raw ≠ [])
    (hcontinued : (SourceLine.read raw).continued = true) (unfinished : String) :
    statements unfinished (raw :: lines) =
      statements (trim (unfinished ++ " " ++ trimLeft (SourceLine.read raw).text)) lines := by
  rw [statements, if_neg h, SourceLine.read_trim]
  simp only [hcontinued, if_true]

theorem statements_complete (h : words raw ≠ [])
    (hcomplete : (SourceLine.read raw).continued = false) {unfinished statement : String}
    (hstatement : trim (unfinished ++ " " ++ trimLeft (SourceLine.read raw).text) = statement) :
    statements unfinished (raw :: lines) =
      (if statement = "" then [] else [statement]) ++ statements "" lines := by
  rw [statements, if_neg h, SourceLine.read_trim]
  simp only [hcomplete, hstatement, Bool.false_eq_true, if_false]
  split <;> rfl

/-- A file has the statements that its lines complete when they are typed in. -/
theorem readScriptFrom_statements (h : SpelledOut lines) :
    (∀ number entries, (readScriptFrom number false entries lines).map (trim ·.text) =
      entries.map (trim ·.text) ++ statements "" lines) ∧
    ∀ number front last, trim last.text = last.text → last.text ≠ "" →
      (∃ next rest, lines = next :: rest ∧ words next ≠ []) →
      (readScriptFrom number true (front ++ [last]) lines).map (trim ·.text) =
        front.map (trim ·.text) ++ statements last.text lines := by
  induction lines with
  | nil =>
    refine ⟨fun number entries => by simp [readScriptFrom, statements], ?_⟩
    rintro number front last - - ⟨next, rest, hnil, -⟩
    cases hnil
  | cons raw lines ih =>
    obtain ⟨hstart, hgoOn⟩ := ih h.tail
    have htext := h.text raw List.mem_cons_self
    constructor
    · intro number entries
      rw [readScriptFrom, addSourceLine_starts false (by simp)]
      by_cases hraw : words raw = []
      · obtain ⟨hblank, hcomplete⟩ := SourceLine.read_of_blank hraw
        rw [if_pos hblank, hcomplete, hstart, statements_blank lines hraw]
      cases hcontinued : (SourceLine.read raw).continued with
      | true =>
        have hne : trim (SourceLine.read raw).text ≠ "" := mt trim_eq_empty_iff.1 (htext hcontinued)
        rw [if_neg (htext hcontinued),
          hgoOn _ _ ⟨trim (SourceLine.read raw).text, number⟩ (trim_trim _) hne (h.next hcontinued),
          statements_continued lines hraw hcontinued, trim_space_trimLeft]
      | false =>
        rw [statements_complete lines hraw hcontinued (trim_space_trimLeft _)]
        simp only [trim_eq_empty_iff]
        split
        · rw [hstart, List.nil_append]
        · rw [hstart]
          simp
    · rintro number front last htrimmed hne ⟨next, rest, heq, hraw⟩
      cases heq
      rw [readScriptFrom, addSourceLine_goesOn]
      have hjoin := trim_join htrimmed hne (SourceLine.read raw).text
      cases hcontinued : (SourceLine.read raw).continued with
      | true =>
        rw [if_neg (htext hcontinued)] at hjoin
        have hlast : trim (last.text ++ " " ++ trim (SourceLine.read raw).text) =
            last.text ++ " " ++ trim (SourceLine.read raw).text := by
          rw [← hjoin, trim_trim]
        rw [hgoOn _ _ ⟨_, last.number⟩ hlast (by simp) (h.next hcontinued),
          statements_continued lines hraw hcontinued, hjoin]
      | false =>
        have hstatement := trim_join_trim htrimmed hne (SourceLine.read raw).text
        have hsome : trim (last.text ++ " " ++ trimLeft (SourceLine.read raw).text) ≠ "" := by
          rw [hjoin]
          split
          · exact hne
          · simp
        rw [statements_complete lines hraw hcontinued rfl, if_neg hsome, hstart, List.map_append,
          List.map_singleton, hstatement, List.append_assoc]

theorem readScript_statements {lines : List String} (h : SpelledOut lines) :
    (readScript lines).map (trim ·.text) = statements "" lines :=
  (readScriptFrom_statements lines h).1 1 []

end Statements

end CurryCalc
