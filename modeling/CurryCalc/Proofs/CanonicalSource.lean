import CurryCalc.Proofs.CommentScope
import CurryCalc.Proofs.SpacedWords
import CurryCalc.Proofs.Traversal

/-! The source of a program. Tokens written with one space between each two are read back as the
same tokens, so that the source kept with a program stands for the text that the program was read
from. -/
namespace CurryCalc

/-- The text of the tokens that a text is read as. -/
def canonicalText (s : String) : Except Failure String := (tokenize s).map sourceOf

theorem cutList_prefix (part cs : List Char) : cutList part cs <+: cs := by
  induction cs with
  | nil => exact List.prefix_rfl
  | cons c cs ih =>
    rw [cutList]
    split
    · exact List.nil_prefix
    · exact List.cons_prefix_cons.2 ⟨rfl, ih⟩

theorem not_occurs_cutList {part : List Char} (hpart : part ≠ []) (cs : List Char) :
    ¬ part <:+: cutList part cs := by
  induction cs with
  | nil => exact not_infix_nil hpart
  | cons c cs ih =>
    rw [cutList]
    split
    · exact not_infix_nil hpart
    next hnone =>
      rw [List.infix_cons_iff]
      rintro (hhere | hlater)
      · have hwhole : c :: cutList part cs <+: c :: cs :=
          List.cons_prefix_cons.2 ⟨rfl, cutList_prefix part cs⟩
        exact hnone (List.isPrefixOf_iff_prefix.2 (hhere.trans hwhole))
      · exact ih hlater

theorem lexeme_of_classify {word : String} {source : Value} {offset : Int} {t : Token}
    (h : classify word source offset = .ok t) : t.lexeme = word := by
  rcases classify_cases h with ⟨x, -, rfl⟩ | ⟨k, -, rfl⟩ | ⟨digits, index, -, rfl⟩ | rfl <;> rfl

theorem lexeme_of_readWord {word : String} {t : Token} (h : readWord word = .ok t) :
    t.lexeme = word := by
  unfold readWord at h
  cases hclassify : classify word .nothing 0 with
  | error f =>
    rw [hclassify] at h
    cases h
  | ok token =>
    rw [hclassify] at h
    cases h
    exact lexeme_of_classify hclassify

theorem lexemes_of_mapM {ws : List String} {tokens : List Token}
    (h : ws.mapM readWord = .ok tokens) : tokens.map Token.lexeme = ws := by
  induction ws generalizing tokens with
  | nil =>
    cases h
    rfl
  | cons w ws ih =>
    rw [List.mapM_cons] at h
    obtain ⟨first, hfirst, h⟩ := Outcome.ok_of_bind h
    obtain ⟨others, hothers, h⟩ := Outcome.ok_of_bind h
    cases h
    rw [List.map_cons, lexeme_of_readWord hfirst, ih hothers]

theorem tokenize_eq_ok_iff {s : String} {tokens : List Token} :
    tokenize s = .ok tokens ↔ (words (cutBefore commentMark s)).mapM readWord = .ok tokens := by
  rw [← readTokens_eq, readTokens]
  cases tokenize s with
  | error f => simp
  | ok found => simp

theorem text_of_isWord {t : Token} (h : IsWord t.lexeme) : t.text = t.lexeme := by
  have hne : t.lexeme.isEmpty = false := by simpa using h.nonempty
  simp [Token.text, hne]

theorem sourceOf_eq_spaced {tokens : List Token} (h : ∀ t ∈ tokens, IsWord t.lexeme) :
    sourceOf tokens = spaced (tokens.map Token.lexeme) := by
  rw [sourceOf, List.map_congr_left fun t ht => text_of_isWord (h t ht), spaced]

/-- Tokens are read back from their source: its words are the lexemes, and no comment starts in
it. -/
theorem tokenize_sourceOf {s : String} {tokens : List Token} (h : tokenize s = .ok tokens) :
    tokenize (sourceOf tokens) = .ok tokens := by
  rw [tokenize_eq_ok_iff] at h
  have hlexemes := lexemes_of_mapM h
  have hwords : ∀ w ∈ tokens.map Token.lexeme, IsWord w := by
    rw [hlexemes]
    exact fun w hw => (isWord_of_mem hw).1
  have hsource : sourceOf tokens = spaced (words (cutBefore commentMark s)) := by
    rw [← hlexemes]
    exact sourceOf_eq_spaced fun t ht => hwords _ (List.mem_map_of_mem ht)
  have hplain : ¬ commentMark.toList <:+: (sourceOf tokens).toList := by
    intro hmark
    have hword : IsWord commentMark := by decide
    obtain ⟨w, hw, hin⟩ := occurs_in_word hword.nonempty hword.unbroken hmark
    rw [hsource, words_spaced fun w hw => (isWord_of_mem hw).1] at hw
    have hcut := hin.trans (isWord_of_mem hw).2
    rw [cutBefore_toList (by decide)] at hcut
    exact not_occurs_cutList (by decide) _ hcut
  rw [tokenize_eq_ok_iff, words_cutBefore, cutList_of_not_occurs hplain, ← words_eq, hsource,
    words_spaced fun w hw => (isWord_of_mem hw).1]
  exact h

/-- The source of the tokens of a text is read as the same tokens, lexemes included. So it is its
own canonical text, and a program that is compiled again from its source is the same program. -/
theorem source_reads_back [Machine] {s : String} {tokens : List Token}
    (h : tokenize s = .ok tokens) :
    tokenize (sourceOf tokens) = .ok tokens ∧
    (canonicalText s = .ok (sourceOf tokens) ∧
      canonicalText (sourceOf tokens) = .ok (sourceOf tokens)) ∧
    ∀ p, Program.compile tokens = .ok p →
      ∃ reread, tokenize p.source = .ok reread ∧ Program.compile reread = .ok p := by
  have hagain := tokenize_sourceOf h
  refine ⟨hagain, ⟨?_, ?_⟩, fun p hp => ⟨tokens, ?_, hp⟩⟩
  · rw [canonicalText, h]
    rfl
  · rw [canonicalText, hagain]
    rfl
  · obtain ⟨-, -, -, -, hsource⟩ := Program.compile_eq_ok_iff.1 hp
    rwa [hsource]

section StandardMachine
attribute [local instance] Machine.standard

/-- A let on two lines, with an em space, a tab, a digit of another script, and a comment full of
what would be tokens. -/
theorem source_reads_back_let :
    let text := "let\u2003x $2\n\tin x plus \u0663 minus $1 ;; let $0 ;;"
    ∃ tokens p, tokenize text = .ok tokens ∧
      sourceOf tokens = "let x $2 in x plus \u0663 minus $1" ∧ Program.compile tokens = .ok p ∧
      p.arity = 2 ∧ tokenize (sourceOf tokens) = .ok tokens ∧
      ∃ reread, tokenize p.source = .ok reread ∧ Program.compile reread = .ok p := by
  intro text
  have hsource : ((tokenize text).map sourceOf).toOption =
      some "let x $2 in x plus \u0663 minus $1" := by decide +kernel
  have hprogram : (tokenize text >>= Program.compile).toOption.map Program.arity = some 2 := by
    decide +kernel
  cases htokens : tokenize text with
  | error f =>
    rw [htokens] at hsource
    cases hsource
  | ok tokens =>
    rw [htokens] at hsource hprogram
    obtain ⟨hagain, -, hreread⟩ := source_reads_back htokens
    cases hp : Program.compile tokens with
    | error f =>
      rw [Outcome.bind_ok, hp] at hprogram
      cases hprogram
    | ok p =>
      rw [Outcome.bind_ok, hp] at hprogram
      exact ⟨tokens, p, rfl, Option.some.inj hsource, hp, Option.some.inj hprogram, hagain,
        hreread p hp⟩

end StandardMachine

end CurryCalc
