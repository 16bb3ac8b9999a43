import CurryCalc.Proofs.NumberConversion
import CurryCalc.Proofs.Outcome

/-! How far a comment goes. Texts on two lines are read as the tokens of the first and then those of
the second, as long as the first has no comment. A comment does not end with its line: all that is
after it is lost. -/
namespace CurryCalc

/-- A failure without the place where it was found. -/
def Failure.withoutPlace : Failure → Failure
  | .fault (.malformedArgument lexeme _ _) => .fault (.malformedArgument lexeme .nothing 0)
  | f => f

/-- What a text is read as, wherever it stands: its tokens, or what is wrong with one of its
words. -/
def readTokens (s : String) : Except Failure (List Token) :=
  (tokenize s).mapError Failure.withoutPlace

def readWord (word : String) : Except Failure Token :=
  (classify word .nothing 0).mapError Failure.withoutPlace

/-- A line is read to its end, and the text after it as if it stood alone. -/
def ReadsByLine (s t : String) : Prop :=
  readTokens (s ++ "\n" ++ t) = do
    let first ← readTokens s
    let second ← readTokens t
    return first ++ second

theorem classify_withoutPlace (word source : String) (offset : Int) :
    (classify word source offset).mapError Failure.withoutPlace = readWord word := by
  rw [readWord, classify_eq, classify_eq]
  cases readNumber? word with
  | some x => rfl
  | none =>
    cases Keyword.ofWord? word with
    | some k => rfl
    | none =>
      dsimp only
      split
      next digits _ =>
        cases hindex : readIndex? digits with
        | error f => rfl
        | ok index => cases index <;> rfl
      · rfl

theorem Outcome.mapM_mapError {ε ε' α β : Type} (f : α → Except ε β) (g : ε → ε')
    (inputs : List α) :
    (inputs.mapM f).mapError g = inputs.mapM fun a => (f a).mapError g := by
  induction inputs with
  | nil => rfl
  | cons a inputs ih =>
    rw [List.mapM_cons, List.mapM_cons, ← ih]
    cases f a with
    | error e => rfl
    | ok b => cases inputs.mapM f <;> rfl

theorem readTokens_eq (s : String) :
    readTokens s = (words (cutBefore commentMark s)).mapM readWord := by
  rw [readTokens, tokenize, Outcome.mapM_mapError, words, List.mapM_map]
  congr 1
  funext w
  exact classify_withoutPlace w.text _ w.offset

theorem words_cutBefore (s : String) :
    words (cutBefore commentMark s) = wordsOf (cutList commentMark.toList s.toList) := by
  rw [words_eq, cutBefore_toList (by decide)]

theorem toList_line (s t : String) : (s ++ "\n" ++ t).toList = s.toList ++ '\n' :: t.toList := by
  simp

theorem tokenize_of_comment {s : String} (h : commentMark.toList <:+: s.toList) (t : String) :
    tokenize (s ++ "\n" ++ t) = tokenize s := by
  have hcut : cutBefore commentMark (s ++ "\n" ++ t) = cutBefore commentMark s := by
    rw [← String.toList_inj, cutBefore_toList (by decide), cutBefore_toList (by decide),
      toList_line, cutList_append_of_occurs (by decide) h]
  rw [tokenize, hcut]
  rfl

theorem readsByLine_of_no_comment {s : String} (h : ¬ commentMark.toList <:+: s.toList)
    (t : String) :
    ReadsByLine s t := by
  have hwords : words (cutBefore commentMark (s ++ "\n" ++ t)) =
      words (cutBefore commentMark s) ++ words (cutBefore commentMark t) := by
    rw [words_cutBefore, words_cutBefore, words_cutBefore, toList_line,
      cutList_append_of_not_occurs (by decide) (by decide) h, wordsOf_append_cons (by decide),
      cutList_of_not_occurs h]
  rw [ReadsByLine, readTokens_eq, hwords, List.mapM_append, readTokens_eq, readTokens_eq]

/-- A comment hides the lines after it; so a line and the text after it are read one after the other
exactly if the line has no comment, or cannot be read itself, or nothing is there to be hidden. -/
theorem readsByLine_iff (s t : String) :
    (commentMark.toList <:+: s.toList → tokenize (s ++ "\n" ++ t) = tokenize s) ∧
    (ReadsByLine s t ↔ ¬ commentMark.toList <:+: s.toList ∨ (∃ f, tokenize s = .error f) ∨
      tokenize t = .ok []) := by
  refine ⟨fun h => tokenize_of_comment h t, ?_⟩
  by_cases hcomment : commentMark.toList <:+: s.toList
  · have hwhole : readTokens (s ++ "\n" ++ t) = readTokens s := by
      rw [readTokens, tokenize_of_comment hcomment, readTokens]
    rw [ReadsByLine, hwhole, readTokens, readTokens]
    cases hs : tokenize s with
    | error f => simp [hcomment]
    | ok first =>
      cases ht : tokenize t with
      | error g => simp [hcomment]
      | ok second => simp [hcomment, pure, Except.pure]
  · simp only [hcomment, not_false_eq_true, true_or, iff_true]
    exact readsByLine_of_no_comment hcomment t

/-- A sum over two lines, with a comment at the end of the first: only its first operand is read. -/
theorem comment_hides_second_line :
    (tokenize ("1 ;; one" ++ "\n" ++ "plus 2")).toOption.map (List.map Token.lexeme) = some ["1"] ∧
      ¬ ReadsByLine "1 ;; one" "plus 2" := by
  refine ⟨by decide +kernel, fun h => ?_⟩
  have hlexemes := congrArg (fun read => read.toOption.map (List.map Token.lexeme)) h
  exact absurd hlexemes (by decide +kernel)

end CurryCalc
