import CurryCalc.Notice

/-! The wording of problems. A template shows a text as it is once the braces of the text are
written twice, and with one place between such texts it shows any text there. All problems that a
program or a statement can have are worded like that, so that their messages can always be put
together. -/
namespace CurryCalc

namespace Template

section Filling

theorem fillFrom_plain {c : Char} (hopen : c ≠ '\x7b') (hclose : c ≠ '\x7d') (parts : List String)
    (numbering : Numbering) (cs out : List Char) :
    fillFrom parts numbering .text (c :: cs) out =
      fillFrom parts numbering .text cs (c :: out) := by
  cases cs <;> simp [fillFrom, hopen, hclose]

theorem fillFrom_escaped (parts : List String) (numbering : Numbering) (cs rest out : List Char) :
    fillFrom parts numbering .text
        (cs.flatMap (fun c => if c = '\x7b' || c = '\x7d' then [c, c] else [c]) ++ rest) out =
      fillFrom parts numbering .text rest (cs.reverse ++ out) := by
  induction cs generalizing out with
  | nil => rfl
  | cons c cs ih =>
    rw [List.flatMap_cons, List.append_assoc, List.reverse_cons, List.append_assoc,
      List.singleton_append, ← ih]
    by_cases hopen : c = '\x7b'
    · subst hopen
      simp [fillFrom]
    · by_cases hclose : c = '\x7d'
      · subst hclose
        simp [fillFrom]
      · rw [← fillFrom_plain hopen hclose]
        simp [hopen, hclose]

theorem fillFrom_hole (text : String) (rest out : List Char) :
    fillFrom [text] .unset .text (hole.toList ++ rest) out =
      fillFrom [text] (.successive 1) .text rest (text.toList.reverse ++ out) := by
  rfl

/-- A template with one place and escaped texts around it shows these texts and the part. -/
theorem fill_hole (front back text : String) :
    fill (escape front ++ hole ++ escape back) [text] = .ok (front ++ text ++ back) := by
  have hback (out : List Char) : fillFrom [text] (.successive 1) .text (escape back).toList out =
      .ok ((back.toList.reverse ++ out).reverse) := by
    have h := fillFrom_escaped [text] (.successive 1) back.toList [] out
    rw [List.append_nil] at h
    rw [escape, String.toList_ofList, h]
    rfl
  rw [fill, String.toList_append, String.toList_append, List.append_assoc, escape,
    String.toList_ofList, fillFrom_escaped, fillFrom_hole, hback]
  simp [Except.map, String.ofList_append, String.append_assoc]

theorem escape_append (s t : String) : escape (s ++ t) = escape s ++ escape t := by
  simp [escape, String.ofList_append]

theorem fill_escape (s : String) (parts : List String) : fill (escape s) parts = .ok s := by
  have h := fillFrom_escaped parts .unset s.toList [] []
  rw [List.append_nil, List.append_nil] at h
  rw [fill, escape, String.toList_ofList, h]
  simp [fillFrom, Reading.atEnd, Except.map]

end Filling

/-- A template that shows a text as it is. -/
def IsText (template : String) : Prop := ∃ s, template = escape s

def isPlainChar (c : Char) : Bool := c ≠ '\x7b' && c ≠ '\x7d'

/-- A template with one place, and around it texts that are shown as they are. -/
def HasPlace (template : String) : Prop :=
  ∃ front back, template = escape front ++ hole ++ escape back

section Building

variable {s t : String}

theorem isText_escape (s : String) : IsText (escape s) := ⟨s, rfl⟩

/-- A text without braces is a template for itself. The text is given by its characters, which a
literal can be matched with as it stands. -/
theorem escape_ofList {cs : List Char} (h : cs.all isPlainChar = true) :
    escape (String.ofList cs) = String.ofList cs := by
  have hsame : cs.flatMap (fun c => if c = '\x7b' || c = '\x7d' then [c, c] else [c]) = cs := by
    induction cs with
    | nil => rfl
    | cons c cs ih =>
      obtain ⟨hc, hcs⟩ := Bool.and_eq_true_iff.1 h
      have hnone : ¬ (c = '\x7b' || c = '\x7d') = true := by simpa [isPlainChar] using hc
      rw [List.flatMap_cons, if_neg hnone, ih hcs]
      rfl
  rw [escape, String.toList_ofList, hsame]

theorem isText_ofList {cs : List Char} (h : cs.all isPlainChar = true) :
    IsText (String.ofList cs) :=
  ⟨String.ofList cs, (escape_ofList h).symm⟩

theorem IsText.append (hs : IsText s) (ht : IsText t) : IsText (s ++ t) := by
  obtain ⟨s, rfl⟩ := hs
  obtain ⟨t, rfl⟩ := ht
  exact ⟨s ++ t, (escape_append s t).symm⟩

theorem escape_intText (n : Int) : escape (intText n) = intText n := by
  apply escape_ofList
  rw [List.all_append, Bool.and_eq_true, List.all_eq_true, List.all_eq_true]
  constructor
  · intro c hc
    unfold signText at hc
    split at hc
    · obtain rfl := List.mem_singleton.1 hc
      rfl
    · cases hc
  · intro c hc
    have hdigit := Nat.isDigit_of_mem_toDigits (by decide) (by decide) hc
    have hopen : c ≠ '\x7b' := by
      rintro rfl
      cases hdigit
    have hclose : c ≠ '\x7d' := by
      rintro rfl
      cases hdigit
    simp [isPlainChar, hopen, hclose]

theorem isText_intText (n : Int) : IsText (intText n) := ⟨intText n, (escape_intText n).symm⟩

theorem IsText.intercalate (hs : IsText s) {texts : List String} (h : ∀ t ∈ texts, IsText t) :
    IsText (s.intercalate texts) := by
  induction texts with
  | nil => exact isText_escape ""
  | cons t texts ih =>
    obtain ⟨ht, htexts⟩ := List.forall_mem_cons.1 h
    by_cases hnil : texts = []
    · rwa [hnil, String.intercalate_singleton]
    · rw [String.intercalate_cons_of_ne_nil hnil]
      exact (ht.append hs).append (ih htexts)

theorem IsText.hasPlace (hs : IsText s) (ht : IsText t) : HasPlace (s ++ hole ++ t) := by
  obtain ⟨s, rfl⟩ := hs
  obtain ⟨t, rfl⟩ := ht
  exact ⟨s, t, rfl⟩

theorem HasPlace.append (hs : HasPlace s) (ht : IsText t) : HasPlace (s ++ t) := by
  obtain ⟨front, back, rfl⟩ := hs
  obtain ⟨t, rfl⟩ := ht
  exact ⟨front, back ++ t, by rw [escape_append, String.append_assoc]⟩

theorem HasPlace.fill (h : HasPlace s) (text : String) :
    ∃ message, Template.fill s [text] = .ok message := by
  obtain ⟨front, back, rfl⟩ := h
  exact ⟨_, fill_hole front back text⟩

end Building

end Template

namespace Fault

open Template (IsText HasPlace isText_escape isText_intText isText_ofList)

def Worded (cause : Fault) : Prop := ∀ style, ∃ n, cause.notice style = .ok n

theorem internal_of_notice {cause : Fault} {style : Style} {n : Notice}
    (h : cause.notice style = .ok n) : n.internal = cause.draft.internal := by
  unfold notice Draft.notice at h
  split at h
  · cases h
  · split at h <;> cases h
    rfl

/-- A problem that quotes one text shows that text, with the part that it is about. -/
theorem shows_of_notice {cause : Fault} {quote : String} (hquotes : cause.draft.quotes = [quote])
    {style : Style} {n : Notice} (h : cause.notice style = .ok n) :
    n.expr = quote ∧ n.start = cause.draft.start ∧
      n.stop = (if cause.draft.stop = -1 then (quote.length : Int) else cause.draft.stop) ∧
      n.underline = cause.draft.underline := by
  unfold notice Draft.notice at h
  rw [hquotes] at h
  split at h
  · cases h
  · cases h
    exact ⟨rfl, rfl, rfl, rfl⟩

theorem worded_of_hasPlace {cause : Fault} {quote : String}
    (hplace : HasPlace cause.draft.template) (hquotes : cause.draft.quotes = [quote]) :
    cause.Worded := by
  intro style
  obtain ⟨message, hfill⟩ := hplace.fill (style.bold quote)
  unfold notice Draft.notice
  rw [hquotes, List.map_cons, List.map_nil, hfill]
  exact ⟨_, rfl⟩

theorem worded_of_isText {cause : Fault} {quote : String}
    (htext : IsText cause.draft.template) (hquotes : cause.draft.quotes = [quote]) :
    cause.Worded := by
  intro style
  obtain ⟨message, htemplate⟩ := htext
  unfold notice Draft.notice
  rw [htemplate, hquotes, List.map_cons, List.map_nil, Template.fill_escape]
  exact ⟨_, rfl⟩

section Wordings

/-- The most common wording: one place, and no braces in the texts around it. -/
theorem worded_of_plain {cause : Fault} {front back : List Char} {quote : String}
    (htemplate : cause.draft.template = String.ofList front ++ hole ++ String.ofList back)
    (hquotes : cause.draft.quotes = [quote]) (hfront : front.all Template.isPlainChar = true)
    (hback : back.all Template.isPlainChar = true) : cause.Worded := by
  refine worded_of_hasPlace ?_ hquotes
  rw [htemplate]
  exact (isText_ofList hfront).hasPlace (isText_ofList hback)

theorem isText_plural (n : Value) : IsText (plural n) := by
  unfold plural
  split
  · exact isText_ofList rfl
  · exact isText_ofList rfl

theorem isText_foundText (found : Option Token) : IsText (foundText found) := by
  have hmark : IsText "'" := isText_ofList rfl
  cases found with
  | none => exact isText_ofList rfl
  | some t => exact (hmark.append (isText_escape _)).append hmark

theorem quotes_sourceOrTokens (source : String) :
    ∃ quote, (sourceOrTokens source).quotes = [quote] := by
  unfold sourceOrTokens
  split
  · exact ⟨source, rfl⟩
  · exact ⟨"<tokens>", rfl⟩

theorem worded_malformedArgument (lexeme : String) {source : Value}
    (hsource : source = .nothing ∨ ∃ s, source = .text s) (start : Int) :
    (malformedArgument lexeme source start).Worded := by
  have hplace : HasPlace (malformedArgument lexeme source start).draft.template := by
    dsimp only [draft]
    refine HasPlace.append ?_ (isText_ofList rfl)
    exact ((isText_ofList rfl).hasPlace (isText_ofList rfl)).append (isText_escape _)
  rcases hsource with rfl | ⟨s, rfl⟩
  · exact worded_of_hasPlace hplace rfl
  · exact worded_of_hasPlace hplace rfl

theorem shows_malformedArgument {lexeme source : String} {start : Nat} {style : Style} {n : Notice}
    (h : (malformedArgument lexeme source start).notice style = .ok n) :
    n.expr = source ∧ n.start = start ∧ n.stop = (start : Int) + lexeme.length := by
  have hsource : Value.text source ≠ .nothing := nofun
  have hparts : ((Value.text lexeme).parts?.getD []).length = lexeme.length := by
    rw [Value.parts?, Option.getD_some, List.length_map, String.length_toList]
  have hstop :
      (malformedArgument lexeme source start).draft.stop = (start : Int) + lexeme.length := by
    dsimp only [draft]
    rw [if_neg hsource, hparts]
  have hquotes : (malformedArgument lexeme source start).draft.quotes = [source] := rfl
  obtain ⟨hexpr, hstart, hend, -⟩ := shows_of_notice hquotes h
  rw [hstop, if_neg (by omega)] at hend
  exact ⟨hexpr, hstart, hend⟩

theorem worded_unexpected (expected : Value) (found : Option Token) (position : Int)
    (source : String) (start stop : Int) :
    (unexpected expected found position source start stop).Worded := by
  obtain ⟨quote, hquote⟩ := quotes_sourceOrTokens source
  refine worded_of_hasPlace ?_ hquote
  dsimp only [draft]
  refine HasPlace.append ?_ (isText_ofList rfl)
  refine HasPlace.append ?_ (isText_intText position)
  refine HasPlace.append ?_ (isText_ofList rfl)
  refine HasPlace.append ?_ (isText_foundText found)
  refine HasPlace.append ?_ (isText_ofList rfl)
  exact ((isText_ofList rfl).hasPlace (isText_ofList rfl)).append (isText_escape _)

theorem shows_unexpected {expected : Value} {found : Option Token} {position start stop : Int}
    {source : String} (hsource : source ≠ "") (hstop : stop ≠ -1) {style : Style} {n : Notice}
    (h : (unexpected expected found position source start stop).notice style = .ok n) :
    n.expr = source ∧ n.start = start ∧ n.stop = stop ∧ n.underline = true := by
  have hholds : (Value.text source).holds = true := by simpa [Value.holds] using hsource
  have hquotes :
      (unexpected expected found position source start stop).draft.quotes = [source] := by
    dsimp only [draft]
    rw [sourceOrTokens, if_pos hholds]
    rfl
  obtain ⟨hexpr, hstart, hend, hunderline⟩ := shows_of_notice hquotes h
  exact ⟨hexpr, hstart, hend.trans (if_neg hstop), hunderline.trans hholds⟩

theorem worded_nonNumericOperand {op : String} (hop : IsText op) (value : Value) :
    (nonNumericOperand op value).Worded := by
  refine worded_of_hasPlace ?_ rfl
  dsimp only [draft]
  refine IsText.hasPlace ?_ (isText_ofList rfl)
  refine IsText.append ?_ (isText_ofList rfl)
  exact (isText_ofList rfl).append hop

theorem worded_tooManyArguments (arity supplied : Int) :
    (tooManyArguments arity supplied).Worded := by
  refine worded_of_hasPlace ?_ rfl
  dsimp only [draft]
  refine IsText.hasPlace ?_ (isText_ofList rfl)
  refine IsText.append ?_ (isText_ofList rfl)
  refine IsText.append ?_ (isText_plural _)
  refine IsText.append ?_ (isText_ofList rfl)
  exact (isText_ofList rfl).append (isText_intText arity)

theorem worded_nonContiguous {indices : List Value} (h : ∀ i ∈ indices, ∃ n : Nat, i = .int n)
    (source : String) : (nonContiguous indices source).Worded := by
  have hindices : IsText (", ".intercalate (indices.map fun i => "$" ++ i.toText)) := by
    apply IsText.intercalate (isText_ofList rfl)
    intro t ht
    obtain ⟨i, hi, rfl⟩ := List.mem_map.1 ht
    obtain ⟨n, rfl⟩ := h i hi
    exact (isText_ofList rfl).append (isText_intText n)
  obtain ⟨quote, hquote⟩ := quotes_sourceOrTokens source
  refine worded_of_hasPlace ?_ hquote
  dsimp only [draft]
  refine HasPlace.append ?_ (isText_intText _)
  refine HasPlace.append ?_ (isText_ofList rfl)
  exact ((isText_ofList rfl).hasPlace (isText_ofList rfl)).append hindices

theorem worded_nestedTooDeeply {stage : String} (hstage : IsText stage)
    (source : String) : (nestedTooDeeply stage source).Worded := by
  obtain ⟨quote, hquote⟩ := quotes_sourceOrTokens source
  refine worded_of_hasPlace ?_ hquote
  dsimp only [draft]
  refine HasPlace.append ?_ (isText_ofList rfl)
  exact ((isText_ofList rfl).hasPlace (isText_ofList rfl)).append hstage

/-- Problems that are worded with one fixed text before what they quote, and one after it. -/
inductive Brief : Fault → Prop
  | unbound (name : String) : Brief (.unbound name)
  | nonBooleanCondition (value : Value) : Brief (.nonBooleanCondition value)
  | notAValue (word : String) : Brief (.notAValue word)
  | notAStatement (text : String) : Brief (.notAStatement text)
  | secondDeclaration (text : String) : Brief (.secondDeclaration text)
  | invalidTarget (text : String) : Brief (.invalidTarget text)
  | missingDefinition (text : String) : Brief (.missingDefinition text)
  | unappliedProgram (text : String) : Brief (.unappliedProgram text)

theorem Brief.worded {cause : Fault} (h : cause.Brief) : cause.Worded := by
  cases h <;> exact worded_of_plain rfl rfl rfl rfl

/-- Of what is not meant to happen, the text is escaped but the kind is not. -/
theorem worded_unforeseen {kind : String} (hkind : IsText kind) (text : String) :
    (unforeseen kind text).Worded := by
  refine worded_of_isText ?_ rfl
  dsimp only [draft]
  refine IsText.append ?_ (isText_ofList rfl)
  refine IsText.append ?_ (isText_escape text)
  refine IsText.append ?_ (isText_ofList rfl)
  exact (isText_ofList rfl).append hkind

end Wordings

end Fault

end CurryCalc
