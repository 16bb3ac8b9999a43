import CurryCalc.Proofs.TextPlaces
import CurryCalc.Proofs.ViablePrefix
import CurryCalc.Proofs.Wording

/-! What is underlined. A refused token is marked in the text of all tokens, right where it stands
in that text, and the mark goes under it column by column. At the end of the tokens the mark goes
where the next one would start. -/
namespace CurryCalc

section Source

variable {tokens : List Token}

theorem sourceOf_cons (h : tokens ≠ []) (t : Token) :
    sourceOf (t :: tokens) = t.text ++ " " ++ sourceOf tokens := by
  rw [sourceOf, List.map_cons, String.intercalate_cons_of_ne_nil (by simpa using h)]
  rfl

theorem sourceOf_singleton (t : Token) : sourceOf [t] = t.text := String.intercalate_singleton

/-- A token stands at its offset in the text of the sequence, after a space unless it is the
first. -/
theorem sourceOf_split {p : Nat} {t : Token} (h : tokens[p]? = some t) :
    ∃ front back, sourceOf tokens = front ++ t.text ++ back ∧
      front.length = tokenOffset tokens p ∧
      (p = 0 ∧ front = "" ∨ 0 < p ∧ front = sourceOf (tokens.take p) ++ " ") := by
  induction tokens generalizing p with
  | nil => cases h
  | cons u tokens ih =>
    cases p with
    | zero =>
      obtain rfl : u = t := by simpa using h
      by_cases hnil : tokens = []
      · refine ⟨"", "", ?_, rfl, .inl ⟨rfl, rfl⟩⟩
        rw [hnil, sourceOf_singleton]
        simp
      · refine ⟨"", " " ++ sourceOf tokens, ?_, rfl, .inl ⟨rfl, rfl⟩⟩
        rw [sourceOf_cons hnil, String.empty_append, String.append_assoc]
    | succ p =>
      have h : tokens[p]? = some t := by simpa using h
      have hne : tokens ≠ [] := by
        rintro rfl
        cases h
      obtain ⟨front, back, hsplit, hlength, hfront⟩ := ih h
      refine ⟨u.text ++ " " ++ front, back, ?_, ?_, .inr ⟨Nat.succ_pos p, ?_⟩⟩
      · rw [sourceOf_cons hne, hsplit]
        simp only [String.append_assoc]
      · rw [String.length_append, String.length_append, hlength, tokenOffset]
        rfl
      · rw [List.take_succ_cons]
        rcases hfront with ⟨rfl, rfl⟩ | ⟨hp, rfl⟩
        · rw [List.take_zero, sourceOf_singleton, String.append_empty]
        · have hsome : tokens.take p ≠ [] := by simp [hne, Nat.pos_iff_ne_zero.1 hp]
          rw [sourceOf_cons hsome]
          simp only [String.append_assoc]

theorem sourceOf_ne_empty (hne : tokens ≠ []) (htext : ∀ t ∈ tokens, t.text ≠ "") :
    sourceOf tokens ≠ "" := by
  obtain ⟨t, more, rfl⟩ := List.exists_cons_of_ne_nil hne
  have hfirst : (t :: more)[0]? = some t := rfl
  obtain ⟨front, back, hsplit, -, -⟩ := sourceOf_split hfirst
  rw [hsplit]
  simp [htext t List.mem_cons_self]

/-- The part of the text that a refusal at some position is about. -/
theorem unexpectedAt_eq (hne : tokens ≠ []) (htext : ∀ t ∈ tokens, t.text ≠ "") (p : Nat)
    (expected : Expected) : ∃ first last : Nat, first < last ∧
      unexpectedAt tokens p expected =
        .unexpected expected.text tokens[p]? p (sourceOf tokens) first last ∧
      (∀ t, tokens[p]? = some t → first = tokenOffset tokens p ∧ last = first + t.text.length) ∧
      (tokens[p]? = none → first = (sourceOf tokens).length + 1 ∧ last = first + 1) := by
  cases hfound : tokens[p]? with
  | some t =>
    have hpos : 0 < t.text.length := by
      rw [← String.length_toList]
      exact List.length_pos_iff.2 (by simpa using htext t (List.mem_of_getElem? hfound))
    refine ⟨tokenOffset tokens p, tokenOffset tokens p + t.text.length, by omega, ?_, ?_, nofun⟩
    · rw [unexpectedAt, hfound, Int.natCast_add]
      rfl
    · rintro _ ⟨⟩
      exact ⟨rfl, rfl⟩
  | none =>
    have hempty : (sourceOf tokens).isEmpty = false := by
      simpa using sourceOf_ne_empty hne htext
    refine ⟨(sourceOf tokens).length + 1, (sourceOf tokens).length + 1 + 1, by omega, ?_, nofun,
      fun _ => ⟨rfl, rfl⟩⟩
    rw [unexpectedAt, hfound, hempty]
    rfl

theorem refusal_place [Machine] (hne : tokens ≠ []) (htext : ∀ t ∈ tokens, t.text ≠ "")
    {expected source : Value} {found : Option Token} {position start stop : Int}
    (h : parse tokens = .error (.fault (.unexpected expected found position source start stop))) :
    ∃ p first last : Nat, position = p ∧ p ≤ tokens.length ∧ found = tokens[p]? ∧
      source = sourceOf tokens ∧ start = first ∧ stop = last ∧ first < last ∧
      (∀ t, tokens[p]? = some t → first = tokenOffset tokens p ∧ last = first + t.text.length) ∧
      (tokens[p]? = none → first = (sourceOf tokens).length + 1 ∧ last = first + 1) := by
  obtain ⟨wanted, rest, -, hp⟩ := Grammar.refused_of_unexpected h
  have hcause := Failure.fault.inj (Except.error.inj (hp.symm.trans h))
  obtain ⟨first, last, hlt, heq, hsome, hnone⟩ :=
    unexpectedAt_eq hne htext (tokens.length - rest.length) wanted
  cases heq.symm.trans hcause
  exact ⟨_, first, last, rfl, Nat.sub_le _ _, rfl, rfl, rfl, rfl, hlt, hsome, hnone⟩

end Source

/-- A line of marks under the columns from `first` up to `stop`: spaces before, a caret in the first
of these columns, tildes in the others, and nothing after. -/
structure MarksColumns (line : String) (first stop : Nat) : Prop where
  width : line.length = stop
  before : ∀ i < first, line.toList[i]? = some ' '
  caret : line.toList[first]? = some '^'
  tildes : ∀ i, first < i → i < stop → line.toList[i]? = some '~'

theorem marksColumns_repeated {first stop : Nat} (h : first < stop) :
    MarksColumns
      (Notice.repeated ' ' first ++ ("^" ++ Notice.repeated '~' (stop - first - 1 : Nat)))
      first stop := by
  have hline : (Notice.repeated ' ' first ++
      ("^" ++ Notice.repeated '~' (stop - first - 1 : Nat))).toList =
        List.replicate first ' ' ++ '^' :: List.replicate (stop - first - 1) '~' := by
    simp [Notice.repeated]
  refine ⟨?_, fun i hi => ?_, ?_, fun i hfirst hstop => ?_⟩
  · rw [← String.length_toList, hline]
    simp only [List.length_append, List.length_cons, List.length_replicate]
    omega
  · rw [hline, List.getElem?_append_left (by simpa using hi), List.getElem?_replicate, if_pos hi]
  · rw [hline, List.getElem?_append_right (by simp)]
    simp
  · rw [hline, List.getElem?_append_right (by simp only [List.length_replicate]; omega),
      List.length_replicate]
    obtain ⟨k, hk⟩ : ∃ k, i - first = k + 1 := ⟨i - first - 1, by omega⟩
    rw [hk, List.getElem?_cons_succ, List.getElem?_replicate, if_pos (by omega)]

theorem Style.plain_mark (hue : Hue) (s : String) : plain.mark hue s = s := by
  cases hue <;> simp [mark, plain, Marks.around]

/-- Without colours, the expression is shown as it is and marked in the line below it. -/
theorem Notice.diagnosis_plain {n : Notice} {first stop : Nat} (hstart : n.start = first)
    (hstop : n.stop = stop) (h : first < stop) (hue : Hue) :
    ∃ line, n.diagnosis .plain hue = "  " ++ n.expr ++ "\n" ++ line ∧
      MarksColumns line (2 + first) (2 + stop) := by
  refine ⟨_, ?_, marksColumns_repeated (Nat.add_lt_add_left h 2)⟩
  have hmax : max n.stop (n.start + 1) = stop := by omega
  have hwidth : (stop : Int) - first - 1 = (2 + stop - (2 + first) - 1 : Nat) := by omega
  have hindent : "  " ++ repeated ' ' first = repeated ' ' (2 + first : Nat) := by
    rw [repeated, repeated, Int.toNat_natCast, Int.toNat_natCast, ← List.replicate_append_replicate,
      String.ofList_append]
    rfl
  have hnewline : "\n  " = "\n" ++ "  " := rfl
  rw [diagnosis, hmax, hstart, hwidth, hnewline, ← hindent]
  rw [Style.plain_mark, Style.plain_mark]
  conv_rhs => rw [← excerpt_whole n.expr (Nat.le_of_lt h)]
  simp only [String.append_assoc]

/-- A refusal shows the text of all tokens and underlines the token that was found, where it stands
in that text; at the end of the tokens it underlines the column in which a next one would start. The
line under the text has its marks in exactly these columns. -/
theorem parse_underlines_token [Machine] {tokens : List Token} (hne : tokens ≠ [])
    (htext : ∀ t ∈ tokens, t.text ≠ "") {expected source : Value} {found : Option Token}
    {position start stop : Int}
    (h : parse tokens = .error (.fault (.unexpected expected found position source start stop)))
    (style : Style) :
    ∃ (p : Nat) (n : Notice) (first last : Nat),
      position = p ∧ p ≤ tokens.length ∧ found = tokens[p]? ∧
      (Fault.unexpected expected found position source start stop).notice style = .ok n ∧
      n.expr = sourceOf tokens ∧ n.underline = true ∧ n.start = first ∧ n.stop = last ∧
      (∀ t, tokens[p]? = some t → excerpt n.expr first last = t.text ∧
        (p = 0 ∧ first = 0 ∨ excerptTo n.expr first = sourceOf (tokens.take p) ++ " ")) ∧
      (p = tokens.length → first = n.expr.length + 1 ∧ last = first + 1) ∧
      ∀ hue, ∃ line, n.diagnosis .plain hue = "  " ++ n.expr ++ "\n" ++ line ∧
        MarksColumns line (2 + first) (2 + last) := by
  obtain ⟨p, first, last, rfl, hle, rfl, rfl, rfl, rfl, hlt, hsome, hnone⟩ :=
    refusal_place hne htext h
  obtain ⟨n, hn⟩ := Fault.worded_unexpected expected tokens[p]? p (sourceOf tokens) first last style
  obtain ⟨hexpr, hstart, hstop, hunderline⟩ :=
    Fault.shows_unexpected (sourceOf_ne_empty hne htext) (by omega) hn
  refine ⟨p, n, first, last, rfl, hle, rfl, hn, hexpr, hunderline, hstart, hstop, fun t ht => ?_,
    fun hend => ?_, n.diagnosis_plain hstart hstop hlt⟩
  · obtain ⟨front, back, hsplit, hlength, hfront⟩ := sourceOf_split ht
    obtain ⟨rfl, rfl⟩ := hsome t ht
    rw [hexpr, hsplit, ← hlength, Int.natCast_add]
    refine ⟨excerpt_append front t.text back, ?_⟩
    rw [String.append_assoc, excerptTo_append]
    rcases hfront with ⟨hzero, rfl⟩ | ⟨-, hfront⟩
    · exact .inl ⟨hzero, rfl⟩
    · exact .inr hfront
  · rw [hexpr]
    exact hnone (by rw [hend]; exact List.getElem?_length tokens)

section StandardMachine
attribute [local instance] Machine.standard

/-- In `let in1 $12 plus in in1` the mark is under the fifth token, although its text occurs in the
second one; in `if x` the mark comes after the text. -/
theorem parse_underlines_token_in_let :
    (∃ cause n first last line, parse [⟨.keyword .letWord, "let"⟩, ⟨.name "in1", "in1"⟩,
        ⟨.placeholder (.int 12), "$12"⟩, ⟨.keyword .plus, "plus"⟩, ⟨.keyword .inWord, "in"⟩,
        ⟨.name "in1", "in1"⟩] = .error (.fault cause) ∧ cause.notice .ansi = .ok n ∧
      n.start = (first : Nat) ∧ n.stop = (last : Nat) ∧
      excerptTo n.expr first = "let in1 $12 plus " ∧ excerpt n.expr first last = "in" ∧
      n.diagnosis .plain .red = "  let in1 $12 plus in in1\n" ++ line ∧
      MarksColumns line (2 + first) (2 + last)) ∧
    ∃ cause n, parse [⟨.keyword .ifWord, "if"⟩, ⟨.name "x", ""⟩] = .error (.fault cause) ∧
      cause.notice .plain = .ok n ∧ n.expr = "if x" ∧ n.start = 5 ∧ n.stop = 6 := by
  constructor
  · obtain ⟨p, n, first, last, hp, -, -, hn, hexpr, -, hstart, hstop, htoken, -, hlines⟩ :=
      @parse_underlines_token _ [⟨.keyword .letWord, "let"⟩, ⟨.name "in1", "in1"⟩,
        ⟨.placeholder (.int 12), "$12"⟩, ⟨.keyword .plus, "plus"⟩, ⟨.keyword .inWord, "in"⟩,
        ⟨.name "in1", "in1"⟩] (by simp) (by decide) _ _ _ _ _ _ rfl .ansi
    obtain rfl : 4 = p := Int.ofNat.inj hp
    obtain ⟨htext, hfront⟩ := htoken ⟨.keyword .inWord, "in"⟩ rfl
    obtain ⟨line, hline, hmarks⟩ := hlines .red
    refine ⟨_, n, first, last, line, rfl, hn, hstart, hstop, ?_, htext, ?_, hmarks⟩
    · exact hfront.resolve_left nofun
    · rw [hline, hexpr]
      rfl
  · obtain ⟨p, n, first, last, hp, -, -, hn, hexpr, -, hstart, hstop, -, hend, -⟩ :=
      @parse_underlines_token _ [⟨.keyword .ifWord, "if"⟩, ⟨.name "x", ""⟩] (by simp) (by decide)
        _ _ _ _ _ _ rfl .plain
    obtain rfl : 2 = p := Int.ofNat.inj hp
    have hexpr : n.expr = "if x" := hexpr
    obtain ⟨rfl, rfl⟩ := hend rfl
    rw [hexpr] at hstart hstop
    exact ⟨_, n, rfl, hn, hexpr, hstart, hstop⟩

end StandardMachine

end CurryCalc
