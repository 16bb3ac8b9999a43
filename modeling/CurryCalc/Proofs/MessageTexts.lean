import CurryCalc.FaultSpec
import CurryCalc.Proofs.Reporting

/-! What messages say. A text that is escaped in a template comes out as it went in, whatever braces
it has, and so does a text that is put into a place. Hence the messages about malformed
placeholders, unexpected tokens and failures that are not meant to happen can be put together for
all texts, and say these texts as they are. -/
namespace CurryCalc

/-- A notice whose message has a text in it, as it is. -/
def Notice.Says (n : Notice) (text : String) : Prop :=
  ∃ front back, n.message = front ++ text ++ back

theorem Style.exists_bold (style : Style) (s : String) :
    ∃ front back, style.bold s = front ++ s ++ back := ⟨_, _, rfl⟩

theorem Style.plain_bold (s : String) : plain.bold s = s := by simp [bold, plain, Marks.around]

namespace Fault

open Template (escape escape_append escape_intText escape_ofList)

section Wordings

variable {cause : Fault} {front back quote : String}

theorem message_of_template (htemplate : cause.draft.template = escape front ++ hole ++ escape back)
    (hquotes : cause.draft.quotes = [quote]) (style : Style) :
    ∃ n, cause.notice style = .ok n ∧ n.message = front ++ style.bold quote ++ back := by
  unfold notice Draft.notice
  rw [htemplate, hquotes, List.map_cons, List.map_nil, Template.fill_hole]
  exact ⟨_, rfl, rfl⟩

/-- A message that quotes one text between two others says the quoted text, and all that the text
after it says. -/
theorem says_of_template (htemplate : cause.draft.template = escape front ++ hole ++ escape back)
    (hquotes : cause.draft.quotes = [quote]) (style : Style) :
    ∃ n, cause.notice style = .ok n ∧ n.Says quote ∧
      ∀ before text after, back = before ++ text ++ after → n.Says text := by
  obtain ⟨n, hnotice, hmessage⟩ := message_of_template htemplate hquotes style
  obtain ⟨opening, closing, hbold⟩ := style.exists_bold quote
  refine ⟨n, hnotice, ⟨front ++ opening, closing ++ back, ?_⟩, ?_⟩
  · rw [hmessage, hbold]
    simp only [String.append_assoc]
  · rintro before text after rfl
    refine ⟨front ++ style.bold quote ++ before, after, ?_⟩
    rw [hmessage]
    simp only [String.append_assoc]

theorem custom_says (front back text : String) :
    ∃ n, (custom ⟨escape front ++ hole ++ escape back, [text], 0, -1, true, false⟩).notice .plain =
      .ok n ∧ n.message = front ++ text ++ back := by
  have htemplate :
      (custom ⟨escape front ++ hole ++ escape back, [text], 0, -1, true, false⟩).draft.template =
        escape front ++ hole ++ escape back := rfl
  obtain ⟨n, hnotice, hmessage⟩ := message_of_template htemplate rfl .plain
  exact ⟨n, hnotice, by rw [hmessage, Style.plain_bold]⟩

theorem malformedArgument_says (lexeme : String) (source : Option String) (start : Int)
    (style : Style) :
    ∃ n, (malformedArgument lexeme (source.elim .nothing .text) start).notice style = .ok n ∧
      n.Says lexeme ∧ n.Says (source.getD lexeme) := by
  have htemplate : (malformedArgument lexeme (source.elim .nothing .text) start).draft.template =
      escape "'" ++ hole ++ escape ("' contains malformed argument placeholder '" ++ lexeme ++
        "' (expected '$' and an index >= 1)") := by
    have hopen : escape "'" = "'" := escape_ofList rfl
    have hmiddle : escape "' contains malformed argument placeholder '" =
        "' contains malformed argument placeholder '" := escape_ofList rfl
    have hclose : escape "' (expected '$' and an index >= 1)" =
        "' (expected '$' and an index >= 1)" := escape_ofList rfl
    rw [escape_append, escape_append, hopen, hmiddle, hclose]
    dsimp only [draft, Value.toText]
    simp only [String.append_assoc]
  have hquotes : (malformedArgument lexeme (source.elim .nothing .text) start).draft.quotes =
      [source.getD lexeme] := by
    cases source <;> rfl
  obtain ⟨n, hnotice, hquote, hsays⟩ := says_of_template htemplate hquotes style
  exact ⟨n, hnotice, hsays _ _ _ rfl, hquote⟩

def foundName (found : Option Token) : String :=
  found.elim "end of input" fun t => "'" ++ t.text ++ "'"

theorem foundText_eq (found : Option Token) : foundText found = escape (foundName found) := by
  have hmark : escape "'" = "'" := escape_ofList rfl
  have hend : escape "end of input" = "end of input" := escape_ofList rfl
  cases found with
  | none => rw [foundName, Option.elim_none, hend, foundText]
  | some t => rw [foundName, Option.elim_some, escape_append, escape_append, hmark, foundText]

theorem unexpected_says (expected : String) (found : Option Token) (position : Int)
    (source : String) (start stop : Int) (style : Style) :
    ∃ n, (unexpected expected found position source start stop).notice style = .ok n ∧
      n.Says expected ∧ n.Says (foundName found) ∧ n.Says source := by
  have htemplate : (unexpected expected found position source start stop).draft.template =
      escape "'" ++ hole ++ escape ("' expected " ++ expected ++ ", found " ++ foundName found ++
        " (token " ++ intText position ++ ")") := by
    have hopen : escape "'" = "'" := escape_ofList rfl
    have hexpected : escape "' expected " = "' expected " := escape_ofList rfl
    have hfound : escape ", found " = ", found " := escape_ofList rfl
    have htoken : escape " (token " = " (token " := escape_ofList rfl
    have hclose : escape ")" = ")" := escape_ofList rfl
    dsimp only [draft, Value.toText]
    simp only [escape_append, hopen, hexpected, hfound, htoken, hclose, escape_intText,
      foundText_eq, String.append_assoc]
  obtain ⟨quote, hquote⟩ := quotes_sourceOrTokens source
  obtain ⟨n, hnotice, hquoted, hsays⟩ := says_of_template htemplate hquote style
  refine ⟨n, hnotice, hsays "' expected " _ (", found " ++ foundName found ++ " (token " ++
    intText position ++ ")") ?_, hsays ("' expected " ++ expected ++ ", found ") _ (" (token " ++
    intText position ++ ")") ?_, ?_⟩
  · simp only [String.append_assoc]
  · simp only [String.append_assoc]
  · by_cases hempty : source = ""
    · exact ⟨n.message, "", by simp [hempty]⟩
    · have hholds : (Value.text source).holds = true := by simpa [Value.holds] using hempty
      rw [sourceOrTokens, if_pos hholds] at hquote
      obtain rfl : source = quote := List.singleton_inj.1 hquote
      exact hquoted

/-- A kind without braces is shown as it is; the text may have any. -/
theorem unforeseen_says {kind : String} (hkind : escape kind = kind) (text : String)
    (style : Style) :
    ∃ n, (unforeseen kind text).notice style = .ok n ∧ n.internal = true ∧
      n.message = "unknown error: '" ++ kind ++ ": " ++ text ++ "'" := by
  have htemplate : (unforeseen kind text).draft.template =
      escape ("unknown error: '" ++ kind ++ ": " ++ text ++ "'") := by
    have hopen : escape "unknown error: '" = "unknown error: '" := escape_ofList rfl
    have hcolon : escape ": " = ": " := escape_ofList rfl
    have hclose : escape "'" = "'" := escape_ofList rfl
    rw [escape_append, escape_append, escape_append, escape_append, hopen, hkind, hcolon, hclose]
    rfl
  have hquotes : (unforeseen kind text).draft.quotes = [""] := rfl
  unfold notice Draft.notice
  rw [htemplate, hquotes, List.map_cons, List.map_nil, Template.fill_escape]
  exact ⟨_, rfl, rfl, rfl⟩

end Wordings

end Fault

namespace FaultSpec

variable [Machine]

theorem quoting_sourceOrTokens (source : String) (cause : Fault) :
    cause.quoting room (sourceOrTokens source) = .ok cause := by
  unfold sourceOrTokens
  split <;> rfl

theorem build_malformedArgument (lexeme : String) (source : Option String) (start : Int) :
    build ⟨"MalformedArgumentToken", [lexeme, source.elim .nothing .text, start], []⟩ =
      .ok (.fault (.malformedArgument lexeme (source.elim .nothing .text) start)) := by
  cases source <;> rfl

theorem build_custom (template : String) (x : Value) :
    build ⟨"GenericException", [.text template, .list [x]], []⟩ =
      (x.unwritable? room).elim
        (.ok (.fault (.custom ⟨template, [x.toText], 0, -1, true, false⟩))) .error := by
  have hmade : custom ⟨"GenericException", [.text template, .list [x]], []⟩ =
      (Value.unwritableAmong? room [x]).elim
        (.ok (.custom ⟨template, [x.toText], 0, -1, true, false⟩)) .error := rfl
  show (custom _).map Failure.fault = _
  rw [hmade, Value.unwritableAmong?]
  cases x.unwritable? room <;> rfl

theorem build_unexpected (expected : String) {found : Value} {token : Option Token}
    (hfound : foundToken found = .ok token) (position : Int) (source : String) (start stop : Int) :
    build ⟨"ParseError", [expected, found, position, source, start, stop], []⟩ =
      (Fault.worded room (.unexpected expected token position source start stop)).map .fault := by
  obtain ⟨given, hgiven, hexpected, hfoundValue, hposition, hsource, hstart, hstop⟩ : ∃ given,
      assign ⟨"ParseError", [expected, found, position, source, start, stop], []⟩
        [("expected", none), ("found", none), ("position", none), ("source", some (.text "")),
          ("start", some (.int 0)), ("end", some (.int (-1)))] = .ok given ∧
      given "expected" = expected ∧ given "found" = found ∧ given "position" = position ∧
        given "source" = source ∧ given "start" = start ∧ given "end" = stop :=
    ⟨_, rfl, rfl, rfl, rfl, rfl, rfl, rfl⟩
  have hmade : unexpected ⟨"ParseError", [expected, found, position, source, start, stop], []⟩ =
      Fault.worded room (.unexpected expected token position source start stop) := by
    unfold unexpected
    rw [hgiven, Outcome.bind_ok, hfoundValue, hfound, Outcome.bind_ok, hexpected, hposition,
      hsource, hstart, hstop]
    have hwhole (n : Int) : whole (.int n) = n := rfl
    rw [hwhole, hwhole, hwhole]
    cases Fault.worded room (.unexpected expected token position source start stop) with
    | error f => rfl
    | ok cause => exact quoting_sourceOrTokens source cause
  show (unexpected _).map Failure.fault = _
  rw [hmade]

/-- Only the token and the position can be impossible to write. -/
theorem unwordable?_unexpected (expected : String) (token : Option Token) (position : Int)
    (source : String) (start stop : Int) :
    (Fault.unexpected expected token position source start stop).unwordable? room =
      (token.bind (Token.unwritable? room) <|> Value.unwritable? room (.int position)) := by
  have hexpected : (Value.text expected).unwritable? room = none := rfl
  rw [Fault.unwordable?, hexpected]
  cases token.bind (Token.unwritable? room) <;> rfl

theorem build_unexpected_of_writable (expected : String) {found : Value} {token : Option Token}
    (hfound : foundToken found = .ok token) (htoken : token.bind (Token.unwritable? room) = none)
    {position : Int} (hposition : isLong position = false) (source : String) (start stop : Int) :
    build ⟨"ParseError", [expected, found, position, source, start, stop], []⟩ =
      .ok (.fault (.unexpected expected token position source start stop)) := by
  have hshort : Value.unwritable? room (.int position) = none := by
    rw [Value.unwritable?, hposition]
    rfl
  rw [build_unexpected expected hfound, Fault.worded, unwordable?_unexpected, htoken, hshort]
  rfl

theorem build_unexpected_of_unwritable (expected : String) {found : Value} {token : Option Token}
    (hfound : foundToken found = .ok token) {f : Failure}
    (htoken : token.bind (Token.unwritable? room) = some f) (position : Int) (source : String)
    (start stop : Int) :
    build ⟨"ParseError", [expected, found, position, source, start, stop], []⟩ = .error f := by
  rw [build_unexpected expected hfound, Fault.worded, unwordable?_unexpected, htoken]
  rfl

end FaultSpec

namespace Failure

/-- What a handler takes for a failure that is not meant to happen. -/
def IsUnforeseen : Failure → Prop
  | .fault _ | .exit _ | .interrupt | .tooDeep => False
  | _ => True

/-- A kind of failure that comes from elsewhere has a name without braces. -/
def IsNamedPlainly : Failure → Prop
  | .foreign kind _ => kind.toList.all Template.isPlainChar = true
  | _ => True

theorem escape_templateText (cause : Template.Error) :
    Template.escape (templateText cause).1 = (templateText cause).1 := by
  cases cause <;> exact Template.escape_ofList rfl

theorem IsNamedPlainly.escape_kind {f : Failure} (h : f.IsNamedPlainly) :
    Template.escape f.describe.1 = f.describe.1 := by
  cases f with
  | foreign kind text =>
    have hkind := Template.escape_ofList h
    rwa [String.ofList_toList] at hkind
  | badTemplate cause => exact escape_templateText cause
  | _ => exact Template.escape_ofList rfl

end Failure

namespace Reporter

variable [Machine]

theorem handle_unforeseen (r : Reporter) {f : Failure} (h : f.IsUnforeseen) :
    r.handle f = r.throwUnforeseen f := by
  cases f with
  | fault cause => exact h.elim
  | exit code => exact h.elim
  | interrupt => exact h.elim
  | tooDeep => exact h.elim
  | _ => rfl

/-- A failure that is not meant to happen is reported and passed on, or ends the program. -/
theorem handle_shows_unforeseen (r : Reporter) {f : Failure} (h : f.IsUnforeseen)
    (hplain : f.IsNamedPlainly) :
    ∃ n r', r.Shows r' n "internal error" ∧
      n.message = "unknown error: '" ++ f.describe.1 ++ ": " ++ f.describe.2 ++ "'" ∧
      r.handle f = if r.fatal then (r', some (.exit "1"))
        else ({ r' with frames := Bindings.empty }, some f) := by
  obtain ⟨n, hnotice, hinternal, hmessage⟩ :=
    Fault.unforeseen_says hplain.escape_kind f.describe.2 r.style
  obtain ⟨r', hshows, hthrow⟩ := throwNotice_eq r n (.ok [])
  rw [if_pos hinternal] at hshows
  refine ⟨n, r', hshows, hmessage, ?_⟩
  have hnotes : (Fault.unforeseen f.describe.1 f.describe.2).notes (.levels nestingLimit) =
      .ok [] := rfl
  rw [handle_unforeseen r h]
  unfold throwUnforeseen throw
  rw [hnotice, hnotes]
  dsimp only
  rw [hthrow]
  cases r.fatal <;> rfl

end Reporter

/-- Messages survive any text. An escaped text and a value around and in a place are shown as they
are, if the value can be written; so a malformed placeholder, an unexpected token that can be
written, and a failure that is not meant to happen can be reported whatever texts they are about,
and their messages say these texts. What cannot be written is never shown: the attempt fails for
that reason. -/
theorem messages_survive_any_text [Machine] :
    (∀ (front back : String) (x : Value),
      let spec : FaultSpec :=
        ⟨"GenericException", [.text (Template.escape front ++ hole ++ Template.escape back),
          .list [x]], []⟩
      (x.unwritable? FaultSpec.room = none → ∃ cause n, spec.build = .ok (.fault cause) ∧
        cause.notice .plain = .ok n ∧ n.message = front ++ x.toText ++ back) ∧
      ∀ f, x.unwritable? FaultSpec.room = some f → spec.build = .error f) ∧
    (∀ (lexeme : String) (source : Option String) (start : Int) (style : Style), ∃ cause n,
      FaultSpec.build ⟨"MalformedArgumentToken", [lexeme, source.elim .nothing .text, start], []⟩ =
        .ok (.fault cause) ∧
      cause.notice style = .ok n ∧ n.Says lexeme ∧ n.Says (source.getD lexeme)) ∧
    (∀ (expected : String) (found : Value) (token : Option Token) (position : Int) (source : String)
        (start stop : Int) (style : Style), FaultSpec.foundToken found = .ok token →
      let spec : FaultSpec := ⟨"ParseError", [expected, found, position, source, start, stop], []⟩
      (token.bind (Token.unwritable? FaultSpec.room) = none → isLong position = false → ∃ cause n,
        spec.build = .ok (.fault cause) ∧ cause.notice style = .ok n ∧ n.Says expected ∧
          n.Says (Fault.foundName token) ∧ n.Says source) ∧
      ∀ f, token.bind (Token.unwritable? FaultSpec.room) = some f → spec.build = .error f) ∧
    (∀ (r : Reporter) (f : Failure), f.IsUnforeseen → f.IsNamedPlainly → ∃ n r',
      r.Shows r' n "internal error" ∧ n.Says f.describe.2 ∧
        r.handle f = if r.fatal then (r', some (.exit "1"))
          else ({ r' with frames := Bindings.empty }, some f)) := by
  refine ⟨fun front back x => ⟨fun hx => ?_, fun f hf => ?_⟩, ?_, ?_, ?_⟩
  · obtain ⟨n, hnotice, hmessage⟩ := Fault.custom_says front back x.toText
    refine ⟨_, n, ?_, hnotice, hmessage⟩
    rw [FaultSpec.build_custom, hx]
    rfl
  · rw [FaultSpec.build_custom, hf]
    rfl
  · intro lexeme source start style
    obtain ⟨n, hnotice, hsays⟩ := Fault.malformedArgument_says lexeme source start style
    exact ⟨_, n, FaultSpec.build_malformedArgument lexeme source start, hnotice, hsays⟩
  · intro expected found token position source start stop style hfound
    refine ⟨fun htoken hposition => ?_, fun f htoken => ?_⟩
    · obtain ⟨n, hnotice, hsays⟩ :=
        Fault.unexpected_says expected token position source start stop style
      exact ⟨_, n,
        FaultSpec.build_unexpected_of_writable expected hfound htoken hposition source start stop,
        hnotice, hsays⟩
    · exact FaultSpec.build_unexpected_of_unwritable expected hfound htoken position source start
        stop
  · intro r f hunforeseen hplain
    obtain ⟨n, r', hshows, hmessage, hhandle⟩ := r.handle_shows_unforeseen hunforeseen hplain
    exact ⟨n, r', hshows, ⟨_, _, hmessage⟩, hhandle⟩

section StandardMachine
attribute [local instance] Machine.standard

/-- A token whose text is a place of a template, and a failure whose text opens one and does not
close it. -/
theorem messages_survive_any_text_braces :
    FaultSpec.foundToken (.token .name (.text "x") "\x7b0\x7d") =
        .ok (some ⟨.name (.text "x"), "\x7b0\x7d"⟩) ∧
      (∃ cause n,
        FaultSpec.build
            ⟨"ParseError", [.text "a \x7b", .token .name (.text "x") "\x7b0\x7d", .int 1,
              .text "1 \x7b0\x7d", .int 2, .int 5], []⟩ = .ok (.fault cause) ∧
        cause.notice .ansi = .ok n ∧ n.Says "a \x7b" ∧ n.Says "'\x7b0\x7d'" ∧
          n.Says "1 \x7b0\x7d") ∧
      (Failure.foreign "ValueError" "\x7b0!").IsUnforeseen ∧
      (Failure.foreign "ValueError" "\x7b0!").IsNamedPlainly ∧
      ∃ n r', (Reporter.new .plain false).Shows r' n "internal error" ∧ n.Says "\x7b0!" ∧
        (Reporter.new .plain false).handle (.foreign "ValueError" "\x7b0!") =
          ({ r' with frames := Bindings.empty }, some (.foreign "ValueError" "\x7b0!")) := by
  obtain ⟨-, -, hunexpected, hunforeseen⟩ := messages_survive_any_text
  have hfound : FaultSpec.foundToken (.token .name (.text "x") "\x7b0\x7d") =
      .ok (some ⟨.name (.text "x"), "\x7b0\x7d"⟩) := rfl
  have hname : Fault.foundName (some ⟨.name (.text "x"), "\x7b0\x7d"⟩) = "'\x7b0\x7d'" := by
    decide +kernel
  obtain ⟨n, r', hshows, hsays, hhandle⟩ := hunforeseen (Reporter.new .plain false)
    (.foreign "ValueError" "\x7b0!") trivial rfl
  refine ⟨hfound, ?_, trivial, rfl, n, r', hshows, hsays, hhandle⟩
  rw [← hname]
  exact (hunexpected "a \x7b" _ _ 1 "1 \x7b0\x7d" 2 5 .ansi hfound).1 rfl (by decide +kernel)

/-- A placeholder without a lexeme cannot be named in a message if its index is too long. -/
theorem long_placeholder_not_named :
    FaultSpec.build ⟨"ParseError", [.text "x", .token .placeholder (.int (Int.pow 10 4300)) "",
      .int 0], []⟩ = .error .longInteger :=
  Outcome.eq_error_of_failure? (by decide +kernel)

end StandardMachine

end CurryCalc
