import CurryCalc.Proofs.ScriptText
import CurryCalc.Proofs.ShellPrompt

/-! The shell and the statements of a file. Lines typed in one by one and the same lines run as a
file come to the same: the same results in the same order and the same names, up to the first
statement that fails, and a statement fails in both or in neither. -/
namespace CurryCalc

namespace Statement

section Trimmed

variable (names : Namespace) (text : String)

/-- Blank characters around a text matter at most for the messages about it. -/
theorem isDefinition_trim (cited other : String) :
    (isDefinition (trim text) cited).toOption = (isDefinition text other).toOption := by
  unfold isDefinition
  rw [trim_trim]
  generalize trim text = s
  dsimp only
  cases findOffset? s declareMark with
  | none => rfl
  | some i =>
    dsimp only
    split
    · rfl
    split
    next name _ =>
      split
      · rfl
      cases classify name .nothing 0 with
      | error f => rfl
      | ok token =>
        obtain ⟨symbol, lexeme⟩ := token
        cases symbol with
        | name key =>
          dsimp only
          split <;> rfl
        | _ => rfl
    · rfl

theorem ofDefinition_trim (cited other : String) :
    (ofDefinition (trim text) cited).toOption.map action =
      (ofDefinition text other).toOption.map action := by
  unfold ofDefinition
  rw [trim_trim]
  generalize trim text = s
  split <;> rfl

theorem isApplication_trim : isApplication (trim text) names = isApplication text names := by
  unfold isApplication
  rw [words_trim]

theorem ofApplication_trim (cited other : String) :
    (ofApplication (trim text) cited).toOption.map action =
      (ofApplication text other).toOption.map action := by
  unfold ofApplication
  rw [words_trim, trim_trim]
  generalize trim text = s
  cases words text <;> rfl

variable [Machine]

theorem ofProgram_trim (cited other : String) :
    (ofProgram (trim text) cited).toOption.map action =
      (ofProgram text other).toOption.map action := by
  unfold ofProgram
  rw [trim_trim]
  generalize trim text = s
  cases tokenize s with
  | error f => rfl
  | ok tokens =>
    rw [Outcome.bind_ok, Outcome.bind_ok]
    cases Program.compile tokens <;> rfl

theorem infer_trim (cited other : String) :
    (infer (trim text) names cited).toOption.map action =
      (infer text names other).toOption.map action := by
  have hdefinition := isDefinition_trim text cited other
  have hprogram : isProgram (trim text) = isProgram text := by rw [isProgram, trim_trim, isProgram]
  unfold infer
  rcases Outcome.cases_of_toOption_eq hdefinition with ⟨f, g, hleft, hright⟩ |
    ⟨found, hleft, hright⟩
  · rewrite [hleft, hright]
    rfl
  · rewrite [hleft, hright]
    cases found with
    | true => exact ofDefinition_trim text cited other
    | false =>
      rw [isApplication_trim, hprogram]
      dsimp only
      split
      · exact ofApplication_trim text cited other
      · split
        · exact ofProgram_trim text cited other
        · rfl

theorem perform_toOption : (perform text names).toOption =
    ((infer text names text).toOption.map action).bind fun action =>
      (execute ⟨"", "", action⟩ names).toOption := by
  unfold perform
  cases infer text names text <;> rfl

/-- A statement does the same with and without blank characters around it. -/
theorem perform_trim : (perform (trim text) names).toOption = (perform text names).toOption := by
  rw [perform_toOption, perform_toOption, infer_trim]

end Trimmed

end Statement

/-- What statements come to, up to the first that fails. -/
structure Course where
  names : Namespace
  results : List String
  failed : Bool
deriving DecidableEq, Repr

def Course.after (earlier : List String) (c : Course) : Course :=
  { c with results := earlier ++ c.results }

@[simp] theorem Course.after_nil (c : Course) : c.after [] = c := rfl

theorem Course.after_after (earlier later : List String) (c : Course) :
    (c.after later).after earlier = c.after (earlier ++ later) := by
  simp [after]

def performUntil [Machine] (names : Namespace) : List String → Course
  | [] => ⟨names, [], false⟩
  | text :: rest =>
    match Statement.perform text names with
    | .error _ => ⟨names, [], true⟩
    | .ok (names, result) => (performUntil names rest).after result.toList

section Performing

open Statement (perform perform_trim)

variable [Machine] {names : Namespace} {text : String} (rest : List String)

theorem performUntil_of_error {f : Failure} (h : perform text names = .error f) :
    performUntil names (text :: rest) = ⟨names, [], true⟩ := by
  rw [performUntil, h]

theorem performUntil_of_ok {names' : Namespace} {result : Option String}
    (h : perform text names = .ok (names', result)) :
    performUntil names (text :: rest) = (performUntil names' rest).after result.toList := by
  rw [performUntil, h]

theorem performUntil_trim (names : Namespace) (texts : List String) :
    performUntil names (texts.map trim) = performUntil names texts := by
  induction texts generalizing names with
  | nil => rfl
  | cons text texts ih =>
    rw [List.map_cons]
    rcases Outcome.cases_of_toOption_eq (perform_trim names text) with
      ⟨f, g, hleft, hright⟩ | ⟨⟨names', result⟩, hleft, hright⟩
    · rw [performUntil_of_error _ hleft, performUntil_of_error _ hright]
    · rw [performUntil_of_ok _ hleft, performUntil_of_ok _ hright, ih]

end Performing

namespace Session

def course (after : Session × Option Failure) : Course :=
  ⟨after.1.names, after.1.results, after.2.isSome⟩

theorem Executes.performUntil_append [Machine] {names last : Namespace}
    {executed : List (Int × String)} {out : List String} (h : Executes names executed last out)
    (rest : List String) :
    performUntil names (executed.map Prod.snd ++ rest) = (performUntil last rest).after out := by
  induction h with
  | none names => rfl
  | next hperform _ ih =>
    rw [List.map_cons, List.cons_append, performUntil_of_ok _ hperform, ih, Course.after_after]

/-- A run performs what is pending, one statement after the other. -/
theorem course_run [Machine] (s : Session) :
    course s.run = (performUntil s.names (s.pending.map Prod.snd)).after s.results := by
  obtain ⟨executed, hran⟩ := s.run_ran
  generalize s.run = after at hran ⊢
  cases hran with
  | completed hexecutes hresults _ =>
    have hall := hexecutes.performUntil_append []
    rw [List.append_nil] at hall
    rw [hall, course, hresults]
    simp [performUntil, Course.after]
  | stopped hpending hexecutes hfails hresults =>
    rw [hpending, List.map_append, List.map_cons, hexecutes.performUntil_append,
      performUntil_of_error _ hfails, course, hresults]
    simp [Course.after]

theorem add_of_text {text : String} (h : words text ≠ []) (s : Session) (line : Int) :
    ∃ t, s.add text (some line) = (t, none) ∧ t.names = s.names ∧ t.results = s.results ∧
      t.pending = enqueue line text s.pending := by
  have htext : ¬ (trim text).isEmpty = true := mt trim_isEmpty_iff.1 h
  unfold add
  dsimp only
  rw [if_neg htext]
  exact ⟨_, rfl, rfl, rfl, rfl⟩

theorem addAll_eq {entries : List ScriptEntry} (s : Session)
    (hascending : entries.Pairwise fun a b => a.number < b.number)
    (hbelow : ∀ p ∈ s.pending, ∀ entry ∈ entries, p.1 < (entry.number : Int))
    (htext : ∀ entry ∈ entries, words entry.text ≠ []) :
    ∃ t, s.addAll entries = (t, none) ∧ t.names = s.names ∧ t.results = s.results ∧
      t.pending.map Prod.snd = s.pending.map Prod.snd ++ entries.map ScriptEntry.text := by
  induction entries generalizing s with
  | nil => exact ⟨s, rfl, rfl, rfl, by simp⟩
  | cons entry entries ih =>
    obtain ⟨hfirst, hascending⟩ := List.pairwise_cons.1 hascending
    obtain ⟨hentry, htext⟩ := List.forall_mem_cons.1 htext
    obtain ⟨t, hadd, hnames, hresults, hpending⟩ := add_of_text hentry s entry.number
    rw [enqueue_of_forall_lt fun p hp => hbelow p hp entry List.mem_cons_self] at hpending
    have hlater : ∀ p ∈ t.pending, ∀ later ∈ entries, p.1 < (later.number : Int) := by
      rw [hpending]
      intro p hp later hlater
      rcases List.mem_append.1 hp with hp | hp
      · exact hbelow p hp later (List.mem_cons_of_mem entry hlater)
      · rw [List.mem_singleton.1 hp]
        exact Int.ofNat_lt.2 (hfirst later hlater)
    obtain ⟨u, haddAll, hnames', hresults', hpending'⟩ := ih t hascending hlater htext
    refine ⟨u, ?_, hnames'.trans hnames, hresults'.trans hresults, ?_⟩
    · unfold addAll
      rewrite [hadd]
      exact haddAll
    · rw [hpending', hpending]
      simp

theorem start_file (reporter : Reporter) {path : String} (hpath : path ≠ shellPath)
    (hnul : '\x00' ∉ path.toList) (interactive : Bool) {files : Files} {text : String}
    (hfile : files path = some text) :
    ∃ s, start reporter path interactive files = (s, none) ∧ s.names = Bindings.empty ∧
      s.results = [] ∧
      s.pending.map Prod.snd = (readScript (fileLines text)).map ScriptEntry.text := by
  have horder := readScript_inOrder (fileLines text)
  have hcontains : ¬ path.toList.contains '\x00' = true := by simpa using hnul
  unfold start
  dsimp only
  rw [if_neg hpath, if_neg hcontains, hfile]
  exact addAll_eq (new _ path) horder.ascending nofun horder.text

end Session

def ShellLine.isCommand : ShellLine → Bool
  | .command _ _ => true
  | _ => false

/-- A line that is no command is skipped if it is blank, and is statement text else. -/
theorem ShellLine.read_eq {raw : String} {line : ShellLine} (hread : ShellLine.read raw = line)
    (h : line.isCommand = false) :
    line = if words raw = [] then .empty else .statement (trim raw) := by
  have hblank : (trim raw).toList = [] ↔ words raw = [] := by
    rw [String.toList_eq_nil_iff, trim_eq_empty_iff]
  unfold ShellLine.read at hread
  dsimp only at hread
  split at hread
  next hnil => rw [if_pos (hblank.1 hnil), hread]
  next =>
    subst hread
    cases h
  next hcons _ =>
    rw [if_neg (mt hblank.2 hcons)]
    split at hread
    · subst hread
      cases h
    · exact hread.symm

namespace Shell

open Session (shellPath)
open Statement (perform)

/-- What a line takes out of the session to print, or why its statement fails. -/
def response [Machine] (sh : Shell) (raw : String) : Except Failure (List String) :=
  match ShellLine.read raw with
  | .statement text =>
    match sh.receive text with
    | (_, none) => .ok []
    | (sh, some statement) => (sh.attempt statement).2
  | _ => .ok []

/-- Types in lines up to the first whose statement fails. -/
def feed [Machine] (sh : Shell) : List String → Course
  | [] => ⟨sh.session.names, [], false⟩
  | raw :: rest =>
    match sh.response raw with
    | .error _ => ⟨(sh.step raw).1.session.names, [], true⟩
    | .ok results => ((sh.step raw).1.feed rest).after results

theorem joined_trim (sh : Shell) (raw : String) : sh.joined (trim raw) =
    trim (sh.unfinished ++ " " ++ trimLeft (SourceLine.read raw).text) := by
  rw [joined, SourceLine.read_trim]

section Feeding

variable [Machine] {sh : Shell} {raw : String}

theorem feed_of_error {f : Failure} (h : sh.response raw = .error f) (rest : List String) :
    sh.feed (raw :: rest) = ⟨(sh.step raw).1.session.names, [], true⟩ := by
  unfold feed
  rw [h]

theorem feed_of_ok {results : List String} (h : sh.response raw = .ok results)
    (rest : List String) :
    sh.feed (raw :: rest) = ((sh.step raw).1.feed rest).after results := by
  conv_lhs => unfold feed
  rw [h]

theorem response_of_empty (h : ShellLine.read raw = .empty) : sh.response raw = .ok [] := by
  unfold response
  rewrite [h]
  rfl

theorem step_of_continued {text : String} (h : ShellLine.read raw = .statement text)
    (hcontinued : (SourceLine.read text).continued = true) :
    (sh.step raw).1.session = sh.session ∧ (sh.step raw).1.unfinished = sh.joined text ∧
      sh.response raw = .ok [] := by
  rw [step_of_statement h]
  delta typeLine response
  rewrite [h]
  dsimp only
  rewrite [receive_of_continued hcontinued]
  exact ⟨rfl, rfl, rfl⟩

theorem runLine_eq {text : String} {session : Session} {outcome : Except Failure (List String)}
    (h : sh.attempt text = (session, outcome)) : ∃ reporter, (sh.runLine text).1 =
      { sh with session := { session with reporter := reporter } } := by
  delta runLine
  rewrite [h]
  obtain ⟨reporter, -, hanswer⟩ := answer_settles { sh with session := session } outcome
  exact ⟨reporter, hanswer⟩

theorem step_of_complete {text : String} (h : ShellLine.read raw = .statement text)
    (hcomplete : (SourceLine.read text).continued = false) {session : Session}
    {outcome : Except Failure (List String)}
    (hattempt : sh.ready.attempt (sh.joined text) = (session, outcome)) :
    (sh.step raw).1.session.names = session.names ∧ (sh.step raw).1.unfinished = "" ∧
      sh.response raw = outcome := by
  obtain ⟨reporter, hrun⟩ := runLine_eq hattempt
  rw [step_of_statement h, typeLine_of_complete hcomplete, hrun]
  refine ⟨rfl, rfl, ?_⟩
  delta response
  rewrite [h]
  dsimp only
  rewrite [receive_of_complete hcomplete]
  dsimp only
  rw [hattempt]

theorem feed_eq {lines : List String} (h : sh.Steady)
    (hlines : ∀ line ∈ lines, (ShellLine.read line).isCommand = false) :
    sh.feed lines = performUntil sh.session.names (statements sh.unfinished lines) := by
  induction lines generalizing sh with
  | nil => rfl
  | cons raw lines ih =>
    obtain ⟨hraw, hlines⟩ := List.forall_mem_cons.1 hlines
    have hread := ShellLine.read_eq rfl hraw
    have hnext := ih (h.step raw) hlines
    by_cases hblank : words raw = []
    · rw [if_pos hblank] at hread
      rw [feed_of_ok (response_of_empty hread), hnext, step_of_empty hread,
        statements_blank lines hblank, Course.after_nil]
    rw [if_neg hblank] at hread
    have hflag : (SourceLine.read (trim raw)).continued = (SourceLine.read raw).continued := by
      rw [SourceLine.read_trim]
    cases hcontinued : (SourceLine.read raw).continued with
    | true =>
      obtain ⟨hsession, hunfinished, hresponse⟩ := step_of_continued hread (hflag.trans hcontinued)
      rw [feed_of_ok hresponse, hnext, hsession, hunfinished, joined_trim,
        statements_continued lines hblank hcontinued, Course.after_nil]
    | false =>
      have hcomplete := hflag.trans hcontinued
      rw [statements_complete lines hblank hcontinued (joined_trim sh raw).symm]
      by_cases hempty : sh.joined (trim raw) = ""
      · have hskipped : (trim (sh.joined (trim raw))).isEmpty = true := by
          rw [trim_joined, hempty]
          rfl
        obtain ⟨hnames, hunfinished, hresponse⟩ :=
          step_of_complete hread hcomplete (sh.ready.attempt_blank hskipped)
        rw [if_pos hempty, List.nil_append, feed_of_ok hresponse, hnext, hunfinished, hnames,
          Course.after_nil]
        rfl
      have htext : (trim (sh.joined (trim raw))).isEmpty = false := by
        rw [trim_joined]
        simpa using hempty
      obtain ⟨reporter, -, herror, hok⟩ := sh.ready.attempt_of_text h.pending h.results htext
      rw [if_neg hempty, List.singleton_append]
      cases hperform : perform (sh.joined (trim raw)) sh.session.names with
      | error f =>
        obtain ⟨hnames, -, hresponse⟩ := step_of_complete hread hcomplete (herror f hperform)
        rw [feed_of_error hresponse, performUntil_of_error _ hperform, hnames]
        rfl
      | ok after =>
        obtain ⟨names, result⟩ := after
        obtain ⟨hnames, hunfinished, hresponse⟩ :=
          step_of_complete hread hcomplete (hok names result hperform)
        rw [feed_of_ok hresponse, performUntil_of_ok _ hperform, hnext, hunfinished, hnames]

end Feeding

/-- Lines that can be typed in as well as put into a file. -/
structure Portable (lines : List String) : Prop extends SpelledOut lines where
  unbroken : ∀ line ∈ lines, '\n' ∉ line.toList ∧ '\r' ∉ line.toList
  noCommand : ∀ line ∈ lines, (ShellLine.read line).isCommand = false

/-- Lines without line breaks and commands, whose continued lines have text before their mark and a
line with something on it after them, come to the same whether they are typed into a new shell one
by one or run as a file. There is such a file; each is loaded, and its run and the shell get the
same results in the same order and the same names up to the first statement that fails, and a
statement fails in both or in neither. -/
theorem feed_eq_run_file [Machine] {lines : List String} (h : Portable lines) (style : Style)
    (fatal : Bool) (reporter : Reporter) {path : String} (hpath : path ≠ shellPath)
    (hnul : '\x00' ∉ path.toList) (interactive : Bool) (files : Files) :
    fileLines (scriptText lines) = lines ∧
    ∀ text, fileLines text = lines → files path = some text →
      ∃ s, Session.start reporter path interactive files = (s, none) ∧
        Session.course s.run =
          (new (Session.start (Reporter.new style fatal) shellPath true files).1).feed lines := by
  refine ⟨fileLines_scriptText h.unbroken, fun text hlines hfile => ?_⟩
  obtain ⟨s, hstart, hnames, hresults, hpending⟩ :=
    Session.start_file reporter hpath hnul interactive hfile
  refine ⟨s, hstart, ?_⟩
  have htexts : ((readScript lines).map ScriptEntry.text).map trim = statements "" lines := by
    rw [List.map_map]
    exact readScript_statements h.toSpelledOut
  rw [hlines] at hpending
  rw [Session.course_run, hnames, hresults, hpending, Course.after_nil, ← performUntil_trim, htexts,
    feed_eq (steady_new style fatal files) h.noCommand]
  rfl

section StandardMachine

attribute [local instance] Machine.standard

/-- Comments, blank lines, a continued definition, a statement that goes on with a comment only, and
one that fails before the last. -/
theorem feed_eq_run_file_sums :
    let lines :=
      ["add := $1 plus $2 ;; a sum", "  x := add 1 \\", "\t2 ;; and its end", "", ";; nothing",
      "add x \\", ";; no more", "add x x", "x", "add 1 1"]
    let files : Files := fun _ => some (scriptText lines)
    Portable lines ∧ ∃ s, Session.start (Reporter.new .plain true) "sums" false files = (s, none) ∧
      Session.course s.run =
        (new (Session.start (Reporter.new .plain true) shellPath true files).1).feed lines ∧
      (Session.course s.run).results = ["<add: 1/2 arguments>", "6"] ∧
      (Session.course s.run).failed = true := by
  intro lines files
  have hportable : Portable lines :=
    { text := by decide +kernel
      goesOn := by decide +kernel
      ends := by decide +kernel
      unbroken := by decide +kernel
      noCommand := by decide +kernel }
  have hpath : "sums" ≠ shellPath := by decide
  obtain ⟨hlines, hrun⟩ := feed_eq_run_file hportable .plain true (Reporter.new .plain true) hpath
    (by decide) false files
  obtain ⟨s, hstart, hcourse⟩ := hrun _ hlines rfl
  have hfeed : let course :=
        (new (Session.start (Reporter.new .plain true) shellPath true files).1).feed lines
      course.results = ["<add: 1/2 arguments>", "6"] ∧ course.failed = true := by decide +kernel
  exact ⟨hportable, s, hstart, hcourse, hcourse ▸ hfeed⟩

end StandardMachine

end Shell

end CurryCalc
