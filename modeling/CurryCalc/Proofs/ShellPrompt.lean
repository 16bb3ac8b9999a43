import CurryCalc.Proofs.SessionNames
import CurryCalc.Proofs.Trimming
import CurryCalc.Shell

/-! The shell between two lines. Whatever a line was and whatever came of it, nothing is pending, no
result is left, no error is fatal and no statement is under way; and the shell waits for the rest of
a statement only at its secondary prompt. -/
namespace CurryCalc

namespace Reporter

/-- At most the shell has a frame, and no statement stands in it. -/
def AtRest (r : Reporter) : Prop :=
  r.frames.entries = [] ∨ ∃ frame, r.frames.entries = [(Session.shellPath, frame)] ∧
    (frame.line = none ∨ frame.line = some "")

section AtRest

variable {r r' : Reporter}

theorem AtRest.settles (h : r.AtRest) (hsettles : r.Settles r') : r'.AtRest := by
  obtain ⟨middle, hprints, rfl | rfl⟩ := hsettles
  · unfold AtRest
    rwa [hprints.frames_eq]
  · exact .inl rfl

/-- The shell's frame takes the place of the one that it has. -/
theorem AtRest.register (h : r.AtRest) {frame : Frame}
    (hframe : frame.line = none ∨ frame.line = some "") :
    (r.register Session.shellPath frame).AtRest := by
  refine .inr ⟨frame, ?_, hframe⟩
  rcases h with hnone | ⟨old, hold, -⟩
  · simp [Reporter.register, Bindings.insert, Bindings.insertIn, hnone]
  · simp [Reporter.register, Bindings.insert, Bindings.insertIn, hold]

theorem AtRest.active_eq_nil (h : r.AtRest) : r.active = [] := by
  unfold active
  rcases h with hnone | ⟨frame, hframe, hline | hline⟩
  · simp [hnone]
  · simp [hframe, hline]
  · simp [hframe, hline]

theorem AtRest.location_eq (h : r.AtRest) (n : Notice) : r.location n = "" := by
  simp [location, h.active_eq_nil]

end AtRest

/-- A regular problem is reported as an error, and nothing is left of it. -/
theorem throw_regular [Machine] {r : Reporter} (h : r.fatal = false) {cause : Fault}
    (hcause : cause.Regular) :
    ∃ n r', cause.notice r.style = .ok n ∧ r.Shows r' n "error" ∧
      r.throw cause = ({ r' with frames := Bindings.empty }, none) := by
  obtain ⟨notes, hnotes⟩ := hcause.noted (.levels nestingLimit)
  obtain ⟨n, hnotice⟩ := hcause.worded r.style
  obtain ⟨r', hshows, hthrow⟩ := throw_clears h hnotice hnotes
  rw [Fault.internal_of_notice hnotice, hcause.internal_eq] at hshows
  exact ⟨n, r', hnotice, hshows, hthrow⟩

end Reporter

namespace Session

open Statement (perform)

def queued (s : Session) (line : Int) (text : String) : Session :=
  { s with reporter := s.reporter.registerFile s.path, pending := [(line, text)] }

variable {s : Session} {text : String}

theorem add_eq_queued (hpending : s.pending = []) (htext : (trim text).isEmpty = false)
    (line : Int) :
    s.add text (some line) = (s.queued line text, none) := by
  simp [add, queued, htext, hpending, enqueue, withReporter, Reporter.registerLine,
    Reporter.removeLine, Reporter.registerFile]

theorem run_queued [Machine] (s : Session) (line : Int) (text : String) : ∃ reporter,
    (s.reporter.registerLine s.path text line).Prints reporter ∧
    (∀ f, perform text s.names = .error f →
      (s.queued line text).run = ({ s with reporter := reporter, pending := [] }, some f)) ∧
    ∀ names result, perform text s.names = .ok (names, result) →
      (s.queued line text).run = ({ s with
        reporter := reporter.registerFile s.path, names := names, pending := [],
        results := s.results ++ result.toList }, none) := by
  obtain ⟨reporter, hprints, hrun⟩ :=
    runStatement_eq ((s.queued line text).withReporter (·.registerLine s.path text line)) text
  have hframe : ((s.queued line text).withReporter (·.registerLine s.path text line)).reporter =
      s.reporter.registerLine s.path text line := by
    simp [queued, withReporter, Reporter.registerFile, Reporter.registerLine]
  have hnames : ((s.queued line text).withReporter (·.registerLine s.path text line)).names =
      s.names := rfl
  have hpending : (s.queued line text).pending = [(line, text)] := rfl
  have hpath : (s.queued line text).path = s.path := rfl
  rw [hframe] at hprints
  rw [run, hpending]
  unfold runPending
  refine ⟨reporter, hprints, fun f hperform => ?_, fun names result hperform => ?_⟩
  · rewrite [hnames, hperform] at hrun
    rewrite [hpath, hrun]
    rfl
  · rewrite [hnames, hperform] at hrun
    rewrite [hpath, hrun]
    rfl

end Session

namespace Shell

open Session (shellPath)
open Statement (perform)

structure AtPrompt (sh : Shell) : Prop where
  pending : sh.session.pending = []
  results : sh.session.results = []
  survives : sh.session.reporter.fatal = false
  atRest : sh.session.reporter.AtRest
  prompt : sh.prompt = primaryPrompt ∨ sh.prompt = secondaryPrompt
  unfinished : sh.prompt = primaryPrompt → sh.unfinished = ""

/-- What every line keeps. With sound names no statement fails in a way that cannot be reported. -/
structure Steady [Machine] (sh : Shell) : Prop extends AtPrompt sh where
  path : sh.session.path = shellPath
  names : sh.session.names.Sound

section Attempt

variable [Machine] {text : String}

theorem attempt_blank (sh : Shell) (h : (trim text).isEmpty) : sh.attempt text =
    (sh.session.withReporter (·.registerLine sh.session.path text sh.lineNumber), .ok []) := by
  simp [attempt, Session.add, h]

/-- With nothing pending, a statement that is not blank runs alone. -/
theorem attempt_of_text (sh : Shell) (hpending : sh.session.pending = [])
    (hresults : sh.session.results = []) (htext : (trim text).isEmpty = false) : ∃ reporter,
      (sh.session.reporter.registerLine sh.session.path text sh.lineNumber).Prints reporter ∧
      (∀ f, perform text sh.session.names = .error f →
        sh.attempt text = ({ sh.session with reporter := reporter }, .error f)) ∧
      ∀ names result, perform text sh.session.names = .ok (names, result) →
        sh.attempt text = ({ sh.session with
          reporter := reporter.registerFile sh.session.path, names := names },
          .ok result.toList) := by
  obtain ⟨reporter, hprints, herror, hok⟩ := sh.session.run_queued sh.lineNumber text
  refine ⟨reporter, hprints, fun f hperform => ?_, fun names result hperform => ?_⟩
  · delta attempt
    rw [Session.add_eq_queued hpending htext]
    simp only [herror f hperform, hpending]
  · delta attempt
    rw [Session.add_eq_queued hpending htext]
    simp only [hok names result hperform, hpending, hresults, List.nil_append]

end Attempt

section Receive

variable {sh : Shell} {text : String}

/-- The statement that a line ends or goes on with. -/
def joined (sh : Shell) (text : String) : String :=
  trim (sh.unfinished ++ " " ++ (SourceLine.read text).text)

/-- The shell with no statement unfinished. -/
def ready (sh : Shell) : Shell :=
  { sh with unfinished := "", lineNumber := sh.lineNumber + 1, prompt := primaryPrompt }

theorem receive_of_continued (h : (SourceLine.read text).continued = true) :
    sh.receive text = ({ sh with
      unfinished := sh.joined text, lineNumber := sh.lineNumber + 1,
      prompt := secondaryPrompt }, none) := by
  unfold receive joined
  rw [if_pos h]

theorem receive_of_complete (h : (SourceLine.read text).continued = false) :
    sh.receive text = (sh.ready, some (sh.joined text)) := by
  unfold receive joined ready
  rw [if_neg (by simp [h])]

theorem typeLine_of_complete [Machine] (h : (SourceLine.read text).continued = false) :
    sh.typeLine text = sh.ready.runLine (sh.joined text) := by
  delta typeLine
  rewrite [receive_of_complete h]
  rfl

theorem trim_joined (sh : Shell) (text : String) : trim (sh.joined text) = sh.joined text :=
  trim_trim _

end Receive

section Steady

variable [Machine] {sh : Shell} {reporter : Reporter}

theorem Steady.settles (h : sh.Steady) (hsettles : sh.session.reporter.Settles reporter) :
    Steady { sh with session := { sh.session with reporter := reporter } } where
  pending := h.pending
  results := h.results
  survives := hsettles.fatal_eq.trans h.survives
  atRest := h.atRest.settles hsettles
  prompt := h.prompt
  unfinished := h.unfinished
  path := h.path
  names := h.names

theorem Steady.ready (h : sh.Steady) : sh.ready.Steady :=
  { h with prompt := .inl rfl, unfinished := fun _ => rfl }

theorem answer_settles (sh : Shell) (outcome : Except Failure (List String)) : ∃ reporter,
    sh.session.reporter.Settles reporter ∧
    (sh.answer outcome).1 = { sh with session := { sh.session with reporter := reporter } } := by
  cases outcome with
  | ok lines =>
    have hprinted : ∃ reporter, sh.session.reporter.Prints reporter ∧
        lines.foldl printLine sh =
          { sh with session := { sh.session with reporter := reporter } } := by
      induction lines generalizing sh with
      | nil => exact ⟨sh.session.reporter, .refl _, rfl⟩
      | cons text lines ih =>
        obtain ⟨reporter, hprints, heq⟩ := ih (sh.printLine text)
        exact ⟨reporter, (Reporter.printLine_prints _ text).trans hprints, heq⟩
    obtain ⟨reporter, hprints, heq⟩ := hprinted
    exact ⟨reporter, hprints.settles, heq⟩
  | error f => exact ⟨_, sh.session.reporter.handle_settles f, rfl⟩

theorem Steady.answer (h : sh.Steady) (outcome : Except Failure (List String)) :
    (sh.answer outcome).1.Steady := by
  obtain ⟨reporter, hsettles, heq⟩ := sh.answer_settles outcome
  rw [heq]
  exact h.settles hsettles

theorem Steady.runCommandLine (h : sh.Steady) (argument : String) (c : ShellCommand) :
    (sh.runCommandLine argument c).1.Steady := by
  have hprint (text : String) : (sh.printLine text).Steady :=
    h.settles (Reporter.printLine_prints _ text).settles
  cases c with
  | tree => exact h.answer _
  | tokens => exact h.answer _
  | help => exact hprint helpText
  | endOfInput => exact hprint ""
  | exit => exact h

/-- A regular failure is reported to its end, and with it goes the statement that was under way. -/
theorem handle_regular (hsurvives : reporter.fatal = false) {f : Failure} {text : String}
    (hf : f.Regular text) :
    (reporter.handle f).1.fatal = false ∧ (reporter.handle f).1.AtRest := by
  have hcleared : ∃ r', reporter.Prints r' ∧
      (reporter.handle f).1 = { r' with frames := Bindings.empty } := by
    cases f with
    | fault cause =>
      have hcause : cause.Regular := hf
      obtain ⟨n, r', hnotice, hshows, hthrow⟩ := Reporter.throw_regular hsurvives hcause
      exact ⟨r', hshows.prints, by rw [Reporter.handle_fault hnotice, hthrow]⟩
    | longIndex digits => exact Reporter.handle_longIndex_clears hsurvives digits
    | _ => cases hf
  obtain ⟨r', hprints, heq⟩ := hcleared
  rw [heq]
  exact ⟨hprints.fatal_eq.trans hsurvives, .inl rfl⟩

/-- A complete statement is blank, fails or succeeds. -/
theorem Steady.runLine (h : sh.Steady) {text : String} (htrimmed : trim text = text) :
    (sh.runLine text).1.Steady := by
  unfold Shell.runLine
  by_cases htext : (trim text).isEmpty
  · rw [attempt_blank sh htext]
    have hempty : text = "" := by
      rw [htrimmed] at htext
      exact String.isEmpty_iff.1 htext
    refine { h with atRest := ?_ }
    show Reporter.AtRest (sh.session.reporter.registerLine _ _ _)
    rw [h.path]
    exact h.atRest.register (.inr (congrArg some hempty))
  rw [Bool.not_eq_true] at htext
  obtain ⟨reporter, hprints, herror, hok⟩ := sh.attempt_of_text h.pending h.results htext
  have hsurvives : reporter.fatal = false := hprints.fatal_eq.trans h.survives
  cases hperform : perform text sh.session.names with
  | error f =>
    have hregular : f.Regular text := Statement.perform_regular h.names hperform
    obtain ⟨hfatal, hrest⟩ := handle_regular hsurvives hregular
    rw [herror f hperform]
    exact { h with survives := hfatal, atRest := hrest }
  | ok after =>
    obtain ⟨names, result⟩ := after
    have hnames : names.Sound := Statement.perform_regular h.names hperform
    have hrest : (reporter.registerFile sh.session.path).AtRest := by
      have hremoved := hprints.register sh.session.path .idle
      rw [Reporter.registerLine, Reporter.register_register, h.path] at hremoved
      rw [h.path]
      exact (h.atRest.register (.inl rfl)).settles hremoved.settles
    have hsteady : Steady { sh with
        session := { sh.session with
          reporter := reporter.registerFile sh.session.path, names := names } } :=
      { h with survives := hsurvives, atRest := hrest, names := hnames }
    rw [hok names result hperform]
    exact hsteady.answer _

theorem Steady.typeLine (h : sh.Steady) (text : String) : (sh.typeLine text).1.Steady := by
  cases hcontinued : (SourceLine.read text).continued with
  | true =>
    have hprompts : secondaryPrompt ≠ primaryPrompt := by decide
    have hwaits (statement : String) : Steady { sh with
        unfinished := statement, lineNumber := sh.lineNumber + 1, prompt := secondaryPrompt } :=
      { h with prompt := .inr rfl, unfinished := fun hprompt => (hprompts hprompt).elim }
    delta Shell.typeLine
    rewrite [receive_of_continued hcontinued]
    exact hwaits (sh.joined text)
  | false =>
    rw [typeLine_of_complete hcontinued]
    exact h.ready.runLine (sh.trim_joined text)

theorem step_of_empty {raw : String} (h : ShellLine.read raw = .empty) : (sh.step raw).1 = sh := by
  unfold step
  rewrite [h]
  rfl

theorem step_of_command {raw argument : String} {c : ShellCommand}
    (h : ShellLine.read raw = .command c argument) :
    (sh.step raw).1 = (sh.runCommandLine argument c).1 := by
  unfold step
  rewrite [h]
  dsimp only
  generalize sh.runCommandLine argument c = after
  obtain ⟨sh', left⟩ := after
  cases left <;> rfl

theorem step_of_statement {raw text : String} (h : ShellLine.read raw = .statement text) :
    (sh.step raw).1 = (sh.typeLine text).1 := by
  unfold step
  rewrite [h]
  dsimp only
  generalize sh.typeLine text = after
  obtain ⟨sh', left⟩ := after
  cases left <;> rfl

/-- Every line keeps a steady shell steady, also one that something escapes from. -/
theorem Steady.step (h : sh.Steady) (raw : String) : (sh.step raw).1.Steady := by
  cases hread : ShellLine.read raw with
  | empty =>
    rw [step_of_empty hread]
    exact h
  | command c argument =>
    rw [step_of_command hread]
    exact h.runCommandLine argument c
  | statement text =>
    rw [step_of_statement hread]
    exact h.typeLine text

theorem Steady.steps (h : sh.Steady) (lines : List String) :
    (lines.foldl (fun sh raw => (sh.step raw).1) sh).Steady := by
  induction lines generalizing sh with
  | nil => exact h
  | cons raw lines ih =>
    rw [List.foldl_cons]
    exact ih (h.step raw)

end Steady

theorem steady_new [Machine] (style : Style) (fatal : Bool) (files : Files) :
    (new (Session.start (Reporter.new style fatal) shellPath true files).1).Steady where
  pending := rfl
  results := rfl
  survives := rfl
  atRest := .inr ⟨.idle, rfl, .inl rfl⟩
  prompt := .inl rfl
  unfinished _ := rfl
  path := rfl
  names := Namespace.sound_empty

/-- After every line given to a new shell, whatever the lines were and whatever came of them, no
statement is pending and no result is left, no error is fatal, at most the shell itself has a frame,
with no statement in it, and the prompt is one of the two; at the primary one, no statement is
unfinished. So no later message is located at a statement that is done with. -/
theorem atPrompt_after_lines [Machine] (style : Style) (fatal : Bool) (files : Files)
    (lines : List String) :
    let fresh := new (Session.start (Reporter.new style fatal) shellPath true files).1
    let sh := lines.foldl (fun sh raw => (sh.step raw).1) fresh
    sh.AtPrompt ∧ ∀ n, sh.session.reporter.location n = "" := by
  intro fresh sh
  have hsteady : sh.Steady := (steady_new style fatal files).steps lines
  exact ⟨hsteady.toAtPrompt, hsteady.atRest.location_eq⟩

end Shell

end CurryCalc
