import CurryCalc.Proofs.ShellPrompt

/-! No line stops the shell but a command to stop. A request fails only in ways that can be worded,
explained and printed, so that the handler reports it and nothing escapes. The one exception is a
placeholder with more digits than can be read. -/
namespace CurryCalc

section LongIndices

variable {s t : String}

theorem isBlank_of_isAsciiDigit {c : Char} (h : isAsciiDigit c = true) : isBlank c = false := by
  have hrange : '0' ≤ c ∧ c ≤ '9' := by simpa [isAsciiDigit] using h
  have hlow : 48 ≤ c.toNat := hrange.1
  have hhigh : c.toNat ≤ 57 := hrange.2
  simp only [isBlank, Bool.or_eq_false_iff, Bool.and_eq_false_iff, decide_eq_false_iff_not,
    beq_eq_false_iff_ne]
  omega

theorem HasLongIndex.exists_word (h : HasLongIndex s) : ∃ w ∈ words s, HasLongIndex w := by
  obtain ⟨digits, hlong, hdigits, hin⟩ := h
  have hunbroken : ∀ c ∈ '$' :: digits, isBlank c = false := by
    rw [List.forall_mem_cons]
    exact ⟨by decide, fun d hd => isBlank_of_isAsciiDigit (hdigits d hd)⟩
  obtain ⟨w, hw, hin⟩ := occurs_in_word (List.cons_ne_nil _ _) hunbroken hin
  exact ⟨w, hw, digits, hlong, hdigits, hin⟩

theorem HasLongIndex.of_join (h : HasLongIndex (s ++ " " ++ t)) :
    HasLongIndex s ∨ HasLongIndex t := by
  obtain ⟨w, hw, hlong⟩ := h.exists_word
  rw [words_join, List.mem_append] at hw
  rcases hw with hw | hw
  · exact .inl (hlong.mono (isWord_of_mem hw).2)
  · exact .inr (hlong.mono (isWord_of_mem hw).2)

theorem not_hasLongIndex_of_length (h : s.toList.length ≤ digitLimit) : ¬ HasLongIndex s := by
  rintro ⟨digits, hlong, -, hin⟩
  have hlength := hin.length_le
  rw [List.length_cons] at hlength
  omega

end LongIndices

namespace Failure

/-- The problem that a failure is reported as. -/
def cause? : Failure → Option Fault
  | .fault cause => some cause
  | .tooDeep => some (.nestedTooDeeply "run" "program")
  | _ => none

/-- A failure that is reported as a regular problem. -/
def Reportable (f : Failure) : Prop := ∃ cause, f.cause? = some cause ∧ cause.Regular

theorem Regular.reportable {text : String} {f : Failure} (h : f.Regular text)
    (hshort : ¬ HasLongIndex text) : f.Reportable := by
  cases f with
  | fault cause => exact ⟨cause, rfl, h⟩
  | longIndex digits => exact (hshort h.2).elim
  | _ => exact h.elim

theorem reportable_tooDeep : Reportable .tooDeep :=
  ⟨_, rfl, Fault.regular_nestedTooDeeply (Template.isText_ofList rfl) _⟩

end Failure

namespace Reporter

/-- An error message about a problem is among what was printed from one state to another. -/
def Reports (r r' : Reporter) (cause : Fault) : Prop :=
  ∃ n front back, cause.notice r.style = .ok n ∧
    r'.output = r.output ++ (front ++ r.style.mark .red "error: " ++ n.message ++ "\n" ++ back)

variable {r r' : Reporter} {cause : Fault} {f : Failure}

theorem handle_eq_throw [Machine] (h : f.cause? = some cause) (hcause : cause.Regular) :
    r.handle f = r.throw cause := by
  obtain ⟨n, hnotice⟩ := hcause.worded r.style
  cases f with
  | fault cause' =>
    cases h
    exact handle_fault hnotice
  | tooDeep =>
    cases h
    rfl
  | _ => cases h

theorem handle_reportable [Machine] (h : r.fatal = false) (hf : f.Reportable) :
    (r.handle f).2 = none ∧ ∃ cause, f.cause? = some cause ∧ r.Reports (r.handle f).1 cause := by
  obtain ⟨cause, hcause?, hregular⟩ := hf
  obtain ⟨n, r', hnotice, ⟨front, back, rfl⟩, hthrow⟩ := throw_regular h hregular
  rw [handle_eq_throw hcause? hregular, hthrow]
  exact ⟨rfl, cause, hcause?, n, front, back, hnotice, rfl⟩

theorem Reports.after {path line text : String} {number : Int}
    (h : ((r.registerLine path line number).print text).Reports r' cause) : r.Reports r' cause := by
  obtain ⟨n, front, back, hnotice, hout⟩ := h
  refine ⟨n, text ++ front, back, hnotice, ?_⟩
  rw [hout]
  simp [print, registerLine, register, String.append_assoc]

end Reporter

/-- The listing of a tree that was read from a text is made, or goes too deep. -/
theorem Expr.displayAt_ends (budget level : Nat) {e : Expr} (hread : e.Readable)
    (hsymbols : ∀ s ∈ e.symbols, s.Textual) :
    Ends (fun _ => True) (· = .tooDeep) (displayAt budget level e) := by
  induction budget generalizing level e with
  | zero => exact rfl
  | succ budget ih =>
    have hlisted := unlistable?_eq_none hread fun s hs => (hsymbols s hs).writable (.levels budget)
    have hchildren := Ends.mapM fun child (hc : child ∈ e.children) =>
      ih (level + 1) (hread.children child hc) fun s hs =>
        hsymbols s (mem_symbols_of_mem_children hc hs)
    unfold displayAt
    dsimp only
    rw [hlisted]
    split
    next hnone => cases hnone
    · trivial
    · generalize e.children.mapM (displayAt budget (level + 1)) = parts at hchildren
      cases parts with
      | error f => exact hchildren
      | ok parts => trivial

theorem SourceLine.read_prefix (raw : String) : (read raw).text.toList <+: raw.toList := by
  obtain ⟨-, after, -, hcut⟩ := exists_trimRight (cutBefore commentMark raw)
  have htext : (trimRight (cutBefore commentMark raw)).toList <+: raw.toList :=
    (hcut ▸ List.prefix_append _ _).trans (cutBefore_prefix_self commentMark raw)
  unfold read
  dsimp only
  split
  · rw [String.toList_ofList]
    exact (List.dropLast_prefix _).trans htext
  · exact htext

namespace ShellLine

def text : ShellLine → String
  | .empty => ""
  | .command _ argument => argument
  | .statement text => text

theorem text_read_infix (raw : String) : (read raw).text.toList <:+: raw.toList := by
  have hraw := trim_infix_self raw
  unfold read
  dsimp only
  split
  · exact List.nil_infix
  next rest hchars =>
    have hrest := trim_infix_self (String.ofList rest)
    rw [String.toList_ofList] at hrest
    rw [hchars] at hraw
    exact (hrest.trans (List.suffix_cons _ _).isInfix).trans hraw
  · split
    · have hrest := trim_infix_self (String.ofList ((trim raw).toList.dropWhile isCommandChar))
      rw [String.toList_ofList] at hrest
      exact (hrest.trans (List.dropWhile_suffix _).isInfix).trans hraw
    · exact hraw

/-- The word that a line is taken for a command by. -/
def commandWord (raw : String) : String := String.ofList ((trim raw).toList.takeWhile isCommandChar)

end ShellLine

namespace Shell

open ShellLine (commandWord)
open Statement (perform)

theorem isStop_read (raw : String) : isStop (ShellLine.read raw) =
    decide (commandWord raw = "exit" ∨ commandWord raw = "EOF") := by
  unfold ShellLine.read commandWord
  dsimp only
  split
  next hchars =>
    rw [hchars]
    rfl
  next rest hchars =>
    rw [hchars]
    rfl
  · generalize String.ofList ((trim raw).toList.takeWhile isCommandChar) = word
    generalize trim _ = argument
    unfold ShellCommand.ofWord?
    split_ifs <;> simp_all [isStop]

section Requests

variable {sh : Shell} {text : String}

theorem tokenLine_ends (h : ¬ HasLongIndex text) :
    Ends (fun _ => True) Failure.Reportable (tokenLine text) := by
  have htokens := (tokenize_ends text).mono fun f hf => hf.reportable h
  exact htokens.bind fun tokens _ => trivial

/-- Nothing is left of a request, and the failure that it has, if any, was reported. -/
def Settled (r : Reporter) (outcome : Except Failure (List String))
    (after : Shell × Option Failure) : Prop :=
  after.2 = none ∧ ∀ f, outcome = .error f → ∃ cause, f.cause? = some cause ∧
    r.Reports after.1.session.reporter cause

theorem settled_ok (r : Reporter) (lines : List String) (sh : Shell) :
    Settled r (.ok lines) (sh, none) :=
  ⟨rfl, nofun⟩

variable [Machine]

theorem treeLines_ends (h : ¬ HasLongIndex text) :
    Ends (fun _ => True) Failure.Reportable (treeLines text) := by
  have htokens := (tokenize_ends text).mono fun f hf => hf.reportable h
  refine htokens.bind fun tokens htextual => ?_
  have hcompile := (Program.compile_ends htextual).mono fun f hf => Failure.Regular.reportable hf h
  refine hcompile.with_eq.bind fun program hprogram => ?_
  have hparse := (Program.compile_eq_ok_iff.1 hprogram.1).1
  have hdisplay : Ends _ Failure.Reportable program.tree.display :=
    (Expr.displayAt_ends nestingLimit 0 (Grammar.parse_sound hparse).2.2.readable
      (Grammar.forall_symbols_of_parse hparse htextual)).mono fun f hf =>
        hf ▸ Failure.reportable_tooDeep
  exact hdisplay.bind fun _ _ => trivial

/-- What the request of a line gives to print, or why it fails. -/
def requested (sh : Shell) : ShellLine → Except Failure (List String)
  | .command .tree argument => treeLines argument
  | .command .tokens argument => tokenLine argument
  | .statement text =>
    match sh.receive text with
    | (_, none) => .ok []
    | (sh, some statement) => (sh.attempt statement).2
  | _ => .ok []

theorem answer_settled (hsurvives : sh.session.reporter.fatal = false)
    {outcome : Except Failure (List String)} (h : Ends (fun _ => True) Failure.Reportable outcome) :
    Settled sh.session.reporter outcome (sh.answer outcome) := by
  cases outcome with
  | ok lines => exact settled_ok _ _ _
  | error f =>
    obtain ⟨hleft, hreports⟩ := Reporter.handle_reportable hsurvives h
    refine ⟨hleft, fun g hg => ?_⟩
    cases hg
    exact hreports

theorem runLine_settled (h : sh.Steady) (hshort : ¬ HasLongIndex text) :
    Settled sh.session.reporter (sh.attempt text).2 (sh.runLine text) := by
  unfold runLine
  by_cases htext : (trim text).isEmpty
  · rw [attempt_blank sh htext]
    exact settled_ok _ _ _
  rw [Bool.not_eq_true] at htext
  obtain ⟨reporter, hprints, herror, hok⟩ := sh.attempt_of_text h.pending h.results htext
  have hsurvives : reporter.fatal = false := hprints.fatal_eq.trans h.survives
  cases hperform : perform text sh.session.names with
  | error f =>
    have hregular : f.Regular text := Statement.perform_regular h.names hperform
    have hends :
        Ends (fun _ => True) Failure.Reportable (.error f : Except Failure (List String)) :=
      hregular.reportable hshort
    rw [herror f hperform]
    have hsettled : Settled reporter (.error f)
        (answer { sh with session := { sh.session with reporter := reporter } } (.error f)) :=
      answer_settled hsurvives hends
    refine ⟨hsettled.1, fun g hg => ?_⟩
    obtain ⟨cause, hcause, hreports⟩ := hsettled.2 g hg
    obtain ⟨printed, rfl⟩ := hprints
    exact ⟨cause, hcause, hreports.after⟩
  | ok after =>
    obtain ⟨names, result⟩ := after
    rw [hok names result hperform]
    exact settled_ok _ _ _

end Requests

section Lines

variable {sh : Shell} {line : ShellLine} {raw text : String}

theorem joined_short (hunfinished : ¬ HasLongIndex sh.unfinished) (htext : ¬ HasLongIndex text) :
    ¬ HasLongIndex (sh.joined text) := by
  intro hlong
  rcases (hlong.mono (trim_infix_self _)).of_join with hbefore | hline
  · exact hunfinished hbefore
  · exact htext (hline.mono (SourceLine.read_prefix text).isInfix)

variable [Machine]

def obey (sh : Shell) : ShellLine → Shell × Option Failure
  | .empty => (sh, none)
  | .command c argument => sh.runCommandLine argument c
  | .statement text => sh.typeLine text

theorem step_eq (sh : Shell) (raw : String) :
    sh.step raw = ((sh.obey (ShellLine.read raw)).1,
      (sh.obey (ShellLine.read raw)).2.elim (.ok (isStop (ShellLine.read raw))) .error) := by
  unfold step
  generalize ShellLine.read raw = line
  cases line with
  | empty => rfl
  | command c argument =>
    dsimp only [obey]
    generalize sh.runCommandLine argument c = after
    obtain ⟨sh', left⟩ := after
    cases left <;> rfl
  | statement text =>
    dsimp only [obey]
    generalize sh.typeLine text = after
    obtain ⟨sh', left⟩ := after
    cases left <;> rfl

theorem obey_settled (h : sh.Steady) (hunfinished : ¬ HasLongIndex sh.unfinished)
    (hline : ¬ HasLongIndex line.text) :
    Settled sh.session.reporter (sh.requested line) (sh.obey line) := by
  cases line with
  | empty => exact settled_ok _ _ _
  | command c argument =>
    cases c with
    | tree => exact answer_settled h.survives (treeLines_ends hline)
    | tokens => exact answer_settled h.survives (tokenLine_ends hline)
    | help => exact settled_ok _ _ _
    | endOfInput => exact settled_ok _ _ _
    | exit => exact settled_ok _ _ _
  | statement text =>
    delta obey requested
    dsimp only
    cases hcontinued : (SourceLine.read text).continued with
    | true =>
      delta typeLine
      rewrite [receive_of_continued hcontinued]
      exact settled_ok _ _ _
    | false =>
      rewrite [typeLine_of_complete hcontinued, receive_of_complete hcontinued]
      dsimp only
      have hsettled : Settled sh.ready.session.reporter _ (sh.ready.runLine (sh.joined text)) :=
        runLine_settled h.ready (joined_short hunfinished hline)
      exact hsettled

theorem answer_unfinished (sh : Shell) (outcome : Except Failure (List String)) :
    (sh.answer outcome).1.unfinished = sh.unfinished := by
  obtain ⟨reporter, -, heq⟩ := sh.answer_settles outcome
  rw [heq]

theorem runLine_unfinished (sh : Shell) (text : String) :
    (sh.runLine text).1.unfinished = sh.unfinished := by
  unfold runLine
  generalize sh.attempt text = attempted
  obtain ⟨session, outcome⟩ := attempted
  exact answer_unfinished _ outcome

theorem obey_short (hunfinished : ¬ HasLongIndex sh.unfinished) (hline : ¬ HasLongIndex line.text) :
    ¬ HasLongIndex (sh.obey line).1.unfinished := by
  cases line with
  | empty => exact hunfinished
  | command c argument =>
    cases c with
    | tree => rwa [obey, runCommandLine, answer_unfinished]
    | tokens => rwa [obey, runCommandLine, answer_unfinished]
    | help => exact hunfinished
    | endOfInput => exact hunfinished
    | exit => exact hunfinished
  | statement text =>
    delta obey
    dsimp only
    cases hcontinued : (SourceLine.read text).continued with
    | true =>
      delta typeLine
      rewrite [receive_of_continued hcontinued]
      exact joined_short hunfinished hline
    | false =>
      rewrite [typeLine_of_complete hcontinued, runLine_unfinished]
      exact not_hasLongIndex_of_length (Nat.zero_le _)

/-- What every line keeps that has no placeholder too long to be read. -/
structure Guarded (sh : Shell) : Prop extends Steady sh where
  short : ¬ HasLongIndex sh.unfinished

theorem Guarded.step (h : sh.Guarded) (hraw : ¬ HasLongIndex raw) : (sh.step raw).1.Guarded where
  toSteady := h.toSteady.step raw
  short := by
    rw [step_eq]
    dsimp only
    exact obey_short h.short fun hlong => hraw (hlong.mono (ShellLine.text_read_infix raw))

theorem Guarded.steps (h : sh.Guarded) {lines : List String}
    (hlines : ∀ raw ∈ lines, ¬ HasLongIndex raw) :
    (lines.foldl (fun sh raw => (sh.step raw).1) sh).Guarded := by
  induction lines generalizing sh with
  | nil => exact h
  | cons raw lines ih =>
    obtain ⟨hraw, hlines⟩ := List.forall_mem_cons.1 hlines
    rw [List.foldl_cons]
    exact ih (h.step hraw) hlines

theorem Guarded.step_settled (h : sh.Guarded) (hraw : ¬ HasLongIndex raw) :
    (sh.step raw).2 = .ok (decide (commandWord raw = "exit" ∨ commandWord raw = "EOF")) ∧
    ∀ f, sh.requested (ShellLine.read raw) = .error f → ∃ cause, f.cause? = some cause ∧
      sh.session.reporter.Reports (sh.step raw).1.session.reporter cause := by
  have hline : ¬ HasLongIndex (ShellLine.read raw).text :=
    fun hlong => hraw (hlong.mono (ShellLine.text_read_infix raw))
  obtain ⟨hleft, hreports⟩ := obey_settled h.toSteady h.short hline
  rw [step_eq]
  dsimp only
  refine ⟨?_, hreports⟩
  rw [hleft, Option.elim_none, isStop_read]

end Lines

/-- However many lines a new shell was given, and whatever they were: as long as no word in them has
a placeholder with more digits than can be read, nothing escapes from a line. It stops the shell
exactly if its command is to stop. If its request fails, be it that a text cannot be read as a
program or a statement, that a program fails, or that a tree is too deep to be listed, then this is
a problem whose message can be put together, and the message is printed as an error. -/
theorem no_failure_escapes [Machine] (style : Style) (fatal : Bool) (files : Files)
    (before : List String) (raw : String)
    (hshort : ∀ line ∈ before ++ [raw], ∀ word ∈ words line, ¬ HasLongIndex word) :
    let fresh := new (Session.start (Reporter.new style fatal) Session.shellPath true files).1
    let sh := before.foldl (fun sh raw => (sh.step raw).1) fresh
    (sh.step raw).2 = .ok (decide (commandWord raw = "exit" ∨ commandWord raw = "EOF")) ∧
    ∀ f, sh.requested (ShellLine.read raw) = .error f → ∃ cause, f.cause? = some cause ∧
      sh.session.reporter.Reports (sh.step raw).1.session.reporter cause := by
  intro fresh sh
  have hlines : ∀ line ∈ before ++ [raw], ¬ HasLongIndex line := by
    intro line hline hlong
    obtain ⟨word, hword, hlong⟩ := hlong.exists_word
    exact hshort line hline word hword hlong
  have hfresh : fresh.Guarded :=
    ⟨steady_new style fatal files, not_hasLongIndex_of_length (Nat.zero_le _)⟩
  have hsh : sh.Guarded :=
    hfresh.steps fun line hline => hlines line (List.mem_append_left _ hline)
  exact hsh.step_settled (hlines raw (List.mem_append_right _ List.mem_cons_self))

section StandardMachine

attribute [local instance] Machine.standard

/-- After a definition, a statement that fails and a command to stop, a tree is asked for of a text
with braces that is no program. -/
theorem no_failure_escapes_braces :
    let before := ["f := $1 plus $2", "f true 1", "exit"]
    let raw := "tree $1 plus $\x7b0\x7d"
    let fresh :=
      new (Session.start (Reporter.new .plain true) Session.shellPath true fun _ => none).1
    let sh := before.foldl (fun sh raw => (sh.step raw).1) fresh
    (∀ line ∈ before ++ [raw], ∀ word ∈ words line, ¬ HasLongIndex word) ∧
    sh.requested (ShellLine.read raw) =
      .error (.fault (.malformedArgument "$\x7b0\x7d" "$1 plus $\x7b0\x7d" 8)) ∧
    (sh.step raw).2 = .ok false ∧
    sh.session.reporter.Reports (sh.step raw).1.session.reporter
      (.malformedArgument "$\x7b0\x7d" "$1 plus $\x7b0\x7d" 8) := by
  intro before raw fresh sh
  have hlengths : ∀ line ∈ before ++ [raw], ∀ word ∈ words line,
      word.toList.length ≤ digitLimit := by decide +kernel
  have hshort : ∀ line ∈ before ++ [raw], ∀ word ∈ words line, ¬ HasLongIndex word :=
    fun line hline word hword => not_hasLongIndex_of_length (hlengths line hline word hword)
  have hfails : sh.requested (ShellLine.read raw) =
      .error (.fault (.malformedArgument "$\x7b0\x7d" "$1 plus $\x7b0\x7d" 8)) := by
    decide +kernel
  have hword : decide (commandWord raw = "exit" ∨ commandWord raw = "EOF") = false := by
    decide +kernel
  obtain ⟨hstep, hreports⟩ := no_failure_escapes .plain true (fun _ => none) before raw hshort
  obtain ⟨cause, hcause, hreports⟩ := hreports _ hfails
  obtain rfl := Option.some.inj hcause
  rw [hword] at hstep
  -- The shell is written out on both sides, since comparing it with its name would run the lines.
  simp only [sh, fresh]
  exact ⟨hshort, hfails, hstep, hreports⟩

end StandardMachine

end Shell

end CurryCalc
