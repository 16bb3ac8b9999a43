import CurryCalc.Proofs.CommandSession
import CurryCalc.Proofs.WordOffsets

/-! The column that a refused token is reported at. It is counted in the text of the tokens and
moved to where that text is found in the line, which is the column of the word itself for some lines
only. -/
namespace CurryCalc

theorem Bindings.filterMap_insertIn {κ α β : Type} [DecidableEq κ] {pick : κ × α → Option β}
    {name : κ} {old new : α} {b : β} (hold : pick (name, old) = none)
    (hnew : pick (name, new) = some b) {entries : List (κ × α)}
    (h : (insertIn name old entries).filterMap pick = []) :
    (insertIn name new entries).filterMap pick = [b] := by
  induction entries with
  | nil => simp [insertIn, hnew]
  | cons entry entries ih =>
    obtain ⟨other, x⟩ := entry
    by_cases hname : other = name
    · subst hname
      rw [insertIn, if_pos rfl, List.filterMap_cons_none hold] at h
      rw [insertIn, if_pos rfl, List.filterMap_cons_some hnew, h]
    · rw [insertIn, if_neg hname] at h ⊢
      cases hx : pick (other, x) with
      | none =>
        rw [List.filterMap_cons_none hx] at h ⊢
        exact ih h
      | some y =>
        rw [List.filterMap_cons_some hx] at h
        cases h

namespace Reporter

variable {r r' : Reporter} {path : String}

theorem active_eq_of_frames (h : r'.frames = r.frames) : r'.active = r.active := by
  unfold active
  rw [h]

/-- Where no statement of another file is under way, the one of this file is the innermost. -/
theorem active_registerLine (h : (r.removeLine path).active = []) {line : String}
    (hline : line ≠ "") (number : Int) :
    (r.registerLine path line number).active = [(path, line, some number)] :=
  Bindings.filterMap_insertIn rfl (if_neg (by simpa using hline)) h

theorem Prints.removeLine_active {line : String} {number : Int}
    (h : (r.registerLine path line number).Prints r') :
    (r'.removeLine path).active = (r.removeLine path).active := by
  have hagain := (h.register path .idle).frames_eq
  rw [registerLine, register_register] at hagain
  exact active_eq_of_frames hagain

theorem Prints.style_eq (h : r.Prints r') : r'.style = r.style := by
  obtain ⟨_, rfl⟩ := h
  rfl

end Reporter

section Refusals

variable [Machine]

namespace Session

open Statement (perform)

/-- Statements that succeed leave nothing under way; the one that fails after them is the
innermost. -/
theorem runPending_first_error {names last : Namespace} {before : List (Int × String)}
    {out : List String} (h : Executes names before last out) {text : String} (htext : text ≠ "")
    {f : Failure} (hfails : perform text last = .error f) (line : Int) (rest : List (Int × String))
    {s : Session} (hs : s.names = names) (hidle : (s.reporter.removeLine s.path).active = []) :
    ∃ t, s.runPending (before ++ (line, text) :: rest) = (t, some f) ∧
      t.reporter.style = s.reporter.style ∧
      t.reporter.active = [(s.path, text, some line)] := by
  induction h generalizing s with
  | none names =>
    subst hs
    obtain ⟨reporter, hprints, hrun⟩ := runPending_cons_error hfails line rest
    refine ⟨{ s with reporter := reporter, pending := rest }, hrun, hprints.style_eq, ?_⟩
    rw [Reporter.active_eq_of_frames hprints.frames_eq]
    exact Reporter.active_registerLine hidle htext line
  | @next names names' last line' text' result before out hperform _ ih =>
    subst hs
    obtain ⟨reporter, hprints, hrun⟩ :=
      runPending_cons_ok hperform line' (before ++ (line, text) :: rest)
    have hidle' : ((reporter.removeLine s.path).removeLine s.path).active = [] := by
      have hagain :
          (reporter.removeLine s.path).removeLine s.path = reporter.removeLine s.path := by
        simp [Reporter.removeLine, Reporter.registerFile]
      rw [hagain, hprints.removeLine_active, hidle]
    obtain ⟨t, ht, hstyle, hactive⟩ := ih hfails (s := { s with
      reporter := reporter.removeLine s.path, names := names',
      results := s.results ++ result.toList }) rfl hidle'
    exact ⟨t, hrun.trans ht, hstyle.trans hprints.style_eq, hactive⟩

end Session

namespace Statement

/-- A text that is no definition and no application fails like the tokens that it is read as. -/
theorem perform_of_refused {text : String} {names : Namespace}
    (hmark : ¬ declareMark.toList <:+: text.toList) (hprogram : isApplication text names = false)
    {tokens : List Token} (htokens : tokenize (trim text) = .ok tokens) (hne : tokens ≠ [])
    {cause : Fault} (hparse : parse tokens = .error (.fault cause)) :
    perform text names = .error (.fault cause) := by
  have hcompile : Program.compile tokens = .error (.fault cause) := by
    rw [Program.compile, hparse]
  have hsome : isProgram text = true := by
    rw [isProgram, Bool.not_eq_true', Bool.eq_false_iff]
    intro hempty
    rw [String.isEmpty_iff.1 hempty] at htokens
    cases htokens
    exact hne rfl
  unfold perform infer
  rw [isDefinition_unmarked hmark]
  dsimp only
  rw [if_neg (by simp [hprogram]), if_pos hsome, ofProgram, htokens, Outcome.bind_ok, hcompile]
  rfl

end Statement

namespace Session

/-- A program statement whose tokens are refused at one of them is located in its line. The column
is that of the word in the line exactly if the line, blank characters in front apart, starts with
the words of the statement one space apart; or if they do not stand like that anywhere in the line
and the words up to the one refused are one character apart, with nothing before them. -/
theorem run_locates_word_iff {s : Session} (hidle : (s.reporter.removeLine s.path).active = [])
    {before rest : List (Int × String)} {line : Int} {text : String} {names : Namespace}
    {out : List String} (hpending : s.pending = before ++ (line, text) :: rest)
    (hbefore : Executes s.names before names out) (hmark : ¬ declareMark.toList <:+: text.toList)
    (hprogram : Statement.isApplication text names = false) {tokens : List Token}
    (htokens : tokenize (trim text) = .ok tokens) {expected source : Value} {found : Token}
    {position start stop : Int} (hparse : parse tokens =
      .error (.fault (.unexpected expected (some found) position source start stop))) :
    ∃ (t : Session) (p : Nat) (w : Word) (column : Nat), position = p ∧
      s.run = (t, some (.fault (.unexpected expected (some found) position source start stop))) ∧
      (wordsAt text)[p]? = some w ∧
      t.reporter.locationOf
          (.fault (.unexpected expected (some found) position source start stop)) =
        .ok (s.reporter.style.bold
          (s.path ++ ":" ++ intText line ++ ":" ++ intText column ++ ": ")) ∧
      (column = w.offset + 1 ↔
        (∃ front back, text = front ++ sourceOf tokens ++ back ∧ ∀ c ∈ front.toList, isBlank c) ∨
        (∀ front back, text ≠ front ++ sourceOf tokens ++ back) ∧ OneApart text p) := by
  have hne : tokens ≠ [] := by
    rintro rfl
    obtain ⟨wanted, rest, -, hp⟩ := Grammar.refused_of_unexpected hparse
    cases hp.symm.trans hparse
  have htexts := text_ne_empty_of_tokenize htokens
  have htext : text ≠ "" := by
    rintro rfl
    cases htokens
    exact hne rfl
  have hfails := Statement.perform_of_refused hmark hprogram htokens hne hparse
  obtain ⟨t, hrun, hstyle, hactive⟩ :=
    runPending_first_error hbefore htext hfails line rest rfl hidle
  rw [← hpending] at hrun
  obtain ⟨p, first, last, rfl, -, hfound, rfl, rfl, rfl, -, hsome, -⟩ :=
    refusal_place hne htexts hparse
  obtain ⟨rfl, -⟩ := hsome found hfound.symm
  obtain ⟨w, hw, -⟩ := exists_word htokens hfound.symm
  obtain ⟨n, hn⟩ := Fault.worded_unexpected expected (some found) p (sourceOf tokens)
    (tokenOffset tokens p) last t.reporter.style
  obtain ⟨hexpr, hstart, -, -⟩ :=
    Fault.shows_unexpected (sourceOf_ne_empty hne htexts) (by omega) hn
  have hiff := found_offset_eq_iff htokens hfound.symm hw
  obtain ⟨shift, hshift⟩ : ∃ shift : Nat, max (offsetOf text (sourceOf tokens)) 0 = shift :=
    Int.eq_ofNat_of_zero_le (Int.le_max_right _ _)
  refine ⟨t, p, w, shift + tokenOffset tokens p + 1, rfl, hrun, hw, ?_, ?_⟩
  · have hlocation : t.reporter.location n = s.reporter.style.bold
        (s.path ++ ":" ++ intText line ++ ":" ++
          intText (shift + tokenOffset tokens p + 1 : Nat) ++ ": ") := by
      rw [Reporter.location, hactive, List.getLast?_singleton, hstyle]
      dsimp only
      rw [hexpr, hstart, hshift]
      rfl
    rw [Reporter.locationOf, hn]
    exact congrArg Except.ok hlocation
  · rw [← hiff, hshift]
    omega

end Session

end Refusals

section StandardMachine

attribute [local instance] Machine.standard

namespace Session

/-- After a definition, a tab and words one space apart: the sixth word is located, and not the one
in the comment. -/
theorem run_locates_word_iff_after_tab :
    let text := "\tlet y 2 in y y ;; y y"
    let s := (((new (.new .plain true) shellPath).add "f := $1 plus 1" none).1.add text none).1
    ∃ t f, s.run = (t, some f) ∧ t.reporter.locationOf f = .ok "<in>:2:15: " ∧
      (wordsAt text)[5]? = some ⟨14, "y"⟩ := by
  intro text s
  have hidle : (s.reporter.removeLine s.path).active = [] := by decide +kernel
  have hplace : s.reporter.style = .plain ∧ s.path = "<in>" := by decide +kernel
  have hpending : s.pending = [(1, "f := $1 plus 1")] ++ (2, text) :: [] := by decide +kernel
  have hword : (wordsAt text)[5]? = some ⟨14, "y"⟩ := by decide +kernel
  have hdefined : (Statement.perform "f := $1 plus 1" s.names).toOption.map
      (fun after => Statement.isApplication text after.1) = some false := by decide +kernel
  have htokens :
      (tokenize (trim text)).toOption =
      some [⟨.keyword .letWord, "let"⟩, ⟨.name "y", "y"⟩,
      ⟨.number (.float (Binary64.ofInt 2)), "2"⟩, ⟨.keyword .inWord, "in"⟩, ⟨.name "y", "y"⟩,
      ⟨.name "y", "y"⟩] := by decide +kernel
  clear_value s
  cases hperform : Statement.perform "f := $1 plus 1" s.names with
  | error f =>
    rw [hperform] at hdefined
    cases hdefined
  | ok after =>
    rw [hperform] at hdefined
    cases hread : tokenize (trim text) with
    | error f =>
      rw [hread] at htokens
      cases htokens
    | ok tokens =>
      rw [hread] at htokens
      obtain rfl := Option.some.inj htokens
      obtain ⟨t, p, w, column, hp, hrun, hw, hlocation, hiff⟩ := run_locates_word_iff hidle hpending
        (.next hperform (.none _)) (by decide +kernel) (Option.some.inj hdefined) hread rfl
      obtain rfl : 5 = p := Int.ofNat.inj hp
      cases hw.symm.trans hword
      obtain rfl : column = 15 :=
        hiff.2 (.inl ⟨"\t", " ;; y y", by decide +kernel, by simp; decide⟩)
      rw [hplace.1, hplace.2] at hlocation
      exact ⟨t, _, hrun, hlocation.trans (congrArg Except.ok (by decide +kernel)), hword⟩

/-- With two spaces between two numbers, the second one is located one column before it. -/
theorem wide_gap_shifts_column :
    let s := ((new (.new .plain false) shellPath).add "1  2" (some 1)).1
    s.run.2 = some (.fault (.unexpected "end of input"
      (some ⟨.number (.float (Binary64.ofInt 2)), "2"⟩) 1 "1 2" 2 3)) ∧
    (s.run.2.bind fun f => (s.run.1.reporter.locationOf f).toOption) = some "<in>:1:3: " ∧
    (wordsAt "1  2")[1]? = some ⟨3, "2"⟩ := by
  decide +kernel

end Session

end StandardMachine

end CurryCalc
