import CurryCalc.Proofs.CanonicalSource
import CurryCalc.Proofs.ScriptText
import CurryCalc.Proofs.SessionNames
import CurryCalc.Proofs.ValueWords

/-! A program run as a command and the same program applied in a session. A session binds the
program to a name and applies it to its arguments in as many statements as one likes, each giving a
name to what the one before it gave; the last statement then gives what the command gives, or fails
as it fails. -/
namespace CurryCalc

/-- A name that a definition can bind: it has no mark of a definition in it. -/
structure IsTarget (x : String) : Prop extends IsName x where
  unmarked : ¬ declareMark.toList <:+: x.toList

theorem IsName.isWord {x : String} (h : IsName x) : IsWord x := ⟨h.nonempty, h.unbroken⟩

def bindingText (name definition : String) : String := name ++ " := " ++ definition

/-- Statements that apply a bound program to words, some at a time. Each step has the name for what
it gives and its words; the last statement gives the result. -/
def applications : String → List (String × List String) → List String → List String
  | f, [], last => [spaced (f :: last)]
  | f, (g, chunk) :: steps, last => bindingText g (spaced (f :: chunk)) :: applications g steps last

section Texts

theorem trim_trimRight (s : String) : trim (trimRight s) = trim s := by
  rw [← trim_trimLeft, trimLeft_trimRight, trim_trim]

theorem words_trimRight (s : String) : words (trimRight s) = words s := by
  rw [← words_trim, trim_trimRight, words_trim]

theorem trim_space (s : String) : trim (String.ofList (' ' :: s.toList)) = trim s := by
  have hleft : trimLeft (String.ofList (' ' :: s.toList)) = trimLeft s := by
    rw [trimLeft, String.toList_ofList, trimLeft, List.dropWhile_cons_of_pos (by decide)]
  rw [← trim_trimLeft, hleft, trim_trimLeft]

theorem tokenize_trim {s : String} {tokens : List Token} (h : tokenize s = .ok tokens) :
    tokenize (trim s) = .ok tokens := by
  rw [tokenize_eq_ok_iff] at h ⊢
  rw [← words_trimRight, trim_cutBefore, words_trim, h]

theorem spaced_unmarked {ws : List String} (hwords : ∀ w ∈ ws, IsWord w)
    (h : ∀ w ∈ ws, ¬ declareMark.toList <:+: w.toList) :
    ¬ declareMark.toList <:+: (spaced ws).toList := by
  intro hmark
  have hword : IsWord declareMark := by decide
  obtain ⟨w, hw, hin⟩ := occurs_in_word hword.nonempty hword.unbroken hmark
  rw [words_spaced hwords] at hw
  exact h w hw hin

variable {x d : String}

theorem bindingText_toList (x d : String) : (bindingText x d).toList =
    x.toList ++ ' ' :: (declareMark.toList ++ ' ' :: d.toList) := by
  simp [bindingText, declareMark]

theorem trim_bindingText (hx : IsWord x) (hd : words d ≠ []) :
    trim (bindingText x d) = bindingText x (trimRight d) := by
  obtain ⟨hlast, after, hafter, hsplit⟩ := exists_trimRight d
  have hne : (trimRight d).toList ≠ [] := by
    intro hnil
    rw [String.toList_eq_nil_iff] at hnil
    exact hd (by rw [← words_trimRight, hnil]; rfl)
  refine trim_eq_of_toList [] after ?_ nofun hafter ?_
  · obtain ⟨c, cs, hcs⟩ := List.exists_cons_of_ne_nil hx.nonempty
    rw [bindingText_toList]
    constructor
    · intro b hb
      apply hx.unbroken
      rw [hcs] at hb ⊢
      simp_all
    · intro b hb
      apply hlast
      obtain ⟨e, es, hes⟩ := List.exists_cons_of_ne_nil hne
      rw [hes] at hb ⊢
      simpa [List.getLast?_append, List.getLast?_cons] using hb
  · rw [bindingText_toList, bindingText_toList, hsplit]
    simp

theorem occurrences_bindingText (hx : ¬ declareMark.toList <:+: x.toList)
    (hd : ¬ declareMark.toList <:+: d.toList) :
    occurrencesFrom declareMark.toList 0 (bindingText x d).toList = [x.toList.length + 1] := by
  have hmark : declareMark.toList ≠ [] := by decide
  have hspace : ' ' ∉ declareMark.toList := by decide
  have hhere (i : Nat) : occurrencesFrom declareMark.toList i declareMark.toList = [i] := by
    simp [occurrencesFrom, declareMark]
  rw [bindingText_toList, occurrencesFrom_append_cons hmark hspace, occurrencesFrom_eq_nil hmark hx,
    occurrencesFrom_append_cons hmark hspace, hhere, occurrencesFrom_eq_nil hmark hd]
  simp

theorem words_take_bindingText (hx : IsWord x) (d : String) :
    words (String.ofList ((bindingText x d).toList.take (x.toList.length + 1))) = [x] := by
  have htake : String.ofList ((bindingText x d).toList.take (x.toList.length + 1)) =
      x ++ " " ++ "" := by
    rw [← String.toList_inj, bindingText_toList, List.take_length_add_append]
    simp
  rw [htake, words_join, hx.words_eq]
  rfl

theorem trim_drop_bindingText (x d : String) : trim (String.ofList
    ((bindingText x d).toList.drop (x.toList.length + 1 + declareMark.toList.length))) =
      trim d := by
  have hdrop : (bindingText x d).toList.drop (x.toList.length + 1 + declareMark.toList.length) =
      ' ' :: d.toList := by
    rw [bindingText_toList, Nat.add_assoc, List.drop_length_add_append, Nat.add_comm 1,
      List.drop_succ_cons, List.drop_left]
  rw [hdrop, trim_space]

end Texts

namespace Statement

variable {names : Namespace} {f x d : String} {c : Closure} {chunk : List String}

theorem isDefinition_of_mark {text : String} {i : Nat}
    (hfirst : findOffset? (trim text) declareMark = some i)
    (hlast : findLastOffset? (trim text) declareMark = some i)
    (hwords : words (String.ofList ((trim text).toList.take i)) = [x]) (hx : IsName x)
    (hdefinition : (trim (String.ofList ((trim text).toList.drop (i + 2)))).isEmpty = false)
    (cited : String) : isDefinition text cited = .ok true := by
  unfold isDefinition
  dsimp only
  rw [hfirst]
  dsimp only
  rw [if_neg (by simp [hlast]), hwords]
  dsimp only
  rw [boolean?_eq_none_iff.2 hx.notBoolean, hx.classified]
  simp [hdefinition]

theorem words_application (hf : IsWord f) (hchunk : ∀ w ∈ chunk, IsValueWord w) :
    words (spaced (f :: chunk)) = f :: chunk :=
  words_spaced (List.forall_mem_cons.2 ⟨hf, fun w hw => (hchunk w hw).isWord⟩)

theorem application_unmarked (hf : IsTarget f) (hchunk : ∀ w ∈ chunk, IsValueWord w) :
    ¬ declareMark.toList <:+: (spaced (f :: chunk)).toList :=
  spaced_unmarked (List.forall_mem_cons.2 ⟨hf.isWord, fun w hw => (hchunk w hw).isWord⟩)
    (List.forall_mem_cons.2 ⟨hf.unmarked, fun w hw => (hchunk w hw).unmarked⟩)

section Performing
variable [Machine]

theorem infer_bindingText (hx : IsTarget x) (hd : ¬ declareMark.toList <:+: d.toList)
    (hwords : words d ≠ []) (names : Namespace) (cited : String) :
    infer (bindingText x d) names cited =
      .ok ⟨trim (bindingText x d), cited, .define x (trim d)⟩ := by
  have htrim := trim_bindingText hx.isWord hwords
  have hright : ¬ declareMark.toList <:+: (trimRight d).toList := by
    obtain ⟨-, after, -, hsplit⟩ := exists_trimRight d
    exact fun h => hd (h.trans (hsplit ▸ List.prefix_append _ _).isInfix)
  have hoccurs := occurrences_bindingText hx.unmarked hright
  have hfirst : findOffset? (trim (bindingText x d)) declareMark = some (x.toList.length + 1) := by
    rw [htrim, findOffset?, firstOffset?_eq_head?, hoccurs]
    rfl
  have hlast :
      findLastOffset? (trim (bindingText x d)) declareMark = some (x.toList.length + 1) := by
    rw [htrim, findLastOffset?, hoccurs]
    rfl
  have htarget := words_take_bindingText hx.isWord (trimRight d)
  have hdefinition := trim_drop_bindingText x (trimRight d)
  rw [← htrim] at htarget hdefinition
  rw [trim_trimRight] at hdefinition
  have hsome : (trim d).isEmpty = false := by
    rw [Bool.eq_false_iff]
    exact mt trim_isEmpty_iff.1 hwords
  have hfound := isDefinition_of_mark hfirst hlast htarget hx.toIsName
    ((congrArg String.isEmpty hdefinition).trans hsome) cited
  have hof := ofDefinition_of_mark hfirst hlast htarget cited
  rw [hdefinition] at hof
  unfold infer
  rewrite [hfound]
  exact hof

theorem perform_bindingText (hx : IsTarget x) (hd : ¬ declareMark.toList <:+: d.toList)
    (hwords : words d ≠ []) {item : Item} (hitem : definedItem (trim d) names = .ok item) :
    perform (bindingText x d) names = .ok (names.insert x item, none) := by
  unfold perform
  rw [infer_bindingText hx hd hwords, Outcome.bind_ok]
  unfold execute
  dsimp only
  rw [hitem]
  rfl

theorem applyNamed_eq (hfind : names.find? f = some (.closure c))
    (hchunk : ∀ w ∈ chunk, IsValueWord w) :
    applyNamed f chunk names = c.call (chunk.map wordValue) := by
  unfold applyNamed
  rw [mapM_parseValue hchunk, Outcome.bind_ok, hfind]

theorem definedItem_application (hf : IsWord f) (hfind : names.find? f = some (.closure c))
    (hchunk : ∀ w ∈ chunk, IsValueWord w) :
    definedItem (trim (spaced (f :: chunk))) names = c.call (chunk.map wordValue) := by
  have hwords := words_application hf hchunk
  rw [← words_trim] at hwords
  unfold definedItem
  rw [if_pos (isApplication_iff.2 ⟨f, chunk, c, hwords, hfind⟩), hwords]
  exact applyNamed_eq hfind hchunk

/-- Applying a name as a statement calls its closure, and prints what the call gives. -/
theorem perform_application (hf : IsTarget f) (hfind : names.find? f = some (.closure c))
    (hchunk : ∀ w ∈ chunk, IsValueWord w) {outcome : Except Failure Item}
    (hcall : c.call (chunk.map wordValue) = outcome) :
    perform (spaced (f :: chunk)) names =
      outcome >>= fun item => (item.shown f).map fun text => (names, some text) := by
  have hwords := words_application hf.isWord hchunk
  have happlication : isApplication (spaced (f :: chunk)) names = true :=
    isApplication_iff.2 ⟨f, chunk, c, hwords, hfind⟩
  unfold perform infer
  rw [isDefinition_unmarked (application_unmarked hf hchunk)]
  dsimp only
  rw [if_pos happlication, ofApplication, hwords, Outcome.bind_ok]
  unfold execute
  dsimp only
  rw [applyNamed_eq hfind hchunk, hcall]
  cases outcome with
  | error g => rfl
  | ok item =>
    rw [Outcome.bind_ok, Outcome.bind_ok]
    cases item.shown f <;> rfl

/-- Where no name is bound, a program that waits for arguments is what its text defines. -/
theorem definedItem_program {tokens : List Token} {p : Program} (htokens : tokenize d = .ok tokens)
    (hcompile : Program.compile tokens = .ok p) (harity : 0 < p.arity) :
    definedItem (trim d) Bindings.empty = .ok (.closure ⟨p, []⟩) := by
  have hnot : ¬ isApplication (trim d) Bindings.empty = true := by
    rw [isApplication_iff]
    rintro ⟨name, args, c, -, hfind⟩
    cases hfind
  have hremaining : ¬ (⟨p, []⟩ : Closure).remaining = 0 := by
    simp only [Closure.remaining, List.length_nil]
    omega
  unfold definedItem
  rw [if_neg hnot, tokenize_trim htokens, Outcome.bind_ok, Closure.compile_of_ok hcompile,
    Outcome.bind_ok, if_neg hremaining]
  rfl

end Performing

end Statement

/-- A run in which all statements before the last succeed and print nothing, and the last one gives
something to print or fails. -/
def Session.Concludes (results : List String) (outcome : Except Failure String)
    (after : Session × Option Failure) : Prop :=
  after.1.pending = [] ∧
    match outcome with
    | .ok out => after.2 = none ∧ after.1.results = results ++ [out]
    | .error f => after.2 = some f ∧ after.1.results = results

section Commands
variable [Machine]

theorem runCommand_eq {program : String} {tokens : List Token} {p : Program} {ws : List String}
    (htokens : tokenize program = .ok tokens) (hcompile : Program.compile tokens = .ok p)
    (hws : ∀ w ∈ ws, IsValueWord w) (hcount : (ws.length : Int) = p.arity) :
    runCommand program ws = p.run (ws.map wordValue) >>= shownValue := by
  have hcall :
      (⟨p, []⟩ : Closure).call (ws.map wordValue) = (p.run (ws.map wordValue)).map .value :=
    Closure.call_of_eq (by simpa using hcount)
  unfold runCommand
  rw [htokens, Outcome.bind_ok, Closure.compile_of_ok hcompile, Outcome.bind_ok,
    mapM_parseValue hws, Outcome.bind_ok, hcall]
  cases p.run (ws.map wordValue) <;> rfl

namespace Session

variable {s : Session}

/-- A closure applied in steps gives what its program gives for all arguments. The induction is on
the steps; each binds a closure that has collected the words of its chunk. -/
theorem runPending_applications {f : String} {c : Closure} {steps : List (String × List String)}
    {last : List String} {pending : List (Int × String)} (hf : IsTarget f)
    (hsteps : ∀ step ∈ steps, IsTarget step.1)
    (hwords : ∀ w ∈ steps.flatMap Prod.snd ++ last, IsValueWord w)
    (hcount : ((c.arguments.length + (steps.flatMap Prod.snd ++ last).length : Nat) : Int) =
      c.program.arity)
    (hlast : last ≠ []) (hfind : s.names.find? f = some (.closure c))
    (hpending : pending.map Prod.snd = applications f steps last) :
    Concludes s.results (c.program.run
      (c.arguments ++ (steps.flatMap Prod.snd ++ last).map wordValue) >>= shownValue)
      (s.runPending pending) := by
  induction steps generalizing s f c pending with
  | nil =>
    obtain ⟨⟨line, text⟩, rfl, rfl⟩ :
      ∃ entry, pending = [entry] ∧ entry.2 = spaced (f :: last) := by
      simpa [applications, List.map_eq_cons_iff] using hpending
    rw [List.flatMap_nil, List.nil_append] at hwords hcount ⊢
    have hcall : c.call (last.map wordValue) = _ := Closure.call_of_eq (by simpa using hcount)
    have hperform := Statement.perform_application hf hfind hwords hcall
    have hshown : Statement.perform (spaced (f :: last)) s.names =
        (c.program.run (c.arguments ++ last.map wordValue) >>= shownValue).map
          fun text => (s.names, some text) := by
      rw [hperform]
      cases c.program.run (c.arguments ++ last.map wordValue) <;> rfl
    generalize (c.program.run (c.arguments ++ last.map wordValue) >>= shownValue) =
      outcome at hshown ⊢
    cases outcome with
    | ok text =>
      obtain ⟨t, -, hresults, -, hrun⟩ := runPending_of_ok hshown line []
      rw [hrun]
      exact ⟨rfl, rfl, hresults⟩
    | error g =>
      obtain ⟨t, -, hresults, hrest, -, hrun⟩ := runPending_of_error hshown line []
      rw [hrun]
      exact ⟨hrest, rfl, hresults⟩
  | cons step steps ih =>
    obtain ⟨g, chunk⟩ := step
    obtain ⟨hg, hsteps⟩ := List.forall_mem_cons.1 hsteps
    rw [List.flatMap_cons, List.append_assoc] at hwords hcount ⊢
    obtain ⟨hchunk, hwords⟩ := List.forall_mem_append.1 hwords
    obtain ⟨⟨line, text⟩, rest, rfl, rfl, hrest⟩ : ∃ entry rest, pending = entry :: rest ∧
        entry.2 = bindingText g (spaced (f :: chunk)) ∧
        rest.map Prod.snd = applications g steps last := by
      simpa [applications, List.map_eq_cons_iff] using hpending
    have hpos := List.length_pos_iff.2 hlast
    simp only [List.length_append] at hcount
    have hcall : c.call (chunk.map wordValue) =
        .ok (.closure ⟨c.program, c.arguments ++ chunk.map wordValue⟩) :=
      Closure.call_of_lt (by simp only [List.length_append, List.length_map]; omega)
    have hwordsText : words (spaced (f :: chunk)) ≠ [] := by
      rw [Statement.words_application hf.isWord hchunk]
      exact List.cons_ne_nil _ _
    have hperform := Statement.perform_bindingText hg (Statement.application_unmarked hf hchunk)
      hwordsText ((Statement.definedItem_application hf.isWord hfind hchunk).trans hcall)
    obtain ⟨t, hnames, hresults, -, hrun⟩ := runPending_of_ok hperform line rest
    have hnext : t.names.find? g =
        some (.closure ⟨c.program, c.arguments ++ chunk.map wordValue⟩) := by
      rw [hnames, Bindings.find?_insert, if_pos rfl]
    have hconcludes := ih hg hsteps hwords
      (by simp only [List.length_append, List.length_map]; omega) hnext hrest
    rw [hresults, Option.toList_none, List.append_nil, List.append_assoc, ← List.map_append]
      at hconcludes
    rw [hrun]
    exact hconcludes

/-- Take a program without a mark of a definition in its text that compiles, and as many words for
numbers and truth values as it has arguments. If a session in which no name is bound has pending a
definition of the program, then applications of each name to a chunk of the words that bind the next
name, and last an application of the last name to the rest of the words, at least one, then the run
gets to the last statement, which gives exactly what the program gives as a command with all the
words, or fails with the same failure. -/
theorem run_chunks_eq_command {program : String} {tokens : List Token} {p : Program}
    (hunmarked : ¬ declareMark.toList <:+: program.toList)
    (htokens : tokenize program = .ok tokens) (hcompile : Program.compile tokens = .ok p)
    {f : String} {steps : List (String × List String)} {last : List String}
    (hf : IsTarget f) (hsteps : ∀ step ∈ steps, IsTarget step.1)
    (hwords : ∀ w ∈ steps.flatMap Prod.snd ++ last, IsValueWord w)
    (hcount : ((steps.flatMap Prod.snd ++ last).length : Int) = p.arity) (hlast : last ≠ [])
    {s : Session} (hnames : s.names = Bindings.empty)
    (hpending : s.pending.map Prod.snd = bindingText f program :: applications f steps last) :
    Concludes s.results (runCommand program (steps.flatMap Prod.snd ++ last)) s.run := by
  obtain ⟨⟨line, text⟩, rest, hqueue, rfl, hrest⟩ : ∃ entry rest, s.pending = entry :: rest ∧
      entry.2 = bindingText f program ∧ rest.map Prod.snd = applications f steps last := by
    simpa [List.map_eq_cons_iff] using hpending
  have hpos := List.length_pos_iff.2 hlast
  have harity : 0 < p.arity := by
    rw [← hcount, List.length_append]
    omega
  have hnonblank : words program ≠ [] := by
    intro hblank
    have hnone := tokenize_trim htokens
    rw [trim_eq_empty_iff.2 hblank] at hnone
    cases hnone
    exact Program.compile_nil p hcompile
  have hperform := Statement.perform_bindingText hf hunmarked hnonblank
    (Statement.definedItem_program htokens hcompile harity)
  rw [← hnames] at hperform
  obtain ⟨t, hbound, hresults, -, hrun⟩ := runPending_of_ok hperform line rest
  have hfind : t.names.find? f = some (.closure ⟨p, []⟩) := by
    rw [hbound, Bindings.find?_insert, if_pos rfl]
  have hconcludes :=
    runPending_applications hf hsteps hwords (by simpa using hcount) hlast hfind hrest
  rw [hresults, Option.toList_none, List.append_nil] at hconcludes
  rw [run, hqueue, hrun, runCommand_eq htokens hcompile hwords hcount]
  exact hconcludes

end Session

end Commands

section StandardMachine
attribute [local instance] Machine.standard

namespace Session

/-- A program with blank characters before it and a comment after it, applied to its first argument,
to none, and to its second one. -/
theorem run_chunks_eq_command_difference :
    let program := "  let x $1 in x minus $2 ;; difference"
    let steps := [("g", ["5"]), ("h", [])]
    let s := (Session.new (Reporter.new .plain false) shellPath).addLines
      [(1, bindingText "f" program), (4, "g := f 5"), (5, "h := g"), (9, "h 1.5")]
    s.pending.map Prod.snd = bindingText "f" program :: applications "f" steps ["1.5"] ∧
      runCommand program ["5", "1.5"] = .ok "3.5" ∧
      s.run.1.pending = [] ∧ s.run.2 = none ∧ s.run.1.results = ["3.5"] := by
  intro program steps s
  have htarget : ∀ x ∈ ["f", "g", "h"], IsTarget x := by
    intro x hx
    have hclassify : ∀ x ∈ ["f", "g", "h"], classify x .nothing 0 = .ok ⟨.name x, x⟩ := by
      decide +kernel
    have hword : ∀ x ∈ ["f", "g", "h"], IsWord x ∧ (x ≠ "true" ∧ x ≠ "false") ∧
        ¬ declareMark.toList <:+: x.toList := by decide +kernel
    obtain ⟨⟨hne, hunbroken⟩, hnotBoolean, hunmarked⟩ := hword x hx
    exact ⟨⟨hne, hunbroken, (classify_name (hclassify x hx)).2, hnotBoolean⟩, hunmarked⟩
  have hpending : s.pending.map Prod.snd =
      bindingText "f" program :: applications "f" steps ["1.5"] := by decide +kernel
  have hcommand : runCommand program ["5", "1.5"] = .ok "3.5" := by decide +kernel
  have hprogram : (tokenize program >>= Program.compile).map Program.arity = .ok 2 := by
    decide +kernel
  obtain ⟨p, hp, harity⟩ := Outcome.ok_of_map hprogram
  obtain ⟨tokens, htokens, hcompile⟩ := Outcome.ok_of_bind hp
  have hwords : ∀ w ∈ steps.flatMap Prod.snd ++ ["1.5"], IsValueWord w := by decide +kernel
  have hsteps : ∀ step ∈ steps, IsTarget step.1 := by
    have hin : ∀ step ∈ steps, step.1 ∈ ["f", "g", "h"] := by decide
    exact fun step hstep => htarget step.1 (hin step hstep)
  have hnames : s.names = Bindings.empty := by decide +kernel
  have hrun := run_chunks_eq_command (by decide +kernel) htokens hcompile (htarget "f" (by decide))
    hsteps hwords harity.symm (List.cons_ne_nil _ _) hnames hpending
  have hall : steps.flatMap Prod.snd ++ ["1.5"] = ["5", "1.5"] := by decide
  have hresults : s.results = [] := by decide +kernel
  rw [hall, hcommand, hresults] at hrun
  obtain ⟨hdone, hnone, hprinted⟩ := hrun
  exact ⟨hpending, hcommand, hdone, hnone, hprinted⟩

end Session

end StandardMachine

end CurryCalc
