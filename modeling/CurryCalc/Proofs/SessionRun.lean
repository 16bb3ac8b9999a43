import CurryCalc.Proofs.Reporting
import CurryCalc.Session
import Mathlib.Data.List.Sort

/-! Running the pending statements of a session. They run in the order of their lines, each with the
names that those before it left. A statement that fails changes nothing but the report, and what is
after it stays pending; so running again until nothing is pending does what running all statements
and skipping those that fail does. -/
namespace CurryCalc

namespace Statement

def target? (s : Statement) : Option String :=
  match s.action with
  | .define name _ => some name
  | _ => none

variable [Machine]

/-- What a statement does: it is classified by the names that are bound, and executed with them. -/
@[irreducible] def perform (text : String) (names : Namespace) :
    Except Failure (Namespace × Option String) := do
  let statement ← infer text names text
  statement.execute names

theorem execute_find? {s : Statement} {names names' : Namespace} {result : Option String}
    (h : s.execute names = .ok (names', result)) {x : String} (hx : s.target? ≠ some x) :
    names'.find? x = names.find? x := by
  unfold execute at h
  unfold target? at hx
  split at h
  next name definition haction =>
    obtain ⟨item, -, hitem⟩ := Outcome.ok_of_bind h
    cases hitem
    rw [Bindings.find?_insert, if_neg]
    intro hname
    simp [haction, hname] at hx
  next name args haction =>
    obtain ⟨item, -, hitem⟩ := Outcome.ok_of_bind h
    obtain ⟨shown, -, hshown⟩ := Outcome.ok_of_bind hitem
    cases hshown
    rfl
  next program haction =>
    split at h
    · obtain ⟨v, -, hv⟩ := Outcome.ok_of_bind h
      obtain ⟨shown, -, hshown⟩ := Outcome.ok_of_bind hv
      cases hshown
      rfl
    · cases h
      rfl

theorem perform_find? {text : String} {names names' : Namespace} {result : Option String}
    (h : perform text names = .ok (names', result)) :
    ∃ statement, infer text names text = .ok statement ∧
      ∀ x, statement.target? ≠ some x → names'.find? x = names.find? x := by
  unfold perform at h
  obtain ⟨statement, hinfer, hexecute⟩ := Outcome.ok_of_bind h
  exact ⟨statement, hinfer, fun x => execute_find? hexecute⟩

end Statement

namespace Session

open Statement (perform)

/-- Pending statements are in the order of their lines, with one at most on each line. -/
def Ascending (s : Session) : Prop := s.pending.Pairwise fun a b => a.1 < b.1

def addLines (s : Session) (lines : List (Int × String)) : Session :=
  lines.foldl (fun s line => (s.add line.2 (some line.1)).1) s

section Queue

theorem mem_enqueue {line : Int} {text : String} {pending : List (Int × String)}
    (h : pending.Pairwise fun a b => a.1 < b.1) {p : Int × String} :
    p ∈ enqueue line text pending ↔ p = (line, text) ∨ p ∈ pending ∧ p.1 ≠ line := by
  induction pending with
  | nil => simp [enqueue]
  | cons q rest ih =>
    obtain ⟨n, t⟩ := q
    obtain ⟨hhead, hrest⟩ := List.pairwise_cons.1 h
    rw [enqueue]
    split
    next hlt =>
      have hne : ∀ q ∈ (n, t) :: rest, q.1 ≠ line := by
        intro q hq
        rcases List.mem_cons.1 hq with rfl | hq
        · dsimp only
          omega
        · have := hhead q hq
          dsimp only at this
          omega
      rw [List.mem_cons]
      exact or_congr_right ⟨fun hp => ⟨hp, hne p hp⟩, And.left⟩
    next hge =>
      split
      next heq =>
        have hne : ∀ q ∈ rest, q.1 ≠ line := by
          intro q hq
          have := hhead q hq
          dsimp only at this
          omega
        rw [List.mem_cons, List.mem_cons]
        constructor
        · rintro (rfl | hp)
          · exact .inl rfl
          · exact .inr ⟨.inr hp, hne p hp⟩
        · rintro (rfl | ⟨rfl | hp, hline⟩)
          · exact .inl rfl
          · exact (hline heq.symm).elim
          · exact .inr hp
      next hne =>
        rw [List.mem_cons, List.mem_cons, ih hrest]
        constructor
        · rintro (rfl | rfl | ⟨hp, hline⟩)
          · exact .inr ⟨.inl rfl, Ne.symm hne⟩
          · exact .inl rfl
          · exact .inr ⟨.inr hp, hline⟩
        · rintro (rfl | ⟨rfl | hp, hline⟩)
          · exact .inr (.inl rfl)
          · exact .inl rfl
          · exact .inr (.inr ⟨hp, hline⟩)

theorem enqueue_ascending (line : Int) (text : String) {pending : List (Int × String)}
    (h : pending.Pairwise fun a b => a.1 < b.1) :
    (enqueue line text pending).Pairwise fun a b => a.1 < b.1 := by
  induction pending with
  | nil => simp [enqueue]
  | cons q rest ih =>
    obtain ⟨n, t⟩ := q
    obtain ⟨hhead, hrest⟩ := List.pairwise_cons.1 h
    rw [enqueue]
    split
    next hlt =>
      refine List.pairwise_cons.2 ⟨fun q hq => ?_, h⟩
      rcases List.mem_cons.1 hq with rfl | hq
      · exact hlt
      · exact Int.lt_trans hlt (hhead q hq)
    next hge =>
      split
      next heq =>
        subst heq
        exact List.pairwise_cons.2 ⟨hhead, hrest⟩
      next hne =>
        refine List.pairwise_cons.2 ⟨fun q hq => ?_, ih hrest⟩
        rcases (mem_enqueue hrest).1 hq with rfl | ⟨hq, -⟩
        · dsimp only
          omega
        · exact hhead q hq

theorem enqueue_of_forall_lt {line : Int} {pending : List (Int × String)}
    (h : ∀ p ∈ pending, p.1 < line) (text : String) :
    enqueue line text pending = pending ++ [(line, text)] := by
  induction pending with
  | nil => rfl
  | cons q rest ih =>
    obtain ⟨n, t⟩ := q
    obtain ⟨hq, hrest⟩ := List.forall_mem_cons.1 h
    dsimp only at hq
    rw [enqueue, if_neg (by omega), if_neg (by omega), ih hrest]
    rfl

theorem lt_nextLine {s : Session} (h : s.Ascending) : ∀ p ∈ s.pending, p.1 < s.nextLine := by
  intro p hp
  unfold Ascending at h
  unfold nextLine
  cases hlast : s.pending.getLast? with
  | none =>
    rw [List.getLast?_eq_none_iff.1 hlast] at hp
    cases hp
  | some last =>
    obtain ⟨front, hfront⟩ := List.getLast?_eq_some_iff.1 hlast
    rw [hfront] at h hp
    have hbelow := (List.pairwise_append.1 h).2.2
    simp only [List.mem_append, List.mem_singleton] at hp hbelow
    simp only [Option.elim_some]
    rcases hp with hp | rfl
    · have := hbelow p hp last rfl
      omega
    · omega

theorem add_pending (s : Session) (text : String) (line : Option Int) :
    (s.add text line).1.pending =
      if (trim text).isEmpty then s.pending else enqueue (line.getD s.nextLine) text s.pending := by
  by_cases htext : (trim text).isEmpty <;> simp [add, htext, withReporter]

theorem add_ascending {s : Session} (h : s.Ascending) (text : String) (line : Option Int) :
    (s.add text line).1.Ascending := by
  unfold Ascending
  rw [add_pending]
  by_cases htext : (trim text).isEmpty
  · rw [if_pos htext]
    exact h
  · rw [if_neg htext]
    exact enqueue_ascending _ text h

theorem addLines_cons (s : Session) (line : Int × String) (lines : List (Int × String)) :
    s.addLines (line :: lines) = (s.add line.2 (some line.1)).1.addLines lines := by
  rw [addLines, addLines, List.foldl_cons]

theorem addLines_ascending {s : Session} (h : s.Ascending) (lines : List (Int × String)) :
    (s.addLines lines).Ascending := by
  induction lines generalizing s with
  | nil => exact h
  | cons line lines ih =>
    rw [addLines_cons]
    exact ih (add_ascending h line.2 (some line.1))

theorem mem_addLines {s : Session} (h : s.Ascending) {lines : List (Int × String)}
    (hlines : (lines.map Prod.fst).Nodup) (htexts : ∀ line ∈ lines, ¬ (trim line.2).isEmpty)
    (p : Int × String) :
    p ∈ (s.addLines lines).pending ↔ p ∈ lines ∨ p ∈ s.pending ∧ p.1 ∉ lines.map Prod.fst := by
  induction lines generalizing s with
  | nil => simp [addLines]
  | cons line lines ih =>
    obtain ⟨hfresh, hlines⟩ := List.nodup_cons.1 hlines
    obtain ⟨htext, htexts⟩ := List.forall_mem_cons.1 htexts
    have hstep := ih (add_ascending h line.2 (some line.1)) hlines htexts
    rw [add_pending, if_neg htext, mem_enqueue h] at hstep
    rw [addLines_cons, hstep]
    simp only [List.mem_cons, List.map_cons, Option.getD_some, not_or]
    constructor
    · rintro (hp | ⟨rfl | ⟨hp, hline⟩, hother⟩)
      · exact .inl (.inr hp)
      · exact .inl (.inl rfl)
      · exact .inr ⟨hp, hline, hother⟩
    · rintro ((rfl | hp) | ⟨hp, hline, hother⟩)
      · exact .inr ⟨.inl rfl, hfresh⟩
      · exact .inl hp
      · exact .inr ⟨.inr ⟨hp, hline⟩, hother⟩

/-- Pending statements are determined by what they are, since their lines put them in order. -/
theorem pending_ext {s t : Session} (hs : s.Ascending) (ht : t.Ascending)
    (h : ∀ p, p ∈ s.pending ↔ p ∈ t.pending) : s.pending = t.pending := by
  have : Std.Irrefl fun a b : Int × String => a.1 < b.1 := ⟨fun a => Int.lt_irrefl a.1⟩
  have : Std.Antisymm fun a b : Int × String => a.1 < b.1 :=
    ⟨fun a b hab hba => (Int.lt_asymm hab hba).elim⟩
  exact hs.eq_of_mem_iff ht h

/-- It does not matter in which order statements were added. -/
theorem addLines_perm {s : Session} (h : s.Ascending) {lines lines' : List (Int × String)}
    (hperm : lines.Perm lines') (hlines : (lines.map Prod.fst).Nodup)
    (htexts : ∀ line ∈ lines, ¬ (trim line.2).isEmpty) :
    (s.addLines lines').pending = (s.addLines lines).pending := by
  apply pending_ext (addLines_ascending h lines') (addLines_ascending h lines)
  intro p
  have hlines' : (lines'.map Prod.fst).Nodup := (hperm.map Prod.fst).nodup_iff.1 hlines
  have htexts' : ∀ line ∈ lines', ¬ (trim line.2).isEmpty := by
    intro line hline
    exact htexts line (hperm.mem_iff.2 hline)
  rw [mem_addLines h hlines' htexts', mem_addLines h hlines htexts, hperm.mem_iff,
    (hperm.map Prod.fst).mem_iff]

end Queue

section Running
variable [Machine]

/-- Statements that succeed one after the other, each with the names that those before it left; the
last part is what they give to print. -/
inductive Executes : Namespace → List (Int × String) → Namespace → List String → Prop
  | none (names : Namespace) : Executes names [] names []
  | next {names names' last : Namespace} {line : Int} {text : String} {result : Option String}
      {rest : List (Int × String)} {out : List String} :
      perform text names = .ok (names', result) → Executes names' rest last out →
      Executes names ((line, text) :: rest) last (result.toList ++ out)

/-- What a run that executed some statements comes to: all were pending and succeeded, or the last
failed. It leaves the statements after them pending, and the names that those that succeeded
left. -/
inductive Ran (s : Session) : List (Int × String) → Session × Option Failure → Prop
  | completed {t : Session} {out : List String} : Executes s.names s.pending t.names out →
      t.results = s.results ++ out → t.pending = [] → Ran s s.pending (t, none)
  | stopped {t : Session} {before : List (Int × String)} {line : Int} {text : String}
      {out : List String} {f : Failure} : s.pending = before ++ (line, text) :: t.pending →
      Executes s.names before t.names out → perform text t.names = .error f →
      t.results = s.results ++ out → Ran s (before ++ [(line, text)]) (t, some f)

/-- Runs under a handler, one after the other until nothing is pending, and the statements that they
executed. -/
inductive Drains : Session → List (Int × String) → Session → Prop
  | done {s : Session} : s.pending = [] → Drains s [] s
  | again {s t : Session} {executed later : List (Int × String)} : s.pending ≠ [] →
      Ran s executed s.run → Drains s.runHandled.1 later t → Drains s (executed ++ later) t

/-- All statements in order with those that fail skipped: the names at the end, and what there is to
print. -/
def performAll (names : Namespace) : List (Int × String) → Namespace × List String
  | [] => (names, [])
  | (_, text) :: rest =>
    match perform text names with
    | .error _ => performAll names rest
    | .ok (names, result) =>
      ((performAll names rest).1, result.toList ++ (performAll names rest).2)

section Run

theorem runStatement_eq (s : Session) (text : String) :
    ∃ reporter, s.reporter.Prints reporter ∧ s.runStatement text =
      match perform text s.names with
      | .error f => ({ s with reporter := reporter }, some f)
      | .ok (names, result) =>
        ({ s with reporter := reporter, names := names, results := s.results ++ result.toList },
          none) := by
  delta perform runStatement
  generalize Statement.infer text s.names text = inferred
  cases inferred with
  | error f => exact ⟨s.reporter, .refl _, rfl⟩
  | ok statement =>
    -- The warning never fails, so that the statement is executed whether it was given or not.
    obtain ⟨reporter, hprints, hwarned⟩ : ∃ reporter, s.reporter.Prints reporter ∧
        (if statement.isUnapplied then s.reporter.warn (.unappliedProgram text)
          else (s.reporter, none)) = (reporter, none) := by
      split
      · exact ⟨(s.reporter.warn (.unappliedProgram text)).1, s.reporter.warn_prints _,
          Prod.ext rfl (s.reporter.warn_unapplied text)⟩
      · exact ⟨s.reporter, .refl _, rfl⟩
    refine ⟨reporter, hprints, ?_⟩
    dsimp only
    rewrite [hwarned, Outcome.bind_ok]
    cases statement.execute s.names <;> rfl

theorem Ran.cons {s s' : Session} {line : Int} {text : String} {names : Namespace}
    {result : Option String} {executed : List (Int × String)} {after : Session × Option Failure}
    (hperform : perform text s.names = .ok (names, result)) (hnames : s'.names = names)
    (hresults : s'.results = s.results ++ result.toList)
    (hpending : s.pending = (line, text) :: s'.pending) (h : Ran s' executed after) :
    Ran s ((line, text) :: executed) after := by
  subst hnames
  cases h with
  | completed hexecutes hout hdone =>
    have hall : Executes s.names ((line, text) :: s'.pending) _ _ := .next hperform hexecutes
    rw [← hpending] at hall ⊢
    exact .completed hall (by rw [hout, hresults, List.append_assoc]) hdone
  | stopped hrest hexecutes hfails hout =>
    exact .stopped (by rw [hpending, hrest, List.cons_append]) (.next hperform hexecutes) hfails
      (by rw [hout, hresults, List.append_assoc])

/-- A statement that succeeds is under way while it runs, and what is pending after it is run with
what it left. -/
theorem runPending_cons_ok {s : Session} {text : String} {names : Namespace}
    {result : Option String} (h : perform text s.names = .ok (names, result)) (line : Int)
    (rest : List (Int × String)) :
    ∃ reporter, (s.reporter.registerLine s.path text line).Prints reporter ∧
      s.runPending ((line, text) :: rest) = runPending { s with
        reporter := reporter.removeLine s.path, names := names,
        results := s.results ++ result.toList } rest := by
  obtain ⟨reporter, hprints, hstep⟩ :=
    runStatement_eq (s.withReporter (·.registerLine s.path text line)) text
  have hnames : (s.withReporter (·.registerLine s.path text line)).names = s.names := rfl
  rw [hnames, h] at hstep
  refine ⟨reporter, hprints, ?_⟩
  conv_lhs => unfold runPending
  rewrite [hstep]
  rfl

theorem runPending_cons_error {s : Session} {text : String} {f : Failure}
    (h : perform text s.names = .error f) (line : Int) (rest : List (Int × String)) :
    ∃ reporter, (s.reporter.registerLine s.path text line).Prints reporter ∧
      s.runPending ((line, text) :: rest) =
        ({ s with reporter := reporter, pending := rest }, some f) := by
  obtain ⟨reporter, hprints, hstep⟩ :=
    runStatement_eq (s.withReporter (·.registerLine s.path text line)) text
  have hnames : (s.withReporter (·.registerLine s.path text line)).names = s.names := rfl
  rw [hnames, h] at hstep
  refine ⟨reporter, hprints, ?_⟩
  unfold runPending
  rewrite [hstep]
  rfl

theorem runPending_of_ok {s : Session} {text : String} {names : Namespace} {result : Option String}
    (h : perform text s.names = .ok (names, result)) (line : Int) (rest : List (Int × String)) :
    ∃ t : Session, t.names = names ∧ t.results = s.results ++ result.toList ∧
      t.reporter.fatal = s.reporter.fatal ∧
      s.runPending ((line, text) :: rest) = t.runPending rest := by
  obtain ⟨reporter, hprints, hrun⟩ := runPending_cons_ok h line rest
  exact ⟨_, rfl, rfl, hprints.fatal_eq, hrun⟩

theorem runPending_of_error {s : Session} {text : String} {f : Failure}
    (h : perform text s.names = .error f) (line : Int) (rest : List (Int × String)) :
    ∃ t : Session, t.names = s.names ∧ t.results = s.results ∧ t.pending = rest ∧
      t.reporter.fatal = s.reporter.fatal ∧
      s.runPending ((line, text) :: rest) = (t, some f) := by
  obtain ⟨reporter, hprints, hrun⟩ := runPending_cons_error h line rest
  exact ⟨{ s with reporter := reporter, pending := rest }, rfl, rfl, rfl, hprints.fatal_eq, hrun⟩

theorem runPending_ran (pending : List (Int × String)) (s : Session) :
    (∃ executed, Ran { s with pending := pending } executed (s.runPending pending)) ∧
      (s.runPending pending).1.reporter.fatal = s.reporter.fatal := by
  induction pending generalizing s with
  | nil => exact ⟨⟨[], .completed (.none s.names) (List.append_nil _).symm rfl⟩, rfl⟩
  | cons entry rest ih =>
    obtain ⟨line, text⟩ := entry
    cases hperform : perform text s.names with
    | error f =>
      obtain ⟨t, hnames, hresults, hrest, hfatal, hrun⟩ := runPending_of_error hperform line rest
      rw [hrun]
      have hnone : Executes s.names [] t.names [] := hnames ▸ .none s.names
      refine ⟨⟨[] ++ [(line, text)], .stopped ?_ hnone ?_ ?_⟩, hfatal⟩
      · rw [hrest, List.nil_append]
      · rw [hnames, hperform]
      · rw [hresults, List.append_nil]
    | ok outcome =>
      obtain ⟨names, result⟩ := outcome
      obtain ⟨t, hnames, hresults, hfatal, hrun⟩ := runPending_of_ok hperform line rest
      obtain ⟨⟨executed, hrest⟩, hlater⟩ := ih t
      rw [hrun]
      refine ⟨⟨(line, text) :: executed, Ran.cons hperform ?_ ?_ ?_ hrest⟩, hlater.trans hfatal⟩
      · exact hnames
      · exact hresults
      · rfl

/-- A run executes pending statements from the first one on. -/
theorem run_ran (s : Session) : ∃ executed, Ran s executed s.run := (runPending_ran s.pending s).1

theorem runHandled_eq (s : Session) : s.runHandled.1.names = s.run.1.names ∧
    s.runHandled.1.pending = s.run.1.pending ∧ s.runHandled.1.results = s.run.1.results := by
  unfold runHandled
  split <;> simp_all

/-- A handler for which errors are not fatal stays so, and does not end the program. -/
theorem runHandled_calm (s : Session) :
    s.runHandled.1.reporter.fatal = s.reporter.fatal ∧
      (s.reporter.fatal = false → ∀ code, s.runHandled.2 = some (.exit code) →
        s.run.2 = some (.exit code)) := by
  have hfatal : s.run.1.reporter.fatal = s.reporter.fatal := (runPending_ran s.pending s).2
  unfold runHandled
  split
  next t hrun =>
    rw [hrun] at hfatal ⊢
    exact ⟨hfatal, fun _ _ h => h⟩
  next t f hrun =>
    rw [hrun] at hfatal ⊢
    by_cases hexit : ∃ code, f = .exit code
    · obtain ⟨code, rfl⟩ := hexit
      exact ⟨hfatal, fun _ _ h => h⟩
    · have hcalm := t.reporter.handle_calm fun code h => hexit ⟨code, h⟩
      exact ⟨hcalm.settles.fatal_eq.trans hfatal,
        fun h code hcode => (hcalm.stays (hfatal.trans h) code hcode).elim⟩

end Run

section Executing

variable {names last : Namespace} {out : List String}

theorem executes_cons_iff {line : Int} {text : String} {rest : List (Int × String)} :
    Executes names ((line, text) :: rest) last out ↔ ∃ after result later,
      perform text names = .ok (after, result) ∧ Executes after rest last later ∧
        out = result.toList ++ later := by
  constructor
  · intro h
    cases h with
    | next hperform hrest => exact ⟨_, _, _, hperform, hrest, rfl⟩
  · rintro ⟨after, result, later, hperform, hrest, rfl⟩
    exact .next hperform hrest

theorem executes_append_iff {before after : List (Int × String)} :
    Executes names (before ++ after) last out ↔ ∃ middle first later,
      Executes names before middle first ∧ Executes middle after last later ∧
        out = first ++ later := by
  induction before generalizing names out with
  | nil =>
    constructor
    · intro h
      exact ⟨names, [], out, .none names, h, rfl⟩
    · rintro ⟨middle, first, later, hnone, h, rfl⟩
      cases hnone
      exact h
  | cons entry before ih =>
    obtain ⟨line, text⟩ := entry
    rw [List.cons_append, executes_cons_iff]
    constructor
    · rintro ⟨next, result, more, hperform, hrest, rfl⟩
      obtain ⟨middle, first, later, hbefore, hafter, rfl⟩ := ih.1 hrest
      exact ⟨middle, result.toList ++ first, later, .next hperform hbefore, hafter,
        (List.append_assoc _ _ _).symm⟩
    · rintro ⟨middle, first, later, hbefore, hafter, rfl⟩
      obtain ⟨next, result, more, hperform, hrest, rfl⟩ := executes_cons_iff.1 hbefore
      exact ⟨next, result, more ++ later, hperform, ih.2 ⟨middle, more, later, hrest, hafter, rfl⟩,
        List.append_assoc _ _ _⟩

theorem runPending_of_executes {pending : List (Int × String)} (h : Executes names pending last out)
    {s : Session} (hs : s.names = names) :
    ∃ t, s.runPending pending = (t, none) ∧ t.names = last ∧ t.results = s.results ++ out := by
  induction h generalizing s with
  | none names => exact ⟨{ s with pending := [] }, rfl, hs, (List.append_nil _).symm⟩
  | @next names after last line text result rest out hperform _ ih =>
    rw [← hs] at hperform
    obtain ⟨t, hnames, hresults, -, hrun⟩ := runPending_of_ok hperform line rest
    obtain ⟨u, hu, hlast, hout⟩ := ih hnames
    exact ⟨u, hrun.trans hu, hlast, by rw [hout, hresults, List.append_assoc]⟩

theorem run_of_executes {s : Session} (h : Executes s.names s.pending last out) :
    s.run.2 = none ∧ s.run.1.names = last ∧ s.run.1.results = s.results ++ out := by
  obtain ⟨t, hrun, hnames, hresults⟩ := runPending_of_executes h rfl
  have hpair : s.run = (t, none) := hrun
  rw [hpair]
  exact ⟨rfl, hnames, hresults⟩

theorem run_eq_none_iff {s : Session} :
    s.run.2 = none ↔ ∃ last out, Executes s.names s.pending last out := by
  constructor
  · intro h
    obtain ⟨executed, hran⟩ := s.run_ran
    generalize s.run = after at hran h
    cases hran with
    | completed hexecutes _ _ => exact ⟨_, _, hexecutes⟩
    | stopped => cases h
  · rintro ⟨last, out, h⟩
    exact (run_of_executes h).1

end Executing

section Drain

theorem Executes.performAll_append {names last : Namespace} {executed : List (Int × String)}
    {out : List String} (h : Executes names executed last out) (rest : List (Int × String)) :
    performAll names (executed ++ rest) =
      ((performAll last rest).1, out ++ (performAll last rest).2) := by
  induction h with
  | none names => rfl
  | next hperform _ ih => simp [performAll, hperform, ih]

/-- A run leaves to be done what it did not do. -/
theorem Ran.remainder {s : Session} {executed : List (Int × String)}
    {after : Session × Option Failure} (h : Ran s executed after) :
    s.pending = executed ++ after.1.pending ∧
      (performAll s.names s.pending).1 = (performAll after.1.names after.1.pending).1 ∧
      s.results ++ (performAll s.names s.pending).2 =
        after.1.results ++ (performAll after.1.names after.1.pending).2 := by
  cases h with
  | completed hexecutes hout hdone =>
    have hall := hexecutes.performAll_append []
    rw [List.append_nil] at hall
    rw [hall, hdone, hout]
    simp [performAll]
  | @stopped t before line text out f hpending hexecutes hfails hout =>
    have hall := hexecutes.performAll_append ((line, text) :: t.pending)
    rw [← hpending] at hall
    rw [hall, hpending, hout]
    simp [performAll, hfails]

theorem Ran.executed_ne_nil {s : Session} {executed : List (Int × String)}
    {after : Session × Option Failure} (h : Ran s executed after) (hs : s.pending ≠ []) :
    executed ≠ [] := by
  cases h with
  | completed => exact hs
  | stopped => simp

/-- Running again and again executes every pending statement once and in order, and comes to what
skipping those that fail comes to. -/
theorem drains (s : Session) : ∃ t, Drains s s.pending t ∧ t.pending = [] ∧
    t.names = (performAll s.names s.pending).1 ∧
    t.results = s.results ++ (performAll s.names s.pending).2 := by
  induction hn : s.pending.length using Nat.strongRecOn generalizing s with
  | ind n ih =>
    by_cases hs : s.pending = []
    · refine ⟨s, ?_, hs, ?_, ?_⟩
      · rw [hs]
        exact .done hs
      · rw [hs]
        rfl
      · rw [hs]
        exact (List.append_nil _).symm
    · obtain ⟨executed, hran⟩ := s.run_ran
      obtain ⟨hnames, hpending, hresults⟩ := s.runHandled_eq
      obtain ⟨hsplit, hlast, hout⟩ := hran.remainder
      rw [← hpending] at hsplit
      have hshorter : s.runHandled.1.pending.length < n := by
        have hlength := congrArg List.length hsplit
        have hpos := List.length_pos_iff.2 (hran.executed_ne_nil hs)
        rw [List.length_append] at hlength
        omega
      obtain ⟨t, hdrains, hdone, htnames, htresults⟩ := ih _ hshorter s.runHandled.1 rfl
      refine ⟨t, ?_, hdone, ?_, ?_⟩
      · rw [hsplit]
        exact .again hs hran hdrains
      · rw [htnames, hlast, hnames, hpending]
      · rw [htresults, hout, hnames, hpending, hresults]

end Drain

/-- Sessions are ordered, atomic by statement, and resumable. Statements may be added in any order,
and one without a line comes after all that are pending. A run executes them by line up to the first
that fails, which changes no name and is not pending afterwards; one that succeeds changes at most
the name that it defines. Running again under a handler, until nothing is pending, executes each
statement once and in order, and ends with what executing all and skipping those that fail gives. -/
theorem run_ordered_atomic_resumable (s : Session) (h : s.Ascending) :
    (∀ lines : List (Int × String), (lines.map Prod.fst).Nodup →
      (∀ line ∈ lines, ¬ (trim line.2).isEmpty) →
      (s.addLines lines).Ascending ∧
      (∀ p, p ∈ (s.addLines lines).pending ↔
        p ∈ lines ∨ p ∈ s.pending ∧ p.1 ∉ lines.map Prod.fst) ∧
      ∀ lines', lines.Perm lines' → (s.addLines lines').pending = (s.addLines lines).pending) ∧
    (∀ text, ¬ (trim text).isEmpty → (s.add text none).2 = none ∧
      (s.add text none).1.pending = s.pending ++ [(s.nextLine, text)] ∧
      ∀ p ∈ s.pending, p.1 < s.nextLine) ∧
    (∃ executed, Ran s executed s.run) ∧
    (∀ text names names' result, perform text names = .ok (names', result) →
      ∃ statement, Statement.infer text names text = .ok statement ∧
        ∀ x, statement.target? ≠ some x → names'.find? x = names.find? x) ∧
    (∃ t, Drains s s.pending t ∧ t.pending = [] ∧
      t.names = (performAll s.names s.pending).1 ∧
      t.results = s.results ++ (performAll s.names s.pending).2) ∧
    s.runHandled.1.reporter.fatal = s.reporter.fatal ∧
    (s.reporter.fatal = false → ∀ code, s.runHandled.2 = some (.exit code) →
      s.run.2 = some (.exit code)) := by
  refine ⟨fun lines hlines htexts => ?_, fun text htext => ?_, s.run_ran,
    fun text names names' result => Statement.perform_find?, s.drains, s.runHandled_calm⟩
  · exact ⟨addLines_ascending h lines, mem_addLines h hlines htexts,
      fun lines' hperm => addLines_perm h hperm hlines htexts⟩
  · refine ⟨by simp [add, htext], ?_, lt_nextLine h⟩
    rw [add_pending, if_neg htext, Option.getD_none, enqueue_of_forall_lt (lt_nextLine h)]

end Running

section StandardMachine
attribute [local instance] Machine.standard

/-- A session with a definition, a free name and an application pending: two more statements may
come in either order, one without a line comes last, and all that is pending gets executed. -/
theorem run_ordered_atomic_resumable_three :
    let s : Session := ⟨Reporter.new .plain false, shellPath, Bindings.empty,
      [(1, "f := $1 plus 1"), (3, "x"), (7, "f 2")], []⟩
    s.Ascending ∧ (s.addLines [(4, "f 3"), (2, "y")]).pending =
        (s.addLines [(2, "y"), (4, "f 3")]).pending ∧
      (s.add "f 4" none).1.pending = s.pending ++ [(8, "f 4")] ∧
      ∃ t, Drains s s.pending t ∧ t.pending = [] := by
  intro s
  have hs : s.Ascending := by simp [s, Ascending]
  obtain ⟨hlines, hlast, -, -, ⟨t, ht, hdone, -⟩, -⟩ := run_ordered_atomic_resumable s hs
  have htexts : ∀ line ∈ [((2 : Int), "y"), (4, "f 3")], ¬ (trim line.2).isEmpty := by
    decide +kernel
  refine ⟨hs, (hlines _ (by decide) htexts).2.2 _ (.swap _ _ _), ?_, t, ht, hdone⟩
  exact (hlast "f 4" (by decide +kernel)).2.1

end StandardMachine

end Session
end CurryCalc
