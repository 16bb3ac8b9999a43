import CurryCalc.Proofs.SessionNames

/-! Statements that have nothing to do with each other. What a statement is and does depends only on
what the words in it are bound to, so that two statements of which neither binds a word of the other
may change places: each gives what it gave before, and the names are bound to the same things. -/
namespace CurryCalc

namespace Statement

/-- The words of a text. In a definition, the mark ends the word before it and starts another
one. -/
def mentioned (text : String) : List String := (pieces (trim text) declareMark).flatMap words

/-- The name that a text binds if it is a definition. -/
def bound? (text : String) : Option String :=
  match pieces (trim text) declareMark with
  | [name, _] => some (trim name)
  | _ => none

/-- Two texts of which neither binds a word of the other. -/
structure Independent (a b : String) : Prop where
  left : ∀ x ∈ bound? a, x ∉ mentioned b
  right : ∀ x ∈ bound? b, x ∉ mentioned a

instance (a b : String) : Decidable (Independent a b) :=
  decidable_of_iff ((∀ x ∈ bound? a, x ∉ mentioned b) ∧ ∀ x ∈ bound? b, x ∉ mentioned a)
    ⟨fun h => ⟨h.1, h.2⟩, fun h => ⟨h.left, h.right⟩⟩

/-- What a statement does: the name that it binds and the thing that it binds it to, if any, and
what there is to print. -/
structure Effect where
  binding : Option (String × Item)
  result : Option String

namespace Effect

def applyTo (e : Effect) (names : Namespace) : Namespace :=
  match e.binding with
  | some (x, item) => names.insert x item
  | none => names

variable {e e' : Effect} {names names' : Namespace}

theorem applyTo_find? (e : Effect) (names : Namespace) (y : String) :
    (e.applyTo names).find? y =
      (e.binding.bind fun b => if b.1 = y then some b.2 else none).or (names.find? y) := by
  unfold applyTo
  cases e.binding with
  | none => rfl
  | some b =>
    rw [Bindings.find?_insert]
    by_cases hy : b.1 = y <;> simp [hy]

theorem applyTo_find?_of_ne {y : String} (h : y ∉ e.binding.map Prod.fst) :
    (e.applyTo names).find? y = names.find? y := by
  rw [applyTo_find?]
  cases hb : e.binding with
  | none => rfl
  | some b =>
    have hne : b.1 ≠ y := by simpa [hb] using h
    simp [hne]

theorem applyTo_congr (h : ∀ x, names.find? x = names'.find? x) (x : String) :
    (e.applyTo names).find? x = (e.applyTo names').find? x := by
  rw [applyTo_find?, applyTo_find?, h]

theorem applyTo_comm (h : ∀ x ∈ e.binding.map Prod.fst, x ∉ e'.binding.map Prod.fst) (x : String) :
    (e'.applyTo (e.applyTo names)).find? x = (e.applyTo (e'.applyTo names)).find? x := by
  by_cases hx : x ∈ e.binding.map Prod.fst
  · rw [applyTo_find?_of_ne (h x hx), applyTo_find?, applyTo_find? e, applyTo_find?_of_ne (h x hx)]
  · rw [applyTo_find?_of_ne hx, applyTo_find?, applyTo_find? e', applyTo_find?_of_ne hx]

end Effect

/-- The words of a statement: of a definition, the name and the words that define it. -/
def vocabulary (s : Statement) : List String :=
  match s.action with
  | .define name definition => name :: words definition
  | _ => words s.text

def reads (s : Statement) : List String :=
  match s.action with
  | .define _ definition => words definition
  | .apply name args => name :: args
  | .exec _ => []

theorem target?_mem_vocabulary {s : Statement} {x : String} (h : x ∈ s.target?) :
    x ∈ s.vocabulary := by
  obtain ⟨text, cited, action⟩ := s
  cases action with
  | define name definition =>
    cases h
    show x ∈ x :: words definition
    exact List.mem_cons_self
  | apply name args => cases h
  | exec program => cases h

section Words

variable {text cited : String} {names names' : Namespace}

theorem parseValue_congr {word : String} (h : names.find? word = names'.find? word) :
    parseValue word names = parseValue word names' := by
  rw [parseValue_eq, parseValue_eq, h]

theorem mapM_parseValue_congr {args : List String}
    (h : ∀ w ∈ args, names.find? w = names'.find? w) :
    (args.mapM fun word => parseValue word names) =
      args.mapM fun word => parseValue word names' := by
  induction args with
  | nil => rfl
  | cons word args ih =>
    obtain ⟨hword, hargs⟩ := List.forall_mem_cons.1 h
    rw [List.mapM_cons, List.mapM_cons, parseValue_congr hword, ih hargs]

theorem isApplication_congr {text : String}
    (h : ∀ w ∈ words text, names.find? w = names'.find? w) :
    isApplication text names = isApplication text names' := by
  unfold isApplication
  cases hwords : words text with
  | nil => rfl
  | cons name args =>
    have hname := h name (hwords ▸ List.mem_cons_self)
    dsimp only
    rw [hname]

theorem mentioned_of_unmarked (h : findOffset? (trim text) declareMark = none) :
    mentioned text = words text ∧ bound? text = none := by
  have hpieces : pieces (trim text) declareMark = [trim text] := by
    rw [pieces, piecesFrom_of_none h]
    simp
  unfold mentioned bound?
  rw [hpieces]
  simp

theorem mentioned_of_marked {name : String} {i : Nat}
    (hfirst : findOffset? (trim text) declareMark = some i)
    (hlast : findLastOffset? (trim text) declareMark = some i)
    (hwords : words (String.ofList ((trim text).toList.take i)) = [name]) :
    mentioned text = name ::
        words (String.ofList ((trim text).toList.drop (i + declareMark.toList.length))) ∧
      bound? text = some name := by
  have hpieces := pieces_of_single (by decide) hfirst hlast
  obtain ⟨hname, -⟩ := trim_of_words hwords
  unfold mentioned bound?
  rw [hpieces]
  simp [hwords, hname]

theorem unmarked_of_isDefinition (h : isDefinition text cited = .ok false) :
    findOffset? (trim text) declareMark = none := by
  unfold isDefinition at h
  dsimp only at h
  split at h
  next hnone => exact hnone
  next =>
    repeat' split at h
    all_goals cases h

end Words

section Effects
variable [Machine]

def effect (s : Statement) (names : Namespace) : Except Failure Effect :=
  match s.action with
  | .define name definition => do
    let item ← definedItem definition names
    return ⟨some (name, item), none⟩
  | .apply name args => do
    let item ← applyNamed name args names
    let text ← item.shown name
    return ⟨none, some text⟩
  | .exec program =>
    if program.arity = 0 then do
      let v ← program.run []
      let text ← shownValue v
      return ⟨none, some text⟩
    else .ok ⟨none, none⟩

theorem execute_eq_effect (s : Statement) (names : Namespace) :
    s.execute names = (s.effect names).map fun e => (e.applyTo names, e.result) := by
  unfold execute effect
  cases s.action with
  | define name definition =>
    dsimp only
    cases definedItem definition names <;> rfl
  | apply name args =>
    dsimp only
    cases applyNamed name args names with
    | error f => rfl
    | ok item =>
      rw [Outcome.bind_ok, Outcome.bind_ok]
      cases item.shown name <;> rfl
  | exec program =>
    dsimp only
    split
    · cases program.run [] with
      | error f => rfl
      | ok v =>
        rw [Outcome.bind_ok, Outcome.bind_ok]
        cases shownValue v <;> rfl
    · rfl

theorem effect_target? {s : Statement} {names : Namespace} {e : Effect}
    (h : s.effect names = .ok e) :
    e.binding.map Prod.fst = s.target? := by
  unfold effect at h
  unfold target?
  split at h
  next name definition haction =>
    obtain ⟨item, -, hitem⟩ := Outcome.ok_of_bind h
    cases hitem
    rw [haction]
    rfl
  next name args haction =>
    obtain ⟨item, -, hitem⟩ := Outcome.ok_of_bind h
    obtain ⟨text, -, htext⟩ := Outcome.ok_of_bind hitem
    cases htext
    rw [haction]
    rfl
  next program haction =>
    rw [haction]
    split at h
    · obtain ⟨v, -, hv⟩ := Outcome.ok_of_bind h
      obtain ⟨text, -, htext⟩ := Outcome.ok_of_bind hv
      cases htext
      rfl
    · cases h
      rfl

section Agreement

variable {names names' : Namespace}

theorem applyNamed_congr {name : String} {args : List String}
    (h : ∀ w ∈ name :: args, names.find? w = names'.find? w) :
    applyNamed name args names = applyNamed name args names' := by
  obtain ⟨hname, hargs⟩ := List.forall_mem_cons.1 h
  unfold applyNamed
  rw [mapM_parseValue_congr hargs, hname]

theorem definedItem_congr {definition : String}
    (h : ∀ w ∈ words definition, names.find? w = names'.find? w) :
    definedItem definition names = definedItem definition names' := by
  unfold definedItem
  rw [isApplication_congr h]
  split
  · cases hwords : words definition with
    | nil => rfl
    | cons name args => exact applyNamed_congr (hwords ▸ h)
  · rfl

/-- Executing a statement takes nothing from the names but what the words that it looks up are bound
to. -/
theorem effect_congr {s : Statement} (h : ∀ w ∈ s.reads, names.find? w = names'.find? w) :
    s.effect names = s.effect names' := by
  unfold reads at h
  unfold effect
  cases haction : s.action with
  | define name definition =>
    rw [haction] at h
    dsimp only
    rw [definedItem_congr h]
  | apply name args =>
    rw [haction] at h
    dsimp only
    rw [applyNamed_congr h]
  | exec program => rfl

end Agreement

section Reading

variable {text cited : String} {names names' : Namespace}

theorem ofProgram_action {s : Statement} (h : ofProgram text cited = .ok s) :
    s.text = trim text ∧ ∃ program, s.action = .exec program := by
  unfold ofProgram at h
  generalize trim text = source at h ⊢
  obtain ⟨tokens, -, h⟩ := Outcome.ok_of_bind h
  obtain ⟨program, -, h⟩ := Outcome.ok_of_bind h
  cases h
  exact ⟨rfl, program, rfl⟩

/-- What a text binds and mentions is what the statement does that it is read as. -/
theorem infer_words {s : Statement} (h : infer text names cited = .ok s) :
    s.target? = bound? text ∧ s.vocabulary = mentioned text ∧
    ∀ w ∈ s.reads, w ∈ mentioned text := by
  unfold infer at h
  split at h
  · cases h
  next hdefinition =>
    obtain ⟨name, i, hfirst, hlast, hwords, -⟩ := isDefinition_ends hdefinition rfl
    obtain ⟨hmentioned, hbound⟩ := mentioned_of_marked hfirst hlast hwords
    rw [ofDefinition_of_mark hfirst hlast hwords] at h
    obtain rfl := Except.ok.inj h
    rw [hmentioned, hbound]
    refine ⟨rfl, by simp only [vocabulary, words_trim], fun w hw => ?_⟩
    simp only [reads, words_trim] at hw
    exact List.mem_cons_of_mem name hw
  next hdefinition =>
    obtain ⟨hmentioned, hbound⟩ := mentioned_of_unmarked (unmarked_of_isDefinition hdefinition)
    rw [hmentioned, hbound]
    split at h
    next happlication =>
      obtain ⟨name, args, c, hwords, -⟩ := isApplication_iff.1 happlication
      simp only [ofApplication, hwords] at h
      obtain rfl := Except.ok.inj h
      refine ⟨rfl, by simp only [vocabulary, words_trim], fun w hw => ?_⟩
      rw [hwords]
      exact hw
    · split at h
      · obtain ⟨htext, program, haction⟩ := ofProgram_action h
        unfold target? vocabulary reads
        rw [haction, htext]
        exact ⟨rfl, words_trim text, by simp⟩
      · cases h

theorem infer_congr (h : ∀ w ∈ mentioned text, names.find? w = names'.find? w) :
    infer text names cited = infer text names' cited := by
  unfold infer
  split
  · rfl
  · rfl
  next hdefinition =>
    rw [(mentioned_of_unmarked (unmarked_of_isDefinition hdefinition)).1] at h
    rw [isApplication_congr h]

@[irreducible] def effectOf (text : String) (names : Namespace) : Except Failure Effect := do
  let statement ← infer text names text
  statement.effect names

theorem perform_eq_effectOf (text : String) (names : Namespace) :
    perform text names = (effectOf text names).map fun e => (e.applyTo names, e.result) := by
  unfold perform effectOf
  generalize infer text names text = inferred
  cases inferred with
  | error f => rfl
  | ok s => exact execute_eq_effect s names

theorem effectOf_of_perform {after : Namespace} {result : Option String}
    (h : perform text names = .ok (after, result)) :
    ∃ e, effectOf text names = .ok e ∧ after = e.applyTo names ∧ result = e.result := by
  rw [perform_eq_effectOf] at h
  obtain ⟨e, he, hpair⟩ := Outcome.ok_of_map h
  cases hpair
  exact ⟨e, he, rfl, rfl⟩

theorem perform_of_effectOf {e : Effect} (h : effectOf text names = .ok e) :
    perform text names = .ok (e.applyTo names, e.result) := by
  rw [perform_eq_effectOf, h]
  rfl

/-- An effect binds the name that the text says, which is one of its words. -/
theorem effectOf_binding {e : Effect} (h : effectOf text names = .ok e) :
    e.binding.map Prod.fst = bound? text ∧ ∀ x ∈ bound? text, x ∈ mentioned text := by
  unfold effectOf at h
  obtain ⟨s, hs, heffect⟩ := Outcome.ok_of_bind h
  obtain ⟨htarget, hwords, -⟩ := infer_words hs
  refine ⟨(effect_target? heffect).trans htarget, fun x hx => ?_⟩
  rw [← hwords]
  rw [← htarget] at hx
  exact target?_mem_vocabulary hx

theorem effectOf_congr (h : ∀ w ∈ mentioned text, names.find? w = names'.find? w) :
    effectOf text names = effectOf text names' := by
  unfold effectOf
  rw [← infer_congr h]
  cases hinfer : infer text names text with
  | error f => rfl
  | ok s =>
    obtain ⟨-, -, hreads⟩ := infer_words hinfer
    exact effect_congr fun w hw => h w (hreads w hw)

end Reading

section Commuting

variable {a b : String} {names : Namespace}

/-- A statement does the same before and after one that binds none of its words. -/
theorem effectOf_applyTo {e : Effect} (h : effectOf a names = .ok e)
    (hfresh : ∀ x ∈ bound? a, x ∉ mentioned b) :
    effectOf b (e.applyTo names) = effectOf b names := by
  apply effectOf_congr
  intro w hw
  apply Effect.applyTo_find?_of_ne
  rw [(effectOf_binding h).1]
  exact fun hbound => hfresh w hbound hw

theorem perform_comm (h : Independent a b) {n₁ n₂ : Namespace} {ra rb : Option String}
    (ha : perform a names = .ok (n₁, ra)) (hb : perform b n₁ = .ok (n₂, rb)) :
    ∃ m₁ m₂, perform b names = .ok (m₁, rb) ∧ perform a m₁ = .ok (m₂, ra) ∧
      ∀ x, m₂.find? x = n₂.find? x := by
  obtain ⟨ea, hea, rfl, rfl⟩ := effectOf_of_perform ha
  obtain ⟨eb, heb, rfl, rfl⟩ := effectOf_of_perform hb
  rw [effectOf_applyTo hea h.left] at heb
  have hea' : effectOf a (eb.applyTo names) = .ok ea := by rw [effectOf_applyTo heb h.right, hea]
  refine ⟨_, _, perform_of_effectOf heb, perform_of_effectOf hea', Effect.applyTo_comm ?_⟩
  intro x hx
  rw [(effectOf_binding heb).1] at hx
  rw [(effectOf_binding hea).1]
  exact fun hboth => h.left x hboth ((effectOf_binding heb).2 x hx)

theorem perform_congr {names' after : Namespace} {result : Option String}
    (hsame : ∀ x, names.find? x = names'.find? x) (h : perform a names = .ok (after, result)) :
    ∃ after', perform a names' = .ok (after', result) ∧ ∀ x, after.find? x = after'.find? x := by
  obtain ⟨e, he, rfl, rfl⟩ := effectOf_of_perform h
  rw [effectOf_congr fun w _ => hsame w] at he
  exact ⟨_, perform_of_effectOf he, Effect.applyTo_congr hsame⟩

end Commuting

end Effects

end Statement

namespace Session

open Statement

section Commuting
variable [Machine]

section Swapping

variable {names names' last : Namespace} {out : List String}

theorem Executes.congr {pending : List (Int × String)} (h : Executes names pending last out)
    (hsame : ∀ x, names.find? x = names'.find? x) :
    ∃ last', Executes names' pending last' out ∧ ∀ x, last.find? x = last'.find? x := by
  induction h generalizing names' with
  | none names => exact ⟨names', .none names', hsame⟩
  | next hperform _ ih =>
    obtain ⟨after, hperform', hafter⟩ := perform_congr hsame hperform
    obtain ⟨last', hrest, hlast⟩ := ih hafter
    exact ⟨last', .next hperform' hrest, hlast⟩

/-- Independent statements that are executed next to each other may change places. -/
theorem Executes.swap {a b : String} (h : Independent a b) {i j : Int} {after : List (Int × String)}
    (hexecutes : Executes names ((i, a) :: (j, b) :: after) last out) (i' j' : Int) :
    ∃ ra rb later last', (perform a names).map Prod.snd = .ok ra ∧
      (perform b names).map Prod.snd = .ok rb ∧ out = ra.toList ++ (rb.toList ++ later) ∧
      Executes names ((i', b) :: (j', a) :: after) last' (rb.toList ++ (ra.toList ++ later)) ∧
      ∀ x, last.find? x = last'.find? x := by
  obtain ⟨n₁, ra, out₁, ha, hrest, rfl⟩ := executes_cons_iff.1 hexecutes
  obtain ⟨n₂, rb, later, hb, hlater, rfl⟩ := executes_cons_iff.1 hrest
  obtain ⟨m₁, m₂, hb', ha', hsame⟩ := perform_comm h ha hb
  obtain ⟨last', hlater', hlast⟩ := hlater.congr fun x => (hsame x).symm
  refine ⟨ra, rb, later, last', ?_, ?_, rfl, .next hb' (.next ha' hlater'), hlast⟩
  · rw [ha]
    rfl
  · rw [hb']
    rfl

theorem run_swap {a b : String} (h : Independent a b) {s t : Session}
    {before after : List (Int × String)} {i j i' j' : Int}
    (hs : s.pending = before ++ (i, a) :: (j, b) :: after)
    (ht : t.pending = before ++ (i', b) :: (j', a) :: after)
    (hsame : ∀ x, s.names.find? x = t.names.find? x) (hrun : s.run.2 = none) :
    t.run.2 = none ∧ (∀ x, s.run.1.names.find? x = t.run.1.names.find? x) ∧
      ∃ names first ra rb later, Executes s.names before names first ∧
        (perform a names).map Prod.snd = .ok ra ∧ (perform b names).map Prod.snd = .ok rb ∧
        s.run.1.results = s.results ++ (first ++ (ra.toList ++ (rb.toList ++ later))) ∧
        t.run.1.results = t.results ++ (first ++ (rb.toList ++ (ra.toList ++ later))) := by
  obtain ⟨last, out, hexecutes⟩ := run_eq_none_iff.1 hrun
  obtain ⟨-, hlast, hout⟩ := run_of_executes hexecutes
  rw [hs] at hexecutes
  obtain ⟨names, first, rest, hbefore, hpair, rfl⟩ := executes_append_iff.1 hexecutes
  obtain ⟨ra, rb, later, last', ha, hb, rfl, hswapped, hlast'⟩ := hpair.swap h i' j'
  obtain ⟨names', hbefore', hnames⟩ := hbefore.congr hsame
  obtain ⟨last'', hswapped', hlast''⟩ := hswapped.congr hnames
  have hexecutes' := executes_append_iff.2 ⟨names', first, _, hbefore', hswapped', rfl⟩
  rw [← ht] at hexecutes'
  obtain ⟨hnone, hlastRun, hresults⟩ := run_of_executes hexecutes'
  refine ⟨hnone, fun x => ?_, names, first, ra, rb, later, hbefore, ha, hb, hout, hresults⟩
  rw [hlast, hlastRun, hlast', hlast'']

end Swapping

/-- Independent statements commute. If one statement succeeds after another and neither binds a word
of the other, they succeed in the other order, each gives what it gave, and the same names are bound
to the same things; so two pending statements next to each other may change places in a run. Behind
this, which statement a text is, whether it succeeds, what it gives and what it binds depend only on
what its words are bound to. -/
theorem independent_statements_commute :
    (∀ a b, Independent a b →
      (∀ names n₁ n₂ ra rb, perform a names = .ok (n₁, ra) → perform b n₁ = .ok (n₂, rb) →
        ∃ m₁ m₂, perform b names = .ok (m₁, rb) ∧ perform a m₁ = .ok (m₂, ra) ∧
          ∀ x, m₂.find? x = n₂.find? x) ∧
      ∀ (s t : Session) (before after : List (Int × String)) (i j i' j' : Int),
        s.pending = before ++ (i, a) :: (j, b) :: after →
        t.pending = before ++ (i', b) :: (j', a) :: after →
        (∀ x, s.names.find? x = t.names.find? x) → s.run.2 = none →
        t.run.2 = none ∧ (∀ x, s.run.1.names.find? x = t.run.1.names.find? x) ∧
        ∃ names first ra rb later, Executes s.names before names first ∧
          (perform a names).map Prod.snd = .ok ra ∧ (perform b names).map Prod.snd = .ok rb ∧
          s.run.1.results = s.results ++ (first ++ (ra.toList ++ (rb.toList ++ later))) ∧
          t.run.1.results = t.results ++ (first ++ (rb.toList ++ (ra.toList ++ later)))) ∧
    (∀ text names cited statement, infer text names cited = .ok statement →
      statement.target? = bound? text ∧ statement.vocabulary = mentioned text) ∧
    (∀ text names,
      perform text names = (effectOf text names).map fun e => (e.applyTo names, e.result)) ∧
    ∀ text names names', (∀ w ∈ mentioned text, names.find? w = names'.find? w) →
      (∀ cited, infer text names cited = infer text names' cited) ∧
        effectOf text names = effectOf text names' := by
  refine ⟨fun a b h => ⟨?_, ?_⟩, ?_, perform_eq_effectOf, ?_⟩
  · intro names n₁ n₂ ra rb ha hb
    exact perform_comm h ha hb
  · intro s t before after i j i' j' hs ht hsame hrun
    exact run_swap h hs ht hsame hrun
  · intro text names cited statement hinfer
    obtain ⟨htarget, hwords, -⟩ := infer_words hinfer
    exact ⟨htarget, hwords⟩
  · intro text names names' hagree
    exact ⟨fun cited => infer_congr hagree, effectOf_congr hagree⟩

end Commuting

section StandardMachine
attribute [local instance] Machine.standard

/-- A program applied to one argument under a new name, and to two arguments; the new name is not
among the words of the latter, but it is used later. -/
theorem independent_statements_commute_apart :
    let session (a b : String) : Session := ⟨Reporter.new .plain false, shellPath, Bindings.empty,
      [(1, "f := $1 minus $2"), (2, "x := 2"), (3, a), (4, b), (5, "g 1")], []⟩
    let s := session "g:=f x" "f 5 x"
    let t := session "f 5 x" "g:=f x"
    Independent "g:=f x" "f 5 x" ∧ ¬ Independent "g:=f x" "g 1" ∧ s.run.2 = none ∧ t.run.2 = none ∧
      (∀ x, s.run.1.names.find? x = t.run.1.names.find? x) ∧
      effectOf "f 5 x" s.run.1.names =
        effectOf "f 5 x" (s.run.1.names.insert "y" (.value (.int 1))) := by
  intro session s t
  have h : Independent "g:=f x" "f 5 x" := by decide +kernel
  have hdependent : ¬ Independent "g:=f x" "g 1" := by decide +kernel
  have hrun : s.run.2 = none := by decide +kernel
  have hagree : ∀ w ∈ mentioned "f 5 x", s.run.1.names.find? w =
      (s.run.1.names.insert "y" (.value (.int 1))).find? w := by decide +kernel
  obtain ⟨hcommute, -, -, hdepends⟩ := independent_statements_commute
  obtain ⟨hother, hnames, -⟩ := (hcommute _ _ h).2 s t [(1, "f := $1 minus $2"), (2, "x := 2")]
    [(5, "g 1")] 3 4 3 4 rfl rfl (fun _ => rfl) hrun
  exact ⟨h, hdependent, hrun, hother, hnames, (hdepends _ _ _ hagree).2⟩

end StandardMachine

end Session

end CurryCalc
