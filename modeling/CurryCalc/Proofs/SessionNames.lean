import CurryCalc.Proofs.PlainPrograms
import CurryCalc.Proofs.SessionRun
import CurryCalc.Proofs.WordRules

/-! What the names of a session are bound to. Every statement that succeeds leaves only words that
nothing else is written as, bound to plain values or to closures that wait for plain values; and
with such names every statement succeeds or fails in an ordinary way. -/
namespace CurryCalc

/-- A word that is written like a name and like nothing else. -/
structure IsName (x : String) : Prop where
  nonempty : x.toList ≠ []
  unbroken : ∀ c ∈ x.toList, isBlank c = false
  classified : ∀ source offset, classify x source offset = .ok ⟨.name x, x⟩
  notBoolean : x ≠ "true" ∧ x ≠ "false"

section Words

theorem boolean?_eq_none_iff {word : String} :
    boolean? word = none ↔ word ≠ "true" ∧ word ≠ "false" := by
  unfold boolean?
  split
  next h => simp [h]
  next h =>
    split
    next h' => simp [h']
    next h' => simp [h, h']

/-- Whether a word is a name does not depend on where it is found. -/
theorem classify_name {x lexeme : String} {key source : Value} {offset : Int}
    (h : classify x source offset = .ok ⟨.name key, lexeme⟩) :
    readNumber? x = none ∧ ∀ source offset, classify x source offset = .ok ⟨.name x, x⟩ := by
  simp only [classify_eq] at h ⊢
  cases hnumber : readNumber? x with
  | some y =>
    rw [hnumber] at h
    cases h
  | none =>
    cases hkeyword : Keyword.ofWord? x with
    | some k =>
      rw [hnumber, hkeyword] at h
      cases h
    | none =>
      rw [hnumber, hkeyword] at h
      refine ⟨rfl, fun source offset => ?_⟩
      dsimp only at h ⊢
      split at h
      · split at h <;> cases h
      · rfl

theorem IsName.readNumber?_eq_none {x : String} (h : IsName x) : readNumber? x = none :=
  (classify_name (h.classified .nothing 0)).1

/-- As an argument a name stands for what it is bound to, if that is a value. -/
theorem IsName.parseValue_eq {x : String} (h : IsName x) (names : Namespace) :
    parseValue x names =
      match names.find? x with
      | some (.value v) => .ok v
      | _ => .error (.fault (.notAValue x)) := by
  rw [CurryCalc.parseValue_eq]
  rewrite [h.readNumber?_eq_none, boolean?_eq_none_iff.2 h.notBoolean]
  rfl

end Words

namespace Statement

/-- A text with one mark that separates a name from its definition. -/
def Declares (text name : String) : Prop :=
  ∃ i, findOffset? (trim text) declareMark = some i ∧
    findLastOffset? (trim text) declareMark = some i ∧
    words (String.ofList ((trim text).toList.take i)) = [name] ∧ IsName name

section Kinds

variable {names : Namespace} {text : String}

/-- The outcome has a name of its own here and in what follows, since reducing it would start to
search the text. -/
theorem isDefinition_ends {cited : String} {outcome : Except Failure Bool}
    (h : isDefinition text cited = outcome) :
    Ends (fun found => found = true → ∃ name, Declares text name) (Failure.Regular text)
      outcome := by
  unfold isDefinition at h
  dsimp only at h
  split at h
  · subst h
    exact fun hfound => (nomatch hfound)
  next i hfirst =>
    have hinvalid : (Fault.invalidTarget cited).Regular :=
      ⟨rfl, fun _ => ⟨_, rfl⟩, (Fault.Brief.invalidTarget cited).worded⟩
    split at h
    · subst h
      exact ⟨rfl, fun _ => ⟨_, rfl⟩, (Fault.Brief.secondDeclaration cited).worded⟩
    next hlast =>
      split at h
      next name hwords =>
        split at h
        · subst h
          exact hinvalid
        next hboolean =>
          split at h
          next hclassify =>
            subst h
            have hname :
                name ∈ words (String.ofList ((trim text).toList.take i)) := by simp [hwords]
            have hpart := (isWord_of_mem hname).2
            rw [String.toList_ofList] at hpart
            refine (classify_error (.inl rfl) hclassify).mono ?_
            exact (hpart.trans (List.take_prefix i _).isInfix).trans (trim_infix_self text)
          next key lexeme hname =>
            obtain ⟨-, hnonempty, hunbroken⟩ := trim_of_words hwords
            have hnone : boolean? name = none := by simpa using hboolean
            have hvalid : IsName name :=
              ⟨hnonempty, hunbroken, (classify_name hname).2, boolean?_eq_none_iff.1 hnone⟩
            split at h
            · subst h
              exact ⟨rfl, fun _ => ⟨_, rfl⟩, (Fault.Brief.missingDefinition cited).worded⟩
            · subst h
              exact fun _ => ⟨name, i, hfirst, not_not.1 hlast, hwords, hvalid⟩
          · subst h
            exact hinvalid
      · subst h
        exact hinvalid

theorem ofDefinition_of_mark {name : String} {i : Nat}
    (hfirst : findOffset? (trim text) declareMark = some i)
    (hlast : findLastOffset? (trim text) declareMark = some i)
    (hwords : words (String.ofList ((trim text).toList.take i)) = [name]) (cited : String) :
    ofDefinition text cited = .ok ⟨trim text, cited, .define name
      (trim (String.ofList ((trim text).toList.drop (i + declareMark.toList.length))))⟩ := by
  have hpieces := pieces_of_single (by decide) hfirst hlast
  obtain ⟨hname, -⟩ := trim_of_words hwords
  simp only [ofDefinition, hpieces, hname]

theorem ofDefinition_eq {name : String} (h : Declares text name) (cited : String) :
    ∃ definition, definition.toList <:+: text.toList ∧
      ofDefinition text cited = .ok ⟨trim text, cited, .define name definition⟩ := by
  obtain ⟨i, hfirst, hlast, hwords, -⟩ := h
  refine ⟨_, ?_, ofDefinition_of_mark hfirst hlast hwords cited⟩
  have hpart :=
    trim_infix_self (String.ofList ((trim text).toList.drop (i + declareMark.toList.length)))
  rw [String.toList_ofList] at hpart
  exact (hpart.trans (List.drop_suffix _ _).isInfix).trans (trim_infix_self text)

theorem isApplication_iff : isApplication text names = true ↔
    ∃ name args c, words text = name :: args ∧ names.find? name = some (.closure c) := by
  unfold isApplication
  cases words text with
  | nil => simp
  | cons name args =>
    cases hfind : names.find? name with
    | none => simp [hfind]
    | some item => cases item <;> simp [hfind]

theorem isDefinition_unmarked {text : String} (h : ¬ declareMark.toList <:+: text.toList)
    (cited : String) : isDefinition text cited = .ok false := by
  have htrim : ¬ declareMark.toList <:+: (trim text).toList :=
    fun hin => h (hin.trans (trim_infix_self text))
  have hnone : findOffset? (trim text) declareMark = none := by
    rw [findOffset?, firstOffset?_eq_head?, occurrencesFrom_eq_nil (by decide) htrim]
    rfl
  unfold isDefinition
  dsimp only
  rw [hnone]

end Kinds

end Statement

namespace Session

theorem add_names (s : Session) (text : String) (line : Option Int) :
    (s.add text line).1.names = s.names := by
  by_cases htext : (trim text).isEmpty <;> simp [add, htext, withReporter]

theorem pop_names (s : Session) : s.pop.1.names = s.names := by
  unfold pop
  split <;> rfl

end Session

section Running
variable [Machine]

/-- Only words that are names are bound, and only to what a name may be bound to. -/
def Namespace.Sound (names : Namespace) : Prop :=
  ∀ x item, names.find? x = some item → IsName x ∧ item.Sound

theorem Namespace.sound_empty : Namespace.Sound Bindings.empty := by
  intro x item h
  cases h

theorem Namespace.Sound.insert {names : Namespace} (h : names.Sound) {x : String} {item : Item}
    (hx : IsName x) (hitem : item.Sound) : Namespace.Sound (names.insert x item) := by
  intro y other hy
  rw [Bindings.find?_insert] at hy
  split at hy
  next hxy =>
    subst hxy
    cases hy
    exact ⟨hx, hitem⟩
  · exact h y other hy

theorem Value.Plain.shownValue_eq {v : Value} (h : v.Plain) : shownValue v = .ok (showValue v) := by
  rw [shownValue, h.unwritable?]
  rfl

theorem Item.Sound.shown_eq {item : Item} (h : item.Sound) (name : String) :
    item.shown name = .ok (item.show name) := by
  cases item with
  | value v => exact Value.Plain.shownValue_eq h
  | closure c => rfl

namespace Statement

/-- A statement as reading a source gives it: it defines a name by a part of the source, or applies
a closure, or runs a program that was read from a text. -/
def Sound (names : Namespace) (source : String) (s : Statement) : Prop :=
  match s.action with
  | .define name definition => IsName name ∧ definition.toList <:+: source.toList
  | .apply name _ => ∃ c, names.find? name = some (.closure c)
  | .exec program => program.Written

section Reading

variable {names : Namespace} {text : String}

theorem ofProgram_ends {cited : String} {outcome : Except Failure Statement}
    (h : ofProgram text cited = outcome) :
    Ends (Sound names text) (Failure.Regular text) outcome := by
  subst h
  have hpart := trim_infix_self text
  unfold ofProgram
  generalize trim text = source at hpart ⊢
  have hread := (tokenize_ends source).mono fun f hf => hf.mono hpart
  refine hread.with_eq.bind fun tokens ⟨htokens, htextual⟩ => ?_
  refine (Program.compile_ends htextual).with_eq.bind fun program ⟨hprogram, _⟩ => ?_
  exact ⟨source, tokens, htokens, hprogram⟩

theorem infer_ends {cited : String} {outcome : Except Failure Statement}
    (h : infer text names cited = outcome) :
    Ends (Sound names text) (Failure.Regular text) outcome := by
  unfold infer at h
  split at h
  next hdefinition =>
    subst h
    exact isDefinition_ends hdefinition
  next hdefinition =>
    obtain ⟨name, hname⟩ := isDefinition_ends hdefinition rfl
    obtain ⟨definition, hpart, hof⟩ := ofDefinition_eq hname cited
    obtain ⟨i, -, -, -, hvalid⟩ := hname
    rw [hof] at h
    subst h
    exact ⟨hvalid, hpart⟩
  · split at h
    next happlication =>
      obtain ⟨name, args, c, hwords, hfind⟩ := isApplication_iff.1 happlication
      simp only [ofApplication, hwords] at h
      subst h
      exact ⟨c, hfind⟩
    · split at h
      · exact ofProgram_ends h
      · subst h
        exact ⟨rfl, fun _ => ⟨_, rfl⟩, (Fault.Brief.notAStatement cited).worded⟩

end Reading

section Execution

variable {names : Namespace} {text : String}

theorem parseValue_ends (h : names.Sound) (word : String) :
    Ends Value.Plain (Failure.Regular text) (parseValue word names) := by
  rw [CurryCalc.parseValue_eq]
  split
  next x _ => exact .float x
  split
  next b _ => exact .bool b
  split
  next v hv => exact (h word _ hv).2
  · exact ⟨rfl, fun _ => ⟨_, rfl⟩, (Fault.Brief.notAValue word).worded⟩

theorem applyNamed_ends (h : names.Sound) {name : String} {c : Closure}
    (hname : names.find? name = some (.closure c)) (args : List String) :
    Ends Item.Sound (Failure.Regular text) (applyNamed name args names) := by
  have hc : c.Sound := (h name _ hname).2
  refine (Ends.mapM fun word _ => parseValue_ends h word).bind fun values hvalues => ?_
  rw [hname]
  apply Closure.call_ends hc.written (Int.le_of_lt hc.waiting)
  intro v hv
  rcases List.mem_append.1 hv with hv | hv
  · exact hc.plain v hv
  · exact hvalues v hv

theorem definedItem_ends (h : names.Sound) (definition : String) :
    Ends Item.Sound (Failure.Regular definition) (definedItem definition names) := by
  unfold definedItem
  split
  next happlication =>
    obtain ⟨name, args, c, hwords, hfind⟩ := isApplication_iff.1 happlication
    rw [hwords]
    exact applyNamed_ends h hfind args
  · refine (tokenize_ends definition).with_eq.bind fun tokens ⟨htokens, htextual⟩ => ?_
    refine (Closure.compile_ends htextual).bind fun closure ⟨hprogram, hnone⟩ => ?_
    have hwritten : closure.program.Written := ⟨definition, tokens, htokens, hprogram⟩
    have harity := hwritten.arity_nonneg
    split
    · apply Closure.call_ends hwritten
      · simpa [hnone] using harity
      · simp [hnone]
    next hremaining =>
      have hwaiting : (closure.arguments.length : Int) < closure.program.arity := by
        simp only [Closure.remaining, hnone, List.length_nil] at hremaining ⊢
        omega
      exact ⟨hwritten, hwritten.mem_argumentList_iff, hwaiting, by simp [hnone]⟩

theorem execute_ends (h : names.Sound) {s : Statement} (hs : s.Sound names text) :
    Ends (fun after => after.1.Sound) (Failure.Regular text) (s.execute names) := by
  obtain ⟨_, cited, action⟩ := s
  cases action with
  | define name definition =>
    obtain ⟨hname, hpart⟩ : IsName name ∧ definition.toList <:+: text.toList := hs
    have hitem := (definedItem_ends h definition).mono fun f hf => hf.mono hpart
    exact hitem.bind fun item hitem => h.insert hname hitem
  | apply name args =>
    obtain ⟨c, hc⟩ := hs
    refine (applyNamed_ends h hc args).bind fun item hitem => ?_
    rw [hitem.shown_eq]
    exact h
  | exec program =>
    have hwritten : program.Written := hs
    unfold execute
    dsimp only
    split
    next harity =>
      have hn : (([] : List Value).length : Int) = program.arity := harity.symm
      refine (hwritten.run_ends hn (by simp)).bind fun v hv => ?_
      rw [hv.shownValue_eq]
      exact h
    · exact h

theorem perform_regular (h : names.Sound)
    {outcome : Except Failure (Namespace × Option String)} (ho : perform text names = outcome) :
    Ends (fun after => after.1.Sound) (Failure.Regular text) outcome := by
  unfold perform at ho
  cases hinfer : infer text names text with
  | error f =>
    rw [hinfer] at ho
    subst ho
    exact infer_ends hinfer
  | ok s =>
    rw [hinfer] at ho
    subst ho
    exact execute_ends h (infer_ends hinfer)

end Execution

end Statement

namespace Session

open Statement (perform_regular)

/-- Sessions that come about from one with no name bound by adding statements, running them,
whatever comes of it, and taking out results. -/
inductive Reachable : Session → Prop
  | fresh {s : Session} : s.names = Bindings.empty → Reachable s
  | add {s : Session} (text : String) (line : Option Int) :
      Reachable s → Reachable (s.add text line).1
  | run {s : Session} : Reachable s → Reachable s.run.1
  | runHandled {s : Session} : Reachable s → Reachable s.runHandled.1
  | pop {s : Session} : Reachable s → Reachable s.pop.1

theorem Executes.sound {names last : Namespace} {executed : List (Int × String)}
    {out : List String} (h : Executes names executed last out) (hnames : names.Sound) :
    last.Sound := by
  induction h with
  | none names => exact hnames
  | next hperform _ ih => exact ih (perform_regular hnames hperform)

theorem run_sound {s : Session} (h : s.names.Sound) :
    s.run.1.names.Sound ∧
      ∀ f, s.run.2 = some f → ∃ line ∈ s.pending, f.Regular line.2 := by
  obtain ⟨executed, hran⟩ := s.run_ran
  generalize s.run = after at hran ⊢
  cases hran with
  | completed hexecutes _ _ => exact ⟨hexecutes.sound h, fun f hf => (nomatch hf)⟩
  | @stopped t before line text out f hpending hexecutes hfails _ =>
    have hnames := hexecutes.sound h
    refine ⟨hnames, fun g hg => ?_⟩
    cases hg
    refine ⟨(line, text), ?_, perform_regular hnames hfails⟩
    rw [hpending]
    exact List.mem_append_right _ List.mem_cons_self

theorem Reachable.sound {s : Session} (h : Reachable s) : s.names.Sound := by
  induction h with
  | fresh hs =>
    rw [hs]
    exact Namespace.sound_empty
  | add text line _ ih => rwa [add_names]
  | run _ ih => exact (run_sound ih).1
  | @runHandled s _ ih =>
    rw [s.runHandled_eq.1]
    exact (run_sound ih).1
  | pop _ ih => rwa [pop_names]

/-- A placeholder that is too long to be read stops the statement that it stands in. -/
theorem perform_zeroIndex {n : Nat} (h : digitLimit < n) :
    Statement.perform (zeroIndex n) Bindings.empty = .error (.longIndex n) := by
  have hword := isWord_zeroIndex n
  have hmark : ¬ declareMark.toList <:+: (zeroIndex n).toList :=
    not_occurs_zeroIndex (c := ':') (by decide) (by decide)
  have hdefinition := Statement.isDefinition_unmarked hmark (zeroIndex n)
  have hprogram : Statement.isProgram (zeroIndex n) = true := by
    rw [Statement.isProgram, Bool.not_eq_true', Bool.eq_false_iff, ne_eq, trim_isEmpty_iff,
      hword.words_eq]
    exact nofun
  have happlication : Statement.isApplication (zeroIndex n) Bindings.empty = false := by
    rw [Statement.isApplication, hword.words_eq]
    rfl
  have htokens : tokenize (trim (zeroIndex n)) = .error (.longIndex n) := by
    rewrite [(trim_of_words hword.words_eq).1]
    exact tokenize_zeroIndex h
  unfold Statement.perform Statement.infer Statement.ofProgram
  rewrite [hdefinition, happlication, hprogram, htokens]
  rfl

/-- In every session that can be reached, each bound name is a word without blanks that is read as a
name and is no truth value; it is bound to a number, a truth value, or a closure over a program read
from a text, which asks for exactly the arguments that its arity counts, and has fewer than these,
all of them plain. So a statement never asks for an argument that is not there, has no integer that
is too large, and meets no fault of the interpreter, except that a placeholder in it may have too
many digits to be read; and as an argument a name stands for the value that it is bound to. -/
theorem reachable_bindings_sound {s : Session} (h : Reachable s) :
    (∀ x item, s.names.find? x = some item → IsName x ∧ item.Sound ∧
      parseValue x s.names =
        match item with
        | .value v => .ok v
        | .closure _ => .error (.fault (.notAValue x))) ∧
    (∀ text f, (s.runStatement text).2 = some f →
      f.Ordinary ∨ (∃ digits, f = .longIndex digits) ∧ HasLongIndex text) ∧
    ∀ f, s.run.2 = some f → f.Ordinary ∨
      (∃ digits, f = .longIndex digits) ∧ ∃ line ∈ s.pending, HasLongIndex line.2 := by
  have hsound := h.sound
  refine ⟨fun x item hx => ?_, fun text f hf => ?_, fun f hf => ?_⟩
  · obtain ⟨hname, hitem⟩ := hsound x item hx
    refine ⟨hname, hitem, ?_⟩
    rw [hname.parseValue_eq, hx]
    cases item <;> rfl
  · obtain ⟨reporter, -, hstep⟩ := s.runStatement_eq text
    rw [hstep] at hf
    cases hperform : Statement.perform text s.names with
    | ok after =>
      rw [hperform] at hf
      cases hf
    | error g =>
      rw [hperform] at hf
      cases hf
      exact (perform_regular hsound hperform).ordinary_or
  · obtain ⟨line, hline, hregular⟩ := (run_sound hsound).2 f hf
    exact hregular.ordinary_or.imp_right fun ⟨hf, hlong⟩ => ⟨hf, line, hline, hlong⟩

end Session

end Running

section StandardMachine
attribute [local instance] Machine.standard

namespace Session

/-- A program, a truth value, the program applied to it, and a last argument that does not fit: the
run fails in an ordinary way, and what it bound is sound. -/
theorem reachable_bindings_sound_difference :
    let lines : List (Int × String) :=
      [(1, "f := $1 minus $2"), (2, "x := 1 eq 1"), (3, "g := f x"), (4, "g 1")]
    let s := ((Session.new (Reporter.new .plain false) shellPath).addLines lines).run
    Reachable s.1 ∧
      (s.1.runStatement "g 1").2 = some (.fault (.nonNumericOperand "minus" (.bool true))) ∧
      (Failure.Ordinary (.fault (.nonNumericOperand "minus" (.bool true))) ∨
        HasLongIndex "g 1") ∧
      (∃ c, s.1.names.find? "g" = some (.closure c) ∧ c.arguments = [.bool true] ∧ c.Sound) ∧
      parseValue "x" s.1.names = .ok (.bool true) := by
  intro lines s
  have hreach : Reachable s.1 := .run (.add _ _ (.add _ _ (.add _ _ (.add _ _ (.fresh rfl)))))
  obtain ⟨hnames, hfails, -⟩ := reachable_bindings_sound hreach
  have hg : s.1.names.find? "g" = some (.closure ⟨⟨.binary .sub (.argument (.int 1))
      (.argument (.int 2)), 2, "$1 minus $2"⟩, [.bool true]⟩) := by decide +kernel
  have hx : s.1.names.find? "x" = some (.value (.bool true)) := by decide +kernel
  have hlast : (s.1.runStatement "g 1").2 =
      some (.fault (.nonNumericOperand "minus" (.bool true))) := by decide +kernel
  exact ⟨hreach, hlast, (hfails _ _ hlast).imp_right And.right, ⟨_, hg, rfl, (hnames _ _ hg).2.1⟩,
    (hnames _ _ hx).2.2⟩

/-- A placeholder of zeros alone is malformed, but with too many of them the statement fails in a
way that is not ordinary. -/
theorem long_zero_index_not_ordinary :
    let text := zeroIndex 4301
    let s : Session := ⟨Reporter.new .plain false, shellPath, Bindings.empty, [(1, text)], []⟩
    Reachable s ∧ IsMalformed text ∧ s.run.2 = some (.longIndex 4301) ∧
      ¬ Failure.Ordinary (.longIndex 4301) := by
  intro text s
  have hperform : Statement.perform text s.names = .error (.longIndex 4301) :=
    perform_zeroIndex (by decide)
  obtain ⟨t, -, -, -, -, hrun⟩ := runPending_of_error hperform 1 []
  refine ⟨.fresh rfl, isMalformed_zeroIndex 4301, ?_, id⟩
  rw [show s.run = (t, some (.longIndex 4301)) from hrun]

end Session

end StandardMachine

end CurryCalc
