import CurryCalc.Proofs.ArgumentIndices
import CurryCalc.Proofs.ProgramSafety
import CurryCalc.Proofs.SpacedWords
import CurryCalc.Proofs.Wording

/-! Programs read from a text and called with numbers and truth values. Such values are all that
they give, and they fail in ordinary ways only: the interpreter is never at fault. -/
namespace CurryCalc

/-- A symbol as a text gives it. -/
structure Symbol.Textual (s : Symbol) : Prop where
  proper : s.Proper
  plain : ∀ v, s = .number v → v.Plain
  writable : ∀ room, s.value.unwritable? room = none

/-- Problems of a program or of the values in it. The interpreter is not at fault, and no argument
is asked for that is not there. -/
def Fault.isOrdinary : Fault → Bool
  | .argumentOutOfRange _ _ => false
  | cause => !cause.draft.internal

/-- Failures of a program or of the values in it. -/
def Failure.Ordinary : Failure → Prop
  | .fault cause => cause.isOrdinary
  | _ => False

/-- An ordinary problem that can be worded, and explained to its end. -/
structure Fault.Regular (cause : Fault) : Prop where
  ordinary : cause.isOrdinary
  noted : ∀ room, ∃ notes, cause.notes room = .ok notes
  worded : cause.Worded

/-- Somewhere in a text a placeholder has more digits than an index may have. -/
def HasLongIndex (s : String) : Prop :=
  ∃ digits : List Char, digitLimit < digits.length ∧ (∀ d ∈ digits, isAsciiDigit d) ∧
    '$' :: digits <:+: s.toList

/-- Failures that a text may lead to: ordinary problems that can be reported to their end, and an
index in it that is too long to be read. -/
def Failure.Regular (source : String) : Failure → Prop
  | .fault cause => cause.Regular
  | .longIndex digits => digitLimit < digits ∧ HasLongIndex source
  | _ => False

theorem Fault.Regular.internal_eq {cause : Fault} (h : cause.Regular) :
    cause.draft.internal = false := by
  have hordinary := h.ordinary
  unfold isOrdinary at hordinary
  split at hordinary
  · cases hordinary
  · simpa using hordinary

section Regular

variable {s t : String} {f : Failure}

theorem HasLongIndex.mono (h : HasLongIndex s) (hpart : s.toList <:+: t.toList) :
    HasLongIndex t := by
  obtain ⟨digits, hlong, hdigits, hin⟩ := h
  exact ⟨digits, hlong, hdigits, hin.trans hpart⟩

/-- What a text leads to is ordinary, unless one of its placeholders is too long to be read. -/
theorem Failure.Regular.ordinary_or (h : f.Regular s) :
    f.Ordinary ∨ (∃ digits, f = .longIndex digits) ∧ HasLongIndex s := by
  cases f with
  | fault cause => exact .inl (Fault.Regular.ordinary h)
  | longIndex digits => exact .inr ⟨⟨digits, rfl⟩, h.2⟩
  | _ => exact h.elim

theorem Failure.Regular.mono (h : f.Regular s) (hpart : s.toList <:+: t.toList) : f.Regular t := by
  cases f with
  | fault cause => exact h
  | longIndex digits => exact ⟨h.1, h.2.mono hpart⟩
  | _ => exact h

end Regular

theorem Fault.regular_tooManyArguments {arity supplied : Int} (harity : 0 ≤ arity)
    (hsupplied : 0 ≤ supplied) : (tooManyArguments arity supplied).Regular := by
  have hminus : (Value.int supplied).minus (.int arity) = .ok (.int (supplied - arity)) := rfl
  have hnegative {n : Int} (h : 0 ≤ n) : (Value.int n).isNegative = false := by
    simp [Value.isNegative, Value.toInt?, h]
  refine ⟨rfl, fun room => ?_, worded_tooManyArguments arity supplied⟩
  simp [notes, hminus, hnegative harity, hnegative hsupplied]

theorem Fault.regular_nestedTooDeeply {stage : String} (hstage : Template.IsText stage)
    (source : String) : (nestedTooDeeply stage source).Regular :=
  ⟨rfl, fun _ => ⟨_, rfl⟩, worded_nestedTooDeeply hstage source⟩

/-- What a token from a text is can be said. -/
theorem Fault.regular_unexpected (expected : String) {found : Option Token}
    (h : ∀ t, found = some t → t.symbol.Textual) (position : Int) (source : String)
    (start stop : Int) :
    (unexpected expected found position source start stop).Regular := by
  refine ⟨rfl, fun room => ?_, worded_unexpected _ _ _ _ _ _⟩
  have hfound : (found.bind fun t => t.symbol.value.unwritable? room) = none := by
    cases found with
    | none => rfl
    | some t => exact (h t rfl).writable room
  simp [notes, hfound]

section Reading

theorem readIndex?_error {word : String} {digits : List Char} {f : Failure}
    (hword : word.toList = '$' :: digits) (h : readIndex? digits = .error f) : f.Regular word := by
  unfold readIndex? at h
  split at h
  · cases h
  next hdigits =>
    split at h
    next hlong =>
      cases h
      have hall : digits.all isAsciiDigit = true := by simp_all
      exact ⟨hlong, digits, hlong, List.all_eq_true.1 hall, hword ▸ List.infix_rfl⟩
    · cases h

theorem Keyword.writable {k : Keyword} (h : k ∈ all) (room : Room) :
    k.value.unwritable? room = none := by
  cases k with
  | other v => simp [all] at h
  | _ => rfl

theorem classify_textual {word : String} {source : Value} {offset : Int} {t : Token}
    (h : classify word source offset = .ok t) : t.symbol.Textual := by
  refine ⟨classify_proper h, ?_, ?_⟩
  · rcases classify_cases h with ⟨x, -, rfl⟩ | ⟨k, -, rfl⟩ | ⟨digits, index, -, rfl⟩ | rfl
    · rintro v ⟨⟩
      exact .float x
    · exact nofun
    · exact nofun
    · exact nofun
  · rcases classify_cases h with ⟨x, -, rfl⟩ | ⟨k, hk, rfl⟩ | ⟨digits, index, hindex, rfl⟩ | rfl
    · exact fun room => rfl
    · exact Keyword.writable (List.mem_of_find?_eq_some hk)
    · intro room
      show (if isLong index then some Failure.longInteger else none) = none
      rw [readIndex?_short hindex]
      rfl
    · exact fun room => rfl

/-- A word that is quoted from a text, or stands for itself, fails for what it is. -/
theorem classify_error {word : String} {source : Value} {offset : Int} {f : Failure}
    (hsource : source = .nothing ∨ ∃ s, source = .text s)
    (h : classify word source offset = .error f) : f.Regular word := by
  rw [classify_eq] at h
  split at h
  · cases h
  split at h
  · cases h
  split at h
  next digits hword =>
    split at h
    next hindex =>
      cases h
      exact readIndex?_error hword hindex
    · cases h
      have hworded := Fault.worded_malformedArgument word hsource offset
      rcases hsource with rfl | ⟨s, rfl⟩
      · exact ⟨rfl, fun _ => ⟨_, rfl⟩, hworded⟩
      · exact ⟨rfl, fun _ => ⟨_, rfl⟩, hworded⟩
    · cases h
  · cases h

theorem classify_ends (word : String) {source : Value} (offset : Int)
    (hsource : source = .nothing ∨ ∃ s, source = .text s) :
    Ends (fun t => t.symbol.Textual) (Failure.Regular word) (classify word source offset) := by
  cases h : classify word source offset with
  | error f => exact classify_error hsource h
  | ok t => exact classify_textual h

theorem tokenize_ends (source : String) :
    Ends (fun tokens => ∀ t ∈ tokens, t.symbol.Textual) (Failure.Regular source)
      (tokenize source) := by
  refine Ends.mapM fun w hw => ?_
  refine (classify_ends w.text w.offset (.inr ⟨_, rfl⟩)).mono fun f hf => hf.mono ?_
  have hword : w.text ∈ words (cutBefore commentMark source) := List.mem_map_of_mem hw
  exact (isWord_of_mem hword).2.trans (cutBefore_prefix_self commentMark source).isInfix

theorem tokenize_textual {source : String} {tokens : List Token}
    (h : tokenize source = .ok tokens) : ∀ t ∈ tokens, t.symbol.Textual := by
  have hends := tokenize_ends source
  rwa [h] at hends

theorem unspellable?_of_textual {tokens : List Token} (h : ∀ t ∈ tokens, t.symbol.Textual)
    (room : Room) : unspellable? room tokens = none := by
  refine List.findSome?_eq_none_iff.2 fun t ht => ?_
  unfold Token.unwritable?
  split
  · exact (h t ht).writable room
  · rfl

end Reading

variable {text : String}

theorem Expr.meaning_plain {e : Expr} {scope : Scope} {args : List Value} {v : Value}
    (hnumbers : ∀ v, .number v ∈ e.symbols → v.Plain) (hargs : ∀ v ∈ args, v.Plain)
    (hscope : ∀ key v, scope.find? key = some v → v.Plain) (h : e.meaning scope args = .ok v) :
    v.Plain := by
  induction e generalizing scope v with
  | number w =>
    cases h
    exact hnumbers _ List.mem_cons_self
  | argument i => exact hargs v (mem_of_argumentAt h)
  | name x =>
    obtain ⟨key, hkey⟩ := Scope.find?_of_lookup h
    exact hscope key v hkey
  | binary op l r ihl ihr =>
    obtain ⟨a, -, h⟩ := Outcome.ok_of_bind h
    obtain ⟨b, -, h⟩ := Outcome.ok_of_bind h
    exact Operator.apply_plain h
  | letIn x bound body ihb ihe =>
    simp only [symbols, List.mem_cons, List.mem_append] at hnumbers
    obtain ⟨w, hw, h⟩ := Outcome.ok_of_bind h
    obtain ⟨key, -, h⟩ := Outcome.ok_of_bind h
    have hplain := ihb (fun v hv => hnumbers v (.inr (.inl hv))) hscope hw
    refine ihe (fun v hv => hnumbers v (.inr (.inr hv))) (fun key' u hu => ?_) h
    rw [Bindings.find?_insert] at hu
    split at hu
    · cases hu
      exact hplain
    · exact hscope key' u hu
  | cond c t e ihc iht ihe =>
    simp only [symbols, List.mem_append] at hnumbers
    obtain ⟨test, -, h⟩ := Outcome.ok_of_bind h
    cases test with
    | bool b =>
      cases b with
      | true => exact iht (fun v hv => hnumbers v (.inr (.inl hv))) hscope h
      | false => exact ihe (fun v hv => hnumbers v (.inr (.inr hv))) hscope h
    | _ => cases h
  | foreign w => cases h

/-- With proper symbols and plain values, what stops an expression can be reported to its end. -/
theorem Mishap.regular {given : Value → Prop} {scope : Scope} {e : Expr} {f : Failure}
    (h : Mishap given scope e f) (hproper : ∀ s ∈ e.symbols, s.Proper)
    (hgiven : ∀ v, given v → v.Plain) : f.Regular text := by
  cases h with
  | nonBoolean v => exact ⟨rfl, fun _ => ⟨_, rfl⟩, (Fault.Brief.nonBooleanCondition v).worded⟩
  | nonNumeric op v hop =>
    have hplain : Template.IsText op := by
      rcases hop with rfl | rfl
      · exact Template.isText_ofList rfl
      · exact Template.isText_ofList rfl
    exact ⟨rfl, fun _ => ⟨_, rfl⟩, Fault.worded_nonNumericOperand hplain v⟩
  | overflow n hn _ => cases hgiven _ hn
  | unwritable v hv hlong => cases (hgiven v hv).unwritable? .unlimited ▸ hlong
  | unbound x _ _ hx =>
    obtain ⟨s, rfl⟩ := hproper _ hx
    exact ⟨rfl, fun _ => ⟨_, rfl⟩, (Fault.Brief.unbound s).worded⟩
  | unhashable x kind hx hkind =>
    obtain ⟨s, rfl⟩ := hproper _ hx
    cases hkind
  | notAnIndex i hi hint =>
    obtain ⟨n, _, rfl⟩ := hproper _ hi
    cases hint

section Running
variable [Machine]

def Program.Written (p : Program) : Prop :=
  ∃ source tokens, tokenize source = .ok tokens ∧ Program.compile tokens = .ok p

namespace Program

/-- No text is read here, so that the failures are those of any text. -/
theorem compile_ends {tokens : List Token} (h : ∀ t ∈ tokens, t.symbol.Textual) :
    Ends (fun _ => True) (Failure.Regular text) (compile tokens) := by
  have hspell := unspellable?_of_textual h (.levels nestingLimit)
  rcases Grammar.parse_cases tokens with
    ⟨f, hf, -⟩ | ⟨-, ⟨tree, -, hparse⟩ | ⟨-, hparse⟩ | ⟨_, _, -, hparse⟩⟩
  · cases hspell.symm.trans hf
  · have hsymbols := Grammar.forall_symbols_of_parse hparse h
    rw [compile_of_parse hparse fun t ht => (h t ht).proper]
    split
    · trivial
    · have hindices : ∀ i ∈ tree.argumentIndices, (Symbol.placeholder i).Textual := fun i hi =>
        hsymbols _ (Expr.placeholder_of_argument (Value.mem_of_mem_ascending hi))
      have hwritable : (Fault.nonContiguous tree.argumentIndices (sourceOf tokens)).unwordable?
          (.levels nestingLimit) = none :=
        Value.unwritableAmong?_eq_none fun i hi => (hindices i hi).writable _
      rw [Failure.raise, hwritable]
      refine ⟨rfl, fun _ => ⟨_, rfl⟩, Fault.worded_nonContiguous (fun i hi => ?_) _⟩
      obtain ⟨n, -, hn⟩ := (hindices i hi).proper
      exact ⟨n, hn⟩
  · simp only [compile, hparse, hspell]
    exact Fault.regular_nestedTooDeeply (Template.isText_ofList rfl) _
  · simp only [compile, hparse]
    exact Fault.regular_unexpected _ (fun t ht => h t (List.mem_of_getElem? ht)) _ _ _ _

namespace Written

variable {p : Program}

theorem mem_argumentList_iff (h : p.Written) (i : Value) :
    i ∈ p.tree.argumentList ↔ ∃ k : Nat, 1 ≤ k ∧ (k : Int) ≤ p.arity ∧ i = .int k := by
  obtain ⟨source, tokens, htokens, hcompile⟩ := h
  exact Program.mem_argumentList_iff hcompile (tokenize_proper htokens)

theorem arity_nonneg (h : p.Written) : 0 ≤ p.arity := by
  obtain ⟨source, tokens, -, hcompile⟩ := h
  obtain ⟨-, -, -, harity, -⟩ := compile_eq_ok_iff.1 hcompile
  omega

theorem number_plain (h : p.Written) {v : Value} (hv : .number v ∈ p.tree.symbols) : v.Plain := by
  obtain ⟨source, tokens, htokens, hcompile⟩ := h
  have htextual := Grammar.forall_symbols_of_parse (compile_eq_ok_iff.1 hcompile).1
    (tokenize_textual htokens)
  exact (htextual _ hv).plain v rfl

end Written

end Program

namespace Program

theorem Written.run_ends {p : Program} (h : p.Written) {args : List Value}
    (hn : (args.length : Int) = p.arity) (hargs : ∀ v ∈ args, v.Plain) :
    Ends Value.Plain (Failure.Regular text) (p.run args) := by
  have hnumbers : ∀ v, .number v ∈ p.tree.symbols → v.Plain := fun v => h.number_plain
  cases hrun : p.run args with
  | ok v =>
    unfold run at hrun
    rcases Expr.evaluate_within nestingLimit p.tree Bindings.empty args with hdeep | hplain
    · rw [hdeep] at hrun
      cases hrun
    · rw [hplain] at hrun
      split at hrun
      · cases hrun
      · exact Expr.meaning_plain hnumbers hargs (by simp) hrun
  | error f =>
    obtain ⟨source, tokens, htokens, hcompile⟩ := h
    have hends := Program.run_ends hcompile hn
    rw [hrun] at hends
    rcases hends with rfl | hmishap
    · exact Fault.regular_nestedTooDeeply (Template.isText_ofList rfl) _
    · refine hmishap.regular (symbols_proper hcompile (tokenize_proper htokens)) fun v hv => ?_
      rcases hv with harg | hnumber
      · exact hargs v harg
      · exact hnumbers v hnumber

end Program

structure Closure.Sound (c : Closure) : Prop where
  written : c.program.Written
  indices : ∀ i, i ∈ c.program.tree.argumentList ↔
    ∃ k : Nat, 1 ≤ k ∧ (k : Int) ≤ c.program.arity ∧ i = .int k
  waiting : (c.arguments.length : Int) < c.program.arity
  plain : ∀ v ∈ c.arguments, v.Plain

/-- What a name may be bound to. -/
def Item.Sound : Item → Prop
  | .value v => v.Plain
  | .closure c => c.Sound

namespace Closure

theorem compile_ends {tokens : List Token} (h : ∀ t ∈ tokens, t.symbol.Textual) :
    Ends (fun c => Program.compile tokens = .ok c.program ∧ c.arguments = [])
      (Failure.Regular text) (compile tokens) :=
  (Program.compile_ends h).with_eq.map fun _ hp => ⟨hp.1, rfl⟩

theorem call_ends {c : Closure} (h : c.program.Written)
    (hcount : (c.arguments.length : Int) ≤ c.program.arity) {args : List Value}
    (hplain : ∀ v ∈ c.arguments ++ args, v.Plain) :
    Ends Item.Sound (Failure.Regular text) (c.call args) := by
  rcases Int.lt_trichotomy ((c.arguments ++ args).length : Int) c.program.arity with hlt | heq | hgt
  · rw [call_of_lt hlt]
    exact ⟨h, h.mem_argumentList_iff, hlt, hplain⟩
  · rw [call_of_eq heq]
    exact (h.run_ends heq hplain).map fun v hv => hv
  · rw [call_of_gt hgt]
    have hremaining : 0 ≤ c.remaining := by
      unfold remaining
      omega
    exact Fault.regular_tooManyArguments hremaining (Int.natCast_nonneg _)

end Closure

end Running

end CurryCalc
