import CurryCalc.Proofs.SymbolParser
import CurryCalc.Proofs.Traversal
import Mathlib.Data.List.Forall2

/-! Lexemes are for showing only. Two sequences of tokens with the same symbols are read in
lockstep; they compile to programs that do the same, or fail for the same reason at the same place.
What the tokens were written as appears in the texts that messages quote, and nowhere else, as long
as they have such texts. -/
namespace CurryCalc

/-- Failures that differ at most in what the tokens they quote were written as. -/
inductive Failure.SameButText : Failure → Failure → Prop
  | same (f : Failure) : SameButText f f
  | unexpected (expected : Value) (position : Int) {found found' : Option Token}
      {source source' : Value} {start start' stop stop' : Int}
      (h : found.map Token.symbol = found'.map Token.symbol) :
      SameButText (.fault (.unexpected expected found position source start stop))
        (.fault (.unexpected expected found' position source' start' stop'))
  | nonContiguous (indices : List Value) (source source' : Value) :
      SameButText (.fault (.nonContiguous indices source)) (.fault (.nonContiguous indices source'))
  | nestedTooDeeply (stage : String) (source source' : Value) :
      SameButText (.fault (.nestedTooDeeply stage source)) (.fault (.nestedTooDeeply stage source'))

/-- Both succeed, with results of which the relation holds, or both fail for the same reason. -/
inductive Alike {α : Type} (same : α → α → Prop) : Except Failure α → Except Failure α → Prop
  | ok {a b : α} (h : same a b) : Alike same (.ok a) (.ok b)
  | error {f g : Failure} (h : f.SameButText g) : Alike same (.error f) (.error g)

theorem Alike.mono {α : Type} {same same' : α → α → Prop} {x y : Except Failure α}
    (h : Alike same x y) (himp : ∀ a b, same a b → same' a b) : Alike same' x y := by
  cases h with
  | ok h => exact .ok (himp _ _ h)
  | error h => exact .error h

theorem Alike.map {α β : Type} {same : α → α → Prop} {same' : β → β → Prop} {x y : Except Failure α}
    (h : Alike same x y) {f : α → β} (hf : ∀ a b, same a b → same' (f a) (f b)) :
    Alike same' (x.map f) (y.map f) := by
  cases h with
  | ok h => exact .ok (hf _ _ h)
  | error h => exact .error h

def Program.SameButSource (p q : Program) : Prop := p.tree = q.tree ∧ p.arity = q.arity

/-- The same value, or closures that have the same arguments so far and programs that differ at most
in their source. -/
inductive Item.SameButSource : Item → Item → Prop
  | value (v : Value) : SameButSource (.value v) (.value v)
  | closure {p q : Program} (h : p.SameButSource q) (arguments : List Value) :
      SameButSource (.closure ⟨p, arguments⟩) (.closure ⟨q, arguments⟩)

/-- Two sequences of tokens are read to the same end, with rests that have the same symbols. -/
inductive SameEnd : Except (Refusal Token) Expr → Except (Refusal Token) Expr → Prop
  | ok (e : Expr) : SameEnd (.ok e) (.ok e)
  | wanted (expected : Expected) {rest rest' : List Token}
      (h : rest.map Token.symbol = rest'.map Token.symbol) :
      SameEnd (.error (.wanted expected rest)) (.error (.wanted expected rest'))
  | tooDeep : SameEnd (.error .tooDeep) (.error .tooDeep)

section Compiling

variable {tokens tokens' : List Token}

/-- Each sequence is read in lockstep with its symbols, so that the two are read in lockstep. -/
theorem sentence_sameEnd (h : tokens.map Token.symbol = tokens'.map Token.symbol) (budget : Nat) :
    SameEnd (Parser.sentence budget tokens) (Parser.sentence budget tokens') := by
  have hread := Lockstep.sentence budget tokens
  have hread' := Lockstep.sentence budget tokens'
  rw [← h] at hread'
  generalize Parser.sentence budget tokens = read, Parser.sentence budget tokens' = read',
    SymbolParser.sentence budget (tokens.map Token.symbol) = symbols at hread hread'
  cases hread with
  | ok he =>
    cases hread' with
    | ok he' =>
      subst he he'
      exact .ok _
  | wanted expected rest =>
    generalize hrest : rest.map Token.symbol = left at hread'
    cases hread' with
    | wanted expected rest' => exact .wanted expected hrest
  | tooDeep =>
    cases hread' with
    | tooDeep => exact .tooDeep

theorem unexpectedAt_sameButText (h : tokens.map Token.symbol = tokens'.map Token.symbol)
    (position : Nat) (expected : Expected) :
    Failure.SameButText (.fault (unexpectedAt tokens position expected))
      (.fault (unexpectedAt tokens' position expected)) := by
  refine .unexpected _ _ ?_
  rw [← List.getElem?_map, ← List.getElem?_map, h]

variable [Machine]

def Spelled (tokens : List Token) : Prop := unspellable? (.levels nestingLimit) tokens = none

instance (tokens : List Token) : Decidable (Spelled tokens) := inferInstanceAs (Decidable (_ = _))

theorem parse_alike (h : tokens.map Token.symbol = tokens'.map Token.symbol)
    (hspelled : Spelled tokens) (hspelled' : Spelled tokens') :
    Alike Eq (parse tokens) (parse tokens') := by
  have hlength : ∀ {ts ts' : List Token}, ts.map Token.symbol = ts'.map Token.symbol →
      ts.length = ts'.length := fun {ts ts'} hmap => by
    simpa using congrArg List.length hmap
  have hend := sentence_sameEnd h nestingLimit
  unfold parse
  rw [hspelled, hspelled']
  dsimp only
  generalize Parser.sentence nestingLimit tokens = read,
    Parser.sentence nestingLimit tokens' = read' at hend
  cases hend with
  | ok e => exact .ok rfl
  | wanted expected hrest =>
    dsimp only
    rw [hlength h, hlength hrest]
    exact .error (unexpectedAt_sameButText h _ _)
  | tooDeep => exact .error (.same _)

theorem misnumbered_sameButText (tree : Expr) (source source' : String) :
    (Program.misnumbered tree source).SameButText (Program.misnumbered tree source') := by
  unfold Program.misnumbered
  split
  · exact .same _
  · simp only [Failure.raise, Fault.unwordable?]
    cases Value.unwritableAmong? (.levels nestingLimit) tree.argumentIndices with
    | some f => exact .same f
    | none => exact .nonContiguous _ _ _

theorem compile_alike (h : tokens.map Token.symbol = tokens'.map Token.symbol)
    (hspelled : Spelled tokens) (hspelled' : Spelled tokens') :
    Alike Program.SameButSource (Program.compile tokens) (Program.compile tokens') := by
  have hparse := parse_alike h hspelled hspelled'
  unfold Program.compile
  rw [hspelled, hspelled']
  generalize parse tokens = read at hparse ⊢
  generalize parse tokens' = read' at hparse ⊢
  cases hparse with
  | ok htree =>
    subst htree
    dsimp only
    split
    · exact .error (.same _)
    · split
      · exact .ok ⟨rfl, rfl⟩
      · exact .error (misnumbered_sameButText _ _ _)
  | error hfailure =>
    cases hfailure with
    | same =>
      rename_i f
      cases f with
      | tooDeep => exact .error (.nestedTooDeeply _ _ _)
      | _ => exact .error (.same _)
    | unexpected expected position hfound => exact .error (.unexpected expected position hfound)
    | nonContiguous indices source source' => exact .error (.nonContiguous indices source source')
    | nestedTooDeeply stage source source' => exact .error (.nestedTooDeeply stage source source')

/-- If all values of tokens can be written, the tokens have a text, whatever they were written
as. -/
theorem spelled_of_writable
    (h : ∀ t ∈ tokens, t.symbol.value.unwritable? (.levels nestingLimit) = none) :
    Spelled tokens := by
  refine List.findSome?_eq_none_iff.2 fun t ht => ?_
  unfold Token.unwritable?
  split
  · exact h t ht
  · rfl

end Compiling

section Calling

variable [Machine] {p q : Program}

theorem run_alike (h : p.SameButSource q) (args : List Value) :
    Alike Eq (p.run args) (q.run args) := by
  unfold Program.run
  rw [h.1]
  cases q.tree.evaluate nestingLimit Bindings.empty args with
  | ok v => exact .ok rfl
  | error f =>
    cases f with
    | tooDeep => exact .error (.nestedTooDeeply _ _ _)
    | _ => exact .error (.same _)

theorem call_alike (h : p.SameButSource q) (arguments args : List Value) :
    Alike Item.SameButSource (Closure.call ⟨p, arguments⟩ args)
    (Closure.call ⟨q, arguments⟩ args) := by
  unfold Closure.call Closure.remaining
  dsimp only
  rw [h.2]
  split
  · exact .error (.same _)
  · split
    · refine (run_alike h (arguments ++ args)).map ?_
      rintro v _ rfl
      exact .value v
    · exact .ok (.closure h (arguments ++ args))

end Calling

/-- Of two sequences of tokens with the same symbols, both with a text, either both compile, to
programs with the same tree and arity, or both fail for the same reason: in the same way, for want
of the same symbol at the same position, or for the same indices. The programs give the same on the
same arguments, however these come in. Both have a text, whatever they were written as, if the
values of the symbols can be written; a sequence without a text is refused for want of it. -/
theorem compile_ignores_lexemes [Machine] {tokens tokens' : List Token}
    (h : List.Forall₂ (fun t t' => t.symbol = t'.symbol) tokens tokens') :
    (Spelled tokens → Spelled tokens' →
      Alike (fun p q => p.tree = q.tree ∧ p.arity = q.arity ∧
          (∀ args, Alike Eq (p.run args) (q.run args)) ∧
          ∀ arguments args, Alike Item.SameButSource (Closure.call ⟨p, arguments⟩ args)
            (Closure.call ⟨q, arguments⟩ args))
        (Program.compile tokens) (Program.compile tokens')) ∧
    ((∀ t ∈ tokens, t.symbol.value.unwritable? (.levels nestingLimit) = none) →
      Spelled tokens ∧ Spelled tokens') ∧
    ∀ f, unspellable? (.levels nestingLimit) tokens = some f →
      Program.compile tokens = .error f := by
  have hsymbols : tokens.map Token.symbol = tokens'.map Token.symbol := by
    induction h with
    | nil => rfl
    | cons hsymbol _ ih => rw [List.map_cons, List.map_cons, hsymbol, ih]
  refine ⟨fun hspelled hspelled' => ?_, fun hwritable => ⟨spelled_of_writable hwritable, ?_⟩,
    fun f => Program.compile_of_unspellable⟩
  · refine (compile_alike hsymbols hspelled hspelled').mono fun p q hsame => ?_
    exact ⟨hsame.1, hsame.2, run_alike hsame, call_alike hsame⟩
  · refine spelled_of_writable fun t ht => ?_
    have hmem : t.symbol ∈ tokens.map Token.symbol := hsymbols ▸ List.mem_map_of_mem ht
    obtain ⟨u, hu, hsame⟩ := List.mem_map.1 hmem
    rw [← hsame]
    exact hwritable u hu

section StandardMachine
attribute [local instance] Machine.standard

/-- The tokens `if $1 then x`, and the same symbols written as an empty text, `$2`, `else` and a
comment: both lack the word `else` at the end, although the texts that they quote are different. -/
theorem compile_ignores_lexemes_misleading :
    let written : List Token := [⟨.keyword .ifWord, "if"⟩, ⟨.placeholder (.int 1), "$1"⟩,
      ⟨.keyword .thenWord, "then"⟩, ⟨.name "x", "x"⟩]
    let other : List Token := [⟨.keyword .ifWord, ""⟩, ⟨.placeholder (.int 1), "$2"⟩,
      ⟨.keyword .thenWord, "else"⟩, ⟨.name "x", ";;"⟩]
    sourceOf written ≠ sourceOf other ∧ ∃ f g, Program.compile written = .error f ∧
      Program.compile other = .error g ∧ f.SameButText g := by
  intro written other
  have hsame : List.Forall₂ (fun t t' => t.symbol = t'.symbol) written other :=
    .cons rfl (.cons rfl (.cons rfl (.cons rfl .nil)))
  refine ⟨by decide, ?_⟩
  have halike := (compile_ignores_lexemes hsame).1 (by decide +kernel) (by decide +kernel)
  generalize hwritten : Program.compile written = first at halike
  generalize hother : Program.compile other = second at halike
  cases halike with
  | ok => cases hwritten
  | error hfailure => exact ⟨_, _, rfl, rfl, hfailure⟩

/-- Two placeholders with too long an index lack the end of the input at the second one if they have
lexemes, and cannot be read at all if they have none. -/
theorem long_placeholders_need_lexemes :
    let written (lexeme : String) : List Token :=
      [⟨.placeholder (.int (Int.pow 10 4300)), lexeme⟩,
        ⟨.placeholder (.int (Int.pow 10 4300)), lexeme⟩]
    List.Forall₂ (fun t t' => t.symbol = t'.symbol) (written "$1") (written "") ∧
      (∃ found source start stop, Program.compile (written "$1") =
        .error (.fault (.unexpected "end of input" found 1 source start stop))) ∧
      Program.compile (written "") = .error .longInteger := by
  intro written
  have hlong :
      unspellable? (.levels nestingLimit) (written "") = some .longInteger := by decide +kernel
  exact ⟨.cons rfl (.cons rfl .nil), ⟨_, _, _, _, rfl⟩, Program.compile_of_unspellable hlong⟩

end StandardMachine

end CurryCalc
