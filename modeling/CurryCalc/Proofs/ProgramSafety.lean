import CurryCalc.Proofs.Currying
import CurryCalc.Proofs.Mishaps

/-! What can go wrong in a program that compiles. Its tree has only nodes that can be evaluated, and
only indices that a full list of arguments has; what remains are faults of the values themselves,
names that no enclosing let binds, and nesting beyond the limit. -/
namespace CurryCalc

/-- The values that a program starts with. -/
def Program.Given (p : Program) (args : List Value) (v : Value) : Prop :=
  v ∈ args ∨ .number v ∈ p.tree.symbols

namespace Closure

end Closure

section Safety
variable [Machine]

namespace Program

theorem fits_of_compile {tokens : List Token} {p : Program} (h : compile tokens = .ok p)
    {args : List Value} (hn : (args.length : Int) = p.arity) :
    ∀ s ∈ p.tree.symbols, Fits (p.Given args) args s := by
  intro s hs
  cases s with
  | number v => exact .inr (.inr hs)
  | keyword k => trivial
  | name x => trivial
  | placeholder i =>
    obtain ⟨k, hk, hi⟩ := argument_in_range h (Expr.mem_argumentList_of_symbol hs)
    exact ⟨k, by omega, hi⟩

theorem meaning_ends_of_compile {tokens : List Token} {p : Program} (h : compile tokens = .ok p)
    {args : List Value} (hn : (args.length : Int) = p.arity) :
    Ends (Clean (p.Given args)) (Mishap (p.Given args) Bindings.empty p.tree)
      (p.tree.meaning Bindings.empty args) :=
  meaning_ends (Grammar.parse_sound (compile_eq_ok_iff.1 h).1).2.2.readable (fits_of_compile h hn)
    (fun _ hv => .inr (.inl hv)) (by simp)

/-- A program that compiles and has all its arguments gives a value, nests too deeply, or stops in
one of the ways listed. -/
theorem run_ends {tokens : List Token} {p : Program} (h : compile tokens = .ok p)
    {args : List Value} (hn : (args.length : Int) = p.arity) :
    Ends (fun _ => True)
      (fun f => f = .fault (.nestedTooDeeply "evaluate" p.source) ∨
        Mishap (p.Given args) Bindings.empty p.tree f)
      (p.run args) := by
  have hmeaning := meaning_ends_of_compile h hn
  unfold run
  rcases Expr.evaluate_within nestingLimit p.tree Bindings.empty args with hdeep | hplain
  · rw [hdeep]
    exact .inl rfl
  · rw [hplain]
    cases hvalue : p.tree.meaning Bindings.empty args with
    | ok v => trivial
    | error f =>
      rw [hvalue] at hmeaning
      split
      · exact .inl rfl
      · exact .inr hmeaning

end Program

namespace Closure

end Closure

end Safety

section StandardMachine
attribute [local instance] Machine.standard
open Outcome

namespace Closure

end Closure

end StandardMachine

end CurryCalc
