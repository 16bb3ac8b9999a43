import CurryCalc.Workbench

/-! Calls on closures. Arguments count by their order alone, however they are grouped into calls,
and a call that is refused changes nothing. -/
namespace CurryCalc

section Calling
variable [Machine]

namespace Closure

/-- Calls with groups of arguments, each on the closure that the call before it gave. -/
inductive Collects : Closure → List (List Value) → Closure → Prop
  | none (c : Closure) : Collects c [] c
  | call {c d e : Closure} {args : List Value} {groups : List (List Value)} :
      c.call args = .ok (.closure d) → Collects d groups e → Collects c (args :: groups) e

theorem compile_of_ok {tokens : List Token} {p : Program} (h : Program.compile tokens = .ok p) :
    compile tokens = .ok ⟨p, []⟩ := by
  rw [compile, h]
  rfl

theorem call_of_lt {c : Closure} {args : List Value}
    (h : ((c.arguments ++ args).length : Int) < c.program.arity) :
    c.call args = .ok (.closure ⟨c.program, c.arguments ++ args⟩) := by
  have hlength : ((c.arguments ++ args).length : Int) = c.arguments.length + args.length := by simp
  rw [call, if_neg (by unfold remaining; omega)]
  exact if_neg (by omega)

theorem call_of_eq {c : Closure} {args : List Value}
    (h : ((c.arguments ++ args).length : Int) = c.program.arity) :
    c.call args = (c.program.run (c.arguments ++ args)).map .value := by
  have hlength : ((c.arguments ++ args).length : Int) = c.arguments.length + args.length := by simp
  rw [call, if_neg (by unfold remaining; omega)]
  exact if_pos h

theorem call_of_gt {c : Closure} {args : List Value}
    (h : c.program.arity < ((c.arguments ++ args).length : Int)) :
    c.call args = .error (.fault (.tooManyArguments c.remaining args.length)) := by
  have hlength : ((c.arguments ++ args).length : Int) = c.arguments.length + args.length := by simp
  exact if_pos (by unfold remaining; omega)

/-- Arguments that were collected before count as if they came with the call. -/
theorem call_collected {c : Closure} {args : List Value}
    (h : ((c.arguments ++ args).length : Int) ≤ c.program.arity) :
    c.call args = (⟨c.program, []⟩ : Closure).call (c.arguments ++ args) := by
  rcases Int.lt_or_eq_of_le h with hlt | heq
  · have hall : (⟨c.program, []⟩ : Closure).call (c.arguments ++ args) = _ := call_of_lt hlt
    exact (call_of_lt hlt).trans hall.symm
  · have hall : (⟨c.program, []⟩ : Closure).call (c.arguments ++ args) = _ := call_of_eq heq
    exact (call_of_eq heq).trans hall.symm

theorem call_closure {c d : Closure} {args : List Value} (h : c.call args = .ok (.closure d)) :
    d = ⟨c.program, c.arguments ++ args⟩ ∧
      ((c.arguments ++ args).length : Int) < c.program.arity := by
  rcases Int.lt_trichotomy ((c.arguments ++ args).length : Int) c.program.arity with hlt | heq | hgt
  · rw [call_of_lt hlt] at h
    cases h
    exact ⟨rfl, hlt⟩
  · rw [call_of_eq heq] at h
    cases hrun : c.program.run (c.arguments ++ args) <;> rw [hrun] at h <;> cases h
  · rw [call_of_gt hgt] at h
    cases h

theorem Collects.eq {c d : Closure} {groups : List (List Value)} (h : Collects c groups d) :
    d = ⟨c.program, c.arguments ++ groups.flatten⟩ := by
  induction h with
  | none c => simp
  | call hcall _ ih =>
    obtain ⟨rfl, -⟩ := call_closure hcall
    simpa using ih

/-- Totals only grow, so that the last one being too small keeps every call from completing. -/
theorem collects_of_lt {c : Closure} {groups : List (List Value)}
    (h : groups ≠ [] → ((c.arguments ++ groups.flatten).length : Int) < c.program.arity) :
    Collects c groups ⟨c.program, c.arguments ++ groups.flatten⟩ := by
  induction groups generalizing c with
  | nil => simpa using Collects.none c
  | cons args groups ih =>
    have htotal := h (by simp)
    simp only [List.flatten_cons, List.length_append] at htotal
    refine .call (call_of_lt (by simp only [List.length_append]; omega)) ?_
    rw [List.flatten_cons, ← List.append_assoc]
    exact ih fun _ => by simp only [List.length_append]; omega

end Closure

namespace Workbench

def run (w : Workbench) (steps : List BuildStep) : Workbench :=
  steps.foldl (fun w s => (w.step s).1) w

theorem act_keeps {part : Part} (h : ∀ tokens compiled, part ≠ .builder tokens compiled)
    (s : BuildStep) : (act part s).2 = part := by
  cases part with
  | builder tokens compiled => exact (h tokens compiled rfl).elim
  | item i => cases s <;> cases i <;> rfl
  | extender tokens => cases s <;> rfl
  | inherited name => cases s <;> rfl

/-- What a step adds: what it makes, or an empty entry if it fails. -/
def Adds (w : Workbench) (s : BuildStep) (added : Part) : Prop :=
  added = .item (.value .nothing) ∨ ∃ part made, w.parts[w.slot (BuildStep.on s)]? = some part ∧
    (act part s).1 = .ok made ∧ added = marked w.parts.length made

/-- A step changes at most the entry that it acts on, and adds one. -/
theorem step_parts (w : Workbench) (s : BuildStep) :
    ∃ added, w.Adds s added ∧ (w.step s).1.parts =
      (w.parts[w.slot (BuildStep.on s)]?.elim w.parts fun part =>
        w.parts.set (w.slot (BuildStep.on s)) (act part s).2) ++ [added] := by
  cases hpart : w.parts[w.slot (BuildStep.on s)]? with
  | none => exact ⟨.item (.value .nothing), .inl rfl, by simp [step, hpart, skip]⟩
  | some part =>
    cases hact : (act part s).1 with
    | ok p =>
      exact ⟨marked w.parts.length p, .inr ⟨part, p, hpart, hact, rfl⟩, by simp [step, hpart, hact]⟩
    | error f => exact ⟨.item (.value .nothing), .inl rfl, by simp [step, hpart, hact, skip]⟩

/-- The entry in a slot after a step; it may differ from the one before if the step acts on it. -/
theorem step_getElem? {w : Workbench} {k : Nat} {part : Part} (h : w.parts[k]? = some part)
    (s : BuildStep) : (w.step s).1.parts[k]? =
      some (if w.slot (BuildStep.on s) = k then (act part s).2 else part) := by
  obtain ⟨hk, -⟩ := List.getElem?_eq_some_iff.1 h
  obtain ⟨added, -, hparts⟩ := step_parts w s
  rw [hparts]
  cases hon : w.parts[w.slot (BuildStep.on s)]? with
  | none =>
    have hne : w.slot (BuildStep.on s) ≠ k := by
      intro heq
      rw [heq, h] at hon
      cases hon
    rw [if_neg hne, Option.elim_none, List.getElem?_append_left hk, h]
  | some other =>
    rw [Option.elim_some, List.getElem?_append_left (by simpa using hk)]
    by_cases heq : w.slot (BuildStep.on s) = k
    · rw [heq, h] at hon
      cases hon
      rw [if_pos heq, heq, List.getElem?_set_self hk]
    · rw [if_neg heq, List.getElem?_set_ne heq, h]

theorem step_keeps_item {w : Workbench} {k : Nat} {i : Item} (h : w.parts[k]? = some (.item i))
    (s : BuildStep) : (w.step s).1.parts[k]? = some (.item i) := by
  have hkeeps : (act (.item i) s).2 = .item i := act_keeps (by simp) s
  rw [step_getElem? h, hkeeps, ite_self]

theorem run_keeps_item {w : Workbench} {k : Nat} {i : Item} (h : w.parts[k]? = some (.item i))
    (steps : List BuildStep) : (w.run steps).parts[k]? = some (.item i) := by
  induction steps generalizing w with
  | nil => exact h
  | cons s steps ih => exact ih (step_keeps_item h s)

theorem step_call_at {w : Workbench} {on k : Nat} (hon : w.slot on = k) {c : Closure}
    (h : w.parts[k]? = some (.item (.closure c))) (args : List Value) :
    (w.step (.call on args)).2 = (c.call args).map .item := by
  have hact : act (.item (.closure c)) (.call on args) =
      ((c.call args).map .item, .item (.closure c)) := rfl
  simp only [step, BuildStep.on, hon, h, hact]
  cases (c.call args).map Part.item <;> rfl

theorem step_call_closure {w : Workbench} {k : Nat} {c : Closure}
    (h : w.parts[k]? = some (.item (.closure c))) (args : List Value) :
    (w.step (.call k args)).2 = (c.call args).map .item :=
  step_call_at (by simp [slot, h]) h args

end Workbench

namespace Closure

/-- However arguments are grouped into calls, they are collected in their order; the call that
completes them does what one call with all of them does; a call with too many is refused, and in
whatever is done afterwards the closure can be called as before. -/
theorem call_grouping (p : Program) (groups : List (List Value))
    (hbelow : groups ≠ [] → (groups.flatten.length : Int) < p.arity) (args : List Value) :
    let c : Closure := ⟨p, groups.flatten⟩
    let all := groups.flatten ++ args
    Collects ⟨p, []⟩ groups c ∧ c.remaining = p.arity - groups.flatten.length ∧
    ((all.length : Int) < p.arity →
      c.call args = .ok (.closure ⟨p, all⟩) ∧ 0 < (⟨p, all⟩ : Closure).remaining) ∧
    ((all.length : Int) = p.arity →
      c.call args = (p.run all).map .value ∧ c.call args = (⟨p, []⟩ : Closure).call all) ∧
    (p.arity < (all.length : Int) →
      c.call args =
        .error (.fault (.tooManyArguments (.int (p.arity - groups.flatten.length)) args.length)) ∧
      ∀ (w : Workbench) (k : Nat), w.parts[k]? = some (.item (.closure c)) →
        ∀ steps other, (((w.step (.call k args)).1.run steps).step (.call k other)).2 =
          (c.call other).map .item) := by
  intro c all
  refine ⟨collects_of_lt (c := ⟨p, []⟩) hbelow, rfl,
    fun hlt => ⟨call_of_lt hlt, Int.sub_pos_of_lt hlt⟩, fun heq => ?_,
    fun hgt => ⟨call_of_gt hgt, fun w k hw steps other => ?_⟩⟩
  · have hcall := call_of_eq (c := c) heq
    have hsingle : (⟨p, []⟩ : Closure).call all = (p.run all).map .value := call_of_eq heq
    exact ⟨hcall, hcall.trans hsingle.symm⟩
  · have hkept := Workbench.step_keeps_item hw (.call k args)
    exact Workbench.step_call_closure (Workbench.run_keeps_item hkept steps) other

end Closure

end Calling

section StandardMachine
attribute [local instance] Machine.standard

/-- The program `$1 minus $2`, called with one argument, then with none, and then with one or
two. -/
theorem Closure.call_grouping_difference :
    (⟨⟨.binary .sub (.argument (.int 1)) (.argument (.int 2)), 2, "$1 minus $2"⟩, [.int 10]⟩ :
        Closure).call [.int 3] =
      (⟨⟨.binary .sub (.argument (.int 1)) (.argument (.int 2)), 2, "$1 minus $2"⟩, []⟩ :
        Closure).call [.int 10, .int 3] ∧
    (⟨⟨.binary .sub (.argument (.int 1)) (.argument (.int 2)), 2, "$1 minus $2"⟩, [.int 10]⟩ :
        Closure).call [.int 3, .nothing] =
      .error (.fault (.tooManyArguments (.int 1) (.int 2))) := by
  constructor
  · exact ((call_grouping _ [[.int 10], []] (fun _ => by decide) [.int 3]).2.2.2.1 (by decide)).2
  · exact ((call_grouping _ [[.int 10], []] (fun _ => by decide) [.int 3, .nothing]).2.2.2.2
      (by decide)).1

end StandardMachine

end CurryCalc
