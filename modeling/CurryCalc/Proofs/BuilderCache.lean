import CurryCalc.Proofs.Currying
import CurryCalc.Proofs.Outcome
import Mathlib.Data.List.Induction

/-! Builders and what they remember. No step changes the tokens of a builder; the program that a
builder remembers is the one that its tokens compile to, and it is there exactly if the builder has
been called and its tokens compile. So a call never shows what has been done before. -/
namespace CurryCalc

section Building
variable [Machine]

namespace Part

/-- A builder remembers nothing but what its tokens compile to, and a closure has a program that
some tokens compile to. -/
def Sound : Part → Prop
  | .builder tokens compiled => ∀ c, compiled = some c → Closure.compile tokens = .ok c
  | .item (.closure c) => ∃ tokens, Closure.compile tokens = .ok ⟨c.program, []⟩
  | .item (.value _) | .extender _ | .inherited _ => True

/-- An entry that has just been made: a builder remembers nothing yet. -/
def Fresh : Part → Prop
  | .builder _ compiled => compiled = none
  | part => part.Sound

theorem Fresh.sound {part : Part} (h : part.Fresh) : part.Sound := by
  cases part with
  | builder tokens compiled =>
    intro c hc
    cases h.symm.trans hc
  | _ => exact h

end Part

namespace Workbench

/-- The step calls the builder in slot `k`, and the tokens of that builder compile. -/
def GetsPastCompiling (w : Workbench) (k : Nat) (s : BuildStep) : Prop :=
  ∃ on args tokens compiled p, s = .call on args ∧ w.slot on = k ∧
    w.parts[k]? = some (.builder tokens compiled) ∧ Program.compile tokens = .ok p

section Act

variable {tokens : List Token} {compiled : Option Closure}

theorem arguments_of_compile {c : Closure} (h : Closure.compile tokens = .ok c) :
    c = ⟨c.program, []⟩ := by
  obtain ⟨p, -, rfl⟩ := Outcome.ok_of_map h
  rfl

theorem compiledOf_eq (h : (Part.builder tokens compiled).Sound) :
    compiledOf tokens compiled = Closure.compile tokens := by
  cases compiled with
  | none => rfl
  | some c => exact (h c rfl).symm

/-- A builder that is called remembers the program if there is one. -/
theorem act_call (h : (Part.builder tokens compiled).Sound) (on : Nat) (args : List Value) :
    act (.builder tokens compiled) (.call on args) =
      (callTokens tokens args, .builder tokens (Closure.compile tokens).toOption) := by
  unfold act callTokens
  dsimp only
  rw [compiledOf_eq h]
  cases hcompile : Closure.compile tokens with
  | error f =>
    cases compiled with
    | none => rfl
    | some c => cases hcompile.symm.trans (h c rfl)
  | ok c =>
    dsimp only
    rw [Outcome.bind_ok]
    cases c.call args <;> rfl

theorem act_builder {s : BuildStep} (h : ∀ on args, s ≠ .call on args) :
    (act (.builder tokens compiled) s).2 = .builder tokens compiled := by
  cases s with
  | word on name => rfl
  | values on keys together => rfl
  | call on args => exact (h on args rfl).elim
  | namedCall on args => rfl

theorem fresh_of_call {c : Closure} (hcompile : Closure.compile tokens = .ok ⟨c.program, []⟩)
    {args : List Value} {made : Part} (h : (c.call args).map .item = .ok made) : made.Fresh := by
  obtain ⟨i, hcall, rfl⟩ := Outcome.ok_of_map h
  cases i with
  | value v => trivial
  | closure d =>
    obtain ⟨rfl, -⟩ := Closure.call_closure hcall
    exact ⟨tokens, hcompile⟩

theorem fresh_of_callTokens {args : List Value} {made : Part}
    (h : callTokens tokens args = .ok made) : made.Fresh := by
  obtain ⟨c, hcompile, h⟩ := Outcome.ok_of_bind h
  obtain ⟨i, hcall, h⟩ := Outcome.ok_of_bind h
  cases h
  rw [arguments_of_compile hcompile] at hcompile
  exact fresh_of_call hcompile (congrArg (Except.map Part.item) hcall)

theorem fresh_of_asBuilder {outcome : Except Failure (List Token)} {made : Part}
    (h : asBuilder outcome = .ok made) : made.Fresh := by
  obtain ⟨extended, -, rfl⟩ := Outcome.ok_of_map h
  rfl

theorem fresh_of_ownPart? (h : (Part.builder tokens compiled).Sound) {name : String} {own : Part}
    (hown : ownPart? tokens compiled name = some own) : own.Fresh := by
  unfold ownPart? at hown
  split at hown
  · cases hown
    trivial
  · split at hown
    · cases hown
      cases compiled with
      | none => trivial
      | some c =>
        have hcompile := h c rfl
        rw [arguments_of_compile hcompile] at hcompile
        exact ⟨tokens, hcompile⟩
    · split at hown
      · cases hown
        trivial
      · split at hown
        · cases hown
          trivial
        · cases hown

/-- What a step makes is new: a builder that is made remembers nothing yet. -/
theorem act_fresh {part made : Part} (h : part.Sound) {s : BuildStep}
    (hmade : (act part s).1 = .ok made) : made.Fresh := by
  cases part with
  | builder tokens compiled =>
    cases s with
    | word on name =>
      unfold act at hmade
      dsimp only at hmade
      cases hown : ownPart? tokens compiled name with
      | none =>
        rw [hown, Option.elim_none] at hmade
        unfold addWord at hmade
        split at hmade
        · cases hmade
        · exact fresh_of_asBuilder hmade
      | some own =>
        rw [hown] at hmade
        cases hmade
        exact fresh_of_ownPart? h hown
    | values on keys together => exact fresh_of_asBuilder hmade
    | call on args =>
      rw [act_call h] at hmade
      exact fresh_of_callTokens hmade
    | namedCall on args =>
      obtain ⟨extended, -, hcall⟩ := Outcome.ok_of_bind hmade
      exact fresh_of_callTokens hcall
  | item i =>
    cases s with
    | word on name =>
      unfold act at hmade
      dsimp only at hmade
      cases hword : itemWord? i name with
      | none =>
        rw [hword] at hmade
        cases hmade
      | some v =>
        rw [hword] at hmade
        cases hmade
        trivial
    | values on keys together =>
      cases i with
      | value v =>
        obtain ⟨selected, -, rfl⟩ := Outcome.ok_of_map hmade
        trivial
      | closure c => cases hmade
    | call on args =>
      cases i with
      | value v => cases hmade
      | closure c =>
        obtain ⟨tokens, hcompile⟩ := h
        exact fresh_of_call hcompile hmade
    | namedCall on args =>
      cases i with
      | value v => cases hmade
      | closure c =>
        obtain ⟨tokens, hcompile⟩ := h
        exact fresh_of_call hcompile hmade
  | extender tokens =>
    cases s with
    | call on args => exact fresh_of_asBuilder hmade
    | _ => cases hmade
  | inherited name => cases s <;> cases hmade

end Act

section Step

def AllSound (w : Workbench) : Prop := ∀ part ∈ w.parts, part.Sound

theorem Adds.fresh {w : Workbench} (h : w.AllSound) {s : BuildStep} {added : Part}
    (hadds : w.Adds s added) : added.Fresh := by
  rcases hadds with rfl | ⟨part, made, hpart, hmade, rfl⟩
  · trivial
  · have hfresh := act_fresh (h part (List.mem_of_getElem? hpart)) hmade
    unfold marked
    split
    · trivial
    · exact hfresh

theorem act_keeps_sound {part : Part} (h : part.Sound) (s : BuildStep) : (act part s).2.Sound := by
  cases part with
  | builder tokens compiled =>
    by_cases hcall : ∃ on args, s = .call on args
    · obtain ⟨on, args, rfl⟩ := hcall
      rw [act_call h]
      intro c hc
      cases hcompile : Closure.compile tokens with
      | error f =>
        rw [hcompile] at hc
        cases hc
      | ok d =>
        rw [hcompile] at hc
        cases hc
        rfl
    · rw [act_builder fun on args heq => hcall ⟨on, args, heq⟩]
      exact h
  | _ =>
    rw [act_keeps (by simp)]
    exact h

theorem AllSound.step {w : Workbench} (h : w.AllSound) (s : BuildStep) : (w.step s).1.AllSound := by
  obtain ⟨added, hadds, hparts⟩ := step_parts w s
  intro part hpart
  rw [hparts, List.mem_append, List.mem_singleton] at hpart
  rcases hpart with hpart | rfl
  · cases hon : w.parts[w.slot (BuildStep.on s)]? with
    | none =>
      rw [hon] at hpart
      exact h part hpart
    | some other =>
      rw [hon] at hpart
      rcases List.mem_or_eq_of_mem_set hpart with hpart | rfl
      · exact h part hpart
      · exact act_keeps_sound (h other (List.mem_of_getElem? hon)) s
  · exact (hadds.fresh h).sound

theorem isSome_compile_iff {tokens : List Token} :
    (Closure.compile tokens).toOption.isSome ↔ ∃ p, Program.compile tokens = .ok p := by
  constructor
  · intro hsome
    cases hcompile : Closure.compile tokens with
    | error f =>
      rw [hcompile] at hsome
      cases hsome
    | ok c =>
      obtain ⟨p, hp, -⟩ := Outcome.ok_of_map hcompile
      exact ⟨p, hp⟩
  · rintro ⟨p, hp⟩
    rw [Closure.compile_of_ok hp]
    rfl

/-- A step keeps the tokens of a builder. The builder remembers a program after it if it did before,
or if the step is a call of this builder and gets past compiling. -/
theorem step_builder {w : Workbench} (h : w.AllSound) {k : Nat} {tokens : List Token}
    {compiled : Option Closure} (hk : w.parts[k]? = some (.builder tokens compiled))
    (s : BuildStep) :
    ∃ after, (w.step s).1.parts[k]? = some (.builder tokens after) ∧
      (after.isSome ↔ compiled.isSome ∨ w.GetsPastCompiling k s) := by
  have hsound := h _ (List.mem_of_getElem? hk)
  rw [step_getElem? hk]
  by_cases hcall : ∃ on args, s = .call on args ∧ w.slot on = k
  · obtain ⟨on, args, rfl, hon⟩ := hcall
    have hacts : w.slot (BuildStep.on (.call on args)) = k := hon
    refine ⟨(Closure.compile tokens).toOption, ?_, ?_⟩
    · rw [if_pos hacts, act_call hsound]
    · rw [isSome_compile_iff]
      constructor
      · rintro ⟨p, hp⟩
        exact .inr ⟨on, args, tokens, compiled, p, rfl, hon, hk, hp⟩
      · rintro (hsome | ⟨_, _, tokens', compiled', p, _, _, hk', hp⟩)
        · obtain ⟨c, hc⟩ := Option.isSome_iff_exists.1 hsome
          obtain ⟨p, hp, -⟩ := Outcome.ok_of_map (hsound c hc)
          exact ⟨p, hp⟩
        · cases hk.symm.trans hk'
          exact ⟨p, hp⟩
  · have hnot : ¬ w.GetsPastCompiling k s := by
      rintro ⟨on, args, -, -, -, hs, hon, -⟩
      exact hcall ⟨on, args, hs, hon⟩
    refine ⟨compiled, ?_, by simp [hnot]⟩
    by_cases hon : w.slot (BuildStep.on s) = k
    · rw [if_pos hon, act_builder]
      rintro on args rfl
      exact hcall ⟨on, args, rfl, hon⟩
    · rw [if_neg hon]

theorem builder_of_step {w : Workbench} (h : w.AllSound) {s : BuildStep} {k : Nat}
    {tokens : List Token} {after : Option Closure}
    (hk : (w.step s).1.parts[k]? = some (.builder tokens after)) :
    (∃ compiled, w.parts[k]? = some (.builder tokens compiled)) ∨
      w.parts[k]? = none ∧ after = none := by
  cases hbefore : w.parts[k]? with
  | none =>
    right
    have hlength : w.parts.length ≤ k := List.getElem?_eq_none_iff.1 hbefore
    obtain ⟨added, hadds, hparts⟩ := step_parts w s
    have hkept : (w.parts[w.slot (BuildStep.on s)]?.elim w.parts fun part =>
        w.parts.set (w.slot (BuildStep.on s)) (act part s).2).length = w.parts.length := by
      cases w.parts[w.slot (BuildStep.on s)]? <;> simp
    rw [hparts, List.getElem?_append_right (hkept ▸ hlength)] at hk
    obtain rfl : .builder tokens after = added := by simpa using List.mem_of_getElem? hk
    exact ⟨rfl, hadds.fresh h⟩
  | some part =>
    left
    rw [step_getElem? hbefore] at hk
    cases part with
    | builder tokens' compiled =>
      obtain ⟨after', hafter, -⟩ := step_builder h hbefore s
      rw [step_getElem? hbefore, hk] at hafter
      cases hafter
      exact ⟨compiled, rfl⟩
    | _ =>
      rw [act_keeps (by simp), ite_self] at hk
      cases hk

end Step

section Run

theorem run_append (w : Workbench) (front back : List BuildStep) :
    w.run (front ++ back) = (w.run front).run back :=
  List.foldl_append

theorem run_snoc (w : Workbench) (steps : List BuildStep) (s : BuildStep) :
    w.run (steps ++ [s]) = ((w.run steps).step s).1 := by
  rw [run_append]
  rfl

theorem AllSound.run {w : Workbench} (h : w.AllSound) (steps : List BuildStep) :
    (w.run steps).AllSound := by
  induction steps generalizing w with
  | nil => exact h
  | cons s steps ih => exact ih (h.step s)

theorem allSound_new : new.AllSound := by
  intro part hpart
  rw [List.mem_singleton.1 hpart]
  exact nofun

theorem run_keeps_builder {w : Workbench} (h : w.AllSound) {k : Nat} {tokens : List Token}
    {compiled : Option Closure} (hk : w.parts[k]? = some (.builder tokens compiled))
    (steps : List BuildStep) :
    ∃ after, (w.run steps).parts[k]? = some (.builder tokens after) := by
  induction steps generalizing w compiled with
  | nil => exact ⟨compiled, hk⟩
  | cons s steps ih =>
    obtain ⟨after, hafter, -⟩ := step_builder h hk s
    exact ih (h.step s) hafter

/-- Some call of the builder in slot `k` got past compiling, in a history of steps. -/
def CompiledDuring (k : Nat) (steps : List BuildStep) : Prop :=
  ∃ before s, before ++ [s] <+: steps ∧ (new.run before).GetsPastCompiling k s

theorem compiledDuring_snoc {k : Nat} {steps : List BuildStep} {s : BuildStep} :
    CompiledDuring k (steps ++ [s]) ↔
      CompiledDuring k steps ∨ (new.run steps).GetsPastCompiling k s := by
  constructor
  · rintro ⟨before, s', hfront, hpast⟩
    rcases List.prefix_concat_iff.1 hfront with hall | hfront
    · obtain ⟨rfl, rfl⟩ := List.append_singleton_inj.1 hall
      exact .inr hpast
    · exact .inl ⟨before, s', hfront, hpast⟩
  · rintro (⟨before, s', hfront, hpast⟩ | hpast)
    · exact ⟨before, s', hfront.trans (List.prefix_append steps [s]), hpast⟩
    · exact ⟨steps, s, List.prefix_rfl, hpast⟩

theorem not_compiledDuring {k : Nat} {steps : List BuildStep}
    (h : (new.run steps).parts[k]? = none) :
    ¬ CompiledDuring k steps := by
  rintro ⟨before, s, ⟨rest, rfl⟩, -, -, tokens, compiled, -, -, -, hk, -⟩
  obtain ⟨after, hafter⟩ := run_keeps_builder (allSound_new.run before) hk ([s] ++ rest)
  rw [← run_append, ← List.append_assoc, h] at hafter
  cases hafter

/-- A builder remembers a program exactly if an earlier call of it got past compiling. -/
theorem compiled_iff {steps : List BuildStep} {k : Nat} {tokens : List Token}
    {compiled : Option Closure} (hk : (new.run steps).parts[k]? = some (.builder tokens compiled)) :
    compiled.isSome ↔ CompiledDuring k steps := by
  induction steps using List.reverseRecOn generalizing compiled with
  | nil =>
    have hnone : ¬ CompiledDuring k [] := by
      rintro ⟨before, s, hfront, -⟩
      simp at hfront
    cases List.mem_singleton.1 (List.mem_of_getElem? hk)
    simp [hnone]
  | append_singleton steps s ih =>
    have hsound := allSound_new.run steps
    rw [run_snoc] at hk
    rw [compiledDuring_snoc]
    rcases builder_of_step hsound hk with ⟨earlier, hearlier⟩ | ⟨hnone, rfl⟩
    · obtain ⟨after, hafter, hiff⟩ := step_builder hsound hearlier s
      cases hk.symm.trans hafter
      rw [hiff, ih hearlier]
    · have hnot : ¬ (new.run steps).GetsPastCompiling k s := by
        rintro ⟨_, _, _, _, _, _, _, hk', _⟩
        cases hnone.symm.trans hk'
      simp [hnot, not_compiledDuring hnone]

end Run

/-- A call of a builder gives what compiling its tokens now and calling the result gives. -/
theorem step_call_builder {w : Workbench} (h : w.AllSound) {on k : Nat} (hon : w.slot on = k)
    {tokens : List Token} {compiled : Option Closure}
    (hk : w.parts[k]? = some (.builder tokens compiled)) (args : List Value) :
    (w.step (.call on args)).2 = callTokens tokens args := by
  have hact := act_call (h _ (List.mem_of_getElem? hk)) on args
  simp only [step, BuildStep.on, hon, hk, hact]
  cases callTokens tokens args <;> rfl

/-- Whatever steps have been taken, a builder keeps its tokens in all that is done later. It
remembers a program exactly if some call of it got past compiling, and then the one that its tokens
compile to, with no arguments; if they do not compile, it remembers none. Every call of it gives
what compiling its tokens afresh and calling the result gives. A closure that a call gave is kept as
well, and a call of it with no more arguments than it waits for gives what calling its program
afresh with all arguments gives. -/
theorem builder_calls_afresh (steps : List BuildStep) (k : Nat) :
    let w := new.run steps
    (∀ tokens compiled, w.parts[k]? = some (.builder tokens compiled) →
      (∀ more, ∃ after, (w.run more).parts[k]? = some (.builder tokens after)) ∧
      (compiled.isSome ↔ CompiledDuring k steps) ∧
      (∀ c, compiled = some c → ∃ p, Program.compile tokens = .ok p ∧ c = ⟨p, []⟩) ∧
      (∀ f, Program.compile tokens = .error f → compiled = none) ∧
      ∀ on args, w.slot on = k → (w.step (.call on args)).2 = callTokens tokens args) ∧
    ∀ c, w.parts[k]? = some (.item (.closure c)) →
      (∀ more, (w.run more).parts[k]? = some (.item (.closure c))) ∧
      ∃ tokens, Program.compile tokens = .ok c.program ∧
        ∀ on args, w.slot on = k → ((c.arguments ++ args).length : Int) ≤ c.program.arity →
          (w.step (.call on args)).2 = callTokens tokens (c.arguments ++ args) := by
  intro w
  have hsound : w.AllSound := allSound_new.run steps
  refine ⟨fun tokens compiled hk => ?_, fun c hk => ?_⟩
  · have hremembers := hsound _ (List.mem_of_getElem? hk)
    have hprogram : ∀ c, compiled = some c → ∃ p, Program.compile tokens = .ok p ∧ c = ⟨p, []⟩ := by
      intro c hc
      obtain ⟨p, hp, rfl⟩ := Outcome.ok_of_map (hremembers c hc)
      exact ⟨p, hp, rfl⟩
    refine ⟨run_keeps_builder hsound hk, compiled_iff hk, hprogram, fun f hf => ?_,
      fun on args hon => step_call_builder hsound hon hk args⟩
    cases compiled with
    | none => rfl
    | some c =>
      obtain ⟨p, hp, -⟩ := hprogram c rfl
      cases hf.symm.trans hp
  · obtain ⟨tokens, hcompile⟩ := hsound _ (List.mem_of_getElem? hk)
    obtain ⟨p, hp, hprogram⟩ := Outcome.ok_of_map hcompile
    cases hprogram
    refine ⟨run_keeps_item hk, tokens, hp, fun on args hon hfits => ?_⟩
    rw [step_call_at hon hk, Closure.call_collected hfits, callTokens, hcompile, Outcome.bind_ok]
    cases (⟨c.program, []⟩ : Closure).call (c.arguments ++ args) <;> rfl

end Workbench

end Building

section StandardMachine
attribute [local instance] Machine.standard

namespace Workbench

/-- A sum built word by word. It is called before its second operand is there, and then with one
argument, with one that is no number, and after it has been extended. -/
theorem builder_calls_afresh_sum :
    let steps : List BuildStep := [.values 0 [.text "$1"] false, .word 1 "plus", .call 2 [],
      .values 2 [.text "$2"] false, .call 4 [.int 1], .call 4 [.int 1, .bool true], .word 4 "minus"]
    let w := new.run steps
    let first : List Token := [⟨.placeholder (.int 1), "$1"⟩, ⟨.keyword .plus, "plus"⟩]
    let all := first ++ [⟨.placeholder (.int 2), "$2"⟩]
    ∃ p, w.parts[2]? = some (.builder first none) ∧ ¬ CompiledDuring 2 steps ∧
      w.parts[4]? = some (.builder all (some ⟨p, []⟩)) ∧ CompiledDuring 4 steps ∧
      Program.compile all = .ok p ∧
      (w.step (.call 4 [.int 2, .int 3])).2 = callTokens all [.int 2, .int 3] ∧
      w.parts[5]? = some (.item (.closure ⟨p, [.int 1]⟩)) ∧
      ∃ tokens, (w.step (.call 5 [.int 3])).2 = callTokens tokens [.int 1, .int 3] := by
  intro steps w first all
  have htwo : w.parts[2]? = some (.builder first none) := by decide +kernel
  have hfour : w.parts[4]? = some (.builder all (some ⟨⟨.binary .add (.argument (.int 1))
      (.argument (.int 2)), 2, "$1 plus $2"⟩, []⟩)) := by decide +kernel
  have hfive : w.parts[5]? = some (.item (.closure ⟨⟨.binary .add (.argument (.int 1))
      (.argument (.int 2)), 2, "$1 plus $2"⟩, [.int 1]⟩)) := by decide +kernel
  obtain ⟨-, hnever, -⟩ := (builder_calls_afresh steps 2).1 _ _ htwo
  obtain ⟨-, honce, hprogram, -, hcall⟩ := (builder_calls_afresh steps 4).1 _ _ hfour
  obtain ⟨-, tokens, -, hagain⟩ := (builder_calls_afresh steps 5).2 _ hfive
  obtain ⟨p, hp, hc⟩ := hprogram _ rfl
  cases hc
  refine ⟨_, htwo, fun h => ?_, hfour, honce.1 rfl, hp, hcall 4 _ (by decide +kernel), hfive,
    tokens, hagain 5 [.int 3] (by decide +kernel) (by decide)⟩
  cases hnever.2 h

end Workbench

end StandardMachine

end CurryCalc
