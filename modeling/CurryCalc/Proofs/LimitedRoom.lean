import CurryCalc.Expr.Evaluate
import CurryCalc.Proofs.Outcome

/-! What limited room changes. Values are compared and written as they are where there is no limit,
unless there is too little room; and there is enough for values that nest no deeper than it. -/
namespace CurryCalc

namespace Room

/-- There are fewer levels than that. -/
def Below (d : Nat) : Room → Prop
  | .levels n => n < d
  | .unlimited => False

theorem Below.mono {d d' : Nat} {room : Room} (h : room.Below d) (hle : d ≤ d') :
    room.Below d' := by
  cases room with
  | levels n => exact Nat.lt_of_lt_of_le h hle
  | unlimited => exact h

theorem enter_cases (room : Room) (cost : Nat) :
    (∃ inner, room.enter cost = some inner ∧ ∀ d, inner.Below d → room.Below (d + cost)) ∨
    room.enter cost = none ∧ ∀ d, room.Below (d + cost) := by
  cases room with
  | unlimited => exact .inl ⟨.unlimited, rfl, fun d h => h⟩
  | levels n =>
    by_cases hcost : cost ≤ n
    · refine .inl ⟨.levels (n - cost), if_pos hcost, fun d (h : n - cost < d) => ?_⟩
      show n < d + cost
      omega
    · refine .inr ⟨if_neg hcost, fun d => ?_⟩
      show n < d + cost
      omega

/-- The outcome is the full one, or it is refused, and then there are fewer levels than that. -/
def Grants {α : Type} (room : Room) (d : Nat) (outcome full refused : α) : Prop :=
  outcome = full ∨ outcome = refused ∧ room.Below d

namespace Grants

variable {α β : Type} {room : Room} {d d' : Nat}

theorem refl {full refused : α} : room.Grants d full full refused := .inl rfl

theorem mono {outcome full refused : α} (h : room.Grants d outcome full refused) (hle : d ≤ d') :
    room.Grants d' outcome full refused :=
  h.imp_right fun ⟨hrefused, hbelow⟩ => ⟨hrefused, hbelow.mono hle⟩

theorem map {outcome full refused : α} (h : room.Grants d outcome full refused) (f : α → β) :
    room.Grants d (f outcome) (f full) (f refused) :=
  h.imp (congrArg f) fun ⟨hrefused, hbelow⟩ => ⟨congrArg f hrefused, hbelow⟩

/-- What is granted inside a call is granted where there is room for the call as well. -/
theorem succ {n : Nat} {outcome full refused : α} (h : (levels n).Grants d outcome full refused) :
    (levels (n + 1)).Grants (d + 1) outcome full refused :=
  h.imp_right fun ⟨hrefused, hbelow⟩ => ⟨hrefused, Nat.add_lt_add_right hbelow 1⟩

theorem eq_of_le {n : Nat} {outcome full refused : α} (h : (levels n).Grants d outcome full refused)
    (hle : d ≤ n) : outcome = full :=
  h.resolve_right fun ⟨_, hbelow⟩ => Nat.not_lt.2 hle hbelow

theorem eq_of_ne {outcome full refused : α} (h : room.Grants d outcome full refused)
    (hne : outcome ≠ refused) : outcome = full :=
  h.resolve_right fun ⟨hrefused, _⟩ => hne hrefused

theorem orElse {a a' b b' : Option Failure} (ha : room.Grants d a a' (some .tooDeep))
    (hb : room.Grants d b b' (some .tooDeep)) :
    room.Grants d (a <|> b) (a' <|> b') (some .tooDeep) := by
  rcases ha with rfl | ⟨rfl, hbelow⟩
  · cases a with
    | some f => exact refl
    | none => exact hb
  · exact .inr ⟨rfl, hbelow⟩

theorem bind {x full : Except Failure α} {next fullNext : α → Except Failure β}
    (h : room.Grants d x full (.error .tooDeep))
    (hnext : ∀ a, full = .ok a → room.Grants d (next a) (fullNext a) (.error .tooDeep)) :
    room.Grants d (x >>= next) (full >>= fullNext) (.error .tooDeep) := by
  rcases h with rfl | ⟨rfl, hbelow⟩
  · cases x with
    | error f => exact refl
    | ok a => exact hnext a rfl
  · exact .inr ⟨rfl, hbelow⟩

end Grants

end Room

namespace Value

mutual

/-- Levels that comparing or writing a value takes at most. -/
def nesting : Value → Nat
  | .list items => nestingAmong items + 1
  | .tuple items => nestingAmong items + 1
  | .set items => nestingAmong items + 1
  | .token _ v _ => v.nesting + 3
  | _ => 0

def nestingAmong : List Value → Nat
  | [] => 0
  | v :: vs => max v.nesting (nestingAmong vs)

end

theorem nesting_le_nestingAmong {v : Value} {vs : List Value} (h : v ∈ vs) :
    v.nesting ≤ nestingAmong vs := by
  induction vs with
  | nil => cases h
  | cons w vs ih =>
    rw [nestingAmong]
    rcases List.mem_cons.1 h with rfl | h
    · exact Nat.le_max_left _ _
    · exact Nat.le_trans (ih h) (Nat.le_max_right _ _)

section Writing

theorem grants_entering {room : Room} {d cost : Nat} {check : Room → Option Failure}
    (h : ∀ room : Room, room.Grants d (check room) (check .unlimited) (some .tooDeep)) :
    room.Grants (d + cost) ((room.enter cost).elim (some .tooDeep) check) (check .unlimited)
      (some .tooDeep) := by
  rcases room.enter_cases cost with ⟨inner, henter, hbelow⟩ | ⟨henter, hbelow⟩
  · rw [henter]
    exact (h inner).imp_right fun ⟨hrefused, hinner⟩ => ⟨hrefused, hbelow d hinner⟩
  · rw [henter]
    exact .inr ⟨rfl, hbelow d⟩

mutual

theorem unwritable?_grants (room : Room) : (v : Value) →
    room.Grants v.nesting (v.unwritable? room) (v.unwritable? .unlimited) (some .tooDeep)
  | .list items => grants_entering fun room => unwritableAmong?_grants room items
  | .tuple items => grants_entering fun room => unwritableAmong?_grants room items
  | .set items => grants_entering fun room => unwritableAmong?_grants room items
  | .token _ v _ => (grants_entering fun room => unwritable?_grants room v).mono (Nat.le_succ _)
  | .bool _ | .int _ | .float _ | .undefined _ | .text _ | .nothing | .object _ _ _ => .inl rfl

theorem unwritableAmong?_grants (room : Room) : (vs : List Value) →
    room.Grants (nestingAmong vs) (unwritableAmong? room vs) (unwritableAmong? .unlimited vs)
      (some .tooDeep)
  | [] => .inl rfl
  | v :: vs => ((unwritable?_grants room v).mono (Nat.le_max_left _ _)).orElse
      ((unwritableAmong?_grants room vs).mono (Nat.le_max_right _ _))

end

mutual

/-- Without a limit, only an integer can keep a value from being written. -/
theorem unwritable?_unlimited : (v : Value) →
    v.unwritable? .unlimited = none ∨ v.unwritable? .unlimited = some .longInteger
  | .list items => unwritableAmong?_unlimited items
  | .tuple items => unwritableAmong?_unlimited items
  | .set items => unwritableAmong?_unlimited items
  | .token _ v _ => unwritable?_unlimited v
  | .int n => by
    rw [unwritable?]
    split
    · exact .inr rfl
    · exact .inl rfl
  | .bool _ | .float _ | .undefined _ | .text _ | .nothing | .object _ _ _ => .inl rfl

theorem unwritableAmong?_unlimited : (vs : List Value) →
    unwritableAmong? .unlimited vs = none ∨ unwritableAmong? .unlimited vs = some .longInteger
  | [] => .inl rfl
  | v :: vs => by
    rw [unwritableAmong?]
    rcases unwritable?_unlimited v with hv | hv
    · rw [hv]
      exact unwritableAmong?_unlimited vs
    · rw [hv]
      exact .inr rfl

end

theorem unwritable?_cases (room : Room) (v : Value) : v.unwritable? room = none ∨
    v.unwritable? room = some .longInteger ∨ v.unwritable? room = some .tooDeep := by
  rcases unwritable?_grants room v with hfull | ⟨hdeep, -⟩
  · rw [hfull]
    exact (unwritable?_unlimited v).imp_right .inl
  · exact .inr (.inr hdeep)

theorem unspellable?_cases {room : Room} {tokens : List Token} {f : Failure}
    (h : unspellable? room tokens = some f) : f = .longInteger ∨ f = .tooDeep := by
  obtain ⟨t, -, ht⟩ := List.exists_of_findSome?_eq_some h
  unfold Token.unwritable? at ht
  split at ht
  · rcases unwritable?_cases room t.symbol.value with hv | hv | hv <;> cases hv.symm.trans ht
    · exact .inl rfl
    · exact .inr rfl
  · cases ht

theorem unwritableAmong?_ne_fault (room : Room) (vs : List Value) (cause : Fault) :
    unwritableAmong? room vs ≠ some (.fault cause) := by
  rcases unwritableAmong?_grants room vs with hfull | ⟨hdeep, -⟩
  · rcases unwritableAmong?_unlimited vs with h | h <;> rw [hfull, h] <;> exact nofun
  · rw [hdeep]
    exact nofun

theorem unwritableAmong?_eq_none {room : Room} {vs : List Value}
    (h : ∀ v ∈ vs, v.unwritable? room = none) : unwritableAmong? room vs = none := by
  induction vs with
  | nil => rfl
  | cons v vs ih =>
    obtain ⟨hv, hvs⟩ := List.forall_mem_cons.1 h
    rw [unwritableAmong?, hv, ih hvs]
    rfl

end Writing

section Comparing

theorem alikeAll_of_length_ne :
    (xs ys : List Value) → xs.length ≠ ys.length → alikeAll xs ys = false
  | [], [], h => (h rfl).elim
  | [], _ :: _, _ => rfl
  | _ :: _, [], _ => rfl
  | x :: xs, y :: ys, h => by
    rw [alikeAll, alikeAll_of_length_ne xs ys (by simpa using h), Bool.and_false]

theorem grants_within {room : Room} {d cost : Nat} {compare : Room → Option Bool} {full : Bool}
    (h : ∀ room : Room, room.Grants d (compare room) (some full) none) :
    room.Grants (d + cost) ((room.enter cost).bind compare) (some full) none := by
  rcases room.enter_cases cost with ⟨inner, henter, hbelow⟩ | ⟨henter, hbelow⟩
  · rw [henter]
    exact (h inner).imp_right fun ⟨hrefused, hinner⟩ => ⟨hrefused, hbelow d hinner⟩
  · rw [henter]
    exact .inr ⟨rfl, hbelow d⟩

theorem alike_of_within {room : Room} {d : Nat} {a b : Value}
    (h : room.Grants d (a.alikeWithin room b) (some (a.alike b)) none)
    (htrue : a.alikeWithin room b = some true) : a.alike b = true := by
  rw [htrue] at h
  exact (Option.some.inj (h.eq_of_ne nofun)).symm

/-- Values are found to be alike exactly if they are, or there is too little room to find out. -/
theorem alikeWithin_grants (room : Room) (a b : Value) :
    room.Grants a.nesting (a.alikeWithin room b) (some (a.alike b)) none := by
  refine (alikeWithin.mutual_induct
    (fun room a b => room.Grants a.nesting (a.alikeWithin room b) (some (a.alike b)) none)
    (fun room xs ys =>
      room.Grants (nestingAmong xs) (alikeAmongWithin room xs ys) (some (alikeAmong xs ys)) none)
    (fun room xs ys =>
      room.Grants (nestingAmong xs) (alikeAllWithin room xs ys) (some (alikeAll xs ys)) none)
    ?list ?listLength ?tuple ?set ?setSize ?token ?tokenKind ?other ?noMembers ?notFound ?found
    ?tooDeep ?noItems ?alikeItems ?otherItems ?itemCount).1 room a b
  case list =>
    intro room xs ys hlength ih
    rw [alikeWithin, if_pos hlength]
    exact grants_within ih
  case listLength =>
    intro room xs ys hlength
    rw [alikeWithin, if_neg hlength, alike, alikeAll_of_length_ne xs ys hlength]
    exact .refl
  case tuple =>
    intro room xs ys ih
    rw [alikeWithin]
    exact grants_within ih
  case set =>
    intro room xs ys hlength ih
    rw [alikeWithin, if_pos hlength, alike, beq_iff_eq.2 hlength, Bool.true_and]
    exact grants_within ih
  case setSize =>
    intro room xs ys hlength
    rw [alikeWithin, if_neg hlength, alike, beq_eq_false_iff_ne.2 hlength, Bool.false_and]
    exact .refl
  case token =>
    intro room v lexeme t w lexeme' ih
    rw [alikeWithin, if_pos rfl, alike, beq_self_eq_true, Bool.true_and]
    exact grants_within ih
  case tokenKind =>
    intro room s v lexeme t w lexeme' hkind
    rw [alikeWithin, if_neg hkind, alike, beq_eq_false_iff_ne.2 hkind, Bool.false_and]
    exact .refl
  case other =>
    intro room a b hlist htuple hset htoken
    rw [alikeWithin]
    · exact .refl
    all_goals assumption
  case noMembers =>
    intro room ys
    rw [alikeAmongWithin, alikeAmong]
    exact .refl
  case notFound =>
    intro room x xs ys hfind
    have hnone : ys.any (fun y => x.alike y) = false := by simpa using hfind
    rw [alikeAmongWithin, hfind, alikeAmong, hnone, Bool.false_and]
    exact .refl
  case found =>
    intro room x xs ys y hfind htrue _ ih
    have hsome : ys.any (fun y => x.alike y) = true :=
      List.any_eq_true.2 ⟨y, List.mem_of_find?_eq_some hfind, List.find?_some hfind⟩
    simp only [alikeAmongWithin, hfind, htrue, alikeAmong, hsome, Bool.true_and]
    exact ih.mono (Nat.le_max_right _ _)
  case tooDeep =>
    intro room x xs ys y hfind hne ih
    have halike : x.alike y = true := List.find?_some hfind
    rcases ih with htrue | ⟨hnone, hbelow⟩
    · exact (hne (htrue.trans (congrArg some halike))).elim
    · simp only [alikeAmongWithin, hfind, hnone]
      exact .inr ⟨rfl, hbelow.mono (Nat.le_max_left _ _)⟩
  case noItems =>
    intro room
    rw [alikeAllWithin, alikeAll]
    exact .refl
  case alikeItems =>
    intro room x xs y ys htrue ihfirst ih
    simp only [alikeAllWithin, htrue, alikeAll, alike_of_within ihfirst htrue, Bool.true_and]
    exact ih.mono (Nat.le_max_right _ _)
  case otherItems =>
    intro room x xs y ys hne ih
    rcases ih with hsome | ⟨hnone, hbelow⟩
    · cases halike : x.alike y with
      | true => exact (hne (hsome.trans (congrArg some halike))).elim
      | false =>
        simp only [alikeAllWithin, hsome, alikeAll, halike, Bool.false_and]
        exact .refl
    · simp only [alikeAllWithin, hnone]
      exact .inr ⟨rfl, hbelow.mono (Nat.le_max_left _ _)⟩
  case itemCount =>
    intro xs room ys hnil hcons
    cases xs with
    | nil =>
      cases ys with
      | nil => exact (hnil rfl rfl).elim
      | cons y ys => exact .refl
    | cons x xs =>
      cases ys with
      | nil => exact .refl
      | cons y ys => exact (hcons x xs y ys rfl rfl).elim

theorem equalsWithin_grants (room : Room) (a b : Value) :
    room.Grants a.nesting (a.equalsWithin room b) (some (a.equals b)) none := by
  unfold equalsWithin equals same
  split
  next h =>
    obtain ⟨hbool, hdefined⟩ := Bool.and_eq_true_iff.1 h
    rw [beq_iff_eq.2 (of_decide_eq_true hbool), hdefined, Bool.true_and, Bool.true_and]
    exact alikeWithin_grants room a b
  next h =>
    left
    congr 1
    cases hdefined : a.isUndefined with
    | true => simp
    | false => simp_all

theorem equalsWithin_unlimited (a b : Value) :
    a.equalsWithin .unlimited b = some (a.equals b) :=
  (equalsWithin_grants .unlimited a b).resolve_right fun ⟨_, hbelow⟩ => hbelow

end Comparing

end Value

namespace Failure

variable {room : Room} {d : Nat}

theorem raise_grants {cause : Fault}
    (h : room.Grants d (cause.unwordable? room) (cause.unwordable? .unlimited) (some .tooDeep)) :
    room.Grants d (raise room cause) (raise .unlimited cause) .tooDeep := by
  unfold raise
  rcases h with heq | ⟨hdeep, hbelow⟩
  · rw [heq]
    exact .refl
  · rw [hdeep]
    exact .inr ⟨rfl, hbelow⟩

/-- A problem with words that show one value takes the room that the value takes. -/
theorem raise_grants_of_shown {cause : Fault} {v : Value}
    (hwords : ∀ room, cause.unwordable? room = v.unwritable? room) (hv : v.nesting ≤ d) :
    room.Grants d (raise room cause) (raise .unlimited cause) .tooDeep := by
  apply raise_grants
  rw [hwords, hwords]
  exact (Value.unwritable?_grants room v).mono hv

theorem about_grants (room : Room) (v : Value) (cause : Fault) :
    room.Grants v.nesting (about room v cause) (about .unlimited v cause) .tooDeep := by
  unfold about Fault.quoting
  cases v with
  | list items | tuple items | set items =>
    rcases Value.unwritableAmong?_grants room items with heq | ⟨hdeep, hbelow⟩
    · simp only [heq]
      exact .refl
    · simp only [hdeep]
      exact .inr ⟨rfl, hbelow.mono (Nat.le_succ _)⟩
  | _ => exact .refl

/-- Without a limit, a problem is raised unless an integer in its words cannot be written. -/
theorem raise_unlimited (cause : Fault) :
    raise .unlimited cause = .fault cause ∨ raise .unlimited cause = .longInteger := by
  have hor {a b : Option Failure} (ha : a = none ∨ a = some .longInteger)
      (hb : b = none ∨ b = some .longInteger) :
        (a <|> b) = none ∨ (a <|> b) = some .longInteger := by
    rcases ha with rfl | rfl
    · exact hb
    · exact .inr rfl
  have hwords : cause.unwordable? .unlimited = none ∨
      cause.unwordable? .unlimited = some .longInteger := by
    cases cause with
    | malformedArgument lexeme source start => exact Value.unwritable?_unlimited lexeme
    | unexpected expected found position source start stop =>
      refine hor ?_ (hor (Value.unwritable?_unlimited expected) (Value.unwritable?_unlimited _))
      cases found with
      | none => exact .inl rfl
      | some t =>
        rw [Option.bind_some, Token.unwritable?]
        split
        · exact Value.unwritable?_unlimited _
        · exact .inl rfl
    | argumentOutOfRange index available =>
      exact hor (Value.unwritable?_unlimited available) (Value.unwritable?_unlimited index)
    | nonBooleanCondition v => exact Value.unwritable?_unlimited v
    | nonNumericOperand op v => exact Value.unwritable?_unlimited v
    | tooManyArguments arity supplied =>
      exact hor (Value.unwritable?_unlimited arity) (Value.unwritable?_unlimited supplied)
    | nonContiguous indices source => exact Value.unwritableAmong?_unlimited indices
    | notAnExpression v => exact Value.unwritable?_unlimited v
    | _ => exact .inl rfl
  unfold raise
  rcases hwords with h | h <;> rw [h]
  · exact .inl rfl
  · exact .inr rfl

theorem about_unlimited_ne_tooDeep (v : Value) (cause : Fault) :
    about .unlimited v cause ≠ .tooDeep := by
  unfold about Fault.quoting
  cases v with
  | list items | tuple items =>
    rcases Value.unwritableAmong?_unlimited items with h | h <;> simp only [h] <;> exact nofun
  | set items =>
    rcases Value.unwritableAmong?_unlimited items with h | h <;> simp only [h]
    · cases Template.fill cause.draft.template (Value.set items).quotes <;> exact nofun
    · exact nofun
  | _ => exact nofun

end Failure

end CurryCalc
