import CurryCalc.Proofs.LimitedRoom

/-! Evaluation with a budget against the plain meaning of an expression. They differ only where the
budget runs out: folding the terms of a sum gives what descending into it gives. A budget that is as
large as the expression is deep, and leaves room for the values around it, does not run out. -/
namespace CurryCalc

/-- Numbers and truth values. -/
inductive Value.Plain : Value → Prop
  | float (x : Binary64) : Plain (.float x)
  | bool (b : Bool) : Plain (.bool b)

theorem Value.Plain.nesting_le {v : Value} (h : v.Plain) (d : Nat) : v.nesting ≤ d := by
  cases h <;> exact Nat.zero_le d

theorem Value.Plain.unwritable? {v : Value} (h : v.Plain) (room : Room) :
    v.unwritable? room = none := by
  cases h <;> rfl

section Steps
open Outcome

variable {room : Room} {d : Nat}

theorem argumentAt_grants (args : List Value) {i : Value} (hi : i.nesting ≤ d) :
    room.Grants d (argumentAt room args i) (argumentAt .unlimited args i) (.error .tooDeep) := by
  have hraise : room.Grants d (Failure.raise room (.argumentOutOfRange i args.length))
      (Failure.raise .unlimited (.argumentOutOfRange i args.length)) .tooDeep :=
    Failure.raise_grants (.orElse ((Value.unwritable?_grants room _).mono (Nat.zero_le d))
      ((Value.unwritable?_grants room i).mono hi))
  unfold argumentAt argumentAtInt
  repeat' split
  all_goals first | exact .refl | exact hraise.map Except.error

theorem numeric_grants {v : Value} (hv : v.nesting ≤ d) (op : String) :
    room.Grants d (numeric room v op) (numeric .unlimited v op) (.error .tooDeep) := by
  have hraise : room.Grants d (Failure.raise room (.nonNumericOperand op v))
      (Failure.raise .unlimited (.nonNumericOperand op v)) .tooDeep :=
    Failure.raise_grants_of_shown (fun _ => rfl) hv
  unfold numeric
  split
  all_goals first | exact .refl | exact hraise.map Except.error

theorem Operator.apply_grants {op : Operator} (hop : op.value.nesting ≤ d) {a b : Value}
    (ha : a.nesting ≤ d) (hb : b.nesting ≤ d) :
    room.Grants d (op.apply room a b) (op.apply .unlimited a b) (.error .tooDeep) := by
  have hequals := (Value.equalsWithin_grants room a b).mono ha
  cases op with
  | add | sub =>
    exact (numeric_grants ha _).bind fun x _ => (numeric_grants hb _).bind fun y _ => .refl
  | eq | notEq =>
    simp only [apply, Value.equalsWithin_unlimited]
    rcases hequals with h | ⟨h, hbelow⟩ <;> rw [h]
    · exact .refl
    · exact .inr ⟨rfl, hbelow⟩
  | other name => exact ((Failure.about_grants room name _).mono hop).map Except.error

theorem Scope.lookup_grants (scope : Scope) {x : Value} (hx : x.nesting ≤ d) :
    room.Grants d (scope.lookup room x) (scope.lookup .unlimited x) (.error .tooDeep) := by
  unfold lookup
  split
  · exact .refl
  · exact .refl
  · exact ((Failure.about_grants room x _).mono hx).map Except.error

theorem raise_ne_tooDeep (cause : Fault) : Failure.raise .unlimited cause ≠ .tooDeep := by
  rcases Failure.raise_unlimited cause with h | h <;> rw [h] <;> exact nofun

theorem argumentAt_ne_tooDeep (args : List Value) (i : Value) :
    argumentAt .unlimited args i ≠ .error .tooDeep := by
  unfold argumentAt argumentAtInt
  repeat' split
  all_goals simp [raise_ne_tooDeep]

theorem numeric_ne_tooDeep (v : Value) (op : String) :
    numeric .unlimited v op ≠ .error .tooDeep := by
  unfold numeric intToFloat
  dsimp only
  repeat' split
  all_goals simp [raise_ne_tooDeep]

theorem Operator.apply_ne_tooDeep (op : Operator) (a b : Value) :
    op.apply .unlimited a b ≠ .error .tooDeep := by
  cases op with
  | add | sub =>
    exact bind_ne_error (numeric_ne_tooDeep a _) fun x =>
      bind_ne_error (numeric_ne_tooDeep b _) fun y => nofun
  | eq | notEq => simp [apply, Value.equalsWithin_unlimited]
  | other name => exact fun h => Failure.about_unlimited_ne_tooDeep _ _ (Except.error.inj h)

theorem nameKey_ne_tooDeep (x : Value) : nameKey x ≠ .error .tooDeep := by
  unfold nameKey
  split <;> exact nofun

theorem Scope.lookup_ne_tooDeep (scope : Scope) (x : Value) :
    scope.lookup .unlimited x ≠ .error .tooDeep := by
  have hkey := nameKey_ne_tooDeep x
  unfold lookup find
  cases h : nameKey x with
  | error f => simpa [Except.map, h] using hkey
  | ok key =>
    cases hfind : scope.find? key with
    | some v => simp [Except.map, hfind]
    | none => simpa [Except.map, hfind] using Failure.about_unlimited_ne_tooDeep x (.unbound x)

theorem mem_of_argumentAt {args : List Value} {i v : Value} (h : argumentAt room args i = .ok v) :
    v ∈ args := by
  unfold argumentAt argumentAtInt at h
  split at h
  · split at h
    next hfound =>
      cases h
      split at hfound
      · exact List.mem_of_getElem? hfound
      · cases hfound
    · cases h
  · split at h <;> cases h
  · cases h

theorem Scope.find?_of_lookup {scope : Scope} {x v : Value} (h : scope.lookup room x = .ok v) :
    ∃ key, scope.find? key = some v := by
  unfold lookup find at h
  split at h
  · cases h
  next hfind =>
    cases h
    obtain ⟨key, -, hkey⟩ := ok_of_map hfind
    exact ⟨key, hkey⟩
  · cases h

/-- Whatever an operator is applied to, its result is a number or a truth value. -/
theorem Operator.apply_plain {op : Operator} {a b v : Value} (h : op.apply room a b = .ok v) :
    v.Plain := by
  cases op with
  | add | sub =>
    obtain ⟨x, -, h⟩ := ok_of_bind h
    obtain ⟨y, -, h⟩ := ok_of_bind h
    cases h
    exact .float _
  | eq | notEq =>
    unfold apply at h
    cases hequals : a.equalsWithin room b with
    | none => simp [hequals] at h
    | some same =>
      simp only [hequals, Option.elim_some, Except.ok.injEq] at h
      rw [← h]
      exact .bool _
  | other name => cases h

end Steps

namespace Expr
open Outcome

theorem foldTerms_cons (room : Room) (value : Expr → Except Failure Value) (total : Value)
    (op : Operator) (e : Expr) (terms : List (Operator × Expr)) :
    foldTerms room value total ((op, e) :: terms) =
      value e >>= fun v => op.apply room total v >>= fun total =>
      foldTerms room value total terms := by
  rw [foldTerms]
  cases value e with
  | error f => rfl
  | ok v => cases h : op.apply room total v <;> simp [h]

/-- Taking a term off a sum does not change what the sum and the terms after it add up to. -/
theorem meaning_spine (e : Expr) (terms : List (Operator × Expr)) (scope : Scope)
    (args : List Value) :
    (e.meaning scope args >>= fun v =>
      foldTerms .unlimited (fun t => t.meaning scope args) v terms) =
        (spine e terms).1.meaning scope args >>= fun v =>
        foldTerms .unlimited (fun t => t.meaning scope args) v (spine e terms).2 := by
  fun_induction spine e terms with
  | case1 l r terms ih => simpa [meaning, foldTerms_cons] using ih
  | case2 l r terms ih => simpa [meaning, foldTerms_cons] using ih
  | case3 => rfl

/-- An expression is the sum of the terms on its spine. -/
theorem meaning_eq_sum (e : Expr) (scope : Scope) (args : List Value) :
    e.meaning scope args = (spine e []).1.meaning scope args >>= fun v =>
      foldTerms .unlimited (fun t => t.meaning scope args) v (spine e []).2 := by
  rw [← meaning_spine]
  cases e.meaning scope args <;> rfl

theorem evaluate_sum {op : Operator} (h : op.isAdditive) (n : Nat) (l r : Expr) (scope : Scope)
    (args : List Value) :
    (binary op l r).evaluate (n + 1) scope args =
      (spine (.binary op l r) []).1.evaluate n scope args >>= fun total =>
        foldTerms (.levels n) (fun t => t.evaluate n scope args) total
        (spine (.binary op l r) []).2 := by
  rw [evaluate, if_pos h]
  cases (spine (.binary op l r) []).1.evaluate n scope args <;> rfl

def isChain : Expr → Bool
  | .binary op _ _ => op.isAdditive
  | _ => false

theorem isChain_eq_false {e : Expr} (hadd : ∀ l r, e ≠ .binary .add l r)
    (hsub : ∀ l r, e ≠ .binary .sub l r) : e.isChain = false := by
  cases e with
  | binary op l r =>
    cases op with
    | add => exact (hadd l r rfl).elim
    | sub => exact (hsub l r rfl).elim
    | _ => rfl
  | _ => rfl

/-- Levels of nesting that evaluating an expression takes. A sum takes one more than its deepest
term, however many terms it has. -/
def depth : Expr → Nat
  | .binary op l r =>
    if op.isAdditive && l.isChain then max l.depth (r.depth + 1) else max l.depth r.depth + 1
  | .letIn _ b e => max b.depth e.depth + 1
  | .cond c t e => max c.depth (max t.depth e.depth) + 1
  | _ => 1

theorem depth_pos (e : Expr) : 1 ≤ e.depth := by
  induction e with
  | binary op l r ihl _ =>
    rw [depth]
    split <;> omega
  | letIn x b e => exact Nat.le_add_left 1 _
  | cond c t e => exact Nat.le_add_left 1 _
  | _ => exact Nat.le_refl 1

theorem depth_spine {n : Nat} {e : Expr} {terms : List (Operator × Expr)}
    (he : e.depth ≤ if e.isChain then n + 1 else n) (hterms : ∀ t ∈ terms, t.2.depth ≤ n) :
    (spine e terms).1.depth ≤ n ∧ ∀ t ∈ (spine e terms).2, t.2.depth ≤ n := by
  have hstep {op : Operator} {l r : Expr} (hop : op.isAdditive)
      (h : (binary op l r).depth ≤ n + 1) :
      l.depth ≤ (if l.isChain then n + 1 else n) ∧ r.depth ≤ n := by
    rw [depth, hop] at h
    cases hl : l.isChain with
    | true =>
      simp only [hl, Bool.and_self, if_true] at h ⊢
      omega
    | false =>
      simp only [hl, Bool.and_false, Bool.false_eq_true, if_false] at h ⊢
      omega
  fun_induction spine e terms with
  | case1 l r terms ih =>
    obtain ⟨hl, hr⟩ := hstep rfl he
    exact ih hl (List.forall_mem_cons.2 ⟨hr, hterms⟩)
  | case2 l r terms ih =>
    obtain ⟨hl, hr⟩ := hstep rfl he
    exact ih hl (List.forall_mem_cons.2 ⟨hr, hterms⟩)
  | case3 e terms hadd hsub =>
    rw [isChain_eq_false hadd hsub] at he
    exact ⟨he, hterms⟩

/-- All values that a tree has in it, operators that are no operators included. -/
def values : Expr → List Value
  | .number v => [v]
  | .argument i => [i]
  | .name x => [x]
  | .binary op l r => op.value :: (l.values ++ r.values)
  | .letIn x b e => x :: (b.values ++ e.values)
  | .cond c t e => c.values ++ (t.values ++ e.values)
  | .foreign v => [v]

/-- No value in a tree, in its scope or among its arguments nests deeper than that. -/
structure Shallow (d : Nat) (e : Expr) (scope : Scope) (args : List Value) : Prop where
  inTree : ∀ v ∈ e.values, v.nesting ≤ d
  inScope : ∀ key v, scope.find? key = some v → v.nesting ≤ d
  inArgs : ∀ v ∈ args, v.nesting ≤ d

section Shallow

variable {d : Nat} {scope : Scope} {args : List Value}

theorem Shallow.part {e part : Expr} (h : Shallow d e scope args)
    (hpart : ∀ v ∈ part.values, v ∈ e.values) : Shallow d part scope args :=
  ⟨fun v hv => h.inTree v (hpart v hv), h.inScope, h.inArgs⟩

theorem Shallow.child {e c : Expr} (h : Shallow d e scope args) (hc : c ∈ e.children) :
    Shallow d c scope args := by
  refine h.part fun v hv => ?_
  cases e with
  | binary op l r =>
    simp only [children, List.mem_cons, List.not_mem_nil, or_false] at hc
    rcases hc with rfl | rfl <;> simp [values, hv]
  | letIn x b e =>
    simp only [children, List.mem_cons, List.not_mem_nil, or_false] at hc
    rcases hc with rfl | rfl <;> simp [values, hv]
  | cond c t e =>
    simp only [children, List.mem_cons, List.not_mem_nil, or_false] at hc
    rcases hc with rfl | rfl | rfl <;> simp [values, hv]
  | _ => cases hc

theorem Shallow.insert {e : Expr} (h : Shallow d e scope args) {v : Value} (hv : v.nesting ≤ d)
    (key : Value) : Shallow d e (scope.insert key v) args := by
  refine ⟨h.inTree, fun other w hw => ?_, h.inArgs⟩
  rw [Bindings.find?_insert] at hw
  split at hw
  · cases hw
    exact hv
  · exact h.inScope other w hw

theorem mem_spine_values {e : Expr} {terms : List (Operator × Expr)} {v : Value}
    (h : v ∈ (spine e terms).1.values ∨ ∃ t ∈ (spine e terms).2, v ∈ t.1.value :: t.2.values) :
    v ∈ e.values ∨ ∃ t ∈ terms, v ∈ t.1.value :: t.2.values := by
  have hstep {op : Operator} {l r : Expr} {terms : List (Operator × Expr)}
      (h : v ∈ l.values ∨ ∃ t ∈ (op, r) :: terms, v ∈ t.1.value :: t.2.values) :
      v ∈ (binary op l r).values ∨ ∃ t ∈ terms, v ∈ t.1.value :: t.2.values := by
    rcases h with hv | ⟨t, ht, hv⟩
    · exact .inl (by simp [values, hv])
    · rcases List.mem_cons.1 ht with rfl | ht
      · exact .inl (by rcases List.mem_cons.1 hv with rfl | hv <;> simp [values, *])
      · exact .inr ⟨t, ht, hv⟩
  fun_induction spine e terms with
  | case1 l r terms ih => exact hstep (ih h)
  | case2 l r terms ih => exact hstep (ih h)
  | case3 => exact h

/-- The value of an expression nests no deeper than the values around it. -/
theorem nesting_of_meaning {e : Expr} (h : Shallow d e scope args) {v : Value}
    (hv : e.meaning scope args = .ok v) : v.nesting ≤ d := by
  induction e generalizing scope v with
  | number w =>
    cases hv
    exact h.inTree w (by simp [values])
  | argument i => exact h.inArgs v (mem_of_argumentAt hv)
  | name x =>
    obtain ⟨key, hkey⟩ := Scope.find?_of_lookup hv
    exact h.inScope key v hkey
  | binary op l r ihl ihr =>
    obtain ⟨a, -, hv⟩ := ok_of_bind hv
    obtain ⟨b, -, hv⟩ := ok_of_bind hv
    exact (Operator.apply_plain hv).nesting_le d
  | letIn x bound body ihb ihe =>
    obtain ⟨w, hw, hv⟩ := ok_of_bind hv
    obtain ⟨key, -, hv⟩ := ok_of_bind hv
    have hbound : w.nesting ≤ d := ihb (h.child (by simp [children])) hw
    exact ihe ((h.child (by simp [children])).insert hbound key) hv
  | cond test yes no ihc iht ihe =>
    obtain ⟨w, -, hv⟩ := ok_of_bind hv
    cases w with
    | bool b =>
      cases b with
      | true => exact iht (h.child (by simp [children])) hv
      | false => exact ihe (h.child (by simp [children])) hv
    | _ => cases hv
  | foreign w => cases hv

theorem foldTerms_grants {room : Room} {deep : Nat} (hdeep : d ≤ deep)
    {value full : Expr → Except Failure Value} {terms : List (Operator × Expr)}
    (hterms : ∀ t ∈ terms, t.1.value.nesting ≤ d ∧ (∀ v, full t.2 = .ok v → v.nesting ≤ d) ∧
      room.Grants deep (value t.2) (full t.2) (.error .tooDeep)) {total : Value}
    (htotal : total.nesting ≤ d) :
    room.Grants deep (foldTerms room value total terms) (foldTerms .unlimited full total terms)
      (.error .tooDeep) := by
  induction terms generalizing total with
  | nil => exact .refl
  | cons term terms ih =>
    obtain ⟨⟨hop, hnesting, hterm⟩, hterms⟩ := List.forall_mem_cons.1 hterms
    rw [foldTerms_cons, foldTerms_cons]
    refine hterm.bind fun v hv => ?_
    refine ((Operator.apply_grants hop htotal (hnesting v hv)).mono hdeep).bind fun sum hsum => ?_
    exact ih hterms ((Operator.apply_plain hsum).nesting_le d)

theorem evaluate_sum_grants {n m : Nat} {op : Operator} {l r : Expr} (hop : op.isAdditive)
    (h : Shallow d (binary op l r) scope args) (hdepth : (binary op l r).depth ≤ m + 1)
    (hpart : ∀ part : Expr, Shallow d part scope args → part.depth ≤ m →
      (Room.levels n).Grants (m + d) (part.evaluate n scope args) (part.meaning scope args)
        (.error .tooDeep)) :
    (Room.levels n).Grants (m + d) ((binary op l r).evaluate (n + 1) scope args)
      ((binary op l r).meaning scope args) (.error .tooDeep) := by
  have hchain : (binary op l r).depth ≤ if (binary op l r).isChain then m + 1 else m := by
    rw [if_pos (show (binary op l r).isChain = true from hop)]
    exact hdepth
  obtain ⟨hfirst, hterms⟩ := depth_spine hchain (List.forall_mem_nil _)
  have hvalues {v : Value} (hv : v ∈ (spine (.binary op l r) []).1.values ∨
      ∃ t ∈ (spine (.binary op l r) []).2, v ∈ t.1.value :: t.2.values) :
      v ∈ (binary op l r).values := (mem_spine_values hv).resolve_right (by simp)
  have hshallow : Shallow d (spine (.binary op l r) []).1 scope args :=
    h.part fun v hv => hvalues (.inl hv)
  rw [evaluate_sum hop, meaning_eq_sum (.binary op l r)]
  refine (hpart _ hshallow hfirst).bind fun total htotal => ?_
  refine foldTerms_grants (Nat.le_add_left d m) (fun t ht => ?_)
    (nesting_of_meaning hshallow htotal)
  have hterm : Shallow d t.2 scope args :=
    h.part fun v hv => hvalues (.inr ⟨t, ht, List.mem_cons_of_mem _ hv⟩)
  exact ⟨h.inTree _ (hvalues (.inr ⟨t, ht, List.mem_cons_self⟩)),
    fun v => nesting_of_meaning hterm, hpart _ hterm (hterms t ht)⟩

/-- Evaluation has the plain meaning, or the budget runs out. It can run out only if it is smaller
than the depth of the expression and of the values around it. -/
theorem evaluate_grants {n : Nat} {e : Expr} (h : Shallow d e scope args) :
    (Room.levels n).Grants (e.depth + d) (e.evaluate n scope args) (e.meaning scope args)
      (.error .tooDeep) := by
  induction n generalizing e scope with
  | zero => exact .inr ⟨rfl, Nat.add_pos_left (depth_pos e) d⟩
  | succ n ih =>
    obtain ⟨m, hm⟩ := Nat.exists_eq_add_one.2 (depth_pos e)
    rw [hm, Nat.add_right_comm]
    -- Parts of the expression are less deep, and each is evaluated with one level less.
    have hpart {scope : Scope} (part : Expr) (hshallow : Shallow d part scope args)
        (hdepth : part.depth ≤ m) : (Room.levels n).Grants (m + d) (part.evaluate n scope args)
          (part.meaning scope args) (.error .tooDeep) :=
      (ih hshallow).mono (Nat.add_le_add_right hdepth d)
    have hdeep : d ≤ m + d := Nat.le_add_left d m
    apply Room.Grants.succ
    cases e with
    | number v => exact .refl
    | argument i => exact (argumentAt_grants args (h.inTree i (by simp [values]))).mono hdeep
    | name x => exact (scope.lookup_grants (h.inTree x (by simp [values]))).mono hdeep
    | binary op l r =>
      by_cases hop : op.isAdditive
      · exact evaluate_sum_grants hop h (Nat.le_of_eq hm) hpart
      · simp only [depth, hop, Bool.false_and, Bool.false_eq_true, if_false] at hm
        have hl : Shallow d l scope args := h.child (by simp [children])
        have hr : Shallow d r scope args := h.child (by simp [children])
        rw [evaluate, if_neg hop, meaning]
        refine (hpart l hl (by omega)).bind fun a ha => ?_
        refine (hpart r hr (by omega)).bind fun b hb => ?_
        exact (Operator.apply_grants (h.inTree _ (by simp [values])) (nesting_of_meaning hl ha)
          (nesting_of_meaning hr hb)).mono hdeep
    | letIn x bound body =>
      rw [depth] at hm
      have hbound : Shallow d bound scope args := h.child (by simp [children])
      have hbody : Shallow d body scope args := h.child (by simp [children])
      rw [evaluate, meaning]
      refine (hpart bound hbound (by omega)).bind fun v hv => ?_
      refine Room.Grants.refl.bind fun key _ => ?_
      exact hpart body (hbody.insert (nesting_of_meaning hbound hv) key) (by omega)
    | cond test yes no =>
      rw [depth] at hm
      have htest : Shallow d test scope args := h.child (by simp [children])
      rw [evaluate, meaning]
      refine (hpart test htest (by omega)).bind fun v hv => ?_
      cases v with
      | bool b =>
        cases b with
        | true => exact hpart yes (h.child (by simp [children])) (by omega)
        | false => exact hpart no (h.child (by simp [children])) (by omega)
      | _ =>
        refine (Failure.raise_grants_of_shown (fun _ => rfl) ?_).map Except.error
        exact Nat.le_trans (nesting_of_meaning htest hv) hdeep
    | foreign v =>
      refine (Failure.raise_grants_of_shown (fun _ => rfl) ?_).map Except.error
      exact Nat.le_trans (h.inTree v (by simp [values])) hdeep

theorem exists_shallow (e : Expr) (scope : Scope) (args : List Value) :
    ∃ d, Shallow d e scope args := by
  refine ⟨Value.nestingAmong (e.values ++ (scope.entries.map Prod.snd ++ args)),
    fun v hv => ?_, fun key v hv => ?_, fun v hv => ?_⟩ <;> apply Value.nesting_le_nestingAmong
  · exact List.mem_append_left _ hv
  · exact List.mem_append_right _ (List.mem_append_left _ (Bindings.mem_of_find? hv))
  · exact List.mem_append_right _ (List.mem_append_right _ hv)

theorem evaluate_within (n : Nat) (e : Expr) (scope : Scope) (args : List Value) :
    e.evaluate n scope args = .error .tooDeep ∨ e.evaluate n scope args = e.meaning scope args := by
  obtain ⟨d, hd⟩ := exists_shallow e scope args
  exact (evaluate_grants hd).symm.imp_left And.left

end Shallow

theorem meaning_ne_tooDeep (e : Expr) (scope : Scope) (args : List Value) :
    e.meaning scope args ≠ .error .tooDeep := by
  induction e generalizing scope with
  | number v => exact nofun
  | argument i => exact argumentAt_ne_tooDeep args i
  | name x => exact scope.lookup_ne_tooDeep x
  | binary op l r ihl ihr =>
    rw [meaning]
    exact bind_ne_error (ihl scope) fun a => bind_ne_error (ihr scope) fun b =>
      op.apply_ne_tooDeep a b
  | letIn x bound body ihb ihe =>
    rw [meaning]
    exact bind_ne_error (ihb scope) fun v => bind_ne_error (nameKey_ne_tooDeep x) fun key =>
      ihe (scope.insert key v)
  | cond test yes no ihc iht ihe =>
    rw [meaning]
    refine bind_ne_error (ihc scope) fun v => ?_
    cases v with
    | bool b => cases b with
      | true => exact iht scope
      | false => exact ihe scope
    | _ => simp [raise_ne_tooDeep]
  | foreign v => simp [meaning, raise_ne_tooDeep]

/-- Folding the terms of sums gives what recursion on both operands gives, for every tree, scope and
list of arguments: the same value or the same failure. Only nesting beyond the budget can come in
between, and a budget as large as the expression and the values around it are deep excludes it. -/
theorem evaluate_eq_meaning (e : Expr) (scope : Scope) (args : List Value) :
    (∀ n, e.evaluate n scope args ≠ .error .tooDeep →
      e.evaluate n scope args = e.meaning scope args) ∧
    (∃ d, Shallow d e scope args) ∧
    (∀ d n, Shallow d e scope args → e.depth + d ≤ n →
      e.evaluate n scope args = e.meaning scope args) ∧
    e.meaning scope args ≠ .error .tooDeep := by
  refine ⟨fun n hn => ?_, exists_shallow e scope args, fun d n hd hn => ?_,
    meaning_ne_tooDeep e scope args⟩
  · exact (evaluate_within n e scope args).resolve_left hn
  · exact (evaluate_grants hd).eq_of_le hn

/-- A sum of five terms: a truth value, a let, a conditional, a free name and a bare value. The
first failure in source order is that of the let, whose body adds a truth value; neither the free
name nor the bare value is reached. -/
theorem evaluate_eq_meaning_mixed_sum :
    let t : Expr := .binary .add (.binary .sub (.binary .add (.binary .sub (.argument (.int 1))
        (.letIn "x" (.argument (.int 1)) (.binary .add (.name "x") (.name "x"))))
        (.cond (.argument (.int 1)) (.name "x") (.name "x"))) (.name "y")) (.foreign .nothing)
    t.depth = 4 ∧ Shallow 0 t Bindings.empty [.bool true] ∧
      t.evaluate 4 Bindings.empty [.bool true] =
        .error (.fault (.nonNumericOperand "plus" (.bool true))) := by
  intro t
  have hshallow : Shallow 0 t Bindings.empty [.bool true] := ⟨by decide, nofun, by decide⟩
  refine ⟨rfl, hshallow, ?_⟩
  rw [(evaluate_eq_meaning t Bindings.empty [.bool true]).2.2.1 0 4 hshallow (Nat.le_refl 4)]
  rfl

end Expr
end CurryCalc
