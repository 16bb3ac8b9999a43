import CurryCalc.Proofs.PlainMeaning
import CurryCalc.Proofs.TreeSymbols

/-! What can stop the evaluation of an expression that was read: the values it comes upon, names
that nothing binds, and symbols with values that no text gives them. -/
namespace CurryCalc

namespace Binary64

theorem withSign_div_mul (negative : Bool) {q u : Nat} (h : q % u = 0) :
    withSign negative (q / u) * u = withSign negative q := by
  have hmul : ((q / u : Nat) : Int) * u = q := by
    exact_mod_cast Nat.div_mul_cancel (Nat.dvd_of_mod_eq_zero h)
  cases negative with
  | false => exact hmul
  | true => exact (Int.neg_mul _ _).trans (congrArg _ hmul)

theorem quanta?_of_toInt? {x : Binary64} {n : Int} (h : x.toInt? = some n) :
    x.quanta? = some (n * quantaPerUnit) := by
  cases x with
  | finite negative rank =>
    simp only [toInt?] at h
    split at h
    next hwhole =>
      cases h
      exact congrArg some (withSign_div_mul negative hwhole).symm
    · cases h
  | infinite negative => cases h
  | nan => cases h

end Binary64

theorem Value.position?_of_toInt? {x : Binary64} {n : Int} (h : x.toInt? = some n) :
    (Value.float x).position? = some (.quanta (n * quantaPerUnit)) := by
  have hquanta := Binary64.quanta?_of_toInt? h
  cases x with
  | finite negative rank =>
    show (Binary64.finite negative rank).quanta?.map Position.quanta = _
    rw [hquanta]
    rfl
  | infinite negative => cases h
  | nan => cases h

/-- The multiples of a unit from the first to the `n`-th are within these bounds. -/
theorem multiple_in_range {k n : Nat} (hk : k < n) (u : Nat) :
    ¬ ((k + 1 : Nat) : Int) * u < u ∧ ¬ (n : Int) * u < ((k + 1 : Nat) : Int) * u := by
  constructor
  · exact_mod_cast Nat.not_lt.2 (Nat.le_mul_of_pos_left u k.succ_pos)
  · exact_mod_cast Nat.not_lt.2 (Nat.mul_le_mul_right u hk)

/-- An index that stands for a number within the list is served, or is no integer itself. -/
theorem argumentAt_in_range {args : List Value} {i : Value} {k : Nat} (hk : k < args.length)
    (hi : i.normal = .int (k + 1 : Nat)) :
    (∃ v ∈ args, argumentAt .unlimited args i = .ok v) ∨ i.toInt? = none ∧
      argumentAt .unlimited args i =
      .error (.notAnIndex "tuple indices must be integers or slices" i.kind) := by
  have hat (j : Value) : argumentAtInt .unlimited args j (k + 1 : Nat) = .ok args[k] := by
    have hpos : (1 : Int) ≤ (k + 1 : Nat) := by omega
    have hpred : ((k + 1 : Nat) - 1 : Int).toNat = k := by omega
    rw [argumentAtInt, if_pos hpos, hpred, List.getElem?_eq_getElem hk]
  cases i with
  | bool b =>
    simp only [Value.normal, Value.int.injEq] at hi
    left
    refine ⟨args[k], List.getElem_mem hk, ?_⟩
    simpa [argumentAt, Value.toInt?, hi] using hat (.bool b)
  | int n =>
    simp only [Value.normal, Value.int.injEq] at hi
    left
    refine ⟨args[k], List.getElem_mem hk, ?_⟩
    simpa [argumentAt, Value.toInt?, hi] using hat (.int n)
  | float x =>
    have hx : x.toInt? = some ((k + 1 : Nat) : Int) := by
      cases h : x.toInt? <;> simp_all [Value.normal]
    obtain ⟨hlow, hhigh⟩ := multiple_in_range hk quantaPerUnit
    right
    refine ⟨rfl, ?_⟩
    rw [argumentAt, Value.position?_of_toInt? hx]
    simp only [Value.toInt?, Value.Position.before, decide_eq_false hlow, decide_eq_false hhigh,
      reduceCtorEq, decide_false, Bool.or_false, Bool.false_eq_true, if_false]
  | _ => simp [Value.normal] at hi

/-- All ways in which an outcome can come about are allowed. -/
def Ends {α : Type} (value : α → Prop) (failure : Failure → Prop) : Except Failure α → Prop
  | .ok v => value v
  | .error f => failure f

namespace Ends

variable {α β : Type} {failure failure' : Failure → Prop}

theorem bind {value : α → Prop} {value' : β → Prop} {first : Except Failure α}
    {next : α → Except Failure β} (h : Ends value failure first)
    (hnext : ∀ v, value v → Ends value' failure (next v)) :
    Ends value' failure (first >>= next) := by
  cases first with
  | error f => exact h
  | ok v => exact hnext v h

theorem mono {value : α → Prop} {outcome : Except Failure α} (h : Ends value failure outcome)
    (himp : ∀ f, failure f → failure' f) : Ends value failure' outcome := by
  cases outcome with
  | error f => exact himp f h
  | ok v => exact h

theorem map {value : α → Prop} {value' : β → Prop} {outcome : Except Failure α} {f : α → β}
    (h : Ends value failure outcome) (hf : ∀ v, value v → value' (f v)) :
    Ends value' failure (outcome.map f) := by
  cases outcome with
  | error g => exact h
  | ok v => exact hf v h

theorem with_eq {value : α → Prop} {outcome : Except Failure α} (h : Ends value failure outcome) :
    Ends (fun v => outcome = .ok v ∧ value v) failure outcome := by
  cases outcome with
  | error f => exact h
  | ok v => exact ⟨rfl, h⟩

theorem mapM {value : β → Prop} {f : α → Except Failure β} {inputs : List α}
    (h : ∀ a ∈ inputs, Ends value failure (f a)) :
    Ends (fun results => ∀ b ∈ results, value b) failure (inputs.mapM f) := by
  induction inputs with
  | nil => exact fun b hb => (nomatch hb)
  | cons a inputs ih =>
    rw [List.mapM_cons]
    refine (h a List.mem_cons_self).bind fun b hb => ?_
    refine (ih fun a' ha' => h a' (List.mem_cons_of_mem a ha')).bind fun results hresults => ?_
    intro b' hb'
    rcases List.mem_cons.1 hb' with rfl | hb'
    · exact hb
    · exact hresults b' hb'

end Ends

/-- A value that was computed, or one of those that were given. -/
def Clean (given : Value → Prop) (v : Value) : Prop := v.Plain ∨ given v

/-- What can stop the evaluation of a readable expression whose indices are in range: the values
that it comes upon, names that nothing binds, and symbols with values that no text gives them. -/
inductive Mishap (given : Value → Prop) (scope : Scope) (e : Expr) : Failure → Prop
  | nonBoolean (v : Value) : Mishap given scope e (.fault (.nonBooleanCondition v))
  | nonNumeric (op : String) (v : Value) : op = "plus" ∨ op = "minus" →
      Mishap given scope e (.fault (.nonNumericOperand op v))
  | overflow (n : Int) : given (.int n) → intToFloat n = .error .overflow →
      Mishap given scope e .overflow
  | unwritable (v : Value) : given v → v.unwritable? .unlimited = some .longInteger →
      Mishap given scope e .longInteger
  | unbound (x : Value) : x ∈ e.freeNames → scope.find? x.normal = none →
      .name x ∈ e.symbols → Mishap given scope e (.about .unlimited x (.unbound x))
  | unhashable (x : Value) (kind : String) : .name x ∈ e.symbols → x.unhashable? = some kind →
      Mishap given scope e (.unhashable kind)
  | notAnIndex (i : Value) : .placeholder i ∈ e.symbols → i.toInt? = none →
      Mishap given scope e (.notAnIndex "tuple indices must be integers or slices" i.kind)

namespace Mishap

variable {given : Value → Prop} {scope scope' : Scope} {e e' : Expr} {f : Failure}

/-- What stops an expression stops one with all its symbols in which every missing name is missing
too. -/
theorem transfer (h : Mishap given scope e f) (hsymbols : e.symbols ⊆ e'.symbols)
    (hmissing : ∀ x ∈ e.freeNames, scope.find? x.normal = none →
      x ∈ e'.freeNames ∧ scope'.find? x.normal = none) : Mishap given scope' e' f := by
  cases h with
  | nonBoolean v => exact .nonBoolean v
  | nonNumeric op v hop => exact .nonNumeric op v hop
  | overflow n hn hbig => exact .overflow n hn hbig
  | unwritable v hv hlong => exact .unwritable v hv hlong
  | unbound x hfree hnone hx =>
    obtain ⟨hfree', hnone'⟩ := hmissing x hfree hnone
    exact .unbound x hfree' hnone' (hsymbols hx)
  | unhashable x kind hx hkind => exact .unhashable x kind (hsymbols hx) hkind
  | notAnIndex i hi hint => exact .notAnIndex i (hsymbols hi) hint

theorem mono (h : Mishap given scope e f) (hsymbols : e.symbols ⊆ e'.symbols)
    (hnames : e.freeNames ⊆ e'.freeNames) : Mishap given scope e' f := by
  apply h.transfer hsymbols
  intro x hfree hnone
  exact ⟨hnames hfree, hnone⟩

/-- What stops the body of a let stops the let; a name that the let binds is not missing. -/
theorem letIn {x v : Value} {bound body : Expr}
    (h : Mishap given (scope.insert x.normal v) body f) :
    Mishap given scope (.letIn x bound body) f := by
  apply h.transfer (List.subset_cons_of_subset _ (List.subset_append_right _ _))
  intro y hfree hnone
  rw [Bindings.find?_insert] at hnone
  split at hnone
  · cases hnone
  next hne =>
    have hother : y.normal ≠ x.normal := Ne.symm hne
    exact ⟨by simp [Expr.freeNames, hfree, hother], hnone⟩

end Mishap

theorem Scope.lookup_eq (room : Room) (scope : Scope) (x : Value) : scope.lookup room x =
    nameKey x >>= fun key => (scope.find? key).elim (.error (.about room x (.unbound x))) .ok := by
  unfold lookup find
  cases nameKey x with
  | error f => rfl
  | ok key =>
    simp only [Except.map, Outcome.bind_ok]
    cases scope.find? key <;> rfl

section Meaning

variable {given : Value → Prop} {scope : Scope} {e : Expr}

/-- A problem whose words show a value comes about, unless that value was given and cannot be
written. -/
theorem raise_mishap {v : Value} (h : Clean given v) {cause : Fault}
    (hwords : cause.unwordable? .unlimited = v.unwritable? .unlimited)
    (hcause : Mishap given scope e (.fault cause)) :
    Mishap given scope e (.raise .unlimited cause) := by
  rw [Failure.raise, hwords]
  rcases h with hplain | hgiven
  · rw [hplain.unwritable?]
    exact hcause
  · rcases Value.unwritable?_unlimited v with hshort | hlong
    · rw [hshort]
      exact hcause
    · rw [hlong]
      exact .unwritable v hgiven hlong

theorem numeric_ends {v : Value} (h : Clean given v) {op : String}
    (hop : op = "plus" ∨ op = "minus") :
    Ends (fun _ => True) (Mishap given scope e) (numeric .unlimited v op) := by
  cases v with
  | float x => trivial
  | undefined handle => trivial
  | int n =>
    have hcases : (∃ x, intToFloat n = .ok x) ∨ intToFloat n = .error .overflow := by
      unfold intToFloat
      dsimp only
      split
      · exact .inl ⟨_, rfl⟩
      · exact .inr rfl
    rcases hcases with ⟨x, hx⟩ | hbig
    · simp only [numeric, hx]
      trivial
    · simp only [numeric, hbig]
      exact .overflow n (h.resolve_left nofun) hbig
  | _ => exact raise_mishap h rfl (.nonNumeric op _ hop)

theorem apply_ends {op : Operator} {a b : Value} (hop : ∀ name, op ≠ .other name)
    (ha : Clean given a) (hb : Clean given b) :
    Ends (Clean given) (Mishap given scope e) (op.apply .unlimited a b) := by
  cases op with
  | add =>
    have hop : "plus" = "plus" ∨ "plus" = "minus" := .inl rfl
    refine (numeric_ends ha hop).bind fun x _ => (numeric_ends hb hop).bind fun y _ => ?_
    exact .inl (.float _)
  | sub =>
    have hop : "minus" = "plus" ∨ "minus" = "minus" := .inr rfl
    refine (numeric_ends ha hop).bind fun x _ => (numeric_ends hb hop).bind fun y _ => ?_
    exact .inl (.float _)
  | eq | notEq =>
    simp only [Operator.apply, Value.equalsWithin_unlimited]
    exact .inl (.bool _)
  | other name => exact (hop name rfl).elim

theorem nameKey_ends {x : Value} (hx : .name x ∈ e.symbols) :
    Ends (· = x.normal) (Mishap given scope e) (nameKey x) := by
  unfold nameKey
  split
  next kind hkind => exact .unhashable x kind hx hkind
  · rfl

theorem lookup_ends {x : Value} (hscope : ∀ key v, scope.find? key = some v → Clean given v)
    (hx : .name x ∈ e.symbols) (hfree : x ∈ e.freeNames) :
    Ends (Clean given) (Mishap given scope e) (scope.lookup .unlimited x) := by
  rw [Scope.lookup_eq]
  refine (nameKey_ends hx).bind fun key hkey => ?_
  subst hkey
  cases hfind : scope.find? x.normal with
  | none => exact .unbound x hfree hfind hx
  | some v => exact hscope _ v hfind

theorem Ends.part {e' : Expr} {value : Value → Prop} {outcome : Except Failure Value}
    (h : Ends value (Mishap given scope e) outcome) (hsymbols : e.symbols ⊆ e'.symbols)
    (hnames : e.freeNames ⊆ e'.freeNames) : Ends value (Mishap given scope e') outcome :=
  h.mono fun _ hf => hf.mono hsymbols hnames

/-- A symbol brings no value that was not given, and no index beyond the arguments. -/
def Fits (given : Value → Prop) (args : List Value) : Symbol → Prop
  | .number v => Clean given v
  | .placeholder i => ∃ k < args.length, i.normal = .int (k + 1 : Nat)
  | _ => True

/-- Evaluating a readable expression whose indices are in range gives a value or stops in one of the
ways listed. -/
theorem meaning_ends {args : List Value} (hread : e.Readable)
    (hfits : ∀ s ∈ e.symbols, Fits given args s) (hargs : ∀ v ∈ args, Clean given v)
    (hscope : ∀ key v, scope.find? key = some v → Clean given v) :
    Ends (Clean given) (Mishap given scope e) (e.meaning scope args) := by
  induction e generalizing scope with
  | number v => exact hfits (.number v) (by simp [Expr.symbols])
  | argument i =>
    obtain ⟨k, hk, hi⟩ := hfits (.placeholder i) (by simp [Expr.symbols])
    rw [Expr.meaning]
    rcases argumentAt_in_range hk hi with ⟨v, hv, hat⟩ | ⟨hint, hat⟩
    · rw [hat]
      exact hargs v hv
    · rw [hat]
      exact .notAnIndex i (by simp [Expr.symbols]) hint
  | name x => exact lookup_ends hscope (by simp [Expr.symbols]) (by simp [Expr.freeNames])
  | binary op l r ihl ihr =>
    obtain ⟨hop, hl, hr⟩ := hread
    simp only [Expr.symbols, List.mem_append] at hfits
    have hleft := ihl hl (fun s hs => hfits s (.inl hs)) hscope
    have hright := ihr hr (fun s hs => hfits s (.inr hs)) hscope
    rw [Expr.meaning]
    refine (hleft.part (List.subset_append_left _ _) (List.subset_append_left _ _)).bind
      fun a ha => ?_
    refine (hright.part (List.subset_append_right _ _) (List.subset_append_right _ _)).bind
      fun b hb => ?_
    exact apply_ends hop ha hb
  | letIn x bound body ihb ihe =>
    obtain ⟨hb, he⟩ := hread
    simp only [Expr.symbols, List.mem_cons, List.mem_append] at hfits
    have hbound := ihb hb (fun s hs => hfits s (.inr (.inl hs))) hscope
    rw [Expr.meaning]
    refine (hbound.part (List.subset_cons_of_subset _ (List.subset_append_left _ _))
      (List.subset_append_left _ _)).bind fun v hv => ?_
    refine (nameKey_ends (by simp [Expr.symbols])).bind fun key hkey => ?_
    subst hkey
    refine (ihe he (fun s hs => hfits s (.inr (.inr hs))) fun key w hw => ?_).mono
      fun f hf => hf.letIn
    rw [Bindings.find?_insert] at hw
    split at hw
    · cases hw
      exact hv
    · exact hscope key w hw
  | cond c t e ihc iht ihe =>
    obtain ⟨hc, ht, he⟩ := hread
    simp only [Expr.symbols, List.mem_append] at hfits
    have htest := ihc hc (fun s hs => hfits s (.inl hs)) hscope
    have hyes := iht ht (fun s hs => hfits s (.inr (.inl hs))) hscope
    have hno := ihe he (fun s hs => hfits s (.inr (.inr hs))) hscope
    rw [Expr.meaning]
    refine (htest.part (List.subset_append_left _ _) (List.subset_append_left _ _)).bind
      fun v hv => ?_
    cases v with
    | bool b =>
      cases b with
      | true =>
        exact hyes.part (List.subset_append_of_subset_right _ (List.subset_append_left _ _))
          (List.subset_append_of_subset_right _ (List.subset_append_left _ _))
      | false =>
        exact hno.part (List.subset_append_of_subset_right _ (List.subset_append_right _ _))
          (List.subset_append_of_subset_right _ (List.subset_append_right _ _))
    | _ => exact raise_mishap hv rfl (.nonBoolean _)
  | foreign v => exact hread.elim

end Meaning

theorem Failure.cause_of_about {v : Value} {cause c : Fault}
    (h : about .unlimited v cause = .fault c) : c = cause := by
  unfold about Fault.quoting at h
  cases v with
  | set items =>
    dsimp only at h
    rcases Value.unwritableAmong?_unlimited items with hitems | hitems <;> rw [hitems] at h
    · cases hfill : Template.fill cause.draft.template (Value.set items).quotes <;>
        simp [hfill] at h
    · cases h
  | list items | tuple items =>
    dsimp only at h
    rcases Value.unwritableAmong?_unlimited items with hitems | hitems <;> rw [hitems] at h
    · exact (Failure.fault.inj h).symm
    · cases h
  | nothing | text s => exact (Failure.fault.inj h).symm
  | _ => cases h

theorem Mishap.cause {given : Value → Prop} {scope : Scope} {e : Expr} {f : Fault}
    (h : Mishap given scope e (.fault f)) :
    (∀ i k, f ≠ .argumentOutOfRange i k) ∧ f.draft.internal = false ∧
      ∀ x, f = .unbound x → x ∈ e.freeNames := by
  generalize hg : Failure.fault f = g at h
  cases h with
  | nonBoolean v =>
    cases hg
    exact ⟨fun _ _ hf => (nomatch hf), rfl, fun _ hf => (nomatch hf)⟩
  | nonNumeric op v hop =>
    cases hg
    exact ⟨fun _ _ hf => (nomatch hf), rfl, fun _ hf => (nomatch hf)⟩
  | unbound x hfree hnone hx =>
    obtain rfl := Failure.cause_of_about hg.symm
    refine ⟨fun _ _ hf => (nomatch hf), rfl, fun y hf => ?_⟩
    cases hf
    exact hfree
  | _ => cases hg

end CurryCalc
