/-! Operations that may stop, one after the other: what a sequence gave tells what its parts
gave. -/
namespace CurryCalc
namespace Outcome

variable {ε α β : Type}

@[simp] theorem bind_ok (a : α) (next : α → Except ε β) :
    ((.ok a : Except ε α) >>= next) = next a := rfl

@[simp] theorem bind_error (e : ε) (next : α → Except ε β) :
    ((.error e : Except ε α) >>= next) = .error e := rfl

@[simp] theorem map_ok (f : α → β) (a : α) : f <$> (.ok a : Except ε α) = .ok (f a) := rfl

@[simp] theorem map_error (f : α → β) (e : ε) : f <$> (.error e : Except ε α) = .error e := rfl

@[simp] theorem mapError_ok {ε' : Type} (f : ε → ε') (a : α) :
    (.ok a : Except ε α).mapError f = .ok a := rfl

@[simp] theorem mapError_error {ε' : Type} (f : ε → ε') (e : ε) :
    (.error e : Except ε α).mapError f = .error (f e) := rfl

/-- Why an operation stopped, if it did. -/
def failure? : Except ε α → Option ε
  | .error e => some e
  | .ok _ => none

theorem eq_ok_of_toOption {outcome : Except ε α} {a : α} (h : outcome.toOption = some a) :
    outcome = .ok a := by
  cases outcome with
  | error e => cases h
  | ok b => exact congrArg Except.ok (Option.some.inj h)

theorem eq_error_of_failure? {outcome : Except ε α} {e : ε} (h : failure? outcome = some e) :
    outcome = .error e := by
  cases outcome with
  | error e' => exact congrArg Except.error (Option.some.inj h)
  | ok a => cases h

theorem ok_of_bind {first : Except ε α} {next : α → Except ε β} {b : β}
    (h : first >>= next = .ok b) : ∃ a, first = .ok a ∧ next a = .ok b := by
  cases first with
  | error e => cases h
  | ok a => exact ⟨a, rfl, h⟩

theorem error_of_bind {first : Except ε α} {next : α → Except ε β} {e : ε}
    (h : first >>= next = .error e) :
    first = .error e ∨ ∃ a, first = .ok a ∧ next a = .error e := by
  cases first with
  | error e' =>
    cases h
    exact .inl rfl
  | ok a => exact .inr ⟨a, rfl, h⟩

theorem bind_ne_error {first : Except ε α} {next : α → Except ε β} {e : ε}
    (h : first ≠ .error e) (hnext : ∀ a, next a ≠ .error e) : first >>= next ≠ .error e := by
  intro hbind
  rcases error_of_bind hbind with hfirst | ⟨a, _, ha⟩
  · exact h hfirst
  · exact hnext a ha

/-- Operations that agree up to why they stop both stop, or give the same. -/
theorem cases_of_toOption_eq {a b : Except ε α} (h : a.toOption = b.toOption) :
    (∃ e e', a = .error e ∧ b = .error e') ∨ ∃ v, a = .ok v ∧ b = .ok v := by
  cases a with
  | error e =>
    cases b with
    | error e' => exact .inl ⟨e, e', rfl, rfl⟩
    | ok w => cases h
  | ok v =>
    cases b with
    | error e' => cases h
    | ok w =>
      cases h
      exact .inr ⟨v, rfl, rfl⟩

theorem ok_of_map {first : Except ε α} {f : α → β} {b : β} (h : first.map f = .ok b) :
    ∃ a, first = .ok a ∧ f a = b := by
  cases first with
  | error e => cases h
  | ok a => exact ⟨a, rfl, Except.ok.inj h⟩

/-- Each result of a list of operations is the result of one of them. -/
theorem mem_of_mapM {f : α → Except ε β} {inputs : List α} {results : List β}
    (h : inputs.mapM f = .ok results) {b : β} (hb : b ∈ results) : ∃ a ∈ inputs, f a = .ok b := by
  induction inputs generalizing results with
  | nil =>
    cases h
    cases hb
  | cons a inputs ih =>
    rw [List.mapM_cons] at h
    obtain ⟨first, hfirst, h⟩ := ok_of_bind h
    obtain ⟨others, hothers, h⟩ := ok_of_bind h
    cases h
    rcases List.mem_cons.1 hb with rfl | hb
    · exact ⟨a, List.mem_cons_self, hfirst⟩
    · obtain ⟨a', ha', hresult⟩ := ih hothers hb
      exact ⟨a', List.mem_cons_of_mem a ha', hresult⟩

theorem mapM_eq_map {f : α → Except ε β} {g : α → β} {inputs : List α}
    (h : ∀ a ∈ inputs, f a = .ok (g a)) : inputs.mapM f = .ok (inputs.map g) := by
  induction inputs with
  | nil => rfl
  | cons a inputs ih =>
    obtain ⟨ha, hinputs⟩ := List.forall_mem_cons.1 h
    rw [List.mapM_cons, ha, bind_ok, ih hinputs]
    rfl

theorem ok_of_mem_mapM {f : α → Except ε β} {inputs : List α} {results : List β}
    (h : inputs.mapM f = .ok results) {a : α} (ha : a ∈ inputs) : ∃ b, f a = .ok b := by
  induction inputs generalizing results with
  | nil => cases ha
  | cons first inputs ih =>
    rw [List.mapM_cons] at h
    obtain ⟨b, hb, h⟩ := ok_of_bind h
    obtain ⟨others, hothers, -⟩ := ok_of_bind h
    rcases List.mem_cons.1 ha with rfl | ha
    · exact ⟨b, hb⟩
    · exact ih hothers ha

end Outcome
end CurryCalc
