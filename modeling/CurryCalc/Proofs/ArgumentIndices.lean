import CurryCalc.Proofs.TreeSymbols

/-! Which arguments a program asks for. Collecting and sorting indices adds no value that was not
there, so that indices read from a text never stand in the way of compiling: it succeeds if they are
the first ones, and says which ones they are if not. -/
namespace CurryCalc

namespace Value

theorem mem_of_mem_insertAscending {u v : Value} {values : List Value}
    (h : u ∈ insertAscending v values) : u = v ∨ u ∈ values := by
  fun_induction insertAscending v values with
  | case1 => simpa using h
  | case2 w rest _ => simpa using h
  | case3 w rest _ _ =>
    rcases List.mem_cons.1 h with rfl | h
    · exact .inl rfl
    · exact .inr (List.mem_cons_of_mem w h)
  | case4 w rest _ _ ih =>
    rcases List.mem_cons.1 h with rfl | h
    · exact .inr List.mem_cons_self
    · exact (ih h).imp_right (List.mem_cons_of_mem w)

theorem mem_of_mem_ascending {u : Value} {values : List Value} (h : u ∈ ascending values) :
    u ∈ values := by
  induction values with
  | nil => cases h
  | cons v rest ih =>
    rcases mem_of_mem_insertAscending h with rfl | h
    · exact List.mem_cons_self
    · exact List.mem_cons_of_mem v (ih h)

namespace Table

theorem mem_entries {t : Table} {entry : UInt64 × Value} :
    entry ∈ t.entries ↔ some entry ∈ t.slots.toList := by
  simp [entries]

theorem entries_blank (size : Nat) : (blank size).entries = [] := by
  simp [entries, blank]

theorem mem_put {t : Table} {entry other : UInt64 × Value} (h : other ∈ (t.put entry).entries) :
    other = entry ∨ other ∈ t.entries := by
  unfold put at h
  dsimp only at h
  split at h
  · exact .inr h
  · rw [mem_entries, Array.toList_setIfInBounds] at h
    rcases List.mem_or_eq_of_mem_set h with h | h
    · exact .inr (mem_entries.2 h)
    · exact .inl (Option.some.inj h)

/-- Steps that each bring in one entry at most bring in the entries that they were given. -/
theorem mem_foldl {step : Table → UInt64 × Value → Table}
    (hstep : ∀ t entry other, other ∈ (step t entry).entries → other = entry ∨ other ∈ t.entries)
    {entries : List (UInt64 × Value)} {t : Table} {other : UInt64 × Value}
    (h : other ∈ (entries.foldl step t).entries) : other ∈ entries ∨ other ∈ t.entries := by
  induction entries generalizing t with
  | nil => exact .inr h
  | cons entry entries ih =>
    rcases ih h with h | h
    · exact .inl (List.mem_cons_of_mem entry h)
    · rcases hstep t entry other h with rfl | h
      · exact .inl List.mem_cons_self
      · exact .inr h

theorem mem_grown {t : Table} {other : UInt64 × Value} (h : other ∈ t.grown.entries) :
    other ∈ t.entries := by
  unfold grown at h
  split at h
  · exact h
  · rcases mem_foldl (fun _ _ _ => mem_put) h with h | h
    · exact h
    · rw [entries_blank] at h
      cases h

theorem mem_add {t : Table} {entry other : UInt64 × Value} (h : other ∈ (t.add entry).entries) :
    other = entry ∨ other ∈ t.entries := by
  unfold add at h
  dsimp only at h
  split at h
  · exact .inr h
  · exact mem_put (mem_grown h)

end Table

/-- A set has no members but the values that it was made of. -/
theorem mem_of_mem_members {u : Value} {values : List Value} (h : u ∈ members values) :
    u ∈ values := by
  unfold members at h
  split at h
  · obtain ⟨entry, hentry, rfl⟩ := List.mem_map.1 h
    rcases Table.mem_foldl (fun _ _ _ => Table.mem_add) hentry with hzip | hblank
    · exact (List.of_mem_zip hzip).2
    · rw [Table.entries_blank] at hblank
      cases hblank
  · exact mem_of_mem_ascending h

end Value

namespace Expr

theorem trouble?_eq_none {e : Expr} (hread : e.Readable)
    (hindex : ∀ i, .placeholder i ∈ e.symbols → i.unhashable? = none) : e.trouble? = none := by
  cases e with
  | argument i => simpa [trouble?, symbols] using hindex
  | foreign v => exact hread.elim
  | _ => rfl

theorem trouble?_eq_none_of_mem_walk {e : Expr} (hread : e.Readable)
    (hindex : ∀ i, .placeholder i ∈ e.symbols → i.unhashable? = none) :
    ∀ node ∈ e.walk, node.trouble? = none := by
  induction e using induction_children with
  | node e ih =>
    intro node hnode
    rw [walk_eq, List.mem_cons, List.mem_flatMap] at hnode
    rcases hnode with rfl | ⟨c, hc, hnode⟩
    · exact trouble?_eq_none hread hindex
    · exact ih c hc (hread.children c hc)
        (fun i hi => hindex i (mem_symbols_of_mem_children hc hi)) node hnode

theorem uncollectable?_eq_none {e : Expr} (hread : e.Readable)
    (hindex : ∀ i, .placeholder i ∈ e.symbols → i.unhashable? = none) {n : Nat} (hn : 0 < n) :
    e.uncollectable? n = none := by
  have hwalk : e.walk.findSome? trouble? = none :=
    List.findSome?_eq_none_iff.2 (trouble?_eq_none_of_mem_walk hread hindex)
  obtain ⟨n, rfl⟩ := Nat.exists_eq_add_one.2 hn
  unfold uncollectable?
  rw [walkWithin_succ]
  cases e with
  | foreign v => exact hread.elim
  | _ => exact hwalk

theorem indexClash?_eq_none {e : Expr} (h : ∀ i ∈ e.argumentList, i.position?.isSome) :
    e.indexClash? = none := by
  apply if_pos
  rw [List.all_eq_true]
  intro i hi
  exact h i (Value.mem_of_mem_members hi)

/-- The indices of an expression with proper symbols are positive integers. -/
theorem index_of_proper {e : Expr} (h : ∀ s ∈ e.symbols, s.Proper) {i : Value}
    (hi : i ∈ e.argumentList) : ∃ n : Nat, 1 ≤ n ∧ i = .int n :=
  h _ (placeholder_of_argument hi)

end Expr

namespace Program

variable [Machine]

/-- From tokens that are a sentence, with numbers for indices, compiling fails for one reason
alone. -/
theorem compile_of_numbers {tokens : List Token} {tree : Expr} (hparse : parse tokens = .ok tree)
    (hindex : ∀ i ∈ tree.argumentList, i.unhashable? = none ∧ i.position?.isSome) :
    compile tokens =
      if tree.argumentIndices.map Value.normal = firstIndices tree.argumentIndices.length then
        .ok ⟨tree, tree.argumentIndices.length, sourceOf tokens⟩
      else .error (.raise (.levels nestingLimit)
        (.nonContiguous tree.argumentIndices (sourceOf tokens))) := by
  have hcollect : tree.uncollectable? nestingLimit = none :=
    Expr.uncollectable?_eq_none (Grammar.parse_sound hparse).2.2.readable
      (fun i hi => (hindex i (Expr.mem_argumentList_of_symbol hi)).1)
        (Grammar.nestingLimit_pos hparse)
  have hclash : tree.indexClash? = none := Expr.indexClash?_eq_none fun i hi => (hindex i hi).2
  simp only [compile, hparse, hcollect, misnumbered, hclash]

theorem compile_of_parse {tokens : List Token} {tree : Expr} (hparse : parse tokens = .ok tree)
    (hproper : ∀ t ∈ tokens, t.symbol.Proper) :
    compile tokens =
      if tree.argumentIndices.map Value.normal = firstIndices tree.argumentIndices.length then
        .ok ⟨tree, tree.argumentIndices.length, sourceOf tokens⟩
      else .error (.raise (.levels nestingLimit)
        (.nonContiguous tree.argumentIndices (sourceOf tokens))) := by
  apply compile_of_numbers hparse
  intro i hi
  obtain ⟨n, -, rfl⟩ := Expr.index_of_proper (Grammar.forall_symbols_of_parse hparse hproper) hi
  exact ⟨rfl, rfl⟩

/-- A program that compiles from proper tokens asks for the arguments that its arity counts, and for
no others. -/
theorem mem_argumentList_iff {tokens : List Token} {p : Program} (h : compile tokens = .ok p)
    (hproper : ∀ t ∈ tokens, t.symbol.Proper) {i : Value} :
    i ∈ p.tree.argumentList ↔ ∃ k : Nat, 1 ≤ k ∧ (k : Int) ≤ p.arity ∧ i = .int k := by
  have hsymbols := symbols_proper h hproper
  constructor
  · intro hi
    obtain ⟨n, hpos, rfl⟩ := Expr.index_of_proper hsymbols hi
    obtain ⟨k, hk, hindex⟩ := argument_in_range h hi
    simp only [Value.normal, Value.int.injEq] at hindex
    exact ⟨n, hpos, by omega, rfl⟩
  · rintro ⟨k, hpos, hle, rfl⟩
    obtain ⟨-, -, hfirst, harity, -⟩ := compile_eq_ok_iff.1 h
    have hmem : Value.int k ∈ p.tree.argumentIndices.map Value.normal := by
      rw [hfirst, mem_firstIndices]
      exact ⟨k - 1, by omega, by congr 2; omega⟩
    obtain ⟨u, hu, hnormal⟩ := List.mem_map.1 hmem
    have hlist := Value.mem_of_mem_ascending hu
    obtain ⟨n, -, rfl⟩ := Expr.index_of_proper hsymbols hlist
    rwa [← hnormal]

end Program

end CurryCalc
