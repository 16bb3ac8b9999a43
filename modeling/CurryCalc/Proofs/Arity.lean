import Mathlib.Order.ConditionallyCompleteLattice.Basic
import Mathlib.Data.Int.ConditionallyCompleteOrder
import Mathlib.Data.Finset.Sort
import Mathlib.Data.Int.Interval
import Mathlib.Tactic.Tauto
import CurryCalc.Proofs.ArgumentIndices
import CurryCalc.Proofs.ExactRounding
import CurryCalc.Proofs.Mishaps

/-! The arity of a program and its placeholders. The indices of a tree are those of the placeholders
among the tokens that it was read from, none dropped and none added; so the set of these decides
alone whether the tokens compile, and how many arguments the program takes. -/
namespace CurryCalc

namespace Value

/-- The integer that a value equals, whatever kind of number it is. -/
def wholeNumber? (v : Value) : Option Int := v.normal.toInt?

theorem wholeNumber?_eq_some_iff {v : Value} {n : Int} :
    v.wholeNumber? = some n ↔ v.normal = .int n := by
  unfold wholeNumber?
  cases v with
  | bool b => simp [normal, toInt?]
  | float x => cases hx : x.toInt? <;> simp [normal, toInt?, hx]
  | _ => simp [normal, toInt?]

theorem position?_of_whole {v : Value} {n : Int} (h : v.normal = .int n) :
    v.position? = some (.quanta (n * quantaPerUnit)) := by
  cases v with
  | bool b =>
    simp only [normal, int.injEq] at h
    rw [← h]
    rfl
  | int m =>
    simp only [normal, int.injEq] at h
    rw [← h]
    rfl
  | float x =>
    apply position?_of_toInt?
    cases hx : x.toInt? <;> simp_all [normal]
  | _ => simp [normal] at h

theorem Position.before_multiples {u : Nat} (hu : 0 < u) (m n : Int) :
    (quanta (m * u)).before (quanta (n * u)) = decide (m < n) := by
  have hpos : (0 : Int) < u := by omega
  simp only [before, Int.mul_lt_mul_right hpos]

theorem before_of_whole {v w : Value} {m n : Int} (hv : v.normal = .int m)
    (hw : w.normal = .int n) :
    v.before w = .ok (decide (m < n)) := by
  obtain ⟨u, hu, hleft, hright⟩ : ∃ u : Nat, 0 < u ∧ v.position? = some (.quanta (m * u)) ∧
      w.position? = some (.quanta (n * u)) :=
    ⟨quantaPerUnit, quantaPerUnit_pos, position?_of_whole hv, position?_of_whole hw⟩
  have hbefore := Position.before_multiples hu m n
  cases v <;> cases w <;> simp_all [normal, before]

/-- A whole number goes to its place among others in ascending order, and takes the place of one
that equals it. -/
theorem insertAscending_whole {v : Value} {n : Int} (hv : v.normal = .int n) {values : List Value}
    {ns : List Int} (hvalues : values.map normal = ns.map .int) (hns : ns.Pairwise (· < ·)) :
    ∃ ms : List Int, (insertAscending v values).map normal = ms.map .int ∧ ms.Pairwise (· < ·) ∧
      ∀ m, m ∈ ms ↔ m = n ∨ m ∈ ns := by
  induction values generalizing ns with
  | nil =>
    obtain rfl : ns = [] := by simpa using hvalues.symm
    exact ⟨[n], by simp [insertAscending, hv], by simp, by simp⟩
  | cons w rest ih =>
    cases ns with
    | nil => simp at hvalues
    | cons k ks =>
      simp only [List.map_cons, List.cons.injEq] at hvalues
      obtain ⟨hw, hrest⟩ := hvalues
      obtain ⟨hfirst, hks⟩ := List.pairwise_cons.1 hns
      rw [insertAscending, before_of_whole hv hw, hv, hw]
      rcases Int.lt_trichotomy n k with hlt | rfl | hgt
      · refine ⟨n :: k :: ks, by simp [hlt, hv, hw, hrest], ?_, by simp⟩
        refine List.pairwise_cons.2 ⟨fun m hm => ?_, hns⟩
        rcases List.mem_cons.1 hm with rfl | hm
        · exact hlt
        · exact Int.lt_trans hlt (hfirst m hm)
      · refine ⟨n :: ks, by simp [hv, hrest], hns, by simp⟩
      · obtain ⟨ms, hmap, hms, hmem⟩ := ih hrest hks
        refine ⟨k :: ms, ?_, ?_, ?_⟩
        · have hnot : ¬ n < k := by omega
          have hne : ¬ n = k := by omega
          simp [hnot, hne, hw, hmap]
        · refine List.pairwise_cons.2 ⟨fun m hm => ?_, hms⟩
          rcases (hmem m).1 hm with rfl | hm
          · exact hgt
          · exact hfirst m hm
        · intro m
          simp only [List.mem_cons, hmem]
          tauto

/-- Sorting whole numbers of all kinds gives the integers that they equal, each once and in
order. -/
theorem ascending_whole {values : List Value} (h : ∀ v ∈ values, ∃ n, v.normal = .int n) :
    (ascending values).map normal =
      ((values.filterMap wholeNumber?).toFinset.sort (· ≤ ·)).map .int := by
  suffices hsorted : ∃ ms : List Int, (ascending values).map normal = ms.map .int ∧
      ms.Pairwise (· < ·) ∧ ∀ m, m ∈ ms ↔ m ∈ values.filterMap wholeNumber? by
    obtain ⟨ms, hmap, hms, hmem⟩ := hsorted
    have hset : (values.filterMap wholeNumber?).toFinset = ms.toFinset := by
      ext m
      simp only [List.mem_toFinset, hmem]
    have hnodup : ms.Nodup := hms.imp Int.ne_of_lt
    have hle : ms.Pairwise (· ≤ ·) := hms.imp Int.le_of_lt
    rw [hmap, hset, (List.toFinset_sort (· ≤ ·) hnodup).2 hle]
  induction values with
  | nil => exact ⟨[], by simp [ascending], by simp, by simp⟩
  | cons v rest ih =>
    obtain ⟨n, hv⟩ := h v List.mem_cons_self
    obtain ⟨ns, hns, hpairwise, hmem⟩ := ih fun w hw => h w (List.mem_cons_of_mem v hw)
    obtain ⟨ms, hms, hsorted, hinsert⟩ := insertAscending_whole hv hns hpairwise
    refine ⟨ms, hms, hsorted, fun m => ?_⟩
    rw [hinsert, hmem, List.filterMap_cons_some (wholeNumber?_eq_some_iff.2 hv), List.mem_cons]

theorem unwritableAmong?_integers (room : Room) (ns : List Int) :
    unwritableAmong? room (ns.map .int) =
      if ∃ n ∈ ns, isLong n then some .longInteger else none := by
  induction ns with
  | nil => rfl
  | cons n rest ih =>
    rw [List.map_cons, unwritableAmong?, ih, unwritable?]
    by_cases hn : isLong n <;> simp [hn]

end Value

namespace Program

def firstNumbers (n : Nat) : List Int := (List.range n).map fun (k : Nat) => k + 1

theorem firstIndices_eq (n : Nat) : firstIndices n = (firstNumbers n).map .int := by
  simp [firstIndices, firstNumbers, Function.comp_def]

theorem pairwise_firstNumbers (n : Nat) : (firstNumbers n).Pairwise (· < ·) := by
  apply List.Pairwise.map _ _ List.pairwise_lt_range
  intro j k hjk
  show (j : Int) + 1 < k + 1
  omega

theorem toFinset_firstNumbers (n : Nat) : (firstNumbers n).toFinset = Finset.Icc 1 (n : Int) := by
  ext m
  simp only [firstNumbers, List.mem_toFinset, List.mem_map, List.mem_range, Finset.mem_Icc]
  constructor
  · rintro ⟨k, hk, rfl⟩
    omega
  · intro hm
    exact ⟨(m - 1).toNat, by omega, by omega⟩

/-- A finite set of integers is sorted into `1, 2, …` exactly if it has no gap and starts at one. -/
theorem sort_eq_firstIndices_iff {s : Finset Int} {n : Nat} :
    (s.sort (· ≤ ·)).map .int = firstIndices n ↔ s = Finset.Icc 1 (n : Int) := by
  have hlt := pairwise_firstNumbers n
  have hsort : (firstNumbers n).toFinset.sort (· ≤ ·) = firstNumbers n :=
    (List.toFinset_sort _ (hlt.imp Int.ne_of_lt)).2 (hlt.imp Int.le_of_lt)
  rw [firstIndices_eq, List.map_inj_right fun _ _ => Value.int.inj, ← toFinset_firstNumbers]
  constructor
  · intro h
    rw [← h, Finset.sort_toFinset]
  · rintro rfl
    exact hsort

def placeholders (tokens : List Token) : List Value :=
  (tokens.map Token.symbol).filterMap Symbol.index?

def placeholderSet (tokens : List Token) : Finset Int :=
  ((placeholders tokens).filterMap Value.wholeNumber?).toFinset

section Integers
variable {tokens : List Token}

theorem whole_of_integers (hint : ∀ i ∈ placeholders tokens, ∃ n : Int, i = .int n) :
    ∀ i ∈ placeholders tokens, ∃ n : Int, i.normal = .int n := by
  intro i hi
  obtain ⟨n, rfl⟩ := hint i hi
  exact ⟨n, rfl⟩

theorem mem_placeholderSet_of_integers (hint : ∀ i ∈ placeholders tokens, ∃ n : Int, i = .int n)
    (n : Int) : n ∈ placeholderSet tokens ↔ .int n ∈ placeholders tokens := by
  simp only [placeholderSet, List.mem_toFinset, List.mem_filterMap, Value.wholeNumber?_eq_some_iff]
  constructor
  · rintro ⟨i, hi, hnormal⟩
    obtain ⟨m, rfl⟩ := hint i hi
    rwa [← hnormal]
  · intro h
    exact ⟨_, h, rfl⟩

end Integers

/-- The largest member of a set without gaps that starts at one counts its members. -/
theorem card_isGreatest {s : Finset Int} (h : s = Finset.Icc 1 (s.card : Int)) :
    s = ∅ ∧ s.card = 0 ∨ IsGreatest (s : Set Int) s.card := by
  rcases Finset.eq_empty_or_nonempty s with rfl | hne
  · exact .inl ⟨rfl, rfl⟩
  · right
    have hpos := hne.card_pos
    generalize s.card = n at h hpos
    subst h
    rw [Finset.coe_Icc]
    exact isGreatest_Icc (by omega)

section Compiling
variable [Machine] {tokens : List Token} {tree : Expr}

/-- No placeholder is dropped from a sentence, and none is added. -/
theorem argumentList_of_parse (h : parse tokens = .ok tree) :
    tree.argumentList = placeholders tokens := by
  rw [Expr.argumentList_eq_symbols, (Grammar.parse_sound h).2.2.symbols_eq, List.filterMap_filter]
  apply List.filterMap_congr
  intro s _
  cases s <;> rfl

theorem placeholders_whole {p : Program} (h : compile tokens = .ok p) :
    ∀ i ∈ placeholders tokens, ∃ n : Int, i.normal = .int n := by
  rw [← argumentList_of_parse (compile_eq_ok_iff.1 h).1]
  intro i hi
  obtain ⟨k, -, hindex⟩ := argument_in_range h hi
  exact ⟨_, hindex⟩

theorem argumentIndices_of_whole (hparse : parse tokens = .ok tree)
    (hwhole : ∀ i ∈ placeholders tokens, ∃ n : Int, i.normal = .int n) :
    tree.argumentIndices.map Value.normal = ((placeholderSet tokens).sort (· ≤ ·)).map .int := by
  unfold Expr.argumentIndices placeholderSet
  rw [argumentList_of_parse hparse]
  exact Value.ascending_whole hwhole

theorem compile_of_whole (hparse : parse tokens = .ok tree)
    (hwhole : ∀ i ∈ placeholders tokens, ∃ n : Int, i.normal = .int n) :
    compile tokens =
      if placeholderSet tokens = Finset.Icc 1 ((placeholderSet tokens).card : Int) then
        .ok ⟨tree, (placeholderSet tokens).card, sourceOf tokens⟩
      else .error (.raise (.levels nestingLimit)
        (.nonContiguous tree.argumentIndices (sourceOf tokens))) := by
  have hindices := argumentIndices_of_whole hparse hwhole
  have hlength : tree.argumentIndices.length = (placeholderSet tokens).card := by
    simpa using congrArg List.length hindices
  have hnumbers : ∀ i ∈ tree.argumentList, i.unhashable? = none ∧ i.position?.isSome := by
    rw [argumentList_of_parse hparse]
    intro i hi
    obtain ⟨n, hn⟩ := hwhole i hi
    constructor
    · rw [← Value.unhashable?_normal, hn]
      rfl
    · rw [Value.position?_of_whole hn]
      rfl
  rw [compile_of_numbers hparse hnumbers, hlength, hindices]
  simp only [sort_eq_firstIndices_iff]

theorem argumentIndices_of_integers (hparse : parse tokens = .ok tree)
    (hint : ∀ i ∈ placeholders tokens, ∃ n : Int, i = .int n) :
    tree.argumentIndices = ((placeholderSet tokens).sort (· ≤ ·)).map .int := by
  have hself : ∀ i ∈ tree.argumentIndices, i.normal = i := by
    intro i hi
    have hmem := Value.mem_of_mem_ascending hi
    rw [argumentList_of_parse hparse] at hmem
    obtain ⟨n, rfl⟩ := hint i hmem
    rfl
  rw [← argumentIndices_of_whole hparse (whole_of_integers hint), List.map_congr_left hself,
    List.map_id']

/-- Integers out of place are reported, unless one of them is too long to be written. -/
theorem compile_of_integers (hparse : parse tokens = .ok tree)
    (hint : ∀ i ∈ placeholders tokens, ∃ n : Int, i = .int n) :
    compile tokens =
      if placeholderSet tokens = Finset.Icc 1 ((placeholderSet tokens).card : Int) then
        .ok ⟨tree, (placeholderSet tokens).card, sourceOf tokens⟩
      else if ∃ n ∈ placeholderSet tokens, isLong n then .error .longInteger
      else .error (.fault (.nonContiguous (((placeholderSet tokens).sort (· ≤ ·)).map .int)
        (sourceOf tokens))) := by
  rw [compile_of_whole hparse (whole_of_integers hint), argumentIndices_of_integers hparse hint,
    Failure.raise, Fault.unwordable?, Value.unwritableAmong?_integers]
  simp only [Finset.mem_sort]
  by_cases hlong : ∃ n ∈ placeholderSet tokens, isLong n
  · simp only [if_pos hlong, Option.getD_some]
  · simp only [if_neg hlong, Option.getD_none]

/-- What tokens compile to if they do, whatever the values of their placeholders are. -/
theorem compile_eq_ok_iff_placeholders (hparse : parse tokens = .ok tree) (p : Program) :
    compile tokens = .ok p ↔
      (∀ i ∈ placeholders tokens, ∃ n : Int, i.normal = .int n) ∧
      placeholderSet tokens = Finset.Icc 1 ((placeholderSet tokens).card : Int) ∧
      p = ⟨tree, (placeholderSet tokens).card, sourceOf tokens⟩ := by
  constructor
  · intro h
    have hwhole := placeholders_whole h
    rw [compile_of_whole hparse hwhole] at h
    split at h
    next hset =>
      cases h
      exact ⟨hwhole, hset, rfl⟩
    · cases h
  · rintro ⟨hwhole, hset, rfl⟩
    rw [compile_of_whole hparse hwhole]
    exact if_pos hset

/-- The arity of a program is decided by its placeholders alone. A tree has the indices that the
placeholders of its tokens have, in ascending order and each once. Tokens compile exactly if these
are `1, …, n` without a gap, and the arity is then `n`, which counts the distinct placeholders and
is the largest of them; if not, the fault carries the indices, unless one of them is too long to be
written. -/
theorem compile_decided_by_placeholders (hparse : parse tokens = .ok tree) :
    tree.argumentList = placeholders tokens ∧
    (∀ p, compile tokens = .ok p ↔
      (∀ i ∈ placeholders tokens, ∃ n : Int, i.normal = .int n) ∧
      placeholderSet tokens = Finset.Icc 1 ((placeholderSet tokens).card : Int) ∧
      p = ⟨tree, (placeholderSet tokens).card, sourceOf tokens⟩) ∧
    (∀ p, compile tokens = .ok p → placeholderSet tokens = ∅ ∧ p.arity = 0 ∨
      IsGreatest (placeholderSet tokens : Set Int) p.arity) ∧
    ((∀ i ∈ placeholders tokens, ∃ n : Int, i = .int n) →
      (∀ n : Int, n ∈ placeholderSet tokens ↔ .int n ∈ placeholders tokens) ∧
      tree.argumentIndices = ((placeholderSet tokens).sort (· ≤ ·)).map .int ∧
      compile tokens =
        if placeholderSet tokens = Finset.Icc 1 ((placeholderSet tokens).card : Int) then
          .ok ⟨tree, (placeholderSet tokens).card, sourceOf tokens⟩
        else if ∃ n ∈ placeholderSet tokens, isLong n then .error .longInteger
        else
          .error (.fault (.nonContiguous (((placeholderSet tokens).sort (· ≤ ·)).map .int)
            (sourceOf tokens)))) := by
  refine ⟨argumentList_of_parse hparse, compile_eq_ok_iff_placeholders hparse, ?_, ?_⟩
  · intro p h
    obtain ⟨-, hset, rfl⟩ := (compile_eq_ok_iff_placeholders hparse p).1 h
    exact (card_isGreatest hset).imp_left fun hempty => ⟨hempty.1, by simpa using hempty.2⟩
  · intro hint
    exact ⟨mem_placeholderSet_of_integers hint, argumentIndices_of_integers hparse hint,
      compile_of_integers hparse hint⟩

end Compiling

section StandardMachine
attribute [local instance] Machine.standard

/-- With `$2` for the second index of `if $i eq $1 then $i else $1 minus $i`, two arguments; with
`$3`, a gap. -/
theorem compile_decided_by_placeholders_gap :
    let tree (i : Int) : Expr := .cond (.binary .eq (.argument (.int i)) (.argument (.int 1)))
      (.argument (.int i)) (.binary .sub (.argument (.int 1)) (.argument (.int i)))
    let tokens (i : Int) (word : String) : List Token :=
      [⟨.keyword .ifWord, "if"⟩, ⟨.placeholder (.int i), word⟩, ⟨.keyword .eq, "eq"⟩,
        ⟨.placeholder (.int 1), "$1"⟩, ⟨.keyword .thenWord, "then"⟩, ⟨.placeholder (.int i), word⟩,
        ⟨.keyword .elseWord, "else"⟩, ⟨.placeholder (.int 1), "$1"⟩, ⟨.keyword .minus, "minus"⟩,
        ⟨.placeholder (.int i), word⟩]
    let two := tokens 2 "$2"
    let three := tokens 3 "$3"
    parse two = .ok (tree 2) ∧ parse three = .ok (tree 3) ∧
    compile two = .ok ⟨tree 2, 2, sourceOf two⟩ ∧
    IsGreatest (placeholderSet two : Set Int) 2 ∧
    compile three = .error (.fault (.nonContiguous [.int 1, .int 3] (sourceOf three))) := by
  intro tree tokens two three
  have hparse : parse two = .ok (tree 2) := rfl
  have hparse' : parse three = .ok (tree 3) := rfl
  have hint (i : Int) (word : String) :
      ∀ j ∈ placeholders (tokens i word), ∃ n : Int, j = .int n := by
    have hlist : placeholders (tokens i word) = [.int i, .int 1, .int i, .int 1, .int i] := rfl
    rw [hlist]
    simp
  have hset : placeholderSet two = {1, 2} := by decide
  have hgap : placeholderSet three = {1, 3} := by decide
  obtain ⟨-, -, hgreatest, hboth⟩ := compile_decided_by_placeholders hparse
  obtain ⟨-, -, hcompile⟩ := hboth (hint 2 "$2")
  rw [hset, if_pos (by decide)] at hcompile
  obtain ⟨-, hindices, hfault⟩ := (compile_decided_by_placeholders hparse').2.2.2 (hint 3 "$3")
  have hsorted : (tree 3).argumentIndices = [.int 1, .int 3] := by decide +kernel
  rw [← hindices, hgap, if_neg (by decide), if_neg (by decide +kernel), hsorted] at hfault
  refine ⟨hparse, hparse', hcompile, ?_, hfault⟩
  rcases hgreatest _ hcompile with ⟨hempty, -⟩ | hgreatest
  · rw [hset] at hempty
    exact absurd hempty (by decide)
  · exact hgreatest

/-- A single placeholder with a short lexeme and too long an index is read, but its index, which is
not the first one, cannot be reported. -/
theorem long_index_not_reported :
    let tokens : List Token := [⟨.placeholder (.int (Int.pow 10 4300)), "$1"⟩]
    parse tokens = .ok (.argument (.int (Int.pow 10 4300))) ∧
      compile tokens = .error .longInteger := by
  intro tokens
  have hparse : parse tokens = .ok (.argument (.int (Int.pow 10 4300))) := rfl
  have hint : ∀ i ∈ placeholders tokens, ∃ n : Int, i = .int n := by
    have hlist : placeholders tokens = [.int (Int.pow 10 4300)] := rfl
    rw [hlist]
    exact fun i hi => ⟨_, List.mem_singleton.1 hi⟩
  have hset : placeholderSet tokens = {Int.pow 10 4300} := rfl
  refine ⟨hparse, ?_⟩
  rw [compile_of_integers hparse hint, hset, if_neg (by decide +kernel), if_pos (by decide +kernel)]

end StandardMachine

end Program

end CurryCalc
