import CurryCalc.Proofs.ProgramSafety

/-! How deeply a program nests. Reading and evaluating run out of levels only where lets,
conditionals and equalities are within each other; the length of sums does not matter. -/
namespace CurryCalc

namespace Grammar
open CurryCalc.SymbolParser Outcome

/-- The symbols lead so many levels into a phrase of the layer, up to where the next part starts:
the bound expression or the body of a let, a part of a conditional, or the right side of an
equality. -/
inductive LeadsInto : Layer → Nat → List Symbol → Prop
  | start (layer : Layer) : LeadsInto layer 0 []
  | right {k : Keyword} {op : Operator} {left front : List Symbol} {l : Expr} {n : Nat} :
      Comparison k op → Derives .sum left l → LeadsInto .equality n front →
      LeadsInto .equality (n + 1) (left ++ .keyword k :: front)
  | equality {front : List Symbol} {n : Nat} :
      LeadsInto .equality n front → LeadsInto .conditional n front
  | test {front : List Symbol} {n : Nat} : LeadsInto .conditional n front →
      LeadsInto .conditional (n + 1) (.keyword .ifWord :: front)
  | yes {test front : List Symbol} {c : Expr} {n : Nat} :
      Derives .conditional test c → LeadsInto .conditional n front →
      LeadsInto .conditional (n + 1) (.keyword .ifWord :: (test ++ .keyword .thenWord :: front))
  | no {test yes front : List Symbol} {c t : Expr} {n : Nat} :
      Derives .conditional test c → Derives .conditional yes t → LeadsInto .conditional n front →
      LeadsInto .conditional (n + 1) (.keyword .ifWord :: (test ++ .keyword .thenWord ::
        (yes ++ .keyword .elseWord :: front)))
  | conditional {front : List Symbol} {n : Nat} :
      LeadsInto .conditional n front → LeadsInto .binding n front
  | bound (x : Value) {front : List Symbol} {n : Nat} : LeadsInto .binding n front →
      LeadsInto .binding (n + 1) (.keyword .letWord :: .name x :: front)
  | body (x : Value) {bound front : List Symbol} {b : Expr} {n : Nat} :
      Derives .binding bound b → LeadsInto .binding n front →
      LeadsInto .binding (n + 1)
        (.keyword .letWord :: .name x :: (bound ++ .keyword .inWord :: front))

/-- However far the symbols are read, they lead at most `n` levels into a program. -/
def NestsWithin (n : Nat) (input : List Symbol) : Prop :=
  ∀ k front, front <+: input → LeadsInto .binding k front → k ≤ n

section Reading

/-- Where reading runs out of levels, the symbols before lead that many levels deep. -/
theorem equality_leadsInto {n : Nat} {expected : Expected} {input : List Symbol}
    (h : SymbolParser.equality n expected input = .error .tooDeep) :
    ∃ front, front <+: input ∧ LeadsInto .equality n front := by
  fun_induction SymbolParser.equality n expected input with
  | case1 expected input => exact ⟨[], List.nil_prefix, .start _⟩
  | case2 n expected input r hs =>
    cases h
    exact (sum_ne_tooDeep _ _ hs).elim
  | case3 n expected input l k rest hs op hk r hr ih =>
    cases h
    obtain ⟨left, rfl, hl, -⟩ := sum_sound hs
    obtain ⟨front, ⟨back, rfl⟩, hfront⟩ := ih hr
    exact ⟨left ++ .keyword k :: front, ⟨back, by simp⟩,
      .right (comparison_of_eq_some hk) hl hfront⟩
  | case4 => cases h
  | case5 => cases h
  | case6 => cases h

theorem expect_ne_tooDeep (k : Keyword) (expected : Expected) (input : List Symbol) :
    expect k expected input ≠ .error .tooDeep := by
  intro h
  cases (expect_error h).1

theorem conditional_leadsInto {n : Nat} {input : List Symbol}
    (h : SymbolParser.conditional n input = .error .tooDeep) :
    ∃ front, front <+: input ∧ LeadsInto .conditional n front := by
  fun_induction SymbolParser.conditional n input with
  | case1 input => exact ⟨[], List.nil_prefix, .start _⟩
  | case2 n input ihc ih =>
    rcases error_of_bind h with hc | ⟨⟨c, rest1⟩, hc, h1⟩
    · obtain ⟨front, ⟨back, rfl⟩, hfront⟩ := ihc hc
      exact ⟨_, ⟨back, rfl⟩, .test hfront⟩
    obtain ⟨test, rfl, dc, -⟩ := conditional_sound hc
    rcases error_of_bind h1 with hthen | ⟨rest2, hthen, h2⟩
    · exact (expect_ne_tooDeep _ _ _ hthen).elim
    cases expect_ok hthen
    rcases error_of_bind h2 with ht | ⟨⟨t, rest3⟩, ht, h3⟩
    · obtain ⟨front, ⟨back, rfl⟩, hfront⟩ := ih _ ht
      exact ⟨_, ⟨back, by simp⟩, .yes dc hfront⟩
    obtain ⟨yes, rfl, dt, -⟩ := conditional_sound ht
    rcases error_of_bind h3 with helse | ⟨rest4, helse, h4⟩
    · exact (expect_ne_tooDeep _ _ _ helse).elim
    cases expect_ok helse
    rcases error_of_bind h4 with he | ⟨⟨e, rest5⟩, he, h5⟩
    · obtain ⟨front, ⟨back, rfl⟩, hfront⟩ := ih _ he
      exact ⟨_, ⟨back, by simp⟩, .no dc dt hfront⟩
    cases h5
  | case3 n input hne =>
    obtain ⟨front, hprefix, hfront⟩ := equality_leadsInto h
    exact ⟨front, hprefix, .equality hfront⟩

theorem binding_leadsInto {n : Nat} {input : List Symbol}
    (h : SymbolParser.binding n input = .error .tooDeep) :
    ∃ front, front <+: input ∧ LeadsInto .binding n front := by
  fun_induction SymbolParser.binding n input with
  | case1 input => exact ⟨[], List.nil_prefix, .start _⟩
  | case2 n x input ihb ih =>
    rcases error_of_bind h with hb | ⟨⟨b, rest1⟩, hb, h1⟩
    · obtain ⟨front, ⟨back, rfl⟩, hfront⟩ := ihb hb
      exact ⟨_, ⟨back, rfl⟩, .bound x hfront⟩
    obtain ⟨bound, rfl, db, -⟩ := binding_sound hb
    rcases error_of_bind h1 with hin | ⟨rest2, hin, h2⟩
    · exact (expect_ne_tooDeep _ _ _ hin).elim
    cases expect_ok hin
    rcases error_of_bind h2 with he | ⟨⟨e, rest3⟩, he, h3⟩
    · obtain ⟨front, ⟨back, rfl⟩, hfront⟩ := ih _ he
      exact ⟨_, ⟨back, by simp⟩, .body x db hfront⟩
    cases h3
  | case3 => cases h
  | case4 n input hlet hne =>
    obtain ⟨front, hprefix, hfront⟩ := conditional_leadsInto h
    exact ⟨front, hprefix, .conditional hfront⟩

theorem LeadsInto.starts {layer : Layer} {n : Nat} {front : List Symbol}
    (h : LeadsInto layer n front) (hn : n ≠ 0) : ∃ s more, front = s :: more ∧ Starts layer s := by
  induction h with
  | start => exact (hn rfl).elim
  | right _ hl =>
    obtain ⟨s, more, rfl, hs⟩ := hl.starts
    exact ⟨s, _, rfl, hs⟩
  | equality _ ih =>
    obtain ⟨s, more, rfl, hs⟩ := ih hn
    exact ⟨s, more, rfl, .inl hs⟩
  | test => exact ⟨_, _, rfl, .inr rfl⟩
  | yes => exact ⟨_, _, rfl, .inr rfl⟩
  | no => exact ⟨_, _, rfl, .inr rfl⟩
  | conditional _ ih =>
    obtain ⟨s, more, rfl, hs⟩ := ih hn
    exact ⟨s, more, rfl, hs.imp_right .inl⟩
  | bound => exact ⟨_, _, rfl, .inr (.inr rfl)⟩
  | body => exact ⟨_, _, rfl, .inr (.inr rfl)⟩

def RunsOut : Layer → Nat → List Symbol → Prop
  | .equality, n, front =>
    ∀ expected rest, SymbolParser.equality n expected (front ++ rest) = .error .tooDeep
  | .conditional, n, front => ∀ rest, SymbolParser.conditional n (front ++ rest) = .error .tooDeep
  | .binding, n, front => ∀ rest, SymbolParser.binding n (front ++ rest) = .error .tooDeep
  | _, _, _ => True

/-- A part that is read before another one runs out itself, or leaves the other one as it is. -/
theorem within_bind_tooDeep {α : Type} {n : Nat} {e : Expr} {rest : List Symbol}
    {next : Expr × List Symbol → Except (Refusal Symbol) α} (h : next (e, rest) = .error .tooDeep) :
    (within n e rest >>= next) = .error .tooDeep := by
  rw [within_bind]
  split
  · exact h
  · rfl

theorem LeadsInto.runsOut {layer : Layer} {n : Nat} {front : List Symbol}
    (h : LeadsInto layer n front) : RunsOut layer n front := by
  induction h with
  | start layer =>
    cases layer with
    | operand => trivial
    | sum => trivial
    | equality => exact fun _ _ => rfl
    | conditional => exact fun _ => rfl
    | binding => exact fun _ => rfl
  | @right k op left front l n hk hl _ ih =>
    intro expected rest
    rw [List.append_assoc, SymbolParser.equality, hl.reads.2, List.cons_append,
      sumFrom_of_ends (hk.sumEnds _)]
    simp only [hk.eq_some, ih _ rest]
  | @equality front n h ih =>
    intro rest
    cases n with
    | zero => rfl
    | succ n =>
      obtain ⟨s, more, rfl, hs⟩ := h.starts (Nat.succ_ne_zero n)
      rw [conditional_of_head (by rintro ⟨⟩; cases hs)]
      exact ih _ rest
  | @test front n _ ih =>
    intro rest
    rw [List.cons_append, SymbolParser.conditional, ih rest]
    rfl
  | @yes test front c n hc _ ih =>
    intro rest
    have hthen :=
      hc.reads n (.keyword .thenWord :: (front ++ rest)) (phraseEnds_keyword rfl rfl rfl _)
    rw [List.cons_append, List.append_assoc, List.cons_append, SymbolParser.conditional, hthen]
    apply within_bind_tooDeep
    dsimp only
    rw [expect_self, bind_ok, ih rest]
    rfl
  | @no test yes front c t n hc ht _ ih =>
    intro rest
    have hthen := hc.reads n (.keyword .thenWord :: (yes ++ .keyword .elseWord :: (front ++ rest)))
      (phraseEnds_keyword rfl rfl rfl _)
    have helse :=
      ht.reads n (.keyword .elseWord :: (front ++ rest)) (phraseEnds_keyword rfl rfl rfl _)
    rw [List.cons_append, List.append_assoc, List.cons_append, List.append_assoc, List.cons_append,
      SymbolParser.conditional, hthen]
    apply within_bind_tooDeep
    dsimp only
    rw [expect_self, bind_ok, helse]
    apply within_bind_tooDeep
    dsimp only
    rw [expect_self, bind_ok, ih rest]
    rfl
  | @conditional front n h ih =>
    intro rest
    cases n with
    | zero => rfl
    | succ n =>
      obtain ⟨s, more, rfl, hs⟩ := h.starts (Nat.succ_ne_zero n)
      rw [binding_of_head (by rintro ⟨⟩; rcases hs with hs | hs <;> cases hs)]
      exact ih rest
  | @bound x front n _ ih =>
    intro rest
    rw [List.cons_append, List.cons_append, SymbolParser.binding, ih rest]
    rfl
  | @body x bound front b n hb _ ih =>
    intro rest
    have hin := hb.reads n (.keyword .inWord :: (front ++ rest)) (phraseEnds_keyword rfl rfl rfl _)
    rw [List.cons_append, List.cons_append, List.append_assoc, List.cons_append,
      SymbolParser.binding, hin]
    apply within_bind_tooDeep
    dsimp only
    rw [expect_self, bind_ok, ih rest]
    rfl

/-- Reading runs out of levels exactly if the symbols lead that many levels into a program. -/
theorem sentence_tooDeep_iff {n : Nat} {input : List Symbol} :
    sentence n input = .error .tooDeep ↔ ∃ front, front <+: input ∧ LeadsInto .binding n front := by
  have hiff : sentence n input = .error .tooDeep ↔
      SymbolParser.binding n input = .error .tooDeep := by
    unfold sentence
    split
    next r hr => rw [hr, Except.error.injEq, Except.error.injEq]
    next e hr => rw [hr]; exact iff_of_false nofun nofun
    next e rest hne hr => rw [hr]; exact iff_of_false nofun nofun
  rw [hiff]
  constructor
  · exact binding_leadsInto
  · rintro ⟨front, ⟨rest, rfl⟩, h⟩
    exact h.runsOut rest

theorem NestsWithin.sentence_ne {n : Nat} {input : List Symbol} (h : NestsWithin n input) {m : Nat}
    (hm : n < m) : sentence m input ≠ .error .tooDeep := by
  intro hdeep
  obtain ⟨front, hprefix, hfront⟩ := sentence_tooDeep_iff.1 hdeep
  exact absurd (h m front hprefix hfront) (Nat.not_le.2 hm)

/-- The levels that the symbols of a program lead into it are those of its tree. -/
theorem nestsWithin_iff {n : Nat} {input : List Symbol} {e : Expr} (h : Derives .binding input e) :
    NestsWithin n input ↔ e.levels ≤ n + 1 := by
  constructor
  · intro hnests
    have hread := hnests.sentence_ne (Nat.lt_succ_self n)
    rw [sentence_of_derives h] at hread
    exact Decidable.byContradiction fun hlevels => hread (if_neg hlevels)
  · intro hlevels k front hprefix hfront
    have hread := sentence_tooDeep_iff.2 ⟨front, hprefix, hfront⟩
    rw [sentence_of_derives h] at hread
    split at hread
    · cases hread
    · omega

end Reading

/-- The second symbols are the first ones with links of sums put in anywhere: a plus or a minus, and
an operand after it. -/
inductive Lengthens : List Symbol → List Symbol → Prop
  | nil : Lengthens [] []
  | keep (s : Symbol) {short long : List Symbol} :
      Lengthens short long → Lengthens (s :: short) (s :: long)
  | link {k : Keyword} {op : Operator} {s : Symbol} {r : Expr} {short long : List Symbol} :
      Additive k op → Derives .operand [s] r → Lengthens short long →
      Lengthens short (.keyword k :: s :: long)

section Links

variable {short long front back : List Symbol}

/-- A link does not go beyond a reserved word. -/
theorem Lengthens.split {k : Keyword} (h : Lengthens short (front ++ .keyword k :: back)) :
    ∃ front' back', short = front' ++ back' ∧ Lengthens front' front ∧
      Lengthens back' (.keyword k :: back) := by
  generalize hlong : front ++ .keyword k :: back = long at h
  induction h generalizing front with
  | nil => simp at hlong
  | @keep s short long h ih =>
    cases front with
    | nil =>
      cases hlong
      exact ⟨[], _, rfl, .nil, .keep _ h⟩
    | cons s' front =>
      cases hlong
      obtain ⟨front', back', rfl, hfront, hback⟩ := ih rfl
      exact ⟨s :: front', back', rfl, .keep s hfront, hback⟩
  | @link k' op s r short long hk hs h ih =>
    cases front with
    | nil =>
      cases hlong
      exact ⟨[], short, rfl, .nil, .link hk hs h⟩
    | cons s' front =>
      cases front with
      | nil =>
        cases hlong
        cases hs
      | cons s'' front =>
        cases hlong
        obtain ⟨front', back', rfl, hfront, hback⟩ := ih rfl
        exact ⟨front', back', rfl, .link hk hs hfront, hback⟩

theorem Lengthens.of_keyword {k : Keyword} (hk : additive? k = none)
    (h : Lengthens short (.keyword k :: back)) :
    ∃ back', short = .keyword k :: back' ∧ Lengthens back' back := by
  cases h with
  | keep _ h => exact ⟨_, rfl, h⟩
  | link hadditive =>
    rw [hadditive.eq_some] at hk
    cases hk

theorem Lengthens.split_at {k : Keyword} (hk : additive? k = none)
    (h : Lengthens short (front ++ .keyword k :: back)) :
    ∃ front' back', short = front' ++ .keyword k :: back' ∧ Lengthens front' front ∧
      Lengthens back' back := by
  obtain ⟨front', rest, rfl, hfront, hrest⟩ := h.split
  obtain ⟨back', rfl, hback⟩ := hrest.of_keyword hk
  exact ⟨front', back', rfl, hfront, hback⟩

theorem Lengthens.of_operand {s : Symbol} {r : Expr} (hs : Derives .operand [s] r)
    (h : Lengthens short (s :: back)) : ∃ back', short = s :: back' ∧ Lengthens back' back := by
  cases h with
  | keep _ h => exact ⟨_, rfl, h⟩
  | link => cases hs

theorem Lengthens.eq_nil (h : Lengthens short []) : short = [] := by
  cases h
  rfl

theorem Lengthens.eq_operand {s : Symbol} {r : Expr} (hs : Derives .operand [s] r)
    (h : Lengthens short [s]) : short = [s] := by
  obtain ⟨back, rfl, hback⟩ := h.of_operand hs
  rw [hback.eq_nil]

theorem Comparison.additive?_eq_none {k : Keyword} {op : Operator} (h : Comparison k op) :
    additive? k = none := by
  cases h <;> rfl

theorem Derives.of_lengthens {layer : Layer} {e : Expr} (h : Derives layer long e)
    (hlong : Lengthens short long) : ∃ e', Derives layer short e' ∧ e'.levels = e.levels := by
  induction h generalizing short with
  | number v =>
    rw [hlong.eq_operand (.number v)]
    exact ⟨_, .number v, rfl⟩
  | placeholder i =>
    rw [hlong.eq_operand (.placeholder i)]
    exact ⟨_, .placeholder i, rfl⟩
  | name x =>
    rw [hlong.eq_operand (.name x)]
    exact ⟨_, .name x, rfl⟩
  | operand _ ih =>
    obtain ⟨e', he, hlevels⟩ := ih hlong
    exact ⟨e', .operand he, hlevels⟩
  | @additive k op front back l r hk hl hr ihl ihr =>
    have hone (l r : Expr) : (Expr.binary op l r).levels = 1 := by cases hk <;> rfl
    obtain ⟨front', rest, rfl, hfront, hrest⟩ := hlong.split
    obtain ⟨l', hl', -⟩ := ihl hfront
    cases hrest with
    | keep _ hback =>
      obtain ⟨r', hr', -⟩ := ihr hback
      exact ⟨_, .additive hk hl' hr', by rw [hone, hone]⟩
    | link _ _ hback =>
      obtain ⟨s, hs, -⟩ := hr.reads
      cases hs
      cases hback.eq_nil
      exact ⟨l', by simpa using hl', by rw [hone, hl'.reads.1]⟩
  | sum _ ih =>
    obtain ⟨e', he, hlevels⟩ := ih hlong
    exact ⟨e', .sum he, hlevels⟩
  | @comparison k op front back l r hk _ _ ihl ihr =>
    have hstep (l r : Expr) : (Expr.binary op l r).levels = r.levels + 1 := by cases hk <;> rfl
    obtain ⟨front', back', rfl, hfront, hback⟩ := hlong.split_at hk.additive?_eq_none
    obtain ⟨l', hl, -⟩ := ihl hfront
    obtain ⟨r', hr, hlevels⟩ := ihr hback
    exact ⟨_, .comparison hk hl hr, by rw [hstep, hstep, hlevels]⟩
  | equality _ ih =>
    obtain ⟨e', he, hlevels⟩ := ih hlong
    exact ⟨e', .equality he, hlevels⟩
  | cond _ _ _ ihc iht ihe =>
    obtain ⟨parts, rfl, hparts⟩ := hlong.of_keyword rfl
    obtain ⟨test, rest, rfl, htest, hrest⟩ := hparts.split_at rfl
    obtain ⟨yes, no, rfl, hyes, hno⟩ := hrest.split_at rfl
    obtain ⟨c', hc, hlevelsc⟩ := ihc htest
    obtain ⟨t', ht, hlevelst⟩ := iht hyes
    obtain ⟨e', he, hlevelse⟩ := ihe hno
    exact ⟨_, .cond hc ht he, by simp only [Expr.levels, hlevelsc, hlevelst, hlevelse]⟩
  | conditional _ ih =>
    obtain ⟨e', he, hlevels⟩ := ih hlong
    exact ⟨e', .conditional he, hlevels⟩
  | @letIn x _ _ _ _ _ _ ihb ihe =>
    obtain ⟨rest, rfl, hrest⟩ := hlong.of_keyword rfl
    obtain ⟨parts, rfl, hparts⟩ := hrest.of_operand (.name x)
    obtain ⟨bound, body, rfl, hbound, hbody⟩ := hparts.split_at rfl
    obtain ⟨b', hb, hlevelsb⟩ := ihb hbound
    obtain ⟨e', he, hlevelse⟩ := ihe hbody
    exact ⟨_, .letIn hb he, by simp only [Expr.levels, hlevelsb, hlevelse]⟩

theorem LeadsInto.of_lengthens {layer : Layer} {n : Nat} (h : LeadsInto layer n front)
    (rest : List Symbol) (hlong : Lengthens short (front ++ rest)) :
    ∃ front', front' <+: short ∧ LeadsInto layer n front' := by
  induction h generalizing short with
  | start layer => exact ⟨[], List.nil_prefix, .start layer⟩
  | right hk hl _ ih =>
    simp only [List.append_assoc, List.cons_append] at hlong
    obtain ⟨left, back, rfl, hleft, hback⟩ := hlong.split_at hk.additive?_eq_none
    obtain ⟨l', hl', -⟩ := hl.of_lengthens hleft
    obtain ⟨front', ⟨tail, rfl⟩, hfront⟩ := ih hback
    exact ⟨_, ⟨tail, by simp⟩, .right hk hl' hfront⟩
  | equality _ ih =>
    obtain ⟨front', hprefix, hfront⟩ := ih hlong
    exact ⟨front', hprefix, .equality hfront⟩
  | test _ ih =>
    obtain ⟨parts, rfl, hparts⟩ := hlong.of_keyword rfl
    obtain ⟨front', ⟨tail, rfl⟩, hfront⟩ := ih hparts
    exact ⟨_, ⟨tail, rfl⟩, .test hfront⟩
  | yes hc _ ih =>
    simp only [List.append_assoc, List.cons_append] at hlong
    obtain ⟨parts, rfl, hparts⟩ := hlong.of_keyword rfl
    obtain ⟨test, back, rfl, htest, hback⟩ := hparts.split_at rfl
    obtain ⟨c', hc', -⟩ := hc.of_lengthens htest
    obtain ⟨front', ⟨tail, rfl⟩, hfront⟩ := ih hback
    exact ⟨_, ⟨tail, by simp⟩, .yes hc' hfront⟩
  | no hc ht _ ih =>
    simp only [List.append_assoc, List.cons_append] at hlong
    obtain ⟨parts, rfl, hparts⟩ := hlong.of_keyword rfl
    obtain ⟨test, rest', rfl, htest, hrest⟩ := hparts.split_at rfl
    obtain ⟨yes, back, rfl, hyes, hback⟩ := hrest.split_at rfl
    obtain ⟨c', hc', -⟩ := hc.of_lengthens htest
    obtain ⟨t', ht', -⟩ := ht.of_lengthens hyes
    obtain ⟨front', ⟨tail, rfl⟩, hfront⟩ := ih hback
    exact ⟨_, ⟨tail, by simp⟩, .no hc' ht' hfront⟩
  | conditional _ ih =>
    obtain ⟨front', hprefix, hfront⟩ := ih hlong
    exact ⟨front', hprefix, .conditional hfront⟩
  | bound x _ ih =>
    obtain ⟨rest', rfl, hrest⟩ := hlong.of_keyword rfl
    obtain ⟨parts, rfl, hparts⟩ := hrest.of_operand (.name x)
    obtain ⟨front', ⟨tail, rfl⟩, hfront⟩ := ih hparts
    exact ⟨_, ⟨tail, rfl⟩, .bound x hfront⟩
  | body x hb _ ih =>
    simp only [List.append_assoc, List.cons_append] at hlong
    obtain ⟨rest', rfl, hrest⟩ := hlong.of_keyword rfl
    obtain ⟨parts, rfl, hparts⟩ := hrest.of_operand (.name x)
    obtain ⟨bound, back, rfl, hbound, hback⟩ := hparts.split_at rfl
    obtain ⟨b', hb', -⟩ := hb.of_lengthens hbound
    obtain ⟨front', ⟨tail, rfl⟩, hfront⟩ := ih hback
    exact ⟨_, ⟨tail, by simp⟩, .body x hb' hfront⟩

theorem NestsWithin.lengthen {n : Nat} (h : NestsWithin n short) (hlong : Lengthens short long) :
    NestsWithin n long := by
  rintro k front ⟨rest, rfl⟩ hfront
  obtain ⟨front', hprefix, hfront'⟩ := hfront.of_lengthens rest hlong
  exact h k front' hprefix hfront'

end Links

section Trees

theorem Derives.depth_operand {input : List Symbol} {e : Expr} (h : Derives .operand input e) :
    e.depth = 1 ∧ e.isChain = false := by
  cases h <;> exact ⟨rfl, rfl⟩

theorem Additive.isAdditive {k : Keyword} {op : Operator} (h : Additive k op) :
    op.isAdditive = true := by
  cases h <;> rfl

/-- A sum of any length takes two levels to evaluate, and a single term one. -/
theorem Derives.depth_sum {input : List Symbol} {e : Expr} (h : Derives .sum input e) :
    e.depth = if e.isChain then 2 else 1 := by
  generalize hlayer : Layer.sum = layer at h
  induction h with
  | operand h =>
    obtain ⟨hdepth, hchain⟩ := h.depth_operand
    rw [hdepth, hchain]
    rfl
  | @additive k op front back l r hk _ hr ih _ =>
    have hl := ih rfl
    have hchain : (Expr.binary op l r).isChain = true := hk.isAdditive
    rw [hchain, Expr.depth, hr.depth_operand.1, hk.isAdditive]
    cases hlast : l.isChain <;> simp [hl, hlast]
  | _ => cases hlayer

/-- Evaluating a phrase takes at most one level more than reading it. -/
theorem Derives.depth_le {layer : Layer} {input : List Symbol} {e : Expr}
    (h : Derives layer input e) : e.depth ≤ e.levels + 1 := by
  induction h with
  | number => exact Nat.le_succ 1
  | placeholder => exact Nat.le_succ 1
  | name => exact Nat.le_succ 1
  | operand _ ih => exact ih
  | @additive k op front back l r hk hl hr =>
    have hone : (Expr.binary op l r).levels = 1 := by cases hk <;> rfl
    rw [(Derives.additive hk hl hr).depth_sum, hone]
    split <;> omega
  | sum _ ih => exact ih
  | @comparison k op front back l r hk hl _ _ ihr =>
    have hlevels : (Expr.binary op l r).levels = r.levels + 1 := by cases hk <;> rfl
    have hdepth : (Expr.binary op l r).depth = max l.depth r.depth + 1 := by cases hk <;> rfl
    have hleft : l.depth ≤ 2 := by
      rw [hl.depth_sum]
      split <;> omega
    have hright := levels_pos r
    omega
  | equality _ ih => exact ih
  | cond _ _ _ ihc iht ihe =>
    simp only [Expr.depth, Expr.levels]
    omega
  | conditional _ ih => exact ih
  | letIn _ _ ihb ihe =>
    simp only [Expr.depth, Expr.levels]
    omega

end Trees

end Grammar

def Value.boxed : Nat → Value
  | 0 => .nothing
  | n + 1 => .token .number (boxed n) ""

theorem Value.alikeWithin_boxed {m n : Nat} (h : n < 3 * m) :
    (boxed m).alikeWithin (.levels n) (boxed m) = none := by
  induction m generalizing n with
  | zero => omega
  | succ m ih =>
    rw [boxed, alikeWithin, if_pos rfl, Room.enter]
    split
    · exact ih (by omega)
    · rfl

/-- Going through the nodes of a tree takes one level, and fails only for what the nodes are. -/
theorem Expr.uncollectable?_ne (n : Nat) (e : Expr) {f : Failure}
    (hwords : ∀ kind missing, f ≠ .noWordsOn kind missing) (hkind : ∀ kind, f ≠ .unhashable kind) :
    e.uncollectable? (n + 1) ≠ some f := by
  intro h
  unfold uncollectable? at h
  rw [walkWithin_succ] at h
  split at h
  · exact hwords _ _ (Option.some.inj h).symm
  next hwalk => cases hwalk
  next hwalk =>
    obtain ⟨node, -, hnode⟩ := List.exists_of_findSome?_eq_some h
    cases node with
    | foreign v => exact hwords _ _ (Option.some.inj hnode).symm
    | argument i =>
      obtain ⟨kind, -, hf⟩ := Option.map_eq_some_iff.1 hnode
      exact hkind kind hf.symm
    | _ => cases hnode

namespace Program
open Grammar

section Levels

variable [Machine] {tokens : List Token} {p : Program}

theorem compile_nestedTooDeeply {stage : String} {source : Value}
    (h : compile tokens = .error (.fault (.nestedTooDeeply stage source))) :
    SymbolParser.sentence nestingLimit (tokens.map Token.symbol) = .error .tooDeep := by
  rcases parse_cases tokens with
    ⟨f, hf, -⟩ | ⟨-, ⟨e, -, hparse⟩ | ⟨hread, -⟩ | ⟨expected, rest, -, hparse⟩⟩
  · rw [compile_of_unspellable hf] at h
    rcases Value.unspellable?_cases hf with rfl | rfl <;> cases h
  · obtain ⟨n, hn⟩ := Nat.exists_eq_add_one.2 (nestingLimit_pos hparse)
    unfold compile at h
    rw [hparse] at h
    dsimp only at h
    split at h
    next f hf =>
      cases h
      rw [hn] at hf
      exact (Expr.uncollectable?_ne n e (by simp) (by simp) hf).elim
    · split at h
      · cases h
      · unfold misnumbered at h
        split at h
        · cases h
        · simp only [Failure.raise, Fault.unwordable?] at h
          cases hindices : Value.unwritableAmong? (.levels nestingLimit) e.argumentIndices with
          | none => simp [hindices] at h
          | some f =>
            simp only [hindices, Option.getD_some, Except.error.injEq] at h
            exact (Value.unwritableAmong?_ne_fault _ _ _ (h ▸ hindices)).elim
  · exact hread
  · unfold compile at h
    rw [hparse] at h
    cases h

theorem run_ne_nestedTooDeeply (h : compile tokens = .ok p) {args : List Value}
    (hn : (args.length : Int) = p.arity) {d : Nat} (hshallow : p.tree.Shallow d Bindings.empty args)
    (hdepth : p.tree.depth + d ≤ nestingLimit) (stage : String) (source : Value) :
    p.run args ≠ .error (.fault (.nestedTooDeeply stage source)) := by
  have hmeaning := meaning_ends_of_compile h hn
  intro hrun
  unfold run at hrun
  rw [(Expr.evaluate_grants hshallow).eq_of_le hdepth] at hrun
  split at hrun
  next hdeep => exact (Expr.meaning_ne_tooDeep _ _ _ hdeep).elim
  rw [hrun] at hmeaning
  generalize hf : Failure.fault (.nestedTooDeeply stage source) = f at hmeaning
  cases hmeaning with
  | unbound x => cases Failure.cause_of_about hf.symm
  | _ => cases hf

/-- Tokens whose lets, conditionals and equalities are at most `n` levels within each other are
never refused for their nesting by a machine that has as many levels and two more. Nor is the
program that they compile to, on all its arguments, if there are levels left for its values. Reading
takes one level more than the tokens nest, evaluating one more for the terms of sums, and going
through the nodes of any tree for its argument indices one in all. How long the sums are does not
matter, since links put into sums anywhere leave the levels as they are. -/
theorem compile_run_of_nestsWithin {n d : Nat} (hlimit : n + 2 + d ≤ nestingLimit)
    {tokens : List Token} (h : NestsWithin n (tokens.map Token.symbol)) :
    (∀ stage source, compile tokens ≠ .error (.fault (.nestedTooDeeply stage source))) ∧
    (∀ p, compile tokens = .ok p → ∀ args : List Value, (args.length : Int) = p.arity →
      p.tree.Shallow d Bindings.empty args →
      ∀ stage source, p.run args ≠ .error (.fault (.nestedTooDeeply stage source))) ∧
    Parser.sentence (n + 1) tokens ≠ .error .tooDeep ∧
    (∀ e, Spells tokens e → e.levels ≤ n + 1 ∧ ∀ scope args, e.Shallow d scope args →
      e.evaluate (n + 2 + d) scope args ≠ .error .tooDeep) ∧
    (∀ e : Expr, Expr.walkWithin 1 [e] = .ok e.walk ∧ e.uncollectable? 1 ≠ some .tooDeep) ∧
    ∀ longer : List Token, Lengthens (tokens.map Token.symbol) (longer.map Token.symbol) →
      NestsWithin n (longer.map Token.symbol) ∧
      ∀ e, Spells longer e → ∃ e', Spells tokens e' ∧ e'.levels = e.levels := by
  have hdepth {e : Expr} (he : Spells tokens e) : e.levels ≤ n + 1 ∧ e.depth ≤ n + 2 := by
    have hlevels := (nestsWithin_iff he).1 h
    exact ⟨hlevels, Nat.le_trans he.depth_le (Nat.succ_le_succ hlevels)⟩
  refine ⟨fun stage source hcompile => ?_, fun p hcompile args hargs hshallow stage source => ?_,
    fun hread => ?_, fun e he => ⟨(hdepth he).1, fun scope args hshallow => ?_⟩,
    fun e => ⟨Expr.walkWithin_succ 0 [e], e.uncollectable?_ne 0 nofun nofun⟩,
    fun longer hlonger => ⟨h.lengthen hlonger, fun e he => he.of_lengthens hlonger⟩⟩
  · exact h.sentence_ne (by omega) (compile_nestedTooDeeply hcompile)
  · have htree := (hdepth (parse_sound (compile_eq_ok_iff.1 hcompile).1).2.2).2
    exact run_ne_nestedTooDeeply hcompile hargs hshallow (by omega) stage source
  · have hlockstep := Lockstep.sentence (n + 1) tokens
    rw [hread] at hlockstep
    generalize hsymbols :
      SymbolParser.sentence (n + 1) (tokens.map Token.symbol) = read at hlockstep
    cases hlockstep
    exact h.sentence_ne (Nat.lt_succ_self n) hsymbols
  · rw [(Expr.evaluate_grants hshallow).eq_of_le (Nat.add_le_add_right (hdepth he).2 d)]
    exact Expr.meaning_ne_tooDeep e scope args

end Levels

section StandardMachine

attribute [local instance] Machine.standard

/-- The program `if $1 eq 2 then 3 else $1`, which nests two levels, and with any number of links
`minus $1` after it. -/
theorem compile_run_of_nestsWithin_long_sum :
    let program : List Token := [⟨.keyword .ifWord, "if"⟩, ⟨.placeholder (.int 1), "$1"⟩,
      ⟨.keyword .eq, "eq"⟩, ⟨.number (.int 2), "2"⟩, ⟨.keyword .thenWord, "then"⟩,
      ⟨.number (.int 3), "3"⟩, ⟨.keyword .elseWord, "else"⟩, ⟨.placeholder (.int 1), "$1"⟩]
    let links (m : Nat) : List Token :=
      (List.replicate m [⟨.keyword .minus, "minus"⟩, ⟨.placeholder (.int 1), "$1"⟩]).flatten
    NestsWithin 2 (program.map Token.symbol) ∧ ¬ NestsWithin 1 (program.map Token.symbol) ∧
    ∀ m, (∀ stage source, compile (program ++ links m) ≠
        .error (.fault (.nestedTooDeeply stage source))) ∧
      ∀ p, compile (program ++ links m) = .ok p →
        ∀ args : List Value, (args.length : Int) = p.arity →
        p.tree.Shallow 896 Bindings.empty args →
        ∀ stage source, p.run args ≠ .error (.fault (.nestedTooDeeply stage source)) := by
  intro program links
  have hspells : Spells program (.cond (.binary .eq (.argument (.int 1)) (.number (.int 2)))
      (.number (.int 3)) (.argument (.int 1))) := (parse_sound rfl).2.2
  have hnests : NestsWithin 2 (program.map Token.symbol) := (nestsWithin_iff hspells).2 (by decide)
  have hlimit : 2 + 2 + 896 ≤ nestingLimit := by decide
  refine ⟨hnests, fun hless => ?_, fun m => ?_⟩
  · exact absurd ((nestsWithin_iff hspells).1 hless) (by decide)
  · have hlinks : Lengthens [] ((links m).map Token.symbol) := by
      induction m with
      | zero => exact .nil
      | succ m ih => exact .link .minus (.placeholder (.int 1)) ih
    have hlonger :
        Lengthens (program.map Token.symbol) ((program ++ links m).map Token.symbol) := by
      rw [List.map_append]
      exact .keep _ (.keep _ (.keep _ (.keep _ (.keep _ (.keep _ (.keep _ (.keep _ hlinks)))))))
    obtain ⟨-, -, -, -, -, hlengthen⟩ := compile_run_of_nestsWithin hlimit hnests
    obtain ⟨hcompile, hrun, -⟩ := compile_run_of_nestsWithin hlimit (hlengthen _ hlonger).1
    exact ⟨hcompile, hrun⟩

/-- The program `$1 eq $2`, which nests one level, on two equal values that are within many tokens:
the levels run out where the values are compared. -/
theorem equal_boxes_nestedTooDeeply :
    let tokens : List Token :=
      [⟨.placeholder (.int 1), "$1"⟩, ⟨.keyword .eq, "eq"⟩, ⟨.placeholder (.int 2), "$2"⟩]
    NestsWithin 1 (tokens.map Token.symbol) ∧ ∃ p, compile tokens = .ok p ∧ p.arity = 2 ∧
      ∀ m, 300 ≤ m → p.run [.boxed m, .boxed m] =
        .error (.fault (.nestedTooDeeply "evaluate" "$1 eq $2")) := by
  intro tokens
  have hspells : Spells tokens (.binary .eq (.argument (.int 1)) (.argument (.int 2))) :=
    (parse_sound rfl).2.2
  have hcompile : compile tokens =
      .ok ⟨.binary .eq (.argument (.int 1)) (.argument (.int 2)), 2, "$1 eq $2"⟩ :=
    Outcome.eq_ok_of_toOption (by decide +kernel)
  refine ⟨(nestsWithin_iff hspells).2 (by decide), _, hcompile, rfl, fun m hm => ?_⟩
  have hcompare : (Value.boxed m).equalsWithin (.levels 899) (.boxed m) = none := by
    cases m with
    | zero => omega
    | succ m => exact Value.alikeWithin_boxed (by omega)
  have hvalue : Expr.evaluate 900 (.binary .eq (.argument (.int 1)) (.argument (.int 2)))
      Bindings.empty [.boxed m, .boxed m] = .error .tooDeep :=
    congrArg (Option.elim · _ _) hcompare
  simp only [run, nestingLimit, hvalue]

end StandardMachine

end Program

end CurryCalc
