import CurryCalc.Proofs.RoundTrip
import CurryCalc.Proofs.Traversal

/-! The order of a walk. A loop that keeps its stack with the next node last ends after as many
steps as the tree has nodes, and has then visited what recursion lists; so each place of the tree is
visited once and after the places above it, and the leaves of a tree come as the operands that it
was read from. -/
namespace CurryCalc

namespace Expr

theorem length_walkFrom (stack : List Expr) : (walkFrom stack).length = totalSize stack := by
  fun_induction walkFrom stack with
  | case1 => rfl
  | case2 e stack ih =>
    rw [List.length_cons, ih, totalSize_append, totalSize, size_eq_children]
    omega

theorem length_walk (e : Expr) : e.walk.length = e.size := length_walkFrom [e]

end Expr

/-- A walk under way: the nodes visited so far, and the stack of those put aside, the next one
last. -/
structure Walk where
  visited : List Expr
  stack : List Expr
deriving DecidableEq, Repr

namespace Walk
open CurryCalc.Expr

def start (e : Expr) : Walk := ⟨[], [e]⟩

/-- Takes the last node off the stack and visits it. Its children go on the stack in reverse, so
that the first of them is next. -/
def next? (w : Walk) : Option Walk :=
  w.stack.getLast?.map fun e => ⟨w.visited ++ [e], w.stack.dropLast ++ e.children.reverse⟩

def after (w : Walk) : Nat → Option Walk
  | 0 => some w
  | n + 1 => (w.after n).bind next?

def outcome (w : Walk) : List Expr := w.visited ++ walkFrom w.stack.reverse

theorem next?_eq_some_iff {w later : Walk} : w.next? = some later ↔ ∃ e front,
    w.stack = front ++ [e] ∧ later = ⟨w.visited ++ [e], front ++ e.children.reverse⟩ := by
  obtain ⟨visited, stack⟩ := w
  rcases List.eq_nil_or_concat stack with rfl | ⟨front, e, rfl⟩
  · simp [next?]
  · constructor
    · intro h
      exact ⟨e, front, List.concat_eq_append, by simpa [next?] using h.symm⟩
    · rintro ⟨e', front', hstack, rfl⟩
      obtain ⟨rfl, rfl⟩ : front = front' ∧ e = e' := by simpa using hstack
      simp [next?]

theorem next?_eq_none_iff {w : Walk} : w.next? = none ↔ w.stack = [] := by
  simp [next?]

theorem outcome_of_next? {w later : Walk} (h : w.next? = some later) :
    later.outcome = w.outcome ∧ later.visited.length = w.visited.length + 1 := by
  obtain ⟨e, front, hstack, rfl⟩ := next?_eq_some_iff.1 h
  -- read from its end, the stack is the one that `walkFrom` keeps
  have hwalk : walkFrom w.stack.reverse = e :: walkFrom (e.children ++ front.reverse) := by
    rw [hstack, List.reverse_concat, walkFrom]
  constructor
  · rw [outcome, outcome, hwalk, List.reverse_append, List.reverse_reverse, List.append_assoc]
    rfl
  · simp

theorem outcome_of_after {w later : Walk} {n : Nat} (h : w.after n = some later) :
    later.outcome = w.outcome ∧ later.visited.length = w.visited.length + n := by
  induction n generalizing later with
  | zero =>
    cases h
    exact ⟨rfl, rfl⟩
  | succ n ih =>
    obtain ⟨middle, hmiddle, hlast⟩ := Option.bind_eq_some_iff.1 h
    obtain ⟨houtcome, hlength⟩ := ih hmiddle
    obtain ⟨houtcome', hlength'⟩ := outcome_of_next? hlast
    exact ⟨houtcome'.trans houtcome, by omega⟩

theorem stack_ne_nil_of_length_lt {w : Walk} (h : w.visited.length < w.outcome.length) :
    w.stack ≠ [] := by
  intro hstack
  simp [outcome, hstack, walkFrom] at h

theorem after_isSome_iff {w : Walk} {n : Nat} :
    (w.after n).isSome ↔ w.visited.length + n ≤ w.outcome.length := by
  constructor
  · intro h
    obtain ⟨later, hlater⟩ := Option.isSome_iff_exists.1 h
    obtain ⟨houtcome, hlength⟩ := outcome_of_after hlater
    rw [← houtcome, ← hlength, outcome, List.length_append]
    omega
  · intro h
    induction n with
    | zero => rfl
    | succ n ih =>
      obtain ⟨middle, hmiddle⟩ := Option.isSome_iff_exists.1 (ih (by omega))
      obtain ⟨houtcome, hlength⟩ := outcome_of_after hmiddle
      have hstack : middle.stack ≠ [] :=
        stack_ne_nil_of_length_lt (by rw [houtcome, hlength]; omega)
      rw [after, hmiddle, Option.bind_some]
      exact Option.isSome_iff_ne_none.2 (mt next?_eq_none_iff.1 hstack)

/-- A walk visits the nodes of its tree one by one and ends when it has visited all of them. -/
theorem visited_after_start (e : Expr) (n : Nat) :
    ((start e).after n).map visited = if n ≤ e.size then some (e.walk.take n) else none := by
  have houtcome : (start e).outcome = e.walk := rfl
  have hsome : ((start e).after n).isSome ↔ n ≤ e.size := by
    rw [after_isSome_iff, houtcome, length_walk, start, List.length_nil, Nat.zero_add]
  split
  next hn =>
    obtain ⟨later, hlater⟩ := Option.isSome_iff_exists.1 (hsome.2 hn)
    obtain ⟨hsame, hlength⟩ := outcome_of_after hlater
    have hvisited : later.visited.length = n := by simpa [start] using hlength
    rw [hlater, Option.map_some, ← houtcome, ← hsame, outcome, List.take_left' hvisited]
  next hn =>
    rw [Option.not_isSome_iff_eq_none.1 (mt hsome.1 hn)]
    rfl

/-- After as many steps as there are nodes, all of them have been visited and nothing is left to
do. -/
theorem after_size (e : Expr) : (start e).after e.size = some ⟨e.walk, []⟩ := by
  have hvisited := visited_after_start e e.size
  rw [if_pos (Nat.le_refl _), ← length_walk, List.take_length] at hvisited
  obtain ⟨⟨visited, stack⟩, hlast, rfl⟩ := Option.map_eq_some_iff.1 hvisited
  rw [length_walk] at hlast
  have hstop := visited_after_start e (e.size + 1)
  rw [if_neg (by omega), after, hlast, Option.bind_some, Option.map_eq_none_iff] at hstop
  have hstack : stack = [] := next?_eq_none_iff.1 hstop
  rw [hlast, hstack]

end Walk

namespace Expr

/-- The node at an address, which has the number of a child for each level down. -/
def node? : Expr → List Nat → Option Expr
  | e, [] => some e
  | e, i :: address => e.children[i]?.bind fun c => c.node? address

/-- Addresses within children, the first of which has the number `i`, as addresses in the parent. -/
def beneath : Nat → List (List (List Nat)) → List (List Nat)
  | _, [] => []
  | i, addresses :: more => addresses.map (i :: ·) ++ beneath (i + 1) more

/-- The addresses of all nodes in the order of a walk. -/
def addresses : Expr → List (List Nat)
  | .binary _ l r => [] :: beneath 0 [l.addresses, r.addresses]
  | .letIn _ b e => [] :: beneath 0 [b.addresses, e.addresses]
  | .cond c t e => [] :: beneath 0 [c.addresses, t.addresses, e.addresses]
  | _ => [[]]

theorem addresses_eq (e : Expr) : e.addresses = [] :: beneath 0 (e.children.map addresses) := by
  cases e <;> rfl

theorem mem_beneath {i : Nat} {lists : List (List (List Nat))} {address : List Nat} :
    address ∈ beneath i lists ↔
      ∃ j list rest, lists[j]? = some list ∧ rest ∈ list ∧ address = (i + j) :: rest := by
  induction lists generalizing i with
  | nil => simp [beneath]
  | cons list lists ih =>
    rw [beneath, List.mem_append, List.mem_map, ih]
    constructor
    · rintro (⟨rest, hrest, rfl⟩ | ⟨j, list', rest, hj, hrest, rfl⟩)
      · exact ⟨0, list, rest, rfl, hrest, rfl⟩
      · exact ⟨j + 1, list', rest, hj, hrest, by rw [Nat.add_assoc, Nat.add_comm 1 j]⟩
    · rintro ⟨j, list', rest, hj, hrest, rfl⟩
      cases j with
      | zero =>
        cases hj
        exact .inl ⟨rest, hrest, rfl⟩
      | succ j => exact .inr ⟨j, list', rest, hj, hrest, by rw [Nat.add_assoc, Nat.add_comm 1 j]⟩

theorem mem_addresses {e : Expr} {address : List Nat} :
    address ∈ e.addresses ↔ (e.node? address).isSome := by
  induction address generalizing e with
  | nil => simp [addresses_eq, node?]
  | cons i rest ih =>
    rw [addresses_eq, node?, List.mem_cons, mem_beneath]
    simp only [List.getElem?_map, Nat.zero_add, List.cons.injEq, reduceCtorEq, false_or]
    cases hchild : e.children[i]? with
    | none =>
      constructor
      · rintro ⟨j, list, _, hj, -, rfl, rfl⟩
        simp [hchild] at hj
      · intro h
        cases h
    | some c =>
      rw [Option.bind_some, ← ih]
      constructor
      · rintro ⟨j, list, _, hj, hrest, rfl, rfl⟩
        simp only [hchild, Option.map_some, Option.some.injEq] at hj
        rwa [hj]
      · intro h
        exact ⟨i, c.addresses, rest, by rw [hchild]; rfl, h, rfl, rfl⟩

/-- If the addresses within each child lead to the nodes of its walk in order, then so do those
below the parent. -/
theorem map_node?_beneath (e : Expr) {i : Nat} {children : List Expr}
    (hchildren : ∀ j c, children[j]? = some c → e.children[i + j]? = some c)
    (hnodes : ∀ c ∈ children, c.addresses.map c.node? = c.walk.map some) :
    (beneath i (children.map addresses)).map e.node? = (children.flatMap walk).map some := by
  induction children generalizing i with
  | nil => rfl
  | cons c children ih =>
    have hfirst : (c.addresses.map (i :: ·)).map e.node? = c.walk.map some := by
      rw [← hnodes c List.mem_cons_self, List.map_map]
      apply List.map_congr_left
      intro address _
      have hchild : e.children[i]? = some c := hchildren 0 c rfl
      simp [node?, hchild]
    have hmore := ih (i := i + 1)
      (fun j d hd => by rw [Nat.add_assoc, Nat.add_comm 1 j]; exact hchildren (j + 1) d hd)
      (fun d hd => hnodes d (List.mem_cons_of_mem c hd))
    rw [List.map_cons, beneath, List.map_append, hfirst, hmore, List.flatMap_cons, List.map_append]

theorem map_node?_addresses (e : Expr) : e.addresses.map e.node? = e.walk.map some := by
  induction e using induction_children with
  | node e ih =>
    rw [addresses_eq, walk_eq, List.map_cons, List.map_cons,
      map_node?_beneath e (fun j c hc => by rwa [Nat.zero_add]) ih]
    rfl

theorem pairwise_beneath {i : Nat} {lists : List (List (List Nat))}
    (h : ∀ list ∈ lists, list.Pairwise (List.Lex (· < ·))) :
    (beneath i lists).Pairwise (List.Lex (· < ·)) := by
  induction lists generalizing i with
  | nil => exact .nil
  | cons list lists ih =>
    obtain ⟨hfirst, hmore⟩ := List.forall_mem_cons.1 h
    rw [beneath, List.pairwise_append, List.pairwise_map]
    refine ⟨hfirst.imp .cons, ih hmore, ?_⟩
    intro p hp q hq
    obtain ⟨p, -, rfl⟩ := List.mem_map.1 hp
    obtain ⟨j, list', q, -, -, rfl⟩ := mem_beneath.1 hq
    exact .rel (by omega)

/-- A walk visits parents before children, and children from the first to the last. -/
theorem pairwise_addresses (e : Expr) : e.addresses.Pairwise (List.Lex (· < ·)) := by
  induction e using induction_children with
  | node e ih =>
    rw [addresses_eq, List.pairwise_cons]
    constructor
    · intro q hq
      obtain ⟨j, list, q, -, -, rfl⟩ := mem_beneath.1 hq
      exact .nil
    · apply pairwise_beneath
      intro list hlist
      obtain ⟨c, hc, rfl⟩ := List.mem_map.1 hlist
      exact ih c hc

/-- An address never leads to a node above an earlier one, or to the same node. -/
theorem not_isPrefix_of_lex {p q : List Nat} (h : List.Lex (· < ·) p q) : ¬ q <+: p := by
  induction h with
  | nil => simp
  | cons _ ih => simpa [List.cons_prefix_cons] using ih
  | rel hlt =>
    intro hprefix
    obtain ⟨rfl, -⟩ := List.cons_prefix_cons.1 hprefix
    omega

theorem nodup_addresses (e : Expr) : e.addresses.Nodup := by
  refine e.pairwise_addresses.imp ?_
  rintro p _ h rfl
  exact not_isPrefix_of_lex h List.prefix_rfl

def leaves (e : Expr) : List Expr := e.walk.filter isLeaf

theorem leaves_of_isLeaf {e : Expr} (h : e.isLeaf) : e.leaves = [e] := by
  have hchildren : e.children = [] := by cases e <;> first | rfl | cases h
  simp [leaves, walk_eq e, hchildren, h]

theorem leaves_of_not_isLeaf {e : Expr} (h : e.isLeaf = false) :
    e.leaves = e.children.flatMap leaves := by
  rw [leaves, walk_eq, List.filter_cons_of_neg (by simp [h]), List.filter_flatMap]
  rfl

end Expr

namespace Grammar
open CurryCalc.Parser

/-- The symbols that are operands: numbers, placeholders, and the names that no `let` binds
there. -/
def operands : List Symbol → List Symbol
  | .keyword .letWord :: .name _ :: rest => operands rest
  | s :: rest => if (operand? s).isSome then s :: operands rest else operands rest
  | [] => []

theorem operands_keyword {k : Keyword} (hk : k ≠ .letWord) (rest : List Symbol) :
    operands (.keyword k :: rest) = operands rest := by
  rw [operands]
  · rfl
  · intro x more h
    cases h
    exact absurd rfl hk

theorem map_operands_cons {s : Symbol} {e : Expr} (hs : operand? s = some e) (rest : List Symbol) :
    (operands (s :: rest)).map operand? = e.leaves.map some ++ (operands rest).map operand? := by
  cases s with
  | keyword k => cases hs
  | number | name | placeholder =>
    cases hs
    rw [Expr.leaves_of_isLeaf rfl]
    rfl

theorem Additive.ne_letWord {k : Keyword} {op : Operator} (h : Additive k op) : k ≠ .letWord := by
  cases h <;> simp

theorem Comparison.ne_letWord {k : Keyword} {op : Operator} (h : Comparison k op) :
    k ≠ .letWord := by
  cases h <;> simp

/-- The operands of a phrase are the leaves of its tree, whatever symbols come after the phrase. -/
theorem Derives.map_operands {layer : Layer} {input : List Symbol} {e : Expr}
    (h : Derives layer input e) (rest : List Symbol) :
    (operands (input ++ rest)).map operand? =
      e.leaves.map some ++ (operands rest).map operand? := by
  induction h generalizing rest with
  | number v => exact map_operands_cons rfl rest
  | placeholder i => exact map_operands_cons rfl rest
  | name x => exact map_operands_cons rfl rest
  | operand _ ih => exact ih rest
  | additive hk _ _ ihl ihr =>
    rw [Expr.leaves_of_not_isLeaf rfl]
    simp [ihl, ihr, operands_keyword hk.ne_letWord, Expr.children]
  | sum _ ih => exact ih rest
  | comparison hk _ _ ihl ihr =>
    rw [Expr.leaves_of_not_isLeaf rfl]
    simp [ihl, ihr, operands_keyword hk.ne_letWord, Expr.children]
  | equality _ ih => exact ih rest
  | cond _ _ _ ihc iht ihe =>
    rw [Expr.leaves_of_not_isLeaf rfl]
    simp [ihc, iht, ihe, operands_keyword, Expr.children]
  | conditional _ ih => exact ih rest
  | letIn _ _ ihb ihe =>
    rw [Expr.leaves_of_not_isLeaf rfl, List.cons_append, List.cons_append, operands]
    simp [ihb, ihe, operands_keyword, Expr.children]

/-- The operands of a sequence that was read are the leaves of its tree. -/
theorem map_operands_of_parse [Machine] {tokens : List Token} {tree : Expr}
    (h : parse tokens = .ok tree) :
    (operands (tokens.map Token.symbol)).map operand? = tree.leaves.map some := by
  simpa [operands] using (parse_sound h).2.2.map_operands []

end Grammar

namespace Expr
open CurryCalc.Grammar

/-- A walk is the traversal that recursion gives, a node and then its children in order. With a
stack, a node is visited at each step, and the walk ends after as many steps as there are nodes.
Every address that leads to a node is visited once, after all addresses above it and in their order.
The leaves of a tree that was read are visited in the order of the operands. -/
theorem walk_in_source_order [Machine] :
    (∀ e : Expr, e.walk = e.preorder ∧ e.preorder = e :: e.children.flatMap preorder ∧
      (Walk.start e).after e.size = some ⟨e.walk, []⟩ ∧
      ∀ n, ((Walk.start e).after n).map Walk.visited =
        if n ≤ e.size then some (e.walk.take n) else none) ∧
    (∀ e : Expr, e.addresses.map e.node? = e.walk.map some ∧
      (∀ address, address ∈ e.addresses ↔ (e.node? address).isSome) ∧
      e.addresses.Nodup ∧ e.addresses.Pairwise (List.Lex (· < ·)) ∧
      e.addresses.Pairwise fun p q => ¬ q <+: p) ∧
    ∀ tokens tree, parse tokens = .ok tree →
      (tree.walk.filter isLeaf).map some = (operands (tokens.map Token.symbol)).map operand? := by
  refine ⟨fun e =>
    ⟨walk_eq_preorder e, preorder_eq e, Walk.after_size e, Walk.visited_after_start e⟩,
    fun e => ⟨map_node?_addresses e, fun _ => mem_addresses, nodup_addresses e,
      pairwise_addresses e, ?_⟩,
    fun tokens tree h => (map_operands_of_parse h).symm⟩
  exact (pairwise_addresses e).imp not_isPrefix_of_lex

section StandardMachine

attribute [local instance] Machine.standard

/-- The tree of `let x $2 minus y in if x eq 0 then $1 else x plus x`, with a name that is bound
once and read three times, the last time three levels down. -/
theorem walk_in_source_order_let_if :
    let tree : Expr := .letIn "x" (.binary .sub (.argument (.int 2)) (.name "y"))
      (.cond (.binary .eq (.name "x") (.number (.float (.zero false)))) (.argument (.int 1))
        (.binary .add (.name "x") (.name "x")))
    let tokens := tree.unparse.map fun s => Token.mk s ""
    parse tokens = .ok tree ∧
      (tree.walk.filter isLeaf).map some = [some (.argument (.int 2)), some (.name "y"),
        some (.name "x"), some (.number (.float (.zero false))), some (.argument (.int 1)),
        some (.name "x"), some (.name "x")] ∧
      (Walk.start tree).after 12 = some ⟨tree.walk, []⟩ ∧
      tree.node? [1, 2, 1] = some (.name "x") ∧ [1, 2, 1] ∈ tree.addresses := by
  intro tree tokens
  have hparse : parse tokens = .ok tree := Outcome.eq_ok_of_toOption (by decide +kernel)
  obtain ⟨hwalk, haddresses, hleaves⟩ := walk_in_source_order
  have hnode : tree.node? [1, 2, 1] = some (.name "x") := rfl
  refine ⟨hparse, ?_, (hwalk tree).2.2.1, hnode, ?_⟩
  · rw [hleaves tokens tree hparse]
    rfl
  · exact ((haddresses tree).2.1 [1, 2, 1]).2 (hnode ▸ rfl)

end StandardMachine

end Expr

end CurryCalc
