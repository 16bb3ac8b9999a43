import CurryCalc.Sorting.Merge

/-! Sorting by runs. A list is cut into runs, short runs are filled up by insertion, and
neighbouring runs are merged. Items of equal rank keep their order. Which items are compared is
fixed, and matters if some of them have no order: then the first comparison that fails is the
result. -/
namespace CurryCalc

namespace Sorting

variable {α ε : Type} (before : α → α → Except ε Bool)

def risingFrom : α → List α → Except ε (List α × List α)
  | _, [] => .ok ([], [])
  | last, x :: rest => do
    if ← before x last then return ([], x :: rest)
    let (run, rest) ← risingFrom x rest
    return (x :: run, rest)

def fallingFrom : α → List α → Except ε (List α × List α)
  | _, [] => .ok ([], [])
  | last, x :: rest => do
    if !(← before x last) then return ([], x :: rest)
    let (run, rest) ← fallingFrom x rest
    return (x :: run, rest)

/-- The run that a list starts with, in rising order, and the items after it. -/
def firstRun : List α → Except ε (List α × List α)
  | x :: y :: rest => do
    if ← before y x then
      let (run, rest) ← fallingFrom before y rest
      return ((x :: y :: run).reverse, rest)
    let (run, rest) ← risingFrom before y rest
    return (x :: y :: run, rest)
  | short => .ok (short, [])

def insertInto (run : Array α) (x : α) : Except ε (Array α) :=
  (halve (fun i => (run[i]?).elim (.ok true) (before x)) 0 run.size).map fun i =>
    run.insertIdxIfInBounds i x

def filledRun (least : Nat) (items : List α) : Except ε (List α × List α) := do
  let (run, rest) ← firstRun before items
  let missing := least - run.length
  let filled ← (rest.take missing).foldlM (insertInto before) run.toArray
  return (filled.toList, rest.drop missing)

/-- Least length of the runs of a list of length `n`: all of a short list, and otherwise such that
the number of runs is nearly a power of two. -/
def leastRun (n : Nat) : Nat :=
  if n < 64 then n
  else
    let shift := n.log2 - 5
    n / Nat.pow 2 shift + if n % Nat.pow 2 shift = 0 then 0 else 1

structure Run (α : Type) where
  start : Nat
  items : List α
  /-- Depth of the boundary after the run, in a tree that halves the list again and again. -/
  depth : Nat

/-- Depth at which halving a list of length `n` again and again first comes between the middles of
two neighbouring runs. The middles are measured in halves of an item. -/
def boundaryDepth (n start length nextLength : Nat) : Nat :=
  let middle := 2 * start + length
  let nextMiddle := middle + length + nextLength
  let separates (k : Nat) : Bool := middle * Nat.pow 2 k / n ≠ nextMiddle * Nat.pow 2 k / n
  ((List.range n).find? separates).getD 0 + 1

def mergeTwo (effort : Nat) (x y : Run α) : Except ε (Run α × Nat) :=
  (merge before effort x.items y.items).map fun (items, effort) =>
    (⟨x.start, items, x.depth⟩, effort)

/-- Merges the last runs as long as the boundary between them is deeper than the one after them. The
last run comes first in the list. -/
def settle (depth effort : Nat) : List (Run α) → Except ε (List (Run α) × Nat)
  | y :: x :: runs =>
    if depth < x.depth then
      match mergeTwo before effort x y with
      | .error e => .error e
      | .ok (xy, effort) => settle depth effort (xy :: runs)
    else .ok ({ y with depth := depth } :: x :: runs, effort)
  | [y] => .ok ([{ y with depth := depth }], effort)
  | [] => .ok ([], effort)
termination_by runs => runs.length

/-- Cuts a list of length `n` into runs and merges them on the way. Every round takes a run. -/
def collect (n effort start : Nat) (runs : List (Run α)) (items : List α) :
    Nat → Except ε (List (Run α) × Nat)
  | 0 => .ok (runs, effort)
  | rounds + 1 =>
    if items.isEmpty then .ok (runs, effort)
    else do
      let (run, rest) ← filledRun before (leastRun n) items
      let (runs, effort) ← match runs with
        | [] => pure ([], effort)
        | last :: _ =>
          settle before (boundaryDepth n last.start last.items.length run.length) effort runs
      collect n effort (start + run.length) (⟨start, run, 0⟩ :: runs) rest rounds

/-- Merges all runs. The last run comes first in the list; it waits for the two before it if it is
longer than the first of them. -/
def mergeAll (effort : Nat) : List (Run α) → Except ε (List α)
  | [] => .ok []
  | [x] => .ok x.items
  | [y, x] => (mergeTwo before effort x y).map fun (xy, _) => xy.items
  | z :: y :: x :: runs =>
    if x.items.length < z.items.length then
      match mergeTwo before effort x y with
      | .error e => .error e
      | .ok (xy, effort) => mergeAll effort (z :: xy :: runs)
    else
      match mergeTwo before effort y z with
      | .error e => .error e
      | .ok (yz, effort) => mergeAll effort (yz :: x :: runs)
termination_by runs => runs.length

def sort (items : List α) : Except ε (List α) := do
  let (runs, effort) ← collect before items.length longStretch 0 [] items items.length
  mergeAll before effort runs

end Sorting

end CurryCalc
