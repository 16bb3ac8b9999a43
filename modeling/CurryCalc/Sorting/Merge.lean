import CurryCalc.Sorting.Search

/-! Merging two sorted runs. A merge compares item by item until one run has won often enough in a
row, and then looks for long stretches of one run that go before the next item of the other;
`effort` says how often is enough, and is carried on from merge to merge. Every item is kept
whatever the comparisons say. -/
namespace CurryCalc

namespace Sorting

variable {α ε : Type}

/-- A merge in progress. Both runs are given in the order in which the merge takes items from them,
which may be from their ends. -/
structure Merge (α : Type) where
  /-- The shorter run. Its last item is left for the end. -/
  short : List α
  long : List α
  taken : List α

namespace Merge

def isDone (m : Merge α) : Bool := m.long.isEmpty || m.short.length ≤ 1

def result (m : Merge α) : List α := m.taken.reverse ++ m.long ++ m.short

def takeShort (m : Merge α) (k : Nat) : Merge α :=
  ⟨m.short.drop k, m.long, (m.short.take k).reverse ++ m.taken⟩

def takeLong (m : Merge α) (k : Nat) : Merge α :=
  ⟨m.short, m.long.drop k, (m.long.take k).reverse ++ m.taken⟩

end Merge

structure Decision (α ε : Type) where
  /-- Whether an item of the long run is taken before one of the short run. -/
  longFirst : α → α → Except ε Bool
  fromEnd : Bool

def longStretch : Nat := 7

/-- How many items at the start of a list pass the test, supposing that those after the first that
does not pass it do not either. -/
def stretch (fromEnd : Bool) (test : α → Except ε Bool) (items : List α) : Except ε Nat :=
  let items := items.toArray
  let passes (i : Nat) : Except ε Bool := (items[i]?).elim (.ok false) test
  if fromEnd then
    (gallop (fun i => passes (items.size - 1 - i)) items.size (items.size - 1)).map (items.size - ·)
  else gallop (fun i => (passes i).map not) items.size 0

/-- Takes the items of the short run that go before the next one of the long run, and then that one.
Also gives the number of the former. -/
def gallopShort (d : Decision α ε) (m : Merge α) : Except ε (Merge α × Nat) :=
  match m.isDone, m.long with
  | false, next :: _ => do
    let k ← stretch d.fromEnd (fun s => (d.longFirst next s).map not) m.short
    let m := m.takeShort k
    return (if m.isDone then m else m.takeLong 1, k)
  | _, _ => .ok (m, 0)

def gallopLong (d : Decision α ε) (m : Merge α) : Except ε (Merge α × Nat) :=
  match m.isDone, m.short with
  | false, next :: _ => do
    let k ← stretch d.fromEnd (fun l => d.longFirst l next) m.long
    let m := m.takeLong k
    return (if m.isDone then m else m.takeShort 1, k)
  | _, _ => .ok (m, 0)

def gallopBoth (d : Decision α ε) (m : Merge α) : Except ε (Merge α × Nat) := do
  if d.fromEnd then
    let (m, j) ← gallopLong d m
    let (m, k) ← gallopShort d m
    return (m, max j k)
  else
    let (m, j) ← gallopShort d m
    let (m, k) ← gallopLong d m
    return (m, max j k)

mutual

/-- Merges item by item. `streak` counts the items last taken from one run, which is the long one if
`longWon`. Every round takes an item, so that as many rounds as there are items are enough. -/
def mergeSingly (d : Decision α ε) (effort streak : Nat) (longWon : Bool) (m : Merge α) :
    Nat → Except ε (List α × Nat)
  | 0 => .ok (m.result, effort)
  | rounds + 1 =>
    match m.isDone, m.short, m.long with
    | false, s :: _, l :: _ =>
      match d.longFirst l s with
      | .error e => .error e
      | .ok won =>
        let m := if won then m.takeLong 1 else m.takeShort 1
        let streak := if won = longWon then streak + 1 else 1
        if effort ≤ streak then mergeStretches d effort m rounds
        else mergeSingly d effort streak won m rounds
    | _, _, _ => .ok (m.result, effort)

/-- Merges stretch by stretch. Long stretches make the effort smaller, and the end of them makes it
larger. -/
def mergeStretches (d : Decision α ε) (effort : Nat) (m : Merge α) : Nat → Except ε (List α × Nat)
  | 0 => .ok (m.result, effort)
  | rounds + 1 =>
    match gallopBoth d m with
    | .error e => .error e
    | .ok (m, longest) =>
      if m.isDone then .ok (m.result, effort)
      else if longStretch ≤ longest then mergeStretches d (max (effort - 1) 1) m rounds
      else mergeSingly d (effort + 1) 0 false m rounds

end

/-- Starts a merge; the first item of the long run is known to go first. -/
def mergeFrom (d : Decision α ε) (effort : Nat) (short long : List α) : Except ε (List α × Nat) :=
  mergeSingly d effort 0 false (Merge.takeLong ⟨short, long, []⟩ 1) (short.length + long.length)

/-- Merges two neighbouring runs, the first of which comes first among equals. Items at the start of
the first run and at the end of the second one that are in place already stay there. -/
def merge (before : α → α → Except ε Bool) (effort : Nat) (first second : List α) :
    Except ε (List α × Nat) :=
  match first.getLast?, second.head? with
  | some last, some head => do
    let a := first.toArray
    let b := second.toArray
    let inPlace ← gallop (fun i => (a[i]?).elim (.ok true) (before head)) a.size 0
    if inPlace = a.size then return (first ++ second, effort)
    let reached ← gallop (fun i => (b[i]?).elim (.ok true) fun x => (before x last).map not)
      b.size (b.size - 1)
    if reached = 0 then return (first ++ second, effort)
    let left := first.drop inPlace
    let right := second.take reached
    let (middle, effort) ←
      if left.length ≤ right.length then mergeFrom ⟨before, false⟩ effort left right
      else
        (mergeFrom ⟨fun l s => before s l, true⟩ effort right.reverse left.reverse).map
          fun (items, effort) => (items.reverse, effort)
    return (first.take inPlace ++ middle ++ second.drop reached, effort)
  | _, _ => .ok (first ++ second, effort)

end Sorting

end CurryCalc
