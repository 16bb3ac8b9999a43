import CurryCalc.Value.Order

/-! The members of a set, and the order in which they are gone through. A set keeps its members in
the slots of a table, each at a place that follows from its fingerprint; members that want the same
slot make way in the order in which they came. The order of the members is that of the slots. -/
namespace CurryCalc

namespace Value

/-- Fingerprints of numbers are residues of this modulus, so that equal numbers of all kinds
agree. -/
def residueBound : Nat := Nat.pow 2 61 - 1

def wordOf (n : Int) : UInt64 := UInt64.ofNat ((if n = -1 then -2 else n) % Int.pow 2 64).toNat

def residueOf (n : Int) : Int :=
  if n < 0 then -(n.natAbs % residueBound) else n.natAbs % residueBound

/-- The fingerprint of a number, unless it is undefined. A quantum is a power of two, and has a
power of two for its residue. -/
def numberWord? : Value → Option UInt64
  | .float (.infinite negative) => some (wordOf (if negative then -314159 else 314159))
  | .float x => x.quanta?.map fun n => wordOf (residueOf (n * Int.pow 2 24))
  | v => v.toInt?.map fun n => wordOf (residueOf n)

def mixFactor : UInt64 := 11400714785074694791

def laneFactor : UInt64 := 14029467366897019727

def mixStart : UInt64 := 2870177450012600261

def mixLane (mixed lane : UInt64) : UInt64 :=
  let sum := mixed + lane * laneFactor
  (sum <<< 31 ||| sum >>> 33) * mixFactor

def mixWords (lanes : List UInt64) : UInt64 :=
  let mixed := lanes.foldl mixLane mixStart + (UInt64.ofNat lanes.length ^^^ (mixStart ^^^ 3527539))
  if mixed = 18446744073709551615 then 1546275796 else mixed

mutual

def word? : Value → Option UInt64
  | .text s => if s.isEmpty then some 0 else none
  | .tuple items => (wordAll? items).map mixWords
  | .token _ v _ => (word? v).map fun lane => mixWords [lane]
  | v => v.numberWord?

def wordAll? : List Value → Option (List UInt64)
  | [] => some []
  | v :: vs =>
    match word? v, wordAll? vs with
    | some w, some ws => some (w :: ws)
    | _, _ => none

end

/-- The slots of a set. Their number is a power of two. -/
structure Table where
  slots : Array (Option (UInt64 × Value))
  used : Nat

namespace Table

def blank (size : Nat) : Table := ⟨Array.replicate size none, 0⟩

def neighbours : Nat := 9

def fitting? (t : Table) (word : UInt64) (v : Value) (candidates : List Nat) : Option Nat :=
  candidates.find? fun i =>
    match t.slots[i]? with
    | some (some (other, w)) => word == other && v.alike w
    | _ => true

/-- The slot for a value. After a slot and its neighbours the search goes on elsewhere, led by ever
fewer digits of the fingerprint and at last by none, so that it comes by every slot. -/
def slotFor (t : Table) (word : UInt64) (v : Value) (i digits : Nat) : Nat → Nat
  | 0 => i
  | rounds + 1 =>
    let tried := if i + neighbours < t.slots.size then neighbours else 0
    match t.fitting? word v ((List.range (tried + 1)).map (i + ·)) with
    | some slot => slot
    | none =>
      let digits := digits / Nat.pow 2 5
      slotFor t word v ((5 * i + 1 + digits) % t.slots.size) digits rounds

def put (t : Table) (entry : UInt64 × Value) : Table :=
  let (word, v) := entry
  let slot := t.slotFor word v (word.toNat % t.slots.size) word.toNat (t.slots.size + 16)
  match t.slots[slot]? with
  | some (some _) => t
  | _ => ⟨t.slots.setIfInBounds slot (some entry), t.used + 1⟩

def entries (t : Table) : List (UInt64 × Value) := t.slots.toList.filterMap id

/-- The least number of slots for which there is some number of members and room for more. -/
def sizeAbove (n : Nat) : Nat := Nat.pow 2 (max 3 (n.log2 + 1))

def grown (t : Table) : Table :=
  if 5 * t.used < 3 * (t.slots.size - 1) then t
  else
    let size := sizeAbove (if 50000 < t.used then 2 * t.used else 4 * t.used)
    t.entries.foldl put (blank size)

def add (t : Table) (entry : UInt64 × Value) : Table :=
  let t' := t.put entry
  if t'.used = t.used then t else t'.grown

end Table

def members (values : List Value) : List Value :=
  match wordAll? values with
  | some words => ((words.zip values).foldl Table.add (Table.blank 8)).entries.map Prod.snd
  | none => ascending values

/-- Number of slots of the table of a set that `n` members were added to one by one. -/
def slotsFor (n : Nat) : Nat :=
  ((List.range n).foldl (fun t i => t.add (UInt64.ofNat i, .int i)) (Table.blank 8)).slots.size

/-- The members of a copy of a set, which is made all at once and may have another number of
slots. -/
def copied (items : List Value) : List Value :=
  let size := if 5 * items.length < 21 then 8 else Table.sizeAbove (2 * items.length)
  match wordAll? items with
  | none => items
  | some words =>
    if size = slotsFor items.length then items
    else ((words.zip items).foldl Table.put (Table.blank size)).entries.map Prod.snd

/-- The members of a set that are not members of another. A set is copied if few members can go. -/
def without (xs ys : List Value) : List Value :=
  let stays (x : Value) : Bool := !ys.any x.alike
  if ys.length < xs.length / 4 then (copied xs).filter stays else members (xs.filter stays)

end Value

end CurryCalc
