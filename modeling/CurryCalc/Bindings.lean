/-! Names bound to things, in the order in which they were first bound. -/
namespace CurryCalc

structure Bindings (κ α : Type) where
  entries : List (κ × α)
deriving DecidableEq, Repr

namespace Bindings

variable {κ α : Type} [DecidableEq κ]

def empty : Bindings κ α := ⟨[]⟩

def findIn (name : κ) : List (κ × α) → Option α
  | [] => none
  | (n, a) :: rest => if n = name then some a else findIn name rest

def find? (b : Bindings κ α) (name : κ) : Option α := findIn name b.entries

def contains (b : Bindings κ α) (name : κ) : Bool := (b.find? name).isSome

def insertIn (name : κ) (a : α) : List (κ × α) → List (κ × α)
  | [] => [(name, a)]
  | (n, old) :: rest => if n = name then (n, a) :: rest else (n, old) :: insertIn name a rest

/-- Binds a name. A name bound before keeps its place. -/
def insert (b : Bindings κ α) (name : κ) (a : α) : Bindings κ α := ⟨insertIn name a b.entries⟩

@[simp] theorem find?_empty (name : κ) : (empty : Bindings κ α).find? name = none := rfl

theorem find?_insert (b : Bindings κ α) (name other : κ) (a : α) :
    (b.insert name a).find? other = if name = other then some a else b.find? other := by
  obtain ⟨entries⟩ := b
  show findIn other (insertIn name a entries) =
      if name = other then some a else findIn other entries
  induction entries with
  | nil => rfl
  | cons entry rest ih =>
    obtain ⟨n, old⟩ := entry
    by_cases hn : n = name
    · subst hn
      rw [insertIn, if_pos rfl, findIn, findIn]
      split <;> rfl
    · rw [insertIn, if_neg hn, findIn, ih, findIn]
      split
      next ho => rw [if_neg (fun h => hn (ho.trans h.symm))]
      · rfl

theorem mem_of_find? {b : Bindings κ α} {name : κ} {a : α} (h : b.find? name = some a) :
    a ∈ b.entries.map Prod.snd := by
  obtain ⟨entries⟩ := b
  replace h : findIn name entries = some a := h
  induction entries with
  | nil => cases h
  | cons entry rest ih =>
    obtain ⟨n, old⟩ := entry
    rw [findIn] at h
    split at h
    · cases h
      exact List.mem_cons_self
    · exact List.mem_cons_of_mem old (ih h)

@[simp] theorem insert_insert (b : Bindings κ α) (name : κ) (old a : α) :
    (b.insert name old).insert name a = b.insert name a := by
  obtain ⟨entries⟩ := b
  show Bindings.mk (insertIn name a (insertIn name old entries)) = ⟨insertIn name a entries⟩
  congr 1
  induction entries with
  | nil => simp [insertIn]
  | cons entry rest ih =>
    obtain ⟨n, older⟩ := entry
    by_cases hn : n = name
    · simp [insertIn, hn]
    · simp [insertIn, hn, ih]

def ofList (entries : List (κ × α)) : Bindings κ α :=
  entries.foldl (fun b (name, a) => b.insert name a) empty

def names (b : Bindings κ α) : List κ := b.entries.map Prod.fst

def size (b : Bindings κ α) : Nat := b.entries.length

def sorted (b : Bindings String α) : List (String × α) :=
  b.entries.mergeSort fun a b => decide (a.1 ≤ b.1)

end Bindings

end CurryCalc
