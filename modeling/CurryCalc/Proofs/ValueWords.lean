import CurryCalc.Proofs.NumberConversion
import CurryCalc.Proofs.Outcome
import CurryCalc.Proofs.SpacedWords

/-! Words for numbers and truth values. They have no blank character and no colon in them, and stand
for the same value whatever names are bound. -/
namespace CurryCalc

/-- A word for a number or a truth value. -/
def IsValueWord (w : String) : Prop := isNumber w = true ∨ w = "true" ∨ w = "false"

instance (w : String) : Decidable (IsValueWord w) := inferInstanceAs (Decidable (_ ∨ _))

def wordValue (w : String) : Value :=
  match readNumber? w with
  | some x => .float x
  | none => .bool (w = "true")

namespace IsValueWord

variable {w : String}

theorem chars_of_all (h : w.toList.all (fun c => !isBlank c && c != ':') = true) :
    ∀ c ∈ w.toList, isBlank c = false ∧ c ≠ ':' := by
  simpa using h

theorem chars (h : IsValueWord w) : ∀ c ∈ w.toList, isBlank c = false ∧ c ≠ ':' := by
  rcases h with hnumber | rfl | rfl
  · obtain ⟨literal, hread⟩ := Option.isSome_iff_exists.1 hnumber
    exact fun c hc => isNumberChar_code (NumberLiteral.read?_chars hread c hc)
  · exact chars_of_all (by decide)
  · exact chars_of_all (by decide)

theorem isWord (h : IsValueWord w) : IsWord w where
  nonempty := by
    intro hnil
    obtain rfl : w = "" := String.toList_eq_nil_iff.1 hnil
    revert h
    decide
  unbroken c hc := (h.chars c hc).1

theorem unmarked (h : IsValueWord w) : ¬ declareMark.toList <:+: w.toList := by
  intro hmark
  have hcolon : ':' ∈ w.toList := hmark.subset (by decide)
  exact (h.chars ':' hcolon).2 rfl

/-- Names do not matter for a word that stands for a value. -/
theorem parseValue_eq (h : IsValueWord w) (names : Namespace) :
    parseValue w names = .ok (wordValue w) := by
  rw [CurryCalc.parseValue_eq, wordValue]
  cases hread : readNumber? w with
  | some x => rfl
  | none =>
    rcases h with hnumber | rfl | rfl
    · unfold isNumber at hnumber
      unfold readNumber? at hread
      rw [Option.map_eq_none_iff] at hread
      rw [hread] at hnumber
      cases hnumber
    · rfl
    · rfl

end IsValueWord

theorem mapM_parseValue {ws : List String} (h : ∀ w ∈ ws, IsValueWord w) (names : Namespace) :
    (ws.mapM fun w => parseValue w names) = .ok (ws.map wordValue) :=
  Outcome.mapM_eq_map fun w hw => (h w hw).parseValue_eq names

end CurryCalc
