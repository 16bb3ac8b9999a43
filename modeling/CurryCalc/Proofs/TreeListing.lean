import CurryCalc.Expr.Display
import CurryCalc.Proofs.NumberTexts
import CurryCalc.Proofs.TreeSymbols

/-! Listings of trees can be read in one way. The lines of a listing tell a node and where its part
of the listing ends, although names are written between quotes as they are: a line is taken apart
from both of its ends, and nothing in the middle is looked at. -/
namespace CurryCalc

theorem NumberLiteral.one_line_of_read? {cs : List Char} {literal : NumberLiteral}
    (h : read? cs = some literal) : '\n' ∉ cs := by
  intro hmem
  have hblank := (isNumberChar_code (read?_chars h _ hmem)).1
  cases hblank

theorem Operator.eq_of_text {op op' : Operator} (h : ∀ name, op ≠ .other name)
    (h' : ∀ name, op' ≠ .other name) (htext : op.value.toText = op'.value.toText) : op = op' := by
  cases op <;> cases op' <;> simp_all [value, Value.toText]

/-- Values that are told apart by how they are written, each of them on one line. -/
structure WrittenApart (literals : Value → Prop) : Prop where
  eq_of_inspect {v w : Value} : literals v → literals w → v.inspect = w.inspect → v = w
  one_line {v : Value} : literals v → '\n' ∉ v.inspect.toList

/-- Symbols with values that a listing can tell apart. -/
def Symbol.Listable (literals : Value → Prop) : Symbol → Prop
  | .number v => literals v
  | .placeholder i => ∃ n, i = .int n
  | .name x => ∃ s, x = .text s ∧ '\n' ∉ s.toList
  | .keyword _ => True

namespace Expr

def height : Expr → Nat
  | .binary _ l r => max l.height r.height + 1
  | .letIn _ b e => max b.height e.height + 1
  | .cond c t e => max c.height (max t.height e.height) + 1
  | _ => 1

theorem height_le_succ_iff {e : Expr} {n : Nat} :
    e.height ≤ n + 1 ↔ ∀ c ∈ e.children, c.height ≤ n := by
  cases e <;> simp [height, children]

theorem height_pos (e : Expr) : 0 < e.height := by
  cases e <;> simp [height]

/-- The nodes of a tree in the order of a walk, each with its level. -/
def placed : Nat → Expr → List (Nat × Expr)
  | level, .binary op l r =>
    (level, .binary op l r) :: (l.placed (level + 1) ++ r.placed (level + 1))
  | level, .letIn x b e => (level, .letIn x b e) :: (b.placed (level + 1) ++ e.placed (level + 1))
  | level, .cond c t e =>
    (level, .cond c t e) ::
      (c.placed (level + 1) ++ t.placed (level + 1) ++ e.placed (level + 1))
  | level, e => [(level, e)]

theorem placed_eq (level : Nat) (e : Expr) :
    e.placed level = (level, e) :: e.children.flatMap (placed (level + 1)) := by
  cases e <;> simp [placed, children]

theorem map_placed (level : Nat) (e : Expr) : (e.placed level).map Prod.snd = e.walk := by
  induction e using induction_children generalizing level with
  | node e ih =>
    rw [placed_eq, walk_eq, List.map_cons, List.map_flatMap]
    exact congrArg (e :: ·) (List.flatMap_congr fun c hc => ih c hc (level + 1))

def comma (more : Bool) : String := if more then "," else ""

/-- What the line of a node ends with. -/
def ending (more : Bool) (e : Expr) : String :=
  if e.children.isEmpty then ")" ++ comma more
  else (if e.fields.isEmpty then "" else ", ") ++ "nodes=["

def headline (level : Nat) (more : Bool) (e : Expr) : String :=
  indentation level ++ e.kind ++ "(" ++ e.fields ++ e.ending more

def closing (level : Nat) (more : Bool) : String := indentation level ++ "])" ++ comma more

def listing : Nat → Bool → Expr → List String
  | level, more, .binary op l r => headline level more (.binary op l r) ::
    (l.listing (level + 1) true ++ (r.listing (level + 1) false ++ [closing level more]))
  | level, more, .letIn x b e => headline level more (.letIn x b e) ::
    (b.listing (level + 1) true ++ (e.listing (level + 1) false ++ [closing level more]))
  | level, more, .cond c t e => headline level more (.cond c t e) ::
    (c.listing (level + 1) true ++ (t.listing (level + 1) true ++
      (e.listing (level + 1) false ++ [closing level more])))
  | level, more, e => [headline level more e]

def listings (level : Nat) : List Expr → List String
  | [] => []
  | e :: others => e.listing level (!others.isEmpty) ++ listings level others

/-- The lines below that of a node. -/
def block (level : Nat) (more : Bool) (children : List Expr) : List String :=
  if children.isEmpty then [] else listings (level + 1) children ++ [closing level more]

theorem listing_eq (level : Nat) (more : Bool) (e : Expr) :
    e.listing level more = headline level more e :: block level more e.children := by
  cases e <;> simp [listing, block, listings, children]

theorem listing_ne_nil (level : Nat) (more : Bool) (e : Expr) : e.listing level more ≠ [] := by
  rw [listing_eq]
  exact List.cons_ne_nil _ _

theorem listings_ne_nil (level : Nat) {es : List Expr} (hes : es ≠ []) :
    listings level es ≠ [] := by
  cases es with
  | nil => exact absurd rfl hes
  | cons e others => exact List.append_ne_nil_of_left_ne_nil (listing_ne_nil level _ e) _

section Texts

def joined (lines : List String) : String := "\n".intercalate lines

theorem joined_append {front back : List String} (hfront : front ≠ []) (hback : back ≠ []) :
    joined (front ++ back) = joined front ++ "\n" ++ joined back := by
  rw [joined, String.intercalate_append_of_ne_nil hfront hback]
  rfl

theorem joined_cons (line : String) {lines : List String} (h : lines ≠ []) :
    joined (line :: lines) = line ++ "\n" ++ joined lines :=
  String.intercalate_cons_of_ne_nil h

theorem joined_concat (front : List String) (line tail : String) :
    joined (front ++ [line ++ tail]) = joined (front ++ [line]) ++ tail := by
  cases front with
  | nil => simp [joined]
  | cons first front =>
    rw [joined_append (List.cons_ne_nil _ _) (List.cons_ne_nil _ _),
      joined_append (List.cons_ne_nil _ _) (List.cons_ne_nil _ _)]
    simp [joined, String.append_assoc]

/-- The comma after a node is the end of its last line. -/
theorem joined_listing (level : Nat) (more : Bool) (e : Expr) :
    joined (e.listing level more) = joined (e.listing level false) ++ comma more := by
  simp only [listing_eq, block]
  cases hchildren : e.children with
  | nil =>
    have hline :=
      joined_concat [] (indentation level ++ e.kind ++ "(" ++ e.fields ++ ")") (comma more)
    simpa [headline, ending, hchildren, comma, String.append_assoc] using hline
  | cons c others =>
    have hline := joined_concat (headline level more e :: listings (level + 1) (c :: others))
      (indentation level ++ "])") (comma more)
    simpa [headline, ending, hchildren, closing, comma] using hline

theorem joined_listings (level : Nat) {es : List Expr} (hes : es ≠ []) :
    joined (listings level es) =
      ",\n".intercalate (es.map fun e => joined (e.listing level false)) := by
  induction es with
  | nil => exact absurd rfl hes
  | cons e others ih =>
    cases others with
    | nil => simp [listings]
    | cons next others =>
      have hne := List.cons_ne_nil next others
      have hparts : (next :: others).map (fun e => joined (e.listing level false)) ≠ [] := by simp
      rw [listings, joined_append (listing_ne_nil level _ e) (listings_ne_nil level hne), ih hne,
        joined_listing, List.map_cons (a := e), String.intercalate_cons_of_ne_nil hparts]
      simp only [comma, List.isEmpty_cons, Bool.not_false, if_true, String.append_assoc]
      rfl

theorem joined_block (line : String) (level : Nat) (more : Bool) {es : List Expr} (hes : es ≠ []) :
    joined (line :: block level more es) = line ++ "\n" ++
      ",\n".intercalate (es.map fun e => joined (e.listing (level + 1) false)) ++ "\n" ++
        closing level more := by
  have hlines := listings_ne_nil (level + 1) hes
  rw [block, if_neg (by simpa using hes),
    joined_cons _ (List.append_ne_nil_of_left_ne_nil hlines _),
    joined_append hlines (List.cons_ne_nil _ _), joined_listings _ hes]
  simp [joined, String.append_assoc]

/-- A node that can be listed is listed with the lines of its children below it. -/
theorem displayAt_succ {budget level : Nat} {e : Expr}
    (hlisted : e.unlistable? (.levels budget) = none)
    (hchildren : ∀ c ∈ e.children,
      displayAt budget (level + 1) c = .ok (joined (c.listing (level + 1) false))) :
    displayAt (budget + 1) level e = .ok (joined (e.listing level false)) := by
  have hparts := Outcome.mapM_eq_map hchildren
  rw [listing_eq, displayAt, hlisted]
  cases hcase : e.children with
  | nil => simp [joined, block, headline, ending, hcase, comma]
  | cons c others =>
    rw [hcase] at hparts
    rw [joined_block _ _ _ (List.cons_ne_nil _ _)]
    simp only [hparts]
    simp [headline, ending, hcase, closing, comma, String.append_assoc]

theorem displayAt_of_height_le {budget : Nat} (level : Nat) {e : Expr} (hread : e.Readable)
    (hwritable : ∀ s ∈ e.symbols, ∀ room, s.value.unwritable? room = none) (h : e.height ≤ budget) :
    displayAt budget level e = .ok (joined (e.listing level false)) := by
  induction budget generalizing level e with
  | zero => exact absurd h (Nat.not_le.2 e.height_pos)
  | succ budget ih =>
    refine displayAt_succ (unlistable?_eq_none hread fun s hs => hwritable s hs _) fun c hc => ?_
    exact ih (level + 1) (hread.children c hc)
      (fun s hs => hwritable s (mem_symbols_of_mem_children hc hs)) (height_le_succ_iff.1 h c hc)

theorem listing_of_displayAt {budget level : Nat} {e : Expr} {text : String}
    (h : displayAt budget level e = .ok text) :
    e.height ≤ budget ∧ text = joined (e.listing level false) := by
  induction budget generalizing level e text with
  | zero => cases h
  | succ budget ih =>
    have hlisted : e.unlistable? (.levels budget) = none := by
      unfold displayAt at h
      dsimp only at h
      split at h
      · cases h
      · assumption
      · assumption
    have hparts : ∀ c ∈ e.children, ∃ part, displayAt budget (level + 1) c = .ok part := by
      intro c hc
      rw [displayAt, hlisted] at h
      dsimp only at h
      split at h
      next hnone => cases hnone
      next hleaf =>
        rw [hleaf] at hc
        cases hc
      · split at h
        · cases h
        next parts hparts => exact Outcome.ok_of_mem_mapM hparts hc
    constructor
    · rw [height_le_succ_iff]
      intro c hc
      obtain ⟨part, hpart⟩ := hparts c hc
      exact (ih hpart).1
    · have htext := displayAt_succ hlisted fun c hc => by
        obtain ⟨part, hpart⟩ := hparts c hc
        rw [hpart, (ih hpart).2]
      exact Except.ok.inj (h.symm.trans htext)

end Texts

section Reading

variable {literals : Value → Prop} {a b e : Expr} {level : Nat} {more more' : Bool}

/-- Trees of the kinds that texts are read as, with operators that have a meaning, names without
line breaks, and number literals among the given values. -/
structure Listable (literals : Value → Prop) (e : Expr) : Prop where
  readable : e.Readable
  symbols : ∀ s ∈ e.symbols, s.Listable literals

theorem Listable.of_mem_children (h : e.Listable literals) :
    ∀ c ∈ e.children, c.Listable literals := by
  intro c hc
  exact ⟨h.readable.children c hc, fun s hs => h.symbols s (mem_symbols_of_mem_children hc hs)⟩

def childCount (kind : String) : Nat :=
  if kind = "If" then 3 else if kind = "BinaryOp" ∨ kind = "Let" then 2 else 0

theorem Readable.length_children (h : e.Readable) : e.children.length = childCount e.kind := by
  cases e with
  | foreign v => exact h.elim
  | _ => rfl

theorem length_children_eq (ha : a.Readable) (hb : b.Readable) (h : a.kind = b.kind) :
    a.children.length = b.children.length := by
  rw [ha.length_children, hb.length_children, h]

theorem Listable.isEmpty_fields (h : e.Listable literals) :
    e.fields.isEmpty = (e.kind == "If") := by
  cases e with
  | foreign v => exact h.readable.elim
  | _ => simp [fields, kind]

theorem comma_injective (h : comma more = comma more') : more = more' := by
  cases more <;> cases more' <;> simp [comma] at h ⊢

theorem append_comma_inj {s t : String} (h : s ++ (")" ++ comma more) = t ++ (")" ++ comma more')) :
    s = t ∧ more = more' := by
  have hlast := congrArg (fun u : String => u.toList.getLast?) h
  have hmore : more = more' := by
    cases more <;> cases more' <;> simp [comma] at hlast ⊢
  subst hmore
  exact ⟨(String.append_left_inj _).1 h, rfl⟩

theorem Readable.isAlpha_kind (h : e.Readable) : ∀ c ∈ e.kind.toList, c.isAlpha = true := by
  cases e with
  | foreign v => exact h.elim
  | _ => simp [kind]

/-- The kind of a node ends at the first bracket of its line. -/
theorem Readable.takeWhile_kind (h : e.Readable) (rest : String) :
    (e.kind ++ ("(" ++ rest)).toList.takeWhile Char.isAlpha = e.kind.toList := by
  rw [String.toList_append, String.toList_append, List.takeWhile_append_of_pos h.isAlpha_kind]
  simp

theorem headline_inj (ha : a.Listable literals) (hb : b.Listable literals)
    (h : headline level more a = headline level more' b) :
    a.kind = b.kind ∧ a.fields = b.fields ∧ (a.children = [] → more = more') := by
  simp only [headline, String.append_assoc, String.append_right_inj] at h
  have hkind : a.kind = b.kind := by
    have hfront := congrArg (fun u : String => u.toList.takeWhile Char.isAlpha) h
    simp only [ha.readable.takeWhile_kind, hb.readable.takeWhile_kind] at hfront
    exact String.toList_inj.1 hfront
  rw [hkind, String.append_right_inj, String.append_right_inj] at h
  have hlength := length_children_eq ha.readable hb.readable hkind
  have hempty : a.fields.isEmpty = b.fields.isEmpty := by
    rw [ha.isEmpty_fields, hb.isEmpty_fields, hkind]
  refine ⟨hkind, ?_⟩
  -- the fields may have any characters in them, so what follows them is taken off from behind
  cases hchildren : a.children with
  | nil =>
    have hnone : b.children = [] :=
      List.eq_nil_of_length_eq_zero (by rw [← hlength, hchildren]; rfl)
    simp only [ending, hchildren, hnone, List.isEmpty_nil, if_true] at h
    obtain ⟨hfields, hmore⟩ := append_comma_inj h
    exact ⟨hfields, fun _ => hmore⟩
  | cons c others =>
    have hsome : b.children.isEmpty = false := by
      rw [← Bool.not_eq_true, List.isEmpty_iff_length_eq_zero, ← hlength, hchildren]
      simp
    simp only [ending, hchildren, hsome, List.isEmpty_cons, hempty, Bool.false_eq_true, if_false,
      String.append_left_inj] at h
    exact ⟨h, by simp⟩

theorem eq_of_parts (hliterals : WrittenApart literals) (ha : a.Listable literals)
    (hb : b.Listable literals) (hkind : a.kind = b.kind) (hfields : a.fields = b.fields)
    (hchildren : a.children = b.children) : a = b := by
  cases a with
  | number v =>
    cases b with
    | number w =>
      rw [hliterals.eq_of_inspect (ha.symbols _ List.mem_cons_self)
        (hb.symbols _ List.mem_cons_self) ((String.append_right_inj _).1 hfields)]
    | foreign w => exact hb.readable.elim
    | _ => simp [kind] at hkind
  | argument i =>
    cases b with
    | argument j =>
      obtain ⟨m, rfl⟩ := ha.symbols _ List.mem_cons_self
      obtain ⟨n, rfl⟩ := hb.symbols _ List.mem_cons_self
      rw [intText_injective ((String.append_right_inj "index=").1 hfields)]
    | foreign w => exact hb.readable.elim
    | _ => simp [kind] at hkind
  | name x =>
    cases b with
    | name y =>
      obtain ⟨s, rfl, -⟩ := ha.symbols _ List.mem_cons_self
      obtain ⟨t, rfl, -⟩ := hb.symbols _ List.mem_cons_self
      simpa [fields, Value.toText] using hfields
    | foreign w => exact hb.readable.elim
    | _ => simp [kind] at hkind
  | binary op l r =>
    cases b with
    | binary op' l' r' =>
      have hop :=
        Operator.eq_of_text ha.readable.1 hb.readable.1 ((String.append_right_inj _).1 hfields)
      simpa [hop, children] using hchildren
    | foreign w => exact hb.readable.elim
    | _ => simp [kind] at hkind
  | letIn x bound body =>
    cases b with
    | letIn y bound' body' =>
      obtain ⟨s, rfl, -⟩ := ha.symbols _ List.mem_cons_self
      obtain ⟨t, rfl, -⟩ := hb.symbols _ List.mem_cons_self
      have hname : s = t := by simpa [fields, Value.toText] using hfields
      simpa [hname, children] using hchildren
    | foreign w => exact hb.readable.elim
    | _ => simp [kind] at hkind
  | cond c t e =>
    cases b with
    | cond c' t' e' => simpa [children] using hchildren
    | foreign w => exact hb.readable.elim
    | _ => simp [kind] at hkind
  | foreign v => exact ha.readable.elim

/-- The tree can be read off the front of any lines that start with its own. -/
def ReadOff (literals : Value → Prop) (a : Expr) : Prop :=
  ∀ {level : Nat} {more more' : Bool} {b : Expr} {rest rest' : List String}, b.Listable literals →
    a.listing level more ++ rest = b.listing level more' ++ rest' → a = b ∧ more = more' ∧
      rest = rest'

theorem listings_inj {as bs : List Expr} {rest rest' : List String}
    (has : ∀ a ∈ as, a.ReadOff literals) (hbs : ∀ b ∈ bs, b.Listable literals)
    (hlength : as.length = bs.length) (h : listings level as ++ rest = listings level bs ++ rest') :
    as = bs ∧ rest = rest' := by
  induction as generalizing bs with
  | nil =>
    obtain rfl := List.eq_nil_of_length_eq_zero hlength.symm
    exact ⟨rfl, h⟩
  | cons a as ih =>
    cases bs with
    | nil => cases hlength
    | cons b bs =>
      rw [List.forall_mem_cons] at has hbs
      rw [listings, listings, List.append_assoc, List.append_assoc] at h
      obtain ⟨rfl, -, hothers⟩ := has.1 hbs.1 h
      obtain ⟨rfl, hrest⟩ := ih has.2 hbs.2 (Nat.succ.inj hlength) hothers
      exact ⟨rfl, hrest⟩

theorem block_inj {as bs : List Expr} {rest rest' : List String}
    (has : ∀ a ∈ as, a.ReadOff literals) (hbs : ∀ b ∈ bs, b.Listable literals)
    (hlength : as.length = bs.length)
    (h : block level more as ++ rest = block level more' bs ++ rest') :
    as = bs ∧ (as ≠ [] → more = more') ∧ rest = rest' := by
  cases as with
  | nil =>
    obtain rfl := List.eq_nil_of_length_eq_zero hlength.symm
    exact ⟨rfl, absurd rfl, h⟩
  | cons a as =>
    cases bs with
    | nil => cases hlength
    | cons b bs =>
      rw [block, block, if_neg (by simp), if_neg (by simp), List.append_assoc, List.append_assoc]
        at h
      obtain ⟨hall, hrest⟩ := listings_inj has hbs hlength h
      obtain ⟨hclosing, hrest⟩ := List.cons.inj hrest
      exact ⟨hall, fun _ => comma_injective ((String.append_right_inj _).1 hclosing), hrest⟩

/-- Unique reading. The line of a node tells how many children follow, and each of them is read off
in turn. -/
theorem Listable.readOff (hliterals : WrittenApart literals) (ha : a.Listable literals) :
    a.ReadOff literals := by
  induction a using induction_children with
  | node a ih =>
    intro level more more' b rest rest' hb h
    rw [listing_eq, listing_eq, List.cons_append, List.cons_append] at h
    obtain ⟨hline, hblock⟩ := List.cons.inj h
    obtain ⟨hkind, hfields, hleaf⟩ := headline_inj ha hb hline
    obtain ⟨hchildren, hinner, hrest⟩ := block_inj (fun c hc => ih c hc (ha.of_mem_children c hc))
      hb.of_mem_children (length_children_eq ha.readable hb.readable hkind) hblock
    refine ⟨eq_of_parts hliterals ha hb hkind hfields hchildren, ?_, hrest⟩
    by_cases hnone : a.children = []
    · exact hleaf hnone
    · exact hinner hnone

end Reading

section Lines

variable {literals : Value → Prop} {e : Expr}

def textLines (text : String) : List String := (text.toList.splitOn '\n').map String.ofList

theorem textLines_joined {lines : List String} (hlines : ∀ line ∈ lines, '\n' ∉ line.toList)
    (hne : lines ≠ []) : textLines (joined lines) = lines := by
  have hsplit : List.splitOn '\n' (['\n'].intercalate (lines.map String.toList)) =
      lines.map String.toList :=
    List.splitOn_intercalate '\n' (by simpa using hlines) (by simpa using hne)
  rw [textLines, joined, String.toList_intercalate]
  simp [hsplit]

theorem Listable.one_line_fields (hliterals : WrittenApart literals) (h : e.Listable literals) :
    '\n' ∉ e.fields.toList := by
  obtain ⟨hreadable, hsymbols⟩ := h
  cases e with
  | number v => simpa [fields] using hliterals.one_line (hsymbols _ List.mem_cons_self)
  | argument i =>
    obtain ⟨n, rfl⟩ := hsymbols _ List.mem_cons_self
    simpa [fields, Value.toText, Value.inspect]
      using NumberLiteral.one_line_of_read? (read?_intText n)
  | name x =>
    obtain ⟨s, rfl, hs⟩ := hsymbols _ List.mem_cons_self
    simpa [fields, Value.toText] using hs
  | binary op l r =>
    cases op with
    | other name => exact absurd rfl (hreadable.1 name)
    | _ => simp [fields, Operator.value, Value.toText]
  | letIn x b e =>
    obtain ⟨s, rfl, hs⟩ := hsymbols _ List.mem_cons_self
    simpa [fields, Value.toText] using hs
  | cond c t e => simp [fields]
  | foreign v => exact hreadable.elim

theorem one_line_comma (more : Bool) : '\n' ∉ (comma more).toList := by
  cases more <;> simp [comma]

theorem one_line_ending (more : Bool) (e : Expr) : '\n' ∉ (e.ending more).toList := by
  unfold ending
  split
  · simpa using one_line_comma more
  · split <;> simp

theorem one_line_indentation (level : Nat) : '\n' ∉ (indentation level).toList := by
  simp [indentation]

theorem Listable.one_line_headline (hliterals : WrittenApart literals) (h : e.Listable literals)
    (level : Nat) (more : Bool) : '\n' ∉ (headline level more e).toList := by
  have hkind : '\n' ∉ e.kind.toList :=
    fun hmem => absurd (h.readable.isAlpha_kind _ hmem) (by decide)
  simp [headline, one_line_indentation, hkind, h.one_line_fields hliterals, one_line_ending]

theorem mem_listings {level : Nat} {es : List Expr} {line : String} (h : line ∈ listings level es) :
    ∃ e ∈ es, ∃ more, line ∈ e.listing level more := by
  induction es with
  | nil => cases h
  | cons e others ih =>
    rcases List.mem_append.1 h with h | h
    · exact ⟨e, List.mem_cons_self, _, h⟩
    · obtain ⟨e', he', hline⟩ := ih h
      exact ⟨e', List.mem_cons_of_mem e he', hline⟩

theorem Listable.one_line_listing (hliterals : WrittenApart literals) (h : e.Listable literals)
    (level : Nat) (more : Bool) : ∀ line ∈ e.listing level more, '\n' ∉ line.toList := by
  induction e using induction_children generalizing level more with
  | node e ih =>
    rw [listing_eq, List.forall_mem_cons]
    refine ⟨h.one_line_headline hliterals level more, fun line hline => ?_⟩
    unfold block at hline
    split at hline
    · cases hline
    rcases List.mem_append.1 hline with hline | hline
    · obtain ⟨c, hc, more', hline⟩ := mem_listings hline
      exact ih c hc (h.of_mem_children c hc) (level + 1) more' line hline
    · obtain rfl := List.mem_singleton.1 hline
      simp [closing, one_line_indentation, one_line_comma]

def isClosing (line : String) : Bool :=
  ["])", "]),"].contains (String.ofList (line.toList.dropWhile (· == ' ')))

/-- A line that shows a node, as many times four spaces in as its level says. -/
structure Shows (line : String) (place : Nat × Expr) : Prop where
  content : ∃ more, line = headline place.1 more place.2
  indented : line.toList.takeWhile (· == ' ') = List.replicate (4 * place.1) ' '

theorem takeWhile_indentation (level : Nat) {c : Char} (hc : c ≠ ' ') {rest : List Char} :
    ((indentation level).toList ++ c :: rest).takeWhile (· == ' ') =
      List.replicate (4 * level) ' ' := by
  rw [indentation, String.toList_ofList, List.takeWhile_append_of_pos (by simp)]
  simp [hc]

theorem dropWhile_indentation (level : Nat) {c : Char} (hc : c ≠ ' ') {rest : List Char} :
    ((indentation level).toList ++ c :: rest).dropWhile (· == ' ') = c :: rest := by
  rw [indentation, String.toList_ofList, List.dropWhile_append_of_pos (by simp)]
  simp [hc]

/-- After its indentation, the line of a node starts with a letter. -/
theorem exists_headline (level : Nat) (more : Bool) {e : Expr} (h : e.Readable) :
    ∃ c rest, c.isAlpha = true ∧
      (headline level more e).toList = (indentation level).toList ++ c :: rest := by
  cases hkind : e.kind.toList with
  | nil =>
    cases e with
    | foreign v => exact h.elim
    | _ => simp [kind] at hkind
  | cons c letters =>
    refine ⟨c, letters ++ ("(" ++ e.fields ++ e.ending more).toList, ?_, ?_⟩
    · exact h.isAlpha_kind c (hkind ▸ List.mem_cons_self)
    · simp [headline, hkind]

theorem shows_headline (level : Nat) (more : Bool) {e : Expr} (h : e.Readable) :
    Shows (headline level more e) (level, e) := by
  obtain ⟨c, rest, hc, hline⟩ := exists_headline level more h
  refine ⟨⟨more, rfl⟩, ?_⟩
  rw [hline, takeWhile_indentation level (by rintro rfl; cases hc)]

theorem isClosing_headline (level : Nat) (more : Bool) {e : Expr} (h : e.Readable) :
    isClosing (headline level more e) = false := by
  obtain ⟨c, rest, hc, hline⟩ := exists_headline level more h
  rw [isClosing, hline, dropWhile_indentation level (by rintro rfl; cases hc), ← Bool.not_eq_true,
    List.contains_iff_mem]
  intro hmem
  have hbracket : (String.ofList (c :: rest)).toList.head? = some ']' := by
    rcases List.mem_pair.1 hmem with h | h
    · simp [h]
    · simp [h]
  obtain rfl : c = ']' := by simpa using hbracket
  cases hc

theorem isClosing_closing (level : Nat) (more : Bool) : isClosing (closing level more) = true := by
  have hline : (closing level more).toList =
      (indentation level).toList ++ ']' :: (")" ++ comma more).toList := by
    simp [closing]
  rw [isClosing, hline, dropWhile_indentation level (by decide)]
  cases more <;> rfl

def nodeLines (lines : List String) : List String := lines.filter fun line => !isClosing line

theorem forall₂_shows_listings {level : Nat} {es : List Expr}
    (h : ∀ e ∈ es, ∀ more, List.Forall₂ Shows (nodeLines (e.listing level more)) (e.placed level)) :
    List.Forall₂ Shows (nodeLines (listings level es)) (es.flatMap (placed level)) := by
  induction es with
  | nil => exact .nil
  | cons e others ih =>
    obtain ⟨he, hothers⟩ := List.forall_mem_cons.1 h
    rw [listings, nodeLines, List.filter_append, List.flatMap_cons]
    exact List.rel_append (he _) (ih hothers)

theorem forall₂_shows (level : Nat) (more : Bool) {e : Expr} (h : e.Readable) :
    List.Forall₂ Shows (nodeLines (e.listing level more)) (e.placed level) := by
  induction e using induction_children generalizing level more with
  | node e ih =>
    have hchildren := forall₂_shows_listings fun c hc more =>
      ih c hc (level + 1) more (h.children c hc)
    have hblock : nodeLines (block level more e.children) =
        nodeLines (listings (level + 1) e.children) := by
      cases e.children with
      | nil => rfl
      | cons c others => simp [block, nodeLines, isClosing_closing]
    rw [listing_eq, placed_eq, nodeLines, List.filter_cons_of_pos (by simp [isClosing_headline, h])]
    refine .cons (shows_headline level more h) ?_
    rw [← nodeLines, hblock]
    exact hchildren

end Lines

end Expr

section Parsed

namespace Binary64

theorem readNumber?_toText_eq (x : Binary64) :
    readNumber? x.toText = if x.isFinite then some x else none := by
  cases x with
  | finite negative rank => exact readNumber?_toText rfl
  | infinite negative => cases negative <;> decide +kernel
  | nan => decide +kernel

theorem toText_injective {x y : Binary64} (h : x.toText = y.toText) : x = y := by
  have hread := readNumber?_toText_eq x
  rw [h, readNumber?_toText_eq y] at hread
  cases x with
  | finite negative rank =>
    cases y with
    | finite negative' rank' => exact (Option.some.inj hread).symm
    | _ => cases hread
  | infinite negative =>
    cases y with
    | finite negative' rank' => cases hread
    | infinite negative' => cases negative <;> cases negative' <;> simp [toText, signText] at h ⊢
    | nan => cases negative <;> simp [toText, signText] at h
  | nan =>
    cases y with
    | finite negative' rank' => cases hread
    | infinite negative' => cases negative' <;> simp [toText, signText] at h
    | nan => rfl

theorem one_line_toText (x : Binary64) : '\n' ∉ x.toText.toList := by
  cases hx : x.isFinite with
  | true =>
    obtain ⟨literal, hread, -⟩ := Option.map_eq_some_iff.1 (readNumber?_toText hx)
    exact NumberLiteral.one_line_of_read? hread
  | false =>
    cases x with
    | finite negative rank => cases hx
    | infinite negative => cases negative <;> simp [toText, signText]
    | nan => simp [toText]

end Binary64

/-- The number literals of texts. -/
def Value.IsFloat (v : Value) : Prop := ∃ x, v = .float x

theorem writtenApart_isFloat : WrittenApart Value.IsFloat where
  eq_of_inspect := by
    rintro _ _ ⟨x, rfl⟩ ⟨y, rfl⟩ h
    rw [Binary64.toText_injective h]
  one_line := by
    rintro _ ⟨x, rfl⟩
    exact x.one_line_toText

theorem classify_listable {word : String} (hword : IsWord word) {source : Value} {offset : Int}
    {t : Token} (h : classify word source offset = .ok t) : t.symbol.Listable Value.IsFloat := by
  rcases classify_cases h with ⟨x, -, rfl⟩ | ⟨k, -, rfl⟩ | ⟨digits, n, -, rfl⟩ | rfl
  · exact ⟨x, rfl⟩
  · trivial
  · exact ⟨n, rfl⟩
  · exact ⟨word, rfl, fun hmem => absurd (hword.unbroken _ hmem) (by decide)⟩

theorem Expr.Listable.of_parse [Machine] {source : String} {tokens : List Token} {tree : Expr}
    (htokens : tokenize source = .ok tokens) (hparse : parse tokens = .ok tree) :
    tree.Listable Value.IsFloat := by
  refine ⟨(Grammar.parse_sound hparse).2.2.readable,
    Grammar.forall_symbols_of_parse hparse fun t ht => ?_⟩
  obtain ⟨w, hw, ht⟩ := Outcome.mem_of_mapM htokens ht
  have hword : w.text ∈ words (cutBefore commentMark source) := List.mem_map_of_mem hw
  exact classify_listable (isWord_of_mem hword).1 ht

end Parsed

namespace Expr

/-- Displayed trees are unambiguous. A tree of expressions whose values can all be written is
displayed exactly if it is not too high. Trees that are displayed alike are the same, as far as
their literals are told apart by how they are written, which number literals are; all trees read
from texts are of this sort. The lines that do not close a list of children show the nodes of the
walk, one each, four spaces in for each level. -/
theorem display_unambiguous [Machine] :
    (∀ e : Expr, e.Readable → (∀ s ∈ e.symbols, ∀ room, s.value.unwritable? room = none) →
      ((∃ text, e.display = .ok text) ↔ e.height ≤ nestingLimit)) ∧
    (∀ literals, WrittenApart literals →
      (∀ a b : Expr, a.Listable literals → b.Listable literals →
        ∀ text, a.display = .ok text → b.display = .ok text → a = b) ∧
      ∀ e : Expr, e.Listable literals → ∀ text, e.display = .ok text →
        (e.placed 0).map Prod.snd = e.walk ∧
        List.Forall₂ Shows (nodeLines (textLines text)) (e.placed 0)) ∧
    WrittenApart Value.IsFloat ∧
    ∀ source tokens tree, tokenize source = .ok tokens → parse tokens = .ok tree →
      tree.Listable Value.IsFloat := by
  refine ⟨fun e hread hwritable => ?_, fun literals hliterals => ⟨?_, ?_⟩, writtenApart_isFloat,
    fun _ _ _ => .of_parse⟩
  · constructor
    · rintro ⟨text, h⟩
      exact (listing_of_displayAt h).1
    · intro h
      exact ⟨_, displayAt_of_height_le 0 hread hwritable h⟩
  · intro a b ha hb text hta htb
    obtain ⟨-, rfl⟩ := listing_of_displayAt hta
    obtain ⟨-, htext⟩ := listing_of_displayAt htb
    have hlines := congrArg textLines htext
    rw [textLines_joined (ha.one_line_listing hliterals 0 false) (listing_ne_nil 0 false a),
      textLines_joined (hb.one_line_listing hliterals 0 false) (listing_ne_nil 0 false b)] at hlines
    exact (ha.readOff hliterals hb (congrArg (· ++ []) hlines)).1
  · intro e he text htext
    obtain ⟨-, rfl⟩ := listing_of_displayAt htext
    rw [textLines_joined (he.one_line_listing hliterals 0 false) (listing_ne_nil 0 false e)]
    exact ⟨map_placed 0 e, forall₂_shows 0 false he.readable⟩

section StandardMachine

attribute [local instance] Machine.standard

/-- Names that look like a list of children and like the end of a line. -/
theorem display_unambiguous_brackets :
    ∃ tokens tree, tokenize "let a',nodes=[ b'), in $1" = .ok tokens ∧ parse tokens = .ok tree ∧
      tree.display = .ok
        "Let(name='a',nodes=[', nodes=[\n    IdentifierRef(name='b'),'),\n    ArgumentRef(index=1)\n])" ∧
      (∀ other : Expr, other.Listable Value.IsFloat → other.display = tree.display → other = tree) ∧
      List.Forall₂ Shows
        ["Let(name='a',nodes=[', nodes=[", "    IdentifierRef(name='b'),'),",
          "    ArgumentRef(index=1)"] (tree.placed 0) := by
  let tokens : List Token :=
    [⟨.keyword .letWord, "let"⟩, ⟨.name (.text "a',nodes=["), "a',nodes=["⟩,
    ⟨.name (.text "b'),"), "b'),"⟩, ⟨.keyword .inWord, "in"⟩, ⟨.placeholder (.int 1), "$1"⟩]
  let tree : Expr := .letIn (.text "a',nodes=[") (.name (.text "b'),")) (.argument (.int 1))
  let text :=
    "Let(name='a',nodes=[', nodes=[\n    IdentifierRef(name='b'),'),\n    ArgumentRef(index=1)\n])"
  have htokens : tokenize "let a',nodes=[ b'), in $1" = .ok tokens := by decide +kernel
  have hparse : parse tokens = .ok tree := by decide +kernel
  have htext : tree.display = .ok text := by decide +kernel
  obtain ⟨-, hread, hfloats, hparsed⟩ := display_unambiguous
  have htree := hparsed _ _ _ htokens hparse
  obtain ⟨hunique, hlines⟩ := hread _ hfloats
  refine ⟨tokens, tree, htokens, hparse, htext, fun other hother hsame => ?_, ?_⟩
  · exact hunique other tree hother htree text (hsame.trans htext) htext
  · have hnodes : nodeLines (textLines text) = ["Let(name='a',nodes=[', nodes=[",
        "    IdentifierRef(name='b'),'),", "    ArgumentRef(index=1)"] := by decide +kernel
    rw [← hnodes]
    exact (hlines tree htree text htext).2

end StandardMachine

end Expr

end CurryCalc
