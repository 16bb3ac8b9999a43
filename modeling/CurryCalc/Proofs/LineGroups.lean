import CurryCalc.Proofs.Trimming
import CurryCalc.Script
import Mathlib.Data.List.Forall2
import Mathlib.Data.List.SplitBy

/-! Continued lines of a file. Lines belong together up to the first that is not continued, and each
such group with any text is meant to be one statement. It is, unless a group with text after the
first one opens with a blank line: its text goes to the statement before. -/
namespace CurryCalc

/-- Lines that belong together, with their numbers. -/
abbrev LineGroup := List (SourceLine × Nat)

def sourceLines (lines : List String) : List (SourceLine × Nat) :=
  (lines.map SourceLine.read).zipIdx 1

/-- The longest groups in which every line but the last is continued. -/
def lineGroups (lines : List String) : List LineGroup :=
  (sourceLines lines).splitBy fun line _ => line.1.continued

namespace LineGroup

def words (group : LineGroup) : List String := group.flatMap fun line => CurryCalc.words line.1.text

def hasText (group : LineGroup) : Bool := !group.words.isEmpty

def opensWithText (group : LineGroup) : Bool :=
  group.head?.any fun line => !(CurryCalc.words line.1.text).isEmpty

/-- A statement has the words of a group, and the number of one of its lines. -/
def Makes (group : LineGroup) (statement : List String × Nat) : Prop :=
  statement.1 = group.words ∧ ∃ line ∈ group, line.2 = statement.2

theorem words_cons (line : SourceLine × Nat) (more : LineGroup) :
    LineGroup.words (line :: more) = CurryCalc.words line.1.text ++ LineGroup.words more :=
  List.flatMap_cons

theorem hasText_iff {group : LineGroup} : group.hasText = true ↔ group.words ≠ [] := by
  simp [hasText]

theorem opensWithText_cons {line : SourceLine × Nat} {more : LineGroup} :
    opensWithText (line :: more) = true ↔ CurryCalc.words line.1.text ≠ [] := by
  simp [opensWithText]

theorem hasText_of_opensWithText {group : LineGroup} (h : group.opensWithText = true) :
    group.hasText = true := by
  cases group with
  | nil => cases h
  | cons line more => simp [hasText_iff, words_cons, opensWithText_cons.1 h]

end LineGroup

def ScriptEntry.view (entry : ScriptEntry) : List String × Nat := (words entry.text, entry.number)

def statementGroups (lines : List String) : List LineGroup :=
  (lineGroups lines).filter LineGroup.hasText

/-- Each group of lines with any text is one statement, and no other group has a part in it. -/
def JoinsByGroup (lines : List String) : Prop :=
  List.Forall₂ LineGroup.Makes (statementGroups lines) ((readScript lines).map ScriptEntry.view)

section Lines

variable {entries : List ScriptEntry} {number : Nat} {line : SourceLine}

theorem addSourceLine_goesOn (entries : List ScriptEntry) (last : ScriptEntry) (number : Nat)
    (line : SourceLine) : addSourceLine (entries ++ [last]) true number line =
      entries ++ [⟨last.text ++ " " ++ trim line.text, last.number⟩] := by
  have hlast : (entries ++ [last]).getLast? = some last := List.getLast?_concat
  unfold addSourceLine
  split
  next other hother =>
    rw [hlast] at hother
    cases hother
    rw [List.dropLast_concat]
  next hnone => exact (hnone last rfl hlast).elim

theorem addSourceLine_starts (afterContinued : Bool) (h : afterContinued = true → entries = []) :
    addSourceLine entries afterContinued number line =
      if words line.text = [] then entries else entries ++ [⟨trim line.text, number⟩] := by
  unfold addSourceLine
  split
  next last hlast =>
    rw [h rfl] at hlast
    cases hlast
  next => simp only [trim_isEmpty_iff]

theorem view_goesOn (last : ScriptEntry) (line : SourceLine) :
    ScriptEntry.view ⟨last.text ++ " " ++ trim line.text, last.number⟩ =
      (last.view.1 ++ words line.text, last.view.2) := by
  simp [ScriptEntry.view, words_join]

theorem view_starts (line : SourceLine) (number : Nat) :
    ScriptEntry.view ⟨trim line.text, number⟩ = (words line.text, number) := by
  simp [ScriptEntry.view]

/-- Whatever a line does, its words come after all words before it. -/
theorem addSourceLine_words (entries : List ScriptEntry) (afterContinued : Bool) (number : Nat)
    (line : SourceLine) :
    (addSourceLine entries afterContinued number line).flatMap (words ·.text) =
      entries.flatMap (words ·.text) ++ words line.text := by
  by_cases h : afterContinued = true → entries = []
  · rw [addSourceLine_starts afterContinued h]
    split
    next hblank => simp [hblank]
    next => simp
  · obtain ⟨rfl, hne⟩ := not_forall.1 h
    obtain ⟨front, last, rfl⟩ := List.eq_nil_or_concat entries |>.resolve_left hne
    simp [addSourceLine_goesOn, words_join]

theorem readScriptFrom_words (lines : List String) (number : Nat) (afterContinued : Bool)
    (entries : List ScriptEntry) :
    (readScriptFrom number afterContinued entries lines).flatMap (words ·.text) =
      entries.flatMap (words ·.text) ++ lines.flatMap fun raw =>
      words (SourceLine.read raw).text := by
  induction lines generalizing number afterContinued entries with
  | nil => simp [readScriptFrom]
  | cons raw lines ih =>
    simp only [readScriptFrom, ih, addSourceLine_words, List.flatMap_cons, List.append_assoc]

end Lines

section Groups

def joinFrom (afterContinued : Bool) (entries : List ScriptEntry) :
    List (SourceLine × Nat) → List ScriptEntry
  | [] => entries
  | line :: rest =>
      joinFrom line.1.continued (addSourceLine entries afterContinued line.2 line.1) rest

def goOn (entries : List ScriptEntry) (lines : List (SourceLine × Nat)) : List ScriptEntry :=
  lines.foldl (fun entries line => addSourceLine entries true line.2 line.1) entries

theorem goOn_cons (entries : List ScriptEntry) (line : SourceLine × Nat) (more : LineGroup) :
    goOn entries (line :: more) = goOn (addSourceLine entries true line.2 line.1) more :=
  List.foldl_cons

def addGroup (entries : List ScriptEntry) : LineGroup → List ScriptEntry
  | [] => entries
  | line :: more => goOn (addSourceLine entries false line.2 line.1) more

theorem readScriptFrom_eq (lines : List String) (number : Nat) (afterContinued : Bool)
    (entries : List ScriptEntry) : readScriptFrom number afterContinued entries lines =
      joinFrom afterContinued entries ((lines.map SourceLine.read).zipIdx number) := by
  induction lines generalizing number afterContinued entries with
  | nil => rfl
  | cons raw lines ih => simp only [readScriptFrom, List.map_cons, List.zipIdx_cons, joinFrom, ih]

/-- All lines of a group but the first go on with the statement before them. -/
theorem joinFrom_append {first : SourceLine × Nat} {more : List (SourceLine × Nat)}
    (h : (first :: more).IsChain fun line _ => line.1.continued) (afterContinued : Bool)
    (entries : List ScriptEntry) (rest : List (SourceLine × Nat)) :
    joinFrom afterContinued entries (first :: more ++ rest) =
      joinFrom ((first :: more).getLast (List.cons_ne_nil first more)).1.continued
        (goOn (addSourceLine entries afterContinued first.2 first.1) more) rest := by
  induction more generalizing first afterContinued entries with
  | nil => rfl
  | cons second more ih =>
    obtain ⟨hfirst, hmore⟩ := List.isChain_cons_cons.1 h
    have hlater := ih hmore true (addSourceLine entries afterContinued first.2 first.1)
    rw [List.cons_append, joinFrom, hfirst, hlater, goOn_cons]
    rfl

theorem joinFrom_flatten {groups : List LineGroup} (hne : [] ∉ groups)
    (hwithin : ∀ group ∈ groups, group.IsChain fun line _ => line.1.continued)
    (hbetween : groups.IsChain fun group next => ∃ (hg : group ≠ []) (_ : next ≠ []),
      (group.getLast hg).1.continued = false)
    (entries : List ScriptEntry) :
    joinFrom false entries groups.flatten = groups.foldl addGroup entries := by
  induction groups generalizing entries with
  | nil => rfl
  | cons group groups ih =>
    obtain ⟨hgroup, hrest⟩ := not_or.1 (mt List.mem_cons.2 hne)
    obtain ⟨hchain, hlater⟩ := List.forall_mem_cons.1 hwithin
    obtain ⟨first, more, rfl⟩ := List.exists_cons_of_ne_nil (Ne.symm hgroup)
    rw [List.flatten_cons, joinFrom_append hchain, List.foldl_cons]
    cases groups with
    | nil => rfl
    | cons next groups =>
      obtain ⟨⟨_, _, hends⟩, hbetween⟩ := List.isChain_cons_cons.1 hbetween
      rw [hends]
      exact ih hrest hlater hbetween _

theorem readScript_eq (lines : List String) :
    readScript lines = (lineGroups lines).foldl addGroup [] := by
  rw [readScript, readScriptFrom_eq, ← joinFrom_flatten, lineGroups, List.flatten_splitBy]
  · rfl
  · exact List.nil_notMem_splitBy _ _
  · exact fun group => List.isChain_of_mem_splitBy
  · exact List.isChain_getLast_head_splitBy (fun line _ => line.1.continued) (sourceLines lines)

theorem goOn_eq (front : List ScriptEntry) (last : ScriptEntry) (more : LineGroup) :
    ∃ last', goOn (front ++ [last]) more = front ++ [last'] ∧
      last'.view = (last.view.1 ++ more.words, last.view.2) := by
  induction more generalizing last with
  | nil => exact ⟨last, rfl, by simp [LineGroup.words]⟩
  | cons line more ih =>
    obtain ⟨last', heq, hview⟩ := ih ⟨last.text ++ " " ++ trim line.1.text, last.number⟩
    refine ⟨last', ?_, ?_⟩
    · rw [goOn_cons, addSourceLine_goesOn, heq]
    · rw [hview, view_goesOn, LineGroup.words_cons, List.append_assoc]

theorem addGroup_of_opensWithText {group : LineGroup} (h : group.opensWithText = true)
    (entries : List ScriptEntry) :
    ∃ entry, addGroup entries group = entries ++ [entry] ∧ group.Makes entry.view := by
  cases group with
  | nil => cases h
  | cons line more =>
    have htext := LineGroup.opensWithText_cons.1 h
    obtain ⟨entry, heq, hview⟩ := goOn_eq entries ⟨trim line.1.text, line.2⟩ more
    refine ⟨entry, ?_, ?_⟩
    · rw [addGroup, addSourceLine_starts false nofun, if_neg htext, heq]
    · rw [hview, view_starts]
      exact ⟨(LineGroup.words_cons line more).symm, line, List.mem_cons_self, rfl⟩

/-- The text of a group that opens with a blank line goes to the statement before it. -/
theorem addGroup_of_opensBlank {group : LineGroup} (h : group.opensWithText = false)
    (front : List ScriptEntry) (last : ScriptEntry) :
    ∃ last', addGroup (front ++ [last]) group = front ++ [last'] ∧
      last'.view = (last.view.1 ++ group.words, last.view.2) := by
  cases group with
  | nil => exact ⟨last, rfl, by simp [LineGroup.words]⟩
  | cons line more =>
    have hblank : words line.1.text = [] := by
      by_contra hne
      rw [LineGroup.opensWithText_cons.2 hne] at h
      cases h
    obtain ⟨last', heq, hview⟩ := goOn_eq front last more
    refine ⟨last', ?_, ?_⟩
    · rw [addGroup, addSourceLine_starts false nofun, if_pos hblank, heq]
    · rw [hview, LineGroup.words_cons, hblank, List.nil_append]

/-- Before there is any statement, lines are skipped up to the first with text, which starts one. -/
theorem goOn_nil (more : LineGroup) :
    (more.words = [] ∧ goOn [] more = []) ∨
      more.words ≠ [] ∧ ∃ entry, goOn [] more = [entry] ∧ more.Makes entry.view := by
  induction more with
  | nil => exact .inl ⟨rfl, rfl⟩
  | cons line more ih =>
    rw [goOn_cons, addSourceLine_starts true fun _ => rfl, LineGroup.words_cons]
    by_cases hblank : words line.1.text = []
    · rw [if_pos hblank, hblank, List.nil_append]
      rcases ih with hnone | ⟨hne, entry, heq, hwords, other, hother, hnumber⟩
      · exact .inl hnone
      · refine .inr ⟨hne, entry, heq, ?_, other, List.mem_cons_of_mem line hother, hnumber⟩
        rw [LineGroup.words_cons, hblank, hwords, List.nil_append]
    · rw [if_neg hblank]
      obtain ⟨entry, heq, hview⟩ := goOn_eq [] ⟨trim line.1.text, line.2⟩ more
      refine .inr ⟨by simp [hblank], entry, heq, ?_⟩
      rw [hview, view_starts]
      exact ⟨(LineGroup.words_cons line more).symm, line, List.mem_cons_self, rfl⟩

/-- The first group with text makes a statement, whichever of its lines has text. -/
theorem addGroup_nil (group : LineGroup) :
    (group.hasText = false ∧ addGroup [] group = []) ∨
      group.hasText = true ∧ ∃ entry, addGroup [] group = [entry] ∧ group.Makes entry.view := by
  have hfirst : addGroup [] group = goOn [] group := by
    cases group with
    | nil => rfl
    | cons line more =>
      rw [addGroup, goOn_cons, addSourceLine_starts false nofun,
        addSourceLine_starts true fun _ => rfl]
  rw [hfirst]
  rcases goOn_nil group with ⟨hwords, hnone⟩ | ⟨hne, hmakes⟩
  · exact .inl ⟨by simp [LineGroup.hasText, hwords], hnone⟩
  · exact .inr ⟨LineGroup.hasText_iff.2 hne, hmakes⟩

/-- Groups after the first one with text make as many statements as there are groups among them that
open with text. -/
theorem foldl_addGroup_length (groups : List LineGroup) (front : List ScriptEntry)
    (last : ScriptEntry) : (groups.foldl addGroup (front ++ [last])).length =
      (front ++ [last]).length + (groups.filter LineGroup.opensWithText).length := by
  induction groups generalizing front last with
  | nil => rfl
  | cons group groups ih =>
    rw [List.foldl_cons]
    cases hopens : group.opensWithText with
    | true =>
      obtain ⟨entry, heq, -⟩ := addGroup_of_opensWithText hopens (front ++ [last])
      rw [heq, ih, List.filter_cons_of_pos hopens]
      simp only [List.length_append, List.length_cons, List.length_nil]
      omega
    | false =>
      obtain ⟨last', heq, -⟩ := addGroup_of_opensBlank hopens front last
      rw [heq, ih, List.filter_cons_of_neg (by simp [hopens])]
      simp

/-- Groups after the first one with text make statements of their own if all of them that have text
open with it. -/
theorem foldl_addGroup_makes (groups : List LineGroup) (front : List ScriptEntry)
    (last : ScriptEntry)
    (hopen : ∀ group ∈ groups.filter LineGroup.hasText, group.opensWithText = true) :
    ∃ statements, (groups.foldl addGroup (front ++ [last])).map ScriptEntry.view =
        (front ++ [last]).map ScriptEntry.view ++ statements ∧
      List.Forall₂ LineGroup.Makes (groups.filter LineGroup.hasText) statements := by
  induction groups generalizing front last with
  | nil => exact ⟨[], (List.append_nil _).symm, .nil⟩
  | cons group groups ih =>
    rw [List.foldl_cons]
    cases htext : group.hasText with
    | true =>
      rw [List.filter_cons_of_pos htext] at hopen ⊢
      obtain ⟨hopens, hlater⟩ := List.forall_mem_cons.1 hopen
      obtain ⟨entry, heq, hmakes⟩ := addGroup_of_opensWithText hopens (front ++ [last])
      obtain ⟨statements, hviews, hall⟩ := ih (front ++ [last]) entry hlater
      refine ⟨entry.view :: statements, ?_, .cons hmakes hall⟩
      rw [heq, hviews]
      simp
    | false =>
      rw [List.filter_cons_of_neg (by simp [htext])] at hopen ⊢
      have hopens : group.opensWithText = false := by
        by_contra hopens
        rw [LineGroup.hasText_of_opensWithText (by simpa using hopens)] at htext
        cases htext
      have hwords : group.words = [] := by simpa [LineGroup.hasText] using htext
      obtain ⟨last', heq, hview⟩ := addGroup_of_opensBlank hopens front last
      obtain ⟨statements, hviews, hall⟩ := ih front last' hopen
      refine ⟨statements, ?_, hall⟩
      rw [hwords, List.append_nil] at hview
      rw [heq, hviews]
      simp [hview]

theorem foldl_addGroup_nil (groups : List LineGroup) :
    (groups.filter LineGroup.hasText = [] ∧ groups.foldl addGroup [] = []) ∨
      ∃ (first : LineGroup) (rest : List LineGroup) (entry : ScriptEntry),
        groups.filter LineGroup.hasText = first :: rest.filter LineGroup.hasText ∧
        groups.foldl addGroup [] = rest.foldl addGroup [entry] ∧ first.Makes entry.view := by
  induction groups with
  | nil => exact .inl ⟨rfl, rfl⟩
  | cons group groups ih =>
    rw [List.foldl_cons]
    rcases addGroup_nil group with ⟨htext, hnone⟩ | ⟨htext, entry, heq, hmakes⟩
    · rw [hnone, List.filter_cons_of_neg (by simp [htext])]
      exact ih
    · rw [heq, List.filter_cons_of_pos htext]
      exact .inr ⟨group, groups, entry, rfl, rfl, hmakes⟩

end Groups

/-- All words of a file get into its statements, in their order. Each group of lines with any text
is a statement of its own exactly if every such group after the first opens with a line that has
text. -/
theorem readScript_joins_groups_iff (lines : List String) :
    (readScript lines).flatMap (words ·.text) =
      lines.flatMap (fun raw => words (SourceLine.read raw).text) ∧
    (JoinsByGroup lines ↔
      ∀ group ∈ (statementGroups lines).tail, group.opensWithText = true) := by
  refine ⟨readScriptFrom_words lines 1 false [], ?_⟩
  unfold JoinsByGroup statementGroups
  rw [readScript_eq]
  rcases foldl_addGroup_nil (lineGroups lines) with ⟨hnone, hempty⟩ |
    ⟨first, rest, entry, hgroups, hentries, hmakes⟩
  · simp [hnone, hempty]
  rw [hgroups, hentries, List.tail_cons]
  constructor
  · intro hjoined
    have hopening : rest.filter LineGroup.opensWithText =
        (rest.filter LineGroup.hasText).filter LineGroup.opensWithText := by
      rw [List.filter_filter]
      congr 1
      funext group
      cases hopens : group.opensWithText with
      | false => rfl
      | true => exact (LineGroup.hasText_of_opensWithText hopens).symm
    have hcount := hjoined.length_eq
    rw [List.length_map, ← List.nil_append [entry], foldl_addGroup_length, hopening,
      List.length_cons, List.length_append, List.length_cons, List.length_nil] at hcount
    exact List.length_filter_eq_length_iff.1 (by omega)
  · intro hopen
    obtain ⟨statements, hviews, hall⟩ := foldl_addGroup_makes rest [] entry hopen
    rw [← List.nil_append [entry], hviews]
    exact .cons hmakes hall

/-- The second of two definitions comes after a line that holds nothing but the mark of
continuation: it goes to the statement of the first. -/
theorem stray_group_joins_previous :
    readScript ["x := 1", "\\", "y := 2"] = [⟨"x := 1 y := 2", 1⟩] ∧
      (statementGroups ["x := 1", "\\", "y := 2"]).map LineGroup.words =
        [["x", ":=", "1"], ["y", ":=", "2"]] ∧
      ¬ JoinsByGroup ["x := 1", "\\", "y := 2"] := by
  refine ⟨by decide +kernel, by decide +kernel, fun h => ?_⟩
  exact absurd h.length_eq (by decide +kernel)

end CurryCalc
