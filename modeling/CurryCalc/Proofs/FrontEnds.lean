import CurryCalc.Proofs.BuilderCache
import CurryCalc.Proofs.CanonicalSource
import CurryCalc.Proofs.WordRules

/-! Texts and builders. Names can be written as one text with blank characters between them, or
added to a builder, one at a time or several together. Both are read as the same tokens and called
with the same outcome, and both are refused for the first name that cannot be read. -/
namespace CurryCalc

section Texts

structure IsPlainWord (w : String) : Prop extends IsWord w where
  uncommented : ¬ commentMark.toList <:+: w.toList

theorem findOffset?_isNone_iff {s part : String} (hpart : part.toList ≠ []) :
    (findOffset? s part).isNone = true ↔ ¬ part.toList <:+: s.toList := by
  rcases firstOffset?_cases hpart 0 s.toList with ⟨hnone, hnot⟩ | ⟨front, back, hfound, hs, -⟩
  · simp [findOffset?, hnone, hnot]
  · have hoccurs : part.toList <:+: s.toList := ⟨front, back, by rw [hs, List.append_assoc]⟩
    simp [findOffset?, hfound, hoccurs]

instance (w : String) : Decidable (IsPlainWord w) :=
  decidable_of_iff (IsWord w ∧ (findOffset? w commentMark).isNone = true)
    ⟨fun h => ⟨h.1, (findOffset?_isNone_iff (by decide)).1 h.2⟩,
      fun h => ⟨h.toIsWord, (findOffset?_isNone_iff (by decide)).2 h.uncommented⟩⟩

/-- Names in their order, with blank characters between them and maybe at the end. -/
inductive Joined : List String → String → Prop
  | none : Joined [] ""
  | last (w : String) : Joined [w] w
  | next {w gap rest : String} {ws : List String} :
      gap.toList ≠ [] → (∀ c ∈ gap.toList, isBlank c) →
      Joined ws rest → Joined (w :: ws) (w ++ gap ++ rest)

variable {names : List String} {text : String}

theorem Joined.words_eq (h : Joined names text) (hnames : ∀ w ∈ names, IsWord w) :
    words text = names := by
  induction h with
  | none => rfl
  | last w => exact (hnames w List.mem_cons_self).words_eq
  | @next w gap rest ws hne hgap _ ih =>
    obtain ⟨hw, hws⟩ := List.forall_mem_cons.1 hnames
    have hblank : ∀ c more, gap.toList ++ rest.toList = c :: more → isBlank c := by
      intro c more hcons
      obtain ⟨b, blanks, hb⟩ := List.exists_cons_of_ne_nil hne
      rw [hb, List.cons_append] at hcons
      obtain ⟨rfl, -⟩ := List.cons.inj hcons
      exact hgap b (hb ▸ List.mem_cons_self)
    rw [CurryCalc.words_eq, toList_append_append,
      wordsOf_append_word hw.nonempty hw.unbroken hblank, wordsOf_append_blank hgap,
      String.ofList_toList, ← CurryCalc.words_eq, ih hws]

theorem Joined.cutBefore_eq (h : Joined names text) (hnames : ∀ w ∈ names, IsPlainWord w) :
    cutBefore commentMark text = text := by
  have hplain : ¬ commentMark.toList <:+: text.toList := by
    intro hmark
    have hword : IsWord commentMark := by decide
    obtain ⟨w, hw, hin⟩ := occurs_in_word hword.nonempty hword.unbroken hmark
    rw [h.words_eq fun w hw => (hnames w hw).toIsWord] at hw
    exact (hnames w hw).uncommented hin
  apply String.toList_injective
  rw [cutBefore_toList (by decide), cutList_of_not_occurs hplain]

theorem Joined.readTokens_eq (h : Joined names text) (hnames : ∀ w ∈ names, IsPlainWord w) :
    readTokens text = names.mapM readWord := by
  rw [CurryCalc.readTokens_eq, h.cutBefore_eq hnames, h.words_eq fun w hw => (hnames w hw).toIsWord]

end Texts

section Refusals

theorem readIndex?_cases (digits : List Char) :
    (∃ index, readIndex? digits = .ok index) ∨ ∃ n, readIndex? digits = .error (.longIndex n) := by
  unfold readIndex?
  split
  · exact .inl ⟨_, rfl⟩
  · split
    · exact .inr ⟨_, rfl⟩
    · exact .inl ⟨_, rfl⟩

/-- A word that can be read: neither malformed nor with an index too long to be converted. -/
def IsLegible (w : String) : Prop := ¬ IsMalformed w ∧ ¬ IsOverlong w

instance (w : String) : Decidable (IsLegible w) := inferInstanceAs (Decidable (_ ∧ _))

variable {names : List String} {text : String}

/-- A text is read if all its names can be, each by the rules for a word. -/
theorem Joined.tokenize_legible (h : Joined names text) (hnames : ∀ w ∈ names, IsPlainWord w)
    (hlegible : ∀ w ∈ names, IsLegible w) :
    ∃ tokens, tokenize text = .ok tokens ∧ List.Forall₂ ReadsAs names tokens := by
  have hwords : (wordsAt text).map Word.text = names :=
    h.words_eq fun w hw => (hnames w hw).toIsWord
  have hread :
      ∀ w ∈ wordsAt text, ∃ t, classify w.text text w.offset = .ok t ∧ ReadsAs w.text t := by
    intro w hw
    obtain ⟨hwell, hshort⟩ := hlegible w.text (hwords ▸ List.mem_map_of_mem hw)
    exact classify_readsAs hwell hshort text w.offset
  obtain ⟨tokens, htokens, hreads⟩ := Outcome.mapM_forall₂ hread
  refine ⟨tokens, ?_, ?_⟩
  · rw [tokenize, h.cutBefore_eq hnames]
    exact htokens
  · rw [← hwords]
    exact List.forall₂_map_left_iff.2 hreads

/-- A text is refused for the first name that cannot be read, at the place where it stands. -/
theorem Joined.tokenize_refused (h : Joined names text) (hnames : ∀ w ∈ names, IsPlainWord w)
    {before after : List String} {v : String} (hsplit : names = before ++ v :: after)
    (hbefore : ∀ w ∈ before, IsLegible w) : ∃ offset : Nat, IsRun text ⟨offset, v⟩ ∧
      ∀ f, classify v text offset = .error f → tokenize text = .error f := by
  have hwords : (wordsAt text).map Word.text = before ++ v :: after :=
    hsplit ▸ h.words_eq fun w hw => (hnames w hw).toIsWord
  obtain ⟨front, back, hat, hfront, hback⟩ := List.map_eq_append_iff.1 hwords
  obtain ⟨⟨offset, v⟩, more, rfl, rfl, -⟩ := List.map_eq_cons_iff.1 hback
  refine ⟨offset, ((runsOf_wordsAt text).mem_iff _).1 (by simp [hat]), fun f hf => ?_⟩
  have hfirst : ∀ w ∈ front, ∃ t, classify w.text text w.offset = .ok t := by
    intro w hw
    obtain ⟨hwell, hshort⟩ := hbefore w.text (hfront ▸ List.mem_map_of_mem hw)
    obtain ⟨t, ht, -⟩ := classify_readsAs hwell hshort text w.offset
    exact ⟨t, ht⟩
  rw [tokenize, h.cutBefore_eq hnames, hat]
  exact Outcome.mapM_of_first hfirst hf

theorem readWord_eq (w : String) : readWord w = classify w .nothing 0 := by
  rw [readWord, classify_eq]
  cases readNumber? w with
  | some x => rfl
  | none =>
    cases Keyword.ofWord? w with
    | some k => rfl
    | none =>
      dsimp only
      split
      next digits hw =>
        rcases readIndex?_cases digits with ⟨index, hread⟩ | ⟨n, hread⟩
        · rw [hread]
          cases index <;> rfl
        · rw [hread]
          rfl
      · rfl

end Refusals

namespace Workbench

def ownNames : List String := [tokensName, compiledName, extendName]

inductive Link where
  | word (name : String)
  | value (name : String)
  | values (names : List String)
deriving DecidableEq, Repr

namespace Link

def step (on : Nat) : Link → BuildStep
  | .word name => .word on name
  | .value name => .values on [.text name] false
  | .values names => .values on (names.map .text) true

/-- The names that a link adds. A reserved word may have an underscore after it, so that a name
which looks like that is given as a value. -/
inductive Adds : Link → List String → Prop
  | word {w : String} : isSpecialName w = false → w ∉ ownNames →
      (∀ k ∈ Keyword.all, w ≠ k.word ++ "_") → Adds (.word w) [w]
  | reserved {k : Keyword} : k ∈ Keyword.all → Adds (.word (k.word ++ "_")) [k.word]
  | value (w : String) : Adds (.value w) [w]
  | values (ws : List String) : Adds (.values ws) ws

end Link

def ChainAdds (links : List Link) (names : List String) : Prop :=
  ∃ groups, List.Forall₂ Link.Adds links groups ∧ groups.flatten = names

section Chain

theorem plainWord_reserved {k : Keyword} (hk : k ∈ Keyword.all) :
    isSpecialName (k.word ++ "_") = false ∧ k.word ++ "_" ∉ ownNames ∧
      plainWord (k.word ++ "_") = k.word := by
  have hall : ∀ k ∈ Keyword.all, isSpecialName (k.word ++ "_") = false ∧ k.word ++ "_" ∉ ownNames ∧
      plainWord (k.word ++ "_") = k.word := by decide
  exact hall k hk

theorem keyWords_together (keys : List Value) : keyWords keys true = keys := by
  unfold keyWords
  split
  next heq => cases heq
  · rfl

theorem ownPart?_eq_none {name : String} (hspecial : isSpecialName name = false)
    (hown : name ∉ ownNames) (tokens : List Token) (compiled : Option Closure) :
    ownPart? tokens compiled name = none := by
  have hall : inheritedNames.all isSpecialName = true := by decide
  have hinherited : ¬ inheritedNames.contains name = true := by
    intro hin
    have hname := List.all_eq_true.1 hall name (List.contains_iff_mem.1 hin)
    rw [hspecial] at hname
    cases hname
  simp only [ownNames, List.mem_cons, List.not_mem_nil, or_false, not_or] at hown
  obtain ⟨htokens, hcompiled, hextend⟩ := hown
  rw [ownPart?, if_neg htokens, if_neg hcompiled, if_neg hextend, if_neg hinherited]

theorem plainWord_eq {w : String} (h : ∀ k ∈ Keyword.all, w ≠ k.word ++ "_") : plainWord w = w := by
  unfold plainWord
  split
  next hlast =>
    dsimp only
    split
    next hreserved =>
      rcases ofWord?_cases (String.ofList w.toList.dropLast) with ⟨k, hk, hword, -⟩ | ⟨-, hnone⟩
      · refine (h k hk ?_).elim
        apply String.toList_injective
        rw [hword, String.toList_append, String.toList_ofList]
        exact (List.dropLast_append_getLast? '_' hlast).symm
      · rw [hnone] at hreserved
        cases hreserved
    · rfl
  · rfl

theorem slot_builder {w : Workbench} {k : Nat} {tokens : List Token} {compiled : Option Closure}
    (hk : w.parts[k]? = some (.builder tokens compiled)) : w.slot k = k := by
  rw [slot, hk]

theorem Link.on_step (link : Link) (on : Nat) : BuildStep.on (link.step on) = on := by
  cases link <;> rfl

variable [Machine]

/-- Takes the steps of a chain, each on what the one before it made, until one fails. What comes out
is the workbench and the slot of the last entry made. -/
def chain (w : Workbench) (on : Nat) : List Link → Except Failure (Workbench × Nat)
  | [] => .ok (w, on)
  | link :: links =>
    match (w.step (link.step on)).2 with
    | .error f => .error f
    | .ok _ => (w.step (link.step on)).1.chain w.parts.length links

theorem extend_names (tokens : List Token) (names : List String) :
    extend tokens (names.map .text) = (names.mapM readWord).map (tokens ++ ·) := by
  rw [extend, List.mapM_map]
  congr 2
  funext w
  exact (readWord_eq w).symm

theorem act_word {name : String} (hspecial : isSpecialName name = false) (hown : name ∉ ownNames)
    (tokens : List Token) (compiled : Option Closure) (on : Nat) :
    (act (.builder tokens compiled) ((Link.word name).step on)).1 =
      asBuilder (extend tokens [.text (plainWord name)]) := by
  unfold act Link.step
  dsimp only
  rw [ownPart?_eq_none hspecial hown, Option.elim_none, addWord, if_neg]
  simp only [ownNames, List.mem_cons, List.not_mem_nil, or_false, not_or] at hown
  simp [hspecial, hown]

/-- A link makes a builder with the tokens of its names after those that were there. -/
theorem act_link {link : Link} {names : List String} (h : link.Adds names) (tokens : List Token)
    (compiled : Option Closure) (on : Nat) :
    (act (.builder tokens compiled) (link.step on)).1 =
      asBuilder ((names.mapM readWord).map (tokens ++ ·)) := by
  rw [← extend_names]
  cases h with
  | word hspecial hown hplain =>
    rw [act_word hspecial hown, plainWord_eq hplain]
    rfl
  | reserved hk =>
    obtain ⟨hspecial, hown, hplain⟩ := plainWord_reserved hk
    rw [act_word hspecial hown, hplain]
    rfl
  | value w => rfl
  | values ws =>
    unfold act Link.step
    dsimp only
    rw [keyWords_together]

theorem step_link {w : Workbench} {on : Nat} {tokens : List Token} {compiled : Option Closure}
    (hon : w.parts[on]? = some (.builder tokens compiled)) {link : Link} {names : List String}
    (h : link.Adds names) :
    (∀ f, names.mapM readWord = .error f → (w.step (link.step on)).2 = .error f) ∧
    ∀ added, names.mapM readWord = .ok added →
      (w.step (link.step on)).2 = .ok (.builder (tokens ++ added) none) ∧
      (w.step (link.step on)).1.parts[w.parts.length]? =
        some (.builder (tokens ++ added) none) := by
  have hact := act_link h tokens compiled on
  have hslot : w.slot (BuildStep.on (link.step on)) = on := by
    rw [link.on_step, slot_builder hon]
  simp only [step, hslot, hon]
  constructor
  · intro f hf
    rw [hf] at hact
    rw [hact]
    rfl
  · intro added hadded
    rw [hadded] at hact
    rw [hact]
    refine ⟨rfl, ?_⟩
    show (w.parts.set on _ ++ [.builder (tokens ++ added) none])[w.parts.length]? = _
    rw [List.getElem?_append_right (by simp)]
    simp

/-- A chain makes a builder with the tokens of all its names, or fails for the first name that
cannot be read. -/
theorem chain_builds {w : Workbench} (hsound : w.AllSound) {on : Nat} {tokens : List Token}
    {compiled : Option Closure} (hon : w.parts[on]? = some (.builder tokens compiled))
    {links : List Link} {groups : List (List String)} (h : List.Forall₂ Link.Adds links groups) :
    (∀ f, groups.flatten.mapM readWord = .error f → w.chain on links = .error f) ∧
    ∀ added, groups.flatten.mapM readWord = .ok added →
      ∃ after k made, w.chain on links = .ok (after, k) ∧ after.AllSound ∧
        after.parts[k]? = some (.builder (tokens ++ added) made) := by
  induction h generalizing w on tokens compiled with
  | nil =>
    constructor
    · intro f hf
      cases hf
    · intro added hadded
      cases hadded
      exact ⟨w, on, compiled, rfl, hsound, by simpa using hon⟩
  | @cons link names links groups hlink _ ih =>
    obtain ⟨hfails, hmakes⟩ := step_link hon hlink
    rw [List.flatten_cons, List.mapM_append, chain]
    cases hnames : names.mapM readWord with
    | error f =>
      rw [hfails f hnames]
      constructor
      · intro g hg
        cases hg
        rfl
      · intro added hadded
        cases hadded
    | ok first =>
      obtain ⟨hmade, hbuilder⟩ := hmakes first hnames
      obtain ⟨hlater, hrest⟩ := ih (hsound.step _) hbuilder
      rw [hmade]
      constructor
      · intro f hf
        rcases Outcome.error_of_bind hf with hnone | ⟨_, -, hf⟩
        · cases hnone
        · rcases Outcome.error_of_bind hf with hf | ⟨_, -, hnone⟩
          · exact hlater f hf
          · cases hnone
      · intro added hadded
        obtain ⟨_, hfirst, hadded⟩ := Outcome.ok_of_bind hadded
        cases hfirst
        obtain ⟨others, hothers, hadded⟩ := Outcome.ok_of_bind hadded
        cases hadded
        obtain ⟨after, k, made, hchain, hafter, hk⟩ := hrest others hothers
        exact ⟨after, k, made, hchain, hafter, by rwa [List.append_assoc] at hk⟩

end Chain

/-- Names that are words without comments may be joined by any blank characters to a text, or added
to the empty builder by any chain of links, whatever has been done before. If all of them can be
read, both are read as the same tokens, each by the rules for its word, and a call of the builder
gives at any time what compiling the tokens of the text and calling the result gives. Otherwise both
are refused for the first name that cannot be read: for a malformed one by that name, unless its
index is too long to be converted, and then for that length. -/
theorem chain_reads_joined_text [Machine] (steps : List BuildStep) {names : List String}
    {text : String} {links : List Link} (hnames : ∀ w ∈ names, IsPlainWord w)
    (htext : Joined names text) (hlinks : ChainAdds links names) :
    ((∀ w ∈ names, IsLegible w) →
      ∃ tokens w k, tokenize text = .ok tokens ∧ List.Forall₂ ReadsAs names tokens ∧
        (new.run steps).chain 0 links = .ok (w, k) ∧
        (∃ compiled, w.parts[k]? = some (.builder tokens compiled)) ∧
        ∀ more args, ((w.run more).step (.call k args)).2 = do
          let tokens ← tokenize text
          let c ← Closure.compile tokens
          let i ← c.call args
          return .item i) ∧
    ∀ before v after, names = before ++ v :: after → (∀ w ∈ before, IsLegible w) →
      (IsMalformed v → ¬ IsOverlong v →
        (new.run steps).chain 0 links = .error (.fault (.malformedArgument v .nothing 0)) ∧
        ∃ offset : Nat, IsRun text ⟨offset, v⟩ ∧
          tokenize text = .error (.fault (.malformedArgument v text offset))) ∧
      (IsOverlong v →
        (new.run steps).chain 0 links = .error (.longIndex (v.length - 1)) ∧
        tokenize text = .error (.longIndex (v.length - 1))) := by
  obtain ⟨groups, hgroups, rfl⟩ := hlinks
  have hsound : (new.run steps).AllSound := allSound_new.run steps
  obtain ⟨compiled, hempty⟩ := run_keeps_builder (k := 0) allSound_new rfl steps
  obtain ⟨hfails, hmakes⟩ := chain_builds hsound hempty hgroups
  have hread := htext.readTokens_eq hnames
  -- A text and a chain are refused for the same reason, up to the place that only a text has.
  have hrefused {f : Failure} (hf : tokenize text = .error f) :
      (new.run steps).chain 0 links = .error f.withoutPlace := by
    apply hfails
    rw [← hread, readTokens, hf]
    rfl
  constructor
  · intro hlegible
    obtain ⟨tokens, htokens, hreads⟩ := htext.tokenize_legible hnames hlegible
    obtain ⟨w, k, made, hchain, hw, hk⟩ := hmakes tokens (by rw [← hread, readTokens, htokens]; rfl)
    refine ⟨tokens, w, k, htokens, hreads, hchain, ⟨made, hk⟩, fun more args => ?_⟩
    obtain ⟨later, hlater⟩ := run_keeps_builder hw hk more
    rw [step_call_builder (hw.run more) (slot_builder hlater) hlater, htokens]
    rfl
  · intro before v after hsplit hbefore
    obtain ⟨offset, hrun, htokenize⟩ := htext.tokenize_refused hnames hsplit hbefore
    constructor
    · intro hbad hshort
      have hf := htokenize _ (classify_malformed hbad hshort text offset)
      exact ⟨hrefused hf, offset, hrun, hf⟩
    · intro hlong
      have hf := htokenize _ (classify_overlong hlong text offset)
      exact ⟨hrefused hf, hf⟩

theorem isPlainWord_zeroIndex (n : Nat) : IsPlainWord (zeroIndex n) := by
  refine ⟨isWord_zeroIndex n, fun hmark => ?_⟩
  rcases mem_zeroIndex (hmark.subset (List.mem_cons_self : ';' ∈ commentMark.toList)) with h | h <;>
    cases h

section StandardMachine
attribute [local instance] Machine.standard

/-- The program `let in_ $1 in in_ plus 3`, whose variable looks like a reserved word with an
underscore after it, and names of which the fourth is the first malformed one. -/
theorem chain_reads_joined_text_underscore :
    let links : List Link := [.word "let", .value "in_", .values [], .values ["$1"], .word "in_",
      .values ["in_", "plus"], .word "\u0663"]
    let text := "let" ++ "\u2003" ++ ("in_" ++ " " ++ ("$1" ++ "\n\t" ++ ("in" ++ " " ++
      ("in_" ++ " " ++ ("plus" ++ "  " ++ "\u0663")))))
    let bad := "$1" ++ " " ++ ("plus" ++ "\n" ++ ("x$0" ++ "\t" ++ ("$0" ++ " " ++ "$")))
    (∃ tokens w k, tokenize text = .ok tokens ∧
      List.Forall₂ ReadsAs ["let", "in_", "$1", "in", "in_", "plus", "\u0663"] tokens ∧
      (new.run [.call 0 []]).chain 0 links = .ok (w, k) ∧
      (∃ compiled, w.parts[k]? = some (.builder tokens compiled)) ∧
      (w.step (.call k [.int 4])).2 = do
        let tokens ← tokenize text
        let c ← Closure.compile tokens
        let i ← c.call [.int 4]
        return .item i) ∧
    new.chain 0 [.values ["$1", "plus"], .value "x$0", .values ["$0", "$"]] =
      .error (.fault (.malformedArgument "$0" .nothing 0)) ∧
    ∃ offset : Nat, tokenize bad = .error (.fault (.malformedArgument "$0" bad offset)) := by
  intro links text bad
  have hnext {w gap rest : String} {ws : List String} (hgap : gap.toList ≠ [])
      (hblank : gap.toList.all isBlank = true) (h : Joined ws rest) :
      Joined (w :: ws) (w ++ gap ++ rest) := .next hgap (List.all_eq_true.1 hblank) h
  have hword {w : String} (hspecial : isSpecialName w = false) (hown : w ∉ ownNames)
      (hreserved : Keyword.all.all (fun k => w != k.word ++ "_") = true) :
      Link.Adds (.word w) [w] := .word hspecial hown (by simpa using hreserved)
  have htext : Joined ["let", "in_", "$1", "in", "in_", "plus", "\u0663"] text :=
    hnext (by decide) rfl (hnext (by decide) rfl (hnext (by decide) rfl (hnext (by decide) rfl
      (hnext (by decide) rfl (hnext (by decide) rfl (.last _))))))
  have hlinks : ChainAdds links ["let", "in_", "$1", "in", "in_", "plus", "\u0663"] := by
    have hin : Link.Adds (.word "in_") ["in"] := .reserved (k := .inWord) (by decide)
    exact ⟨[["let"], ["in_"], [], ["$1"], ["in"], ["in_", "plus"], ["\u0663"]],
      .cons (hword rfl (by decide) (by decide)) (.cons (.value _) (.cons (.values _)
        (.cons (.values _) (.cons hin (.cons (.values _)
          (.cons (hword rfl (by decide) (by decide)) .nil)))))), rfl⟩
  have hbad : Joined ["$1", "plus", "x$0", "$0", "$"] bad :=
    hnext (by decide) rfl (hnext (by decide) rfl (hnext (by decide) rfl (hnext (by decide) rfl
      (.last _))))
  constructor
  · obtain ⟨tokens, w, k, htokens, hreads, hchain, hk, hcall⟩ :=
      (chain_reads_joined_text [.call 0 []] (by decide) htext hlinks).1 (by decide)
    exact ⟨tokens, w, k, htokens, hreads, hchain, hk, hcall [] [.int 4]⟩
  · have hlinks : ChainAdds [.values ["$1", "plus"], .value "x$0", .values ["$0", "$"]]
        ["$1", "plus", "x$0", "$0", "$"] :=
      ⟨[["$1", "plus"], ["x$0"], ["$0", "$"]],
        .cons (.values _) (.cons (.value _) (.cons (.values _) .nil)), rfl⟩
    obtain ⟨hchain, offset, -, htokenize⟩ :=
      ((chain_reads_joined_text [] (by decide) hbad hlinks).2 ["$1", "plus", "x$0"] "$0" ["$"] rfl
        (by decide)).1 (by decide) (by decide)
    exact ⟨hchain, offset, htokenize⟩

/-- An index of zeros alone is malformed however many there are, but with more than are ever
converted both a text and a builder are refused for its length. -/
theorem long_zero_index_not_blamed :
    let v := zeroIndex 4301
    IsPlainWord v ∧ IsMalformed v ∧ Joined [v] v ∧ ChainAdds [.value v] [v] ∧
      new.chain 0 [.value v] = .error (.longIndex 4301) ∧
        tokenize v = .error (.longIndex 4301) := by
  intro v
  have hadds : List.Forall₂ Link.Adds [.value v] [[v]] := .cons (.value v) .nil
  refine ⟨isPlainWord_zeroIndex 4301, isMalformed_zeroIndex 4301, .last v, ⟨[[v]], hadds, rfl⟩, ?_,
    tokenize_zeroIndex (by decide)⟩
  apply (chain_builds allSound_new rfl hadds).1
  show [v].mapM readWord = _
  rw [List.mapM_cons, readWord_eq, classify_zeroIndex (by decide)]
  rfl

end StandardMachine

end Workbench

end CurryCalc
