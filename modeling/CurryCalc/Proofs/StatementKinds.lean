import CurryCalc.Proofs.CommandSession
import CurryCalc.Proofs.Independence
import CurryCalc.Proofs.TextPlaces

/-! Which statement a text is. What a text can be taken as is said by where the mark of a definition
stands in it and by what its first word is bound to; a text is read as a statement exactly if there
is something that it can be taken as. -/
namespace CurryCalc

section Occurrences

variable {part : List Char}

theorem mem_occurrencesFrom_iff (hpart : part ≠ []) {i j : Nat} {cs : List Char} :
    j ∈ occurrencesFrom part i cs ↔
      ∃ front back, cs = front ++ (part ++ back) ∧ j = i + front.length := by
  induction cs generalizing i with
  | nil => simp [occurrencesFrom, hpart]
  | cons c cs ih =>
    have hlater : j ∈ occurrencesFrom part (i + 1) cs ↔
        ∃ d front back, c :: cs = (d :: front) ++ (part ++ back) ∧ j = i + (d :: front).length := by
      rw [ih]
      constructor
      · rintro ⟨front, back, rfl, rfl⟩
        exact ⟨c, front, back, rfl, by rw [List.length_cons, Nat.add_right_comm, Nat.add_assoc]⟩
      · rintro ⟨d, front, back, h, rfl⟩
        obtain ⟨-, h⟩ := List.cons.inj h
        exact ⟨front, back, h, by rw [List.length_cons, Nat.add_right_comm, Nat.add_assoc]⟩
    rw [occurrencesFrom]
    split
    next hhere =>
      obtain ⟨rest, hrest⟩ := List.isPrefixOf_iff_prefix.1 hhere
      rw [List.mem_cons, hlater]
      constructor
      · rintro (rfl | ⟨d, front, back, h⟩)
        · exact ⟨[], rest, hrest.symm, rfl⟩
        · exact ⟨d :: front, back, h⟩
      · rintro ⟨_ | ⟨d, front⟩, back, h⟩
        · exact .inl h.2
        · exact .inr ⟨d, front, back, h⟩
    next hhere =>
      rw [List.isPrefixOf_iff_prefix] at hhere
      rw [hlater]
      constructor
      · rintro ⟨d, front, back, h⟩
        exact ⟨d :: front, back, h⟩
      · rintro ⟨_ | ⟨d, front⟩, back, h⟩
        · exact (hhere ⟨back, h.1.symm⟩).elim
        · exact ⟨d, front, back, h⟩

theorem occurrencesFrom_pairwise (part : List Char) (i : Nat) (cs : List Char) :
    (occurrencesFrom part i cs).Pairwise (· < ·) := by
  induction cs generalizing i with
  | nil =>
    rw [occurrencesFrom]
    split <;> simp
  | cons c cs ih =>
    rw [occurrencesFrom]
    split
    · exact List.Pairwise.cons (fun j hj => occurrencesFrom_ge hj) (ih (i + 1))
    · exact ih (i + 1)

end Occurrences

/-- A text cut in two by the one place at which a mark stands in it. -/
structure CutOnce (mark source front back : String) : Prop where
  whole : source = front ++ mark ++ back
  once : ∀ front' back', source = front' ++ mark ++ back' → front' = front

section Cut

variable {mark source front back : String}

theorem front_eq_of_length {front' back' : String} (h : source = front ++ mark ++ back)
    (h' : source = front' ++ mark ++ back') (hlength : front.length = front'.length) :
    front = front' := by
  rw [← String.length_toList, ← String.length_toList] at hlength
  rw [h, ← String.toList_inj, toList_append_append, toList_append_append] at h'
  exact String.toList_injective (List.append_inj_left h' hlength)

theorem mem_occurrences_iff (hmark : mark ≠ "") {i : Nat} :
    i ∈ occurrencesFrom mark.toList 0 source.toList ↔
      ∃ front back, source = front ++ mark ++ back ∧ i = front.length := by
  rw [mem_occurrencesFrom_iff (by simpa using hmark)]
  constructor
  · rintro ⟨front, back, h, rfl⟩
    refine ⟨String.ofList front, String.ofList back, String.toList_injective ?_, ?_⟩
    · rw [h, toList_append_append, String.toList_ofList, String.toList_ofList]
    · rw [← String.length_toList, String.toList_ofList, Nat.zero_add]
  · rintro ⟨front, back, rfl, rfl⟩
    refine ⟨front.toList, back.toList, toList_append_append front mark back, ?_⟩
    rw [String.length_toList, Nat.zero_add]

/-- A mark is found first and last at one place exactly if it stands nowhere else. -/
theorem cutOnce_iff (hmark : mark ≠ "") :
    CutOnce mark source front back ↔ source = front ++ mark ++ back ∧
      findOffset? source mark = some front.length ∧
      findLastOffset? source mark = some front.length := by
  have hfound := findOffset?_cases hmark source
  constructor
  · rintro ⟨hwhole, honce⟩
    refine ⟨hwhole, ?_, ?_⟩
    · rcases hfound with ⟨-, hnone⟩ | ⟨front', back', hfirst, hsplit, -⟩
      · exact (hnone front back hwhole).elim
      · rw [hfirst, honce front' back' hsplit]
    · have hmem := (mem_occurrences_iff hmark).2 ⟨front, back, hwhole, rfl⟩
      rw [findLastOffset?, List.getLast?_eq_getLast_of_ne_nil (List.ne_nil_of_mem hmem)]
      obtain ⟨front', back', hsplit, hlast⟩ :=
        (mem_occurrences_iff hmark).1 (List.getLast_mem (List.ne_nil_of_mem hmem))
      rw [hlast, honce front' back' hsplit]
  · rintro ⟨hwhole, hfirst, hlast⟩
    refine ⟨hwhole, fun front' back' hsplit => ?_⟩
    rcases hfound with ⟨hnone, -⟩ | ⟨first, rest, hfirst', -, hleast⟩
    · rw [hnone] at hfirst
      cases hfirst
    · have hle : front.length ≤ front'.length := by
        rw [hfirst'] at hfirst
        rw [← Option.some.inj hfirst]
        exact hleast front' back' hsplit
      have hge : front'.length ≤ front.length := by
        have hmem := (mem_occurrences_iff hmark).2 ⟨front', back', hsplit, rfl⟩
        obtain ⟨earlier, hall⟩ := List.getLast?_eq_some_iff.1 hlast
        have hsorted := occurrencesFrom_pairwise mark.toList 0 source.toList
        rw [hall] at hmem hsorted
        rcases List.mem_append.1 hmem with hmem | hmem
        · exact Nat.le_of_lt ((List.pairwise_append.1 hsorted).2.2 _ hmem _ List.mem_cons_self)
        · exact Nat.le_of_eq (List.mem_singleton.1 hmem)
      exact front_eq_of_length hsplit hwhole (Nat.le_antisymm hge hle)

theorem CutOnce.take_eq (h : CutOnce mark source front back) :
    String.ofList (source.toList.take front.length) = front := by
  rw [h.whole, toList_append_append, ← String.length_toList, List.take_left, String.ofList_toList]

theorem CutOnce.drop_eq (h : CutOnce mark source front back) :
    String.ofList (source.toList.drop (front.length + mark.toList.length)) = back := by
  rw [h.whole, toList_append_append, ← String.length_toList, List.drop_length_add_append,
    List.drop_left, String.ofList_toList]

theorem CutOnce.pieces_eq (h : CutOnce mark source front back) (hmark : mark ≠ "") :
    pieces source mark = [front, back] := by
  obtain ⟨-, hfirst, hlast⟩ := (cutOnce_iff hmark).1 h
  rw [pieces_of_single (by simpa using hmark) hfirst hlast, h.take_eq, h.drop_eq]

end Cut

namespace Statement

def Unmarked (source : String) : Prop := ∀ front back, source ≠ front ++ declareMark ++ back

/-- A text that declares a name: one mark, before it one word that is read as a name and is not a
truth value, and after it something that is not blank. -/
structure IsDeclaration (source front name back : String) : Prop extends
    CutOnce declareMark source front back where
  target : words front = [name]
  identifier : ∃ token key, classify name .nothing 0 = .ok token ∧ token.symbol = .name key
  notBoolean : name ≠ "true" ∧ name ≠ "false"
  nonblank : ∃ c ∈ back.toList, isBlank c = false

def Applies (names : Namespace) (source name : String) (args : List String) : Prop :=
  words source = name :: args ∧ ∃ c, names.find? name = some (.closure c)

/-- What a text can be taken as. -/
inductive TakenAs [Machine] (names : Namespace) (source : String) : Action → Prop
  | define {front name back : String} (h : IsDeclaration source front name back) :
    TakenAs names source (.define name (trim back))
  | apply {name : String} {args : List String} (hmark : Unmarked source)
    (h : Applies names source name args) : TakenAs names source (.apply name args)
  | exec {tokens : List Token} {program : Program} (hmark : Unmarked source)
    (hfree : ∀ name args, ¬ Applies names source name args) (htokens : tokenize source = .ok tokens)
    (hprogram : Program.compile tokens = .ok program) : TakenAs names source (.exec program)

section Declarations

variable {text source front name back : String}

theorem unmarked_iff : Unmarked source ↔ findOffset? source declareMark = none := by
  rcases findOffset?_cases (by decide : declareMark ≠ "") source with
    ⟨hnone, hnot⟩ | ⟨front, back, hfirst, hsplit, -⟩
  · exact iff_of_true hnot hnone
  · refine iff_of_false (fun h => h front back hsplit) ?_
    rw [hfirst]
    exact Option.some_ne_none _

theorem IsDeclaration.isName (h : IsDeclaration source front name back) : IsName name := by
  obtain ⟨⟨symbol, lexeme⟩, key, htoken, hsymbol⟩ := h.identifier
  obtain ⟨-, hne, hunbroken⟩ := trim_of_words h.target
  cases hsymbol
  exact ⟨hne, hunbroken, (classify_name htoken).2, h.notBoolean⟩

theorem nonblank_iff {s : String} : (∃ c ∈ s.toList, isBlank c = false) ↔ trim s ≠ "" := by
  rw [Ne, trim_eq_empty_iff, words_eq]
  constructor
  · rintro ⟨c, hc, hfalse⟩ hnone
    simp [blank_of_wordsOf_nil hnone c hc] at hfalse
  · intro hsome
    by_contra hblank
    exact hsome (wordsOf_blank fun c hc => by simpa using fun hfalse => hblank ⟨c, hc, hfalse⟩)

theorem definition_nonblank {cited : String} {i : Nat} (h : isDefinition text cited = .ok true)
    (hfirst : findOffset? (trim text) declareMark = some i)
    (hlast : findLastOffset? (trim text) declareMark = some i)
    (hwords : words (String.ofList ((trim text).toList.take i)) = [name]) (hname : IsName name) :
    trim (String.ofList ((trim text).toList.drop (i + 2))) ≠ "" := by
  unfold isDefinition at h
  generalize trim text = source at h hfirst hlast hwords ⊢
  intro hblank
  dsimp only at h
  rw [hfirst] at h
  dsimp only at h
  rw [if_neg (by simp [hlast]), hwords] at h
  dsimp only at h
  rw [boolean?_eq_none_iff.2 hname.notBoolean, hname.classified] at h
  simp [hblank] at h

theorem isDefinition_true_iff {cited : String} : isDefinition text cited = .ok true ↔
    ∃ front name back, IsDeclaration (trim text) front name back := by
  have hmark : declareMark ≠ "" := by decide
  constructor
  · intro h
    obtain ⟨name, i, hfirst, hlast, hwords, hname⟩ := isDefinition_ends h rfl
    have hsome := definition_nonblank h hfirst hlast hwords hname
    rcases findOffset?_cases hmark (trim text) with ⟨hnone, -⟩ | ⟨front, back, hfound, hwhole, -⟩
    · rw [hnone] at hfirst
      cases hfirst
    · obtain rfl : front.length = i := Option.some.inj (hfound.symm.trans hfirst)
      have hcut := (cutOnce_iff hmark).2 ⟨hwhole, hfirst, hlast⟩
      rw [hcut.take_eq] at hwords
      rw [show 2 = declareMark.toList.length from rfl, hcut.drop_eq] at hsome
      exact ⟨front, name, back, hcut, hwords, ⟨_, _, hname.classified _ _, rfl⟩, hname.notBoolean,
        nonblank_iff.2 hsome⟩
  · rintro ⟨front, name, back, h⟩
    obtain ⟨-, hfirst, hlast⟩ := (cutOnce_iff hmark).1 h.toCutOnce
    refine isDefinition_of_mark hfirst hlast ?_ h.isName ?_ cited
    · rw [h.take_eq]
      exact h.target
    · rw [show 2 = declareMark.toList.length from rfl, h.drop_eq]
      simpa using nonblank_iff.1 h.nonblank

theorem isDefinition_false_iff {cited : String} :
    isDefinition text cited = .ok false ↔ Unmarked (trim text) := by
  rw [unmarked_iff]
  refine ⟨unmarked_of_isDefinition, fun h => ?_⟩
  unfold isDefinition
  dsimp only
  rw [h]

theorem IsDeclaration.ofDefinition_eq (h : IsDeclaration (trim text) front name back)
    (cited : String) :
    ofDefinition text cited = .ok ⟨trim text, cited, .define name (trim back)⟩ := by
  have hpieces := h.pieces_eq (by decide)
  unfold ofDefinition
  rw [hpieces]
  dsimp only
  rw [(trim_of_words h.target).1]

/-- A text that declares a name is the name, the mark and the definition with blank characters
between them, since neither end of the text is blank. -/
theorem IsDeclaration.layout (hsource : IsTrimmed source.toList)
    (h : IsDeclaration source front name back) :
    ∃ gap gap' : String, (∀ c ∈ gap.toList, isBlank c) ∧ (∀ c ∈ gap'.toList, isBlank c) ∧
      source = name ++ gap ++ declareMark ++ gap' ++ trim back := by
  obtain ⟨-, before, gap, hbefore, hgap, hfront⟩ := exists_trim front
  obtain ⟨-, gap', after, hgap', hafter, hback⟩ := exists_trim back
  rw [(trim_of_words h.target).1] at hfront
  have hsplit : source.toList =
      before ++
        (name.toList ++ gap ++ declareMark.toList ++ gap' ++ (trim back).toList ++ after) := by
    rw [h.whole, toList_append_append, hfront, hback]
    simp only [List.append_assoc]
  obtain rfl : before = [] := by
    cases before with
    | nil => rfl
    | cons c before =>
      have hc := hsource.1 c (by rw [hsplit]; rfl)
      simp [hbefore c List.mem_cons_self] at hc
  obtain rfl : after = [] := by
    rcases List.eq_nil_or_concat after with hnil | ⟨init, c, rfl⟩
    · exact hnil
    · have hc := hsource.2 c (by rw [hsplit, ← List.append_assoc, ← List.append_assoc]; simp)
      simp [hafter c (by simp)] at hc
  refine ⟨String.ofList gap, String.ofList gap', ?_, ?_, String.toList_injective ?_⟩
  · rwa [String.toList_ofList]
  · rwa [String.toList_ofList]
  · rw [hsplit]
    simp

end Declarations

section Kinds

variable {text cited front name back : String} {names : Namespace} {args : List String}

theorem isApplication_iff_applies :
    isApplication text names = true ↔ ∃ name args, Applies names (trim text) name args := by
  rw [isApplication_iff]
  simp only [Applies, words_trim, exists_and_left]

variable [Machine]

theorem ofProgram_ok_iff {s : Statement} : ofProgram text cited = .ok s ↔
    ∃ tokens program, tokenize (trim text) = .ok tokens ∧ Program.compile tokens = .ok program ∧
      s = ⟨trim text, cited, .exec program⟩ := by
  unfold ofProgram
  generalize trim text = source
  constructor
  · intro h
    obtain ⟨tokens, htokens, h⟩ := Outcome.ok_of_bind h
    obtain ⟨program, hprogram, h⟩ := Outcome.ok_of_bind h
    cases h
    exact ⟨tokens, program, htokens, hprogram, rfl⟩
  · rintro ⟨tokens, program, htokens, hprogram, rfl⟩
    rw [htokens, Outcome.bind_ok, hprogram]
    rfl

theorem ofProgram_error_iff {f : Failure} : ofProgram text cited = .error f ↔
    (tokenize (trim text) >>= Program.compile) = .error f := by
  unfold ofProgram
  generalize trim text = source
  cases tokenize source with
  | error g => rw [Outcome.bind_error, Outcome.bind_error, Except.error.injEq, Except.error.injEq]
  | ok tokens =>
    rw [Outcome.bind_ok, Outcome.bind_ok]
    cases Program.compile tokens with
    | error g => rw [Outcome.bind_error, Except.error.injEq, Except.error.injEq]
    | ok program =>
      rw [Outcome.bind_ok]
      exact iff_of_false (by simp [pure, Except.pure]) (by simp)

theorem infer_of_declaration (h : IsDeclaration (trim text) front name back) :
    infer text names cited = .ok ⟨trim text, cited, .define name (trim back)⟩ := by
  unfold infer
  rewrite [isDefinition_true_iff.2 ⟨front, name, back, h⟩]
  exact h.ofDefinition_eq cited

theorem infer_of_applies (hmark : Unmarked (trim text)) (h : Applies names (trim text) name args) :
    infer text names cited = .ok ⟨trim text, cited, .apply name args⟩ := by
  have hwords := h.1
  rw [words_trim] at hwords
  unfold infer
  rewrite [isDefinition_false_iff.2 hmark]
  dsimp only
  rw [if_pos (isApplication_iff_applies.2 ⟨name, args, h⟩), ofApplication, hwords]

theorem infer_of_free (hmark : Unmarked (trim text))
    (hfree : ∀ name args, ¬ Applies names (trim text) name args) :
    infer text names cited =
      if trim text = "" then .error (.fault (.notAStatement cited)) else ofProgram text cited := by
  have hnone : ¬ isApplication text names = true := by
    rw [isApplication_iff_applies]
    rintro ⟨name, args, h⟩
    exact hfree name args h
  unfold infer
  rewrite [isDefinition_false_iff.2 hmark]
  dsimp only
  rw [if_neg hnone, isProgram]
  by_cases hblank : trim text = ""
  · rw [if_pos hblank, hblank]
    rfl
  · rw [if_neg hblank, if_pos (by simpa using hblank)]

/-- A text with a mark in it is taken as a definition or refused. -/
theorem infer_of_marked (hmark : ¬ Unmarked (trim text)) {s : Statement}
    (h : infer text names cited = .ok s) :
    ∃ front name back, IsDeclaration (trim text) front name back := by
  unfold infer at h
  split at h
  · cases h
  next hfound => exact isDefinition_true_iff.1 hfound
  next hfound => exact (hmark (isDefinition_false_iff.1 hfound)).elim

/-- A text is read as a statement exactly if there is something that it can be taken as. -/
theorem infer_ok_iff {s : Statement} : infer text names cited = .ok s ↔
    s.text = trim text ∧ s.cited = cited ∧ TakenAs names (trim text) s.action := by
  constructor
  · intro h
    by_cases hmark : Unmarked (trim text)
    · by_cases happlies : ∃ name args, Applies names (trim text) name args
      · obtain ⟨name, args, happlies⟩ := happlies
        rw [infer_of_applies hmark happlies] at h
        obtain rfl := Except.ok.inj h
        exact ⟨rfl, rfl, .apply hmark happlies⟩
      · have hfree : ∀ name args, ¬ Applies names (trim text) name args :=
          fun name args h => happlies ⟨name, args, h⟩
        rw [infer_of_free hmark hfree] at h
        split at h
        · cases h
        · obtain ⟨tokens, program, htokens, hprogram, rfl⟩ := ofProgram_ok_iff.1 h
          exact ⟨rfl, rfl, .exec hmark hfree htokens hprogram⟩
    · obtain ⟨front, name, back, hdeclares⟩ := infer_of_marked hmark h
      rw [infer_of_declaration hdeclares] at h
      obtain rfl := Except.ok.inj h
      exact ⟨rfl, rfl, .define hdeclares⟩
  · obtain ⟨source, quoted, action⟩ := s
    rintro ⟨rfl, rfl, htaken⟩
    cases htaken with
    | define h => exact infer_of_declaration h
    | apply hmark h => exact infer_of_applies hmark h
    | exec hmark hfree htokens hprogram =>
      have hsome : trim text ≠ "" := by
        intro hblank
        rw [hblank] at htokens
        cases htokens
        exact Program.compile_nil _ hprogram
      rw [infer_of_free hmark hfree, if_neg hsome]
      exact ofProgram_ok_iff.2 ⟨_, _, htokens, hprogram, rfl⟩

/-- What a text is read as is what it can be taken as. A text with the mark of a definition is a
definition or is refused: it has to declare a name, and then the mark cuts it into the name and what
the name is defined as, with nothing but blank characters between them and the mark. Without a mark
it applies its first word to the others if that is bound to a closure, and is a program otherwise,
unless it is blank; it is then refused only for what the program is refused for. No text is ever cut
into more or fewer parts than a statement has. -/
theorem infer_classifies_text (text : String) (names : Namespace) (cited : String) :
    (∀ s, infer text names cited = .ok s ↔
      s.text = trim text ∧ s.cited = cited ∧ TakenAs names (trim text) s.action) ∧
    (∀ front name back, IsDeclaration (trim text) front name back →
      pieces (trim text) declareMark = [front, back] ∧ trim front = name ∧
      name ≠ "" ∧ trim name = name ∧ trim back ≠ "" ∧ trim (trim back) = trim back ∧
      ∃ gap gap' : String, (∀ c ∈ gap.toList, isBlank c) ∧ (∀ c ∈ gap'.toList, isBlank c) ∧
        trim text = name ++ gap ++ declareMark ++ gap' ++ trim back) ∧
    (Unmarked (trim text) → (∀ name args, ¬ Applies names (trim text) name args) →
      (trim text = "" → infer text names cited = .error (.fault (.notAStatement cited))) ∧
      (trim text ≠ "" → ∀ f, infer text names cited = .error f ↔
        (tokenize (trim text) >>= Program.compile) = .error f)) ∧
    ∀ f, infer text names cited = .error f →
      (∀ wanted, f ≠ .tooManyParts wanted) ∧ ∀ wanted count, f ≠ .tooFewParts wanted count := by
  refine ⟨fun s => infer_ok_iff, fun front name back h => ?_, fun hmark hfree => ⟨?_, ?_⟩,
    fun f hf => ?_⟩
  · obtain ⟨htrim, hne, -⟩ := trim_of_words h.target
    refine ⟨h.pieces_eq (by decide), htrim, by simpa using hne, ?_, nonblank_iff.1 h.nonblank,
      trim_trim back, h.layout (exists_trim text).1⟩
    rw [← htrim, trim_trim]
  · intro hblank
    rw [infer_of_free hmark hfree, if_pos hblank]
  · intro hsome f
    rw [infer_of_free hmark hfree, if_neg hsome, ofProgram_error_iff]
  · constructor
    · rintro wanted rfl
      exact infer_ends hf
    · rintro wanted count rfl
      exact infer_ends hf

end Kinds

section StandardMachine

attribute [local instance] Machine.standard

/-- The mark is the last two of the three characters, and the first belongs to the name. -/
example : infer " a::= b" Bindings.empty "" = .ok ⟨"a::= b", "", .define "a:" "b"⟩ := rfl

end StandardMachine

end Statement

end CurryCalc
