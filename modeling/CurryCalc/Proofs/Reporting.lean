import CurryCalc.Proofs.LimitedRoom
import CurryCalc.Proofs.Wording
import CurryCalc.Reporter

/-! Reporting. The warning about a statement can always be given. A handler for which errors are not
fatal stays so and never ends the program itself. What it reports to the end leaves no statement
under way, and nothing of it is left to stop the caller. -/
namespace CurryCalc

namespace Reporter

/-- Something is printed, and nothing else differs. -/
def Prints (r r' : Reporter) : Prop := ∃ text, r' = r.print text

namespace Prints

variable {r r' r'' : Reporter}

theorem refl (r : Reporter) : r.Prints r := ⟨"", by simp [print]⟩

theorem trans (h : r.Prints r') (h' : r'.Prints r'') : r.Prints r'' := by
  obtain ⟨text, rfl⟩ := h
  obtain ⟨text', rfl⟩ := h'
  exact ⟨text ++ text', by simp [print, String.append_assoc]⟩

theorem fatal_eq (h : r.Prints r') : r'.fatal = r.fatal := by
  obtain ⟨_, rfl⟩ := h
  rfl

theorem frames_eq (h : r.Prints r') : r'.frames = r.frames := by
  obtain ⟨_, rfl⟩ := h
  rfl

end Prints

@[simp] theorem register_register (r : Reporter) (path : String) (old frame : Frame) :
    (r.register path old).register path frame = r.register path frame := by
  simp [register]

theorem Prints.register {r r' : Reporter} (h : r.Prints r') (path : String) (frame : Frame) :
    (r.register path frame).Prints (r'.register path frame) := by
  obtain ⟨text, rfl⟩ := h
  exact ⟨text, rfl⟩

theorem printLine_prints (r : Reporter) (text : String) : r.Prints (r.printLine text) := ⟨_, rfl⟩

theorem foldl_prints {α : Type} {print : Reporter → α → Reporter}
    (h : ∀ r a, Prints r (print r a)) (items : List α) (r : Reporter) :
    r.Prints (items.foldl print r) := by
  induction items generalizing r with
  | nil => exact .refl r
  | cons a items ih => exact (h r a).trans (ih (print r a))

theorem printStatements_prints (r : Reporter) : r.Prints r.printStatements := by
  unfold printStatements
  split
  · exact (r.printLine_prints _).trans (foldl_prints (fun r _ => r.printLine_prints _) _ _)
  · exact .refl r

def heading (r : Reporter) (n : Notice) (label : String) (hue : Hue) : String :=
  r.location n ++ r.style.mark hue (label ++ ": ") ++ n.message

/-- A message is printed as far as its notes can be made. -/
theorem reportLabelled_eq (r : Reporter) (n : Notice) (notes : Except Failure (List String))
    (label : String) (hue : Hue) : ∃ r', (r.printLine (r.heading n label hue)).Prints r' ∧
      r.reportLabelled n notes label hue = (r', Outcome.failure? notes) := by
  unfold reportLabelled
  cases notes with
  | error f => exact ⟨_, .refl _, rfl⟩
  | ok notes =>
    have hnotes (r : Reporter) : r.Prints
        (notes.foldl (fun r note => r.printLine (r.style.bold "  note: " ++ note)) r) :=
      foldl_prints (fun r _ => r.printLine_prints _) notes r
    dsimp only
    split
    · exact ⟨_, (hnotes _).trans (printLine_prints _ _), rfl⟩
    · exact ⟨_, hnotes _, rfl⟩

/-- An error message is among what was printed from one state to another. -/
def Shows (r r' : Reporter) (n : Notice) (label : String) : Prop :=
  ∃ front back, r' = r.print (front ++ r.style.mark .red (label ++ ": ") ++ n.message ++ "\n" ++
    back)

theorem Shows.prints {r r' : Reporter} {n : Notice} {label : String} (h : r.Shows r' n label) :
    r.Prints r' := by
  obtain ⟨front, back, h⟩ := h
  exact ⟨_, h⟩

theorem Prints.shows {r r₁ r₂ r₃ : Reporter} {n : Notice} {label : String} (h : r.Prints r₁)
    (h' : r₂.Prints r₃) (hline : r₂ = r₁.printLine (r₁.heading n label .red)) :
    r.Shows r₃ n label := by
  obtain ⟨text, rfl⟩ := h
  obtain ⟨text', rfl⟩ := h'
  subst hline
  refine ⟨text ++ (r.print text).location n, text', ?_⟩
  simp [printLine, print, heading, String.append_assoc]

/-- Something is printed, and the statements under way may be forgotten. -/
def Settles (r r'' : Reporter) : Prop :=
  ∃ r', r.Prints r' ∧ (r'' = r' ∨ r'' = { r' with frames := Bindings.empty })

theorem Prints.settles {r r' : Reporter} (h : r.Prints r') : r.Settles r' := ⟨r', h, .inl rfl⟩

theorem Settles.fatal_eq {r r'' : Reporter} (h : r.Settles r'') : r''.fatal = r.fatal := by
  obtain ⟨r', hprints, rfl | rfl⟩ := h
  · exact hprints.fatal_eq
  · exact hprints.fatal_eq

/-- Reporting ends the program only if errors are fatal. -/
structure Calm (r : Reporter) (after : Reporter × Option Failure) : Prop where
  settles : r.Settles after.1
  stays : r.fatal = false → ∀ code, after.2 ≠ some (.exit code)

theorem calm_some {r r' : Reporter} {f : Failure} (h : r.Prints r') (hf : ∀ code, f ≠ .exit code) :
    Calm r (r', some f) :=
  ⟨h.settles, fun _ code heq => hf code (Option.some.inj heq)⟩

theorem notice_ne_exit (cause : Fault) (style : Style) (code : String) :
    cause.notice style ≠ .error (.exit code) := by
  unfold Fault.notice Draft.notice
  split
  · exact nofun
  · split <;> exact nofun

theorem minus_ne_exit (a b : Value) (code : String) : a.minus b ≠ .error (.exit code) := by
  have hfloat (v : Value) (x : Except Failure Binary64) (h : v.toFloat? = some x) :
      x ≠ .error (.exit code) := by
    unfold Value.toFloat? at h
    split at h
    · cases h
      exact nofun
    · cases h
      exact nofun
    · obtain ⟨n, -, rfl⟩ := Option.map_eq_some_iff.1 h
      unfold intToFloat
      dsimp only
      split <;> exact nofun
  unfold Value.minus
  split
  · exact nofun
  · split
    · exact nofun
    next x y hx hy _ =>
      exact Outcome.bind_ne_error (hfloat _ _ hx) fun u =>
        Outcome.bind_ne_error (hfloat _ _ hy) fun v => nofun
    · exact nofun

theorem unwritable?_ne_exit (room : Room) (v : Value) (code : String) :
    v.unwritable? room ≠ some (.exit code) := by
  rcases Value.unwritable?_cases room v with h | h | h <;> rw [h] <;> exact nofun

theorem notes_ne_exit (cause : Fault) (room : Room) (code : String) :
    cause.notes room ≠ .error (.exit code) := by
  unfold Fault.notes
  split
  next expected found position _ _ _ =>
    split
    next f hf =>
      obtain ⟨t, -, ht⟩ := Option.bind_eq_some_iff.1 hf
      rintro ⟨⟩
      exact unwritable?_ne_exit _ _ code ht
    · exact nofun
  next arity supplied =>
    have hminus := minus_ne_exit supplied arity code
    split
    next f hf =>
      rw [hf] at hminus
      exact fun h => hminus (congrArg _ (Except.error.inj h))
    · split
      next f hf =>
        split at hf
        · rintro ⟨⟩
          exact unwritable?_ne_exit _ _ code hf
        · cases hf
      · exact nofun
  · exact nofun
  · exact nofun

/-- An error that can be printed ends the program if it is fatal; else no statement is under way
after it. -/
theorem throwNotice_eq (r : Reporter) (n : Notice) (notes : Except Failure (List String)) :
    ∃ r', r.Shows r' n (if n.internal then "internal error" else "error") ∧ r.throwNotice n notes =
      (Outcome.failure? notes).elim
        (if r.fatal then (r', some (.exit "1")) else ({ r' with frames := Bindings.empty }, none))
        fun f => (r', some f) := by
  obtain ⟨r', hprints, hreport⟩ := reportLabelled_eq r.printStatements n notes
    (if n.internal then "internal error" else "error") .red
  have hshows : r.Shows r' n _ := r.printStatements_prints.shows hprints rfl
  refine ⟨r', hshows, ?_⟩
  rw [throwNotice, hreport, ← hshows.prints.fatal_eq]
  cases notes <;> rfl

theorem throwNotice_calm (r : Reporter) (n : Notice) {notes : Except Failure (List String)}
    (hnotes : ∀ code, notes ≠ .error (.exit code)) : Calm r (r.throwNotice n notes) := by
  obtain ⟨r', hshows, heq⟩ := throwNotice_eq r n notes
  have hprints := hshows.prints
  rw [heq]
  cases notes with
  | error f => exact calm_some hprints fun code hf => hnotes code (congrArg _ hf)
  | ok notes =>
    cases hfatal : r.fatal with
    | true => exact ⟨hprints.settles, fun hfalse => by simp [hfatal] at hfalse⟩
    | false => exact ⟨⟨r', hprints, .inr rfl⟩, fun _ _ => nofun⟩

section Handling
variable [Machine]

/-- The warning about a program that was not run can be given for every statement. -/
theorem warn_unapplied (r : Reporter) (text : String) :
    (r.warn (.unappliedProgram text)).2 = none := by
  obtain ⟨n, hn⟩ := (Fault.Brief.unappliedProgram text).worded r.style
  have hnotes : (Fault.unappliedProgram text).notes (.levels nestingLimit) = .ok [] := rfl
  simp only [warn, hn, hnotes, reportLabelled]
  split <;> rfl

/-- A problem that can be worded and explained is reported in full: no statement is under way after
it, and nothing is left of it. -/
theorem throw_clears {r : Reporter} (h : r.fatal = false) {cause : Fault} {n : Notice}
    {notes : List String} (hnotice : cause.notice r.style = .ok n)
    (hnotes : cause.notes (.levels nestingLimit) = .ok notes) :
    ∃ r', r.Shows r' n (if n.internal then "internal error" else "error") ∧
      r.throw cause = ({ r' with frames := Bindings.empty }, none) := by
  obtain ⟨r', hshows, heq⟩ := throwNotice_eq r n (.ok notes)
  refine ⟨r', hshows, ?_⟩
  unfold throw
  rw [hnotice, hnotes]
  simp only [heq, Outcome.failure?, Option.elim_none, h]
  rfl

theorem throwUnforeseen_clears {r : Reporter} (h : r.fatal = false) {f : Failure}
    (hkind : Template.IsText f.describe.1) :
    ∃ r', r.Prints r' ∧
      r.throwUnforeseen f = ({ r' with frames := Bindings.empty }, some f) := by
  obtain ⟨n, hn⟩ := Fault.worded_unforeseen hkind f.describe.2 r.style
  obtain ⟨r', hshows, heq⟩ := throw_clears h hn rfl
  refine ⟨r', hshows.prints, ?_⟩
  unfold throwUnforeseen
  simp only [heq]

theorem handle_longIndex_clears {r : Reporter} (h : r.fatal = false) (digits : Nat) :
    ∃ r', r.Prints r' ∧
      (r.handle (.longIndex digits)).1 = { r' with frames := Bindings.empty } := by
  have hkind : Template.IsText "ValueError" := Template.isText_ofList rfl
  obtain ⟨r', hprints, heq⟩ := throwUnforeseen_clears h (f := .longIndex digits) hkind
  refine ⟨r', hprints, ?_⟩
  unfold handle
  dsimp only
  rw [heq]

theorem handle_fault {r : Reporter} {cause : Fault} {n : Notice}
    (h : cause.notice r.style = .ok n) : r.handle (.fault cause) = r.throw cause := by
  unfold handle throw
  simp only [h]

theorem warn_prints (r : Reporter) (cause : Fault) : r.Prints (r.warn cause).1 := by
  unfold warn
  split
  next n hn =>
    obtain ⟨r', hprints, heq⟩ :=
      reportLabelled_eq r n (cause.notes (.levels nestingLimit)) "warning" .magenta
    rw [heq]
    exact (r.printLine_prints _).trans hprints
  · exact .refl r

theorem throw_calm (r : Reporter) (cause : Fault) : Calm r (r.throw cause) := by
  unfold throw
  split
  next n hn => exact throwNotice_calm r n (notes_ne_exit cause _)
  next f hf =>
    exact calm_some (.refl r) fun code hcode =>
      notice_ne_exit cause r.style code (hf.trans (congrArg _ hcode))

theorem throwUnforeseen_calm (r : Reporter) {f : Failure} (hf : ∀ code, f ≠ .exit code) :
    Calm r (r.throwUnforeseen f) := by
  have hthrow := throw_calm r (.unforeseen f.describe.1 f.describe.2)
  unfold throwUnforeseen
  split
  next r' heq =>
    rw [heq] at hthrow
    exact ⟨hthrow.settles, fun _ code hcode => hf code (Option.some.inj hcode)⟩
  · exact hthrow

/-- A handler ends the program only if errors are fatal or the program is to end anyway. -/
theorem handle_calm (r : Reporter) {f : Failure} (hf : ∀ code, f ≠ .exit code) :
    Calm r (r.handle f) := by
  unfold handle
  split
  next code => exact (hf code rfl).elim
  · exact throw_calm r _
  · exact throw_calm r _
  next cause =>
    split
    next n hn => exact throwNotice_calm r n (notes_ne_exit cause _)
    next g hg =>
      exact throwUnforeseen_calm r fun code hcode =>
        notice_ne_exit cause r.style code (hg.trans (congrArg _ hcode))
  · exact throwUnforeseen_calm r hf

/-- Whatever is reported, at most the statements under way are forgotten. -/
theorem handle_settles (r : Reporter) (f : Failure) : r.Settles (r.handle f).1 := by
  by_cases hexit : ∃ code, f = .exit code
  · obtain ⟨code, rfl⟩ := hexit
    exact (Prints.refl r).settles
  · exact (r.handle_calm fun code h => hexit ⟨code, h⟩).settles

end Handling

end Reporter

end CurryCalc
