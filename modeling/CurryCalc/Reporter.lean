import CurryCalc.Bindings
import CurryCalc.Notice

/-! Reporting problems: where they are, what they are, and what follows from them. -/
namespace CurryCalc

/-- The statement being read or run in a file, with its line number. -/
structure Frame where
  line : Option String
  number : Option Int
deriving DecidableEq, Repr

def Frame.idle : Frame := ⟨none, none⟩

def Frame.numberText (number : Option Int) : String := number.elim "None" intText

/-- Prints problems. The frames say which statements are under way, innermost last. -/
structure Reporter where
  style : Style
  fatal : Bool
  frames : Bindings String Frame
  output : String
deriving DecidableEq, Repr

namespace Reporter

def new (style : Style) (fatal : Bool) : Reporter := ⟨style, fatal, Bindings.empty, ""⟩

def print (r : Reporter) (text : String) : Reporter := { r with output := r.output ++ text }

def printLine (r : Reporter) (text : String) : Reporter := r.print (text ++ "\n")

def register (r : Reporter) (path : String) (frame : Frame) : Reporter :=
  { r with frames := r.frames.insert path frame }

def registerFile (r : Reporter) (path : String) : Reporter := r.register path .idle

def registerLine (r : Reporter) (path line : String) (number : Int) : Reporter :=
  r.register path ⟨some line, some number⟩

def removeLine (r : Reporter) (path : String) : Reporter := r.registerFile path

def active (r : Reporter) : List (String × String × Option Int) :=
  r.frames.entries.filterMap fun (path, frame) =>
    match frame.line with
    | some line => if line.isEmpty then none else some (path, line, frame.number)
    | none => none

/-- Path, line and column of the offending part, for the innermost statement under way. -/
def location (r : Reporter) (n : Notice) : String :=
  match r.active.getLast? with
  | none => ""
  | some (path, line, number) =>
    let column := max (offsetOf line n.expr) 0 + n.start + 1
    r.style.bold (path ++ ":" ++ Frame.numberText number ++ ":" ++ intText column ++ ": ")

/-- Prints a message. If its notes cannot be made, nothing comes after its first line. -/
def reportLabelled (r : Reporter) (n : Notice) (notes : Except Failure (List String))
    (label : String) (hue : Hue) : Reporter × Option Failure :=
  let r := r.printLine (r.location n ++ r.style.mark hue (label ++ ": ") ++ n.message)
  match notes with
  | .error f => (r, some f)
  | .ok notes =>
    let r := notes.foldl (fun r note => r.printLine (r.style.bold "  note: " ++ note)) r
    if !n.internal && !n.expr.isEmpty && n.underline then
      (r.printLine (n.diagnosis r.style hue), none)
    else (r, none)

def printStatements (r : Reporter) : Reporter :=
  if r.active.length > 1 then
    r.active.foldl
      (fun r (path, line, number) =>
        r.printLine ("  " ++ path ++ ", line " ++ Frame.numberText number ++ ": " ++ line))
      (r.printLine "Statements (innermost last):")
  else r

variable [Machine]

def warn (r : Reporter) (cause : Fault) : Reporter × Option Failure :=
  match cause.notice r.style with
  | .ok n => r.reportLabelled n (cause.notes (.levels nestingLimit)) "warning" .magenta
  | .error f => (r, some f)

/-- Prints an error. A fatal one then ends the program; after any other, no statement is under
way. -/
def throwNotice (r : Reporter) (n : Notice) (notes : Except Failure (List String)) :
    Reporter × Option Failure :=
  let label := if n.internal then "internal error" else "error"
  match r.printStatements.reportLabelled n notes label .red with
  | (r, some f) => (r, some f)
  | (r, none) =>
    if r.fatal then (r, some (.exit "1")) else ({ r with frames := Bindings.empty }, none)

def throw (r : Reporter) (cause : Fault) : Reporter × Option Failure :=
  match cause.notice r.style with
  | .ok n => r.throwNotice n (cause.notes (.levels nestingLimit))
  | .error f => (r, some f)

/-- The location of a failure. One that is no fault has none once a statement is under way. -/
def locationOf (r : Reporter) (f : Failure) : Except Failure String :=
  match f with
  | .fault cause => (cause.notice r.style).map r.location
  | f => if r.active.isEmpty then .ok "" else .error (.noWordsOn f.describe.1 "expr")

def throwFailure (r : Reporter) : Failure → Reporter × Option Failure
  | .fault cause => r.throw cause
  | f => (r.printStatements, some (.noWordsOn f.describe.1 "internal"))

/-- Reports a failure that is not meant to happen, and passes it on. -/
def throwUnforeseen (r : Reporter) (f : Failure) : Reporter × Option Failure :=
  match r.throw (.unforeseen f.describe.1 f.describe.2) with
  | (r, none) => (r, some f)
  | stopped => stopped

/-- Reports whatever stopped an operation. The second part is what is left to stop the caller. -/
def handle (r : Reporter) : Failure → Reporter × Option Failure
  | .exit code => (r, some (.exit code))
  | .interrupt => r.throw .interrupted
  | .tooDeep => r.throw (.nestedTooDeeply "run" "program")
  | .fault cause =>
    match cause.notice r.style with
    | .ok n => r.throwNotice n (cause.notes (.levels nestingLimit))
    | .error f => r.throwUnforeseen f
  | f => r.throwUnforeseen f

end Reporter

end CurryCalc
