import CurryCalc.Reporter
import CurryCalc.Script
import CurryCalc.Statement

/-! Sessions: statements wait by line number, and run in that order. -/
namespace CurryCalc

structure Session where
  reporter : Reporter
  path : String
  names : Namespace
  /-- Statements to run, by line number, in ascending order. -/
  pending : List (Int × String)
  results : List String
deriving DecidableEq, Repr

/-- The text of a file, if it can be read. -/
abbrev Files := String → Option String

namespace Session

def shellPath : String := "<in>"

def new (reporter : Reporter) (path : String) : Session := ⟨reporter, path, Bindings.empty, [], []⟩

/-- Puts a statement in its place; it replaces one on the same line. -/
def enqueue (line : Int) (text : String) : List (Int × String) → List (Int × String)
  | [] => [(line, text)]
  | (n, t) :: rest =>
    if line < n then (line, text) :: (n, t) :: rest
    else if line = n then (line, text) :: rest
    else (n, t) :: enqueue line text rest

def nextLine (s : Session) : Int := (s.pending.getLast?.elim 0 Prod.fst) + 1

def withReporter (s : Session) (f : Reporter → Reporter) : Session :=
  { s with reporter := f s.reporter }

def add (s : Session) (text : String) (line : Option Int) : Session × Option Failure :=
  let number := line.getD s.nextLine
  let s := s.withReporter (·.registerLine s.path text number)
  if (trim text).isEmpty then (s, some .emptyStatement)
  else
    let s := { s with pending := enqueue number text s.pending }
    (s.withReporter (·.removeLine s.path), none)

def addAll (s : Session) : List ScriptEntry → Session × Option Failure
  | [] => (s, none)
  | entry :: rest =>
    match s.add entry.text (some entry.number) with
    | (s, none) => addAll s rest
    | stopped => stopped

/-- Starts a session and reads the statements of its file. An interactive session reads no file if
its path is the one for typed statements, and survives errors. -/
def start (reporter : Reporter) (path : String) (interactive : Bool) (files : Files) :
    Session × Option Failure :=
  let reporter := reporter.registerFile path
  let reporter := if interactive then { reporter with fatal := false } else reporter
  let s := new reporter path
  if path = shellPath then (s, if interactive then none else some (.fault .reservedFile))
  else if path.toList.contains '\x00' then (s, some .nulInPath)
  else
    match files path with
    | none => (s, some (.fault (.unreadableFile path)))
    | some text => s.addAll (readScript (fileLines text))

def runStatement [Machine] (s : Session) (text : String) : Session × Option Failure :=
  match Statement.infer text s.names text with
  | .error f => (s, some f)
  | .ok statement =>
    let warned := if statement.isUnapplied then s.reporter.warn (.unappliedProgram text)
      else (s.reporter, none)
    match warned with
    | (reporter, some f) => ({ s with reporter := reporter }, some f)
    | (reporter, none) =>
      let s := { s with reporter := reporter }
      match statement.execute s.names with
      | .error f => (s, some f)
      | .ok (names, result) =>
          ({ s with names := names, results := s.results ++ result.toList }, none)

/-- Runs statements in order up to the first that fails; what is after it stays pending. -/
def runPending [Machine] (s : Session) : List (Int × String) → Session × Option Failure
  | [] => ({ s with pending := [] }, none)
  | (line, text) :: rest =>
    match (s.withReporter (·.registerLine s.path text line)).runStatement text with
    | (s, some f) => ({ s with pending := rest }, some f)
    | (s, none) => runPending (s.withReporter (·.removeLine s.path)) rest

def run [Machine] (s : Session) : Session × Option Failure := s.runPending s.pending

def runHandled [Machine] (s : Session) : Session × Option Failure :=
  match s.run with
  | (s, none) => (s, none)
  | (s, some f) =>
    let (reporter, left) := s.reporter.handle f
    ({ s with reporter := reporter }, left)

def pop (s : Session) : Session × Except Failure String :=
  match s.results with
  | [] => (s, .error .noResult)
  | r :: rest => ({ s with results := rest }, .ok r)

end Session

end CurryCalc
