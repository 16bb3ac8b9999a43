import CurryCalc.Interpreter

/-! The command-line program. -/
open CurryCalc

attribute [local instance] Machine.standard

def flushShell (sh : Shell) : IO Shell := do
  let out ← IO.getStdout
  out.putStr sh.session.reporter.output
  out.flush
  return { sh with session := sh.session.withReporter fun r => { r with output := "" } }

partial def shellLoop (sh : Shell) : IO (Shell × Option Failure) := do
  let sh ← flushShell sh.showPrompt
  let line ← (← IO.getStdin).getLine
  let raw := if line.isEmpty then Shell.endOfInput
    else if line.endsWith "\n" then (line.dropEnd 1).toString else line
  match sh.step raw with
  | (sh, .error f) => return (sh, some f)
  | (sh, .ok stop) => if stop || line.isEmpty then return (sh, none) else shellLoop sh

def readText (path : String) : IO (Option String) := do
  try return some (← IO.FS.readFile path) catch _ => return none

def conclude (f : Finish) : IO UInt32 := do
  IO.print f.output
  IO.eprint f.errorOutput
  match f.exitCode, f.escaped with
  | some code, _ => return code.toNat.toUInt32
  | none, some failure =>
    IO.eprintln (failure.describe.1 ++ ": " ++ failure.describe.2)
    return 1
  | none, none => return 0

def main (argv : List String) : IO UInt32 := do
  let style := if ← (← IO.getStdout).isTty then Style.ansi else Style.plain
  match CommandLine.parse argv with
  | .ok ⟨.absent, none, _⟩ =>
    let (sh, left) ← shellLoop (Interpreter.openShell (Reporter.new style true) fun _ => none)
    conclude (Interpreter.settle sh.session.reporter left)
  | .ok ⟨.absent, some path, _⟩ =>
    let text ← readText path
    conclude (Interpreter.run style argv (fun _ => text) [])
  | _ => conclude (Interpreter.run style argv (fun _ => none) [])
