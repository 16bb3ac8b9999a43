import CurryCalc.CommandLine
import CurryCalc.Shell

/-! The whole interpreter: a program on the command line, a file of statements, or the shell. -/
namespace CurryCalc

structure Finish where
  output : String
  errorOutput : String
  exitCode : Option Int
  /-- A failure that nothing reported for good. -/
  escaped : Option Failure
deriving DecidableEq, Repr

namespace Interpreter

def finish (reporter : Reporter) : Option Failure → Finish
  | none => ⟨reporter.output, "", none, none⟩
  | some (.exit code) => ⟨reporter.output, "", code.toInt?, none⟩
  | some f => ⟨reporter.output, "", none, some f⟩

def settle [Machine] (reporter : Reporter) : Option Failure → Finish
  | none => finish reporter none
  | some f =>
    let (reporter, left) := reporter.handle f
    finish reporter left

def runProgram [Machine] (reporter : Reporter) (program : String) (args : List String) : Finish :=
  let reporter := (reporter.registerFile Session.shellPath).registerLine Session.shellPath program 1
  match runCommand program args with
  | .error f => settle reporter (some f)
  | .ok text => settle (reporter.printLine text) none

/-- Runs the program that a taken-out separator leaves: there is none. -/
def runBlank [Machine] (reporter : Reporter) : Finish :=
  let reporter := reporter.register Session.shellPath ⟨none, some 1⟩
  settle reporter (some (.notSearchable "list"))

def runFile [Machine] (reporter : Reporter) (path : String) (files : Files) : Finish :=
  match Session.start reporter path false files with
  | (s, some f) => settle s.reporter (some f)
  | (s, none) =>
    match s.run with
    | (s, some f) => settle s.reporter (some f)
    | (s, none) => settle (s.results.foldl Reporter.printLine s.reporter) none

def openShell (reporter : Reporter) (files : Files) : Shell :=
  (Shell.new (Session.start reporter Session.shellPath true files).1).printLine Shell.intro

def runShell [Machine] (reporter : Reporter) (files : Files) (input : List String) : Finish :=
  let (sh, left) := (openShell reporter files).loop input
  settle sh.session.reporter left

def run [Machine] (style : Style) (argv : List String) (files : Files) (input : List String) :
    Finish :=
  match CommandLine.parse argv with
  | .error .help => ⟨CommandLine.helpText, "", some 0, none⟩
  | .error (.misuse message) => ⟨"", CommandLine.misuseText message, some 2, none⟩
  | .ok options =>
    let reporter := Reporter.new style true
    match options.command, options.file with
    | .program text, file => runProgram reporter text (file.toList ++ options.args)
    | .blank, _ => runBlank reporter
    | .absent, some path => runFile reporter path files
    | .absent, none => runShell reporter files input

/-- Lines typed in, each ended by a line feed; the last one needs no end. -/
def inputLinesFrom (line : List Char) (lines : List String) : List Char → List String
  | [] => (if line.isEmpty then lines else String.ofList line.reverse :: lines).reverse
  | c :: cs =>
    if c = '\n' then inputLinesFrom [] (String.ofList line.reverse :: lines) cs
    else inputLinesFrom (c :: line) lines cs

def inputLines (text : String) : List String := inputLinesFrom [] [] text.toList

end Interpreter

end CurryCalc
