import CurryCalc.Session

/-! The interactive shell: commands about programs, and statements typed in. -/
namespace CurryCalc

structure Shell where
  session : Session
  /-- The beginning of a statement that the next line goes on with. -/
  unfinished : String
  lineNumber : Nat
  prompt : String
deriving DecidableEq, Repr

inductive ShellCommand where
  | tree
  | tokens
  | help
  | endOfInput
  | exit
deriving DecidableEq, Repr

inductive ShellLine where
  | empty
  | command (c : ShellCommand) (argument : String)
  | statement (text : String)
deriving DecidableEq, Repr

def ShellCommand.ofWord? (word : String) : Option ShellCommand :=
  if word = "tree" then some .tree
  else if word = "tokens" then some .tokens
  else if word = "help" then some .help
  else if word = "EOF" then some .endOfInput
  else if word = "exit" then some .exit
  else none

def isCommandChar (c : Char) : Bool := c.isAlphanum || c == '_'

/-- A question mark asks for help, and a line that starts with a command word is that command. -/
def ShellLine.read (raw : String) : ShellLine :=
  let line := trim raw
  match line.toList with
  | [] => .empty
  | '?' :: rest => .command .help (trim (String.ofList rest))
  | chars =>
    match ShellCommand.ofWord? (String.ofList (chars.takeWhile isCommandChar)) with
    | some c => .command c (trim (String.ofList (chars.dropWhile isCommandChar)))
    | none => .statement line

namespace Shell

def intro : String :=
  "props expression interpreter :: Python backend\nType '?' or 'help' for more information."

def primaryPrompt : String := "> "

def secondaryPrompt : String := ". "

def helpText : String :=
  "Welcome to the props interpreter!\n\n" ++
  "props is a tiny expression language with numbers, 'plus', 'minus', 'eq', 'neq',\n" ++
  "'let NAME EXPR in EXPR' and 'if EXPR then EXPR else EXPR'. Programs take positional\n" ++
  "arguments $1, $2, ... and are curried automatically.\n\n" ++
  "Try it out by typing 'add := $1 plus $2'. This will bind a program to the name\n" ++
  "'add'. Next, try typing 'add 1 2', which gives 3, or 'inc := add 1' followed by\n" ++
  "'inc 41'. Use 'tree EXPR' to look at a program's syntax tree."

def new (session : Session) : Shell := ⟨session, "", 0, primaryPrompt⟩

def printLine (sh : Shell) (text : String) : Shell :=
  { sh with session := sh.session.withReporter (·.printLine text) }

def handle [Machine] (sh : Shell) (f : Failure) : Shell × Option Failure :=
  let (reporter, left) := sh.session.reporter.handle f
  ({ sh with session := { sh.session with reporter := reporter } }, left)

def answer [Machine] (sh : Shell) : Except Failure (List String) → Shell × Option Failure
  | .ok lines => (lines.foldl printLine sh, none)
  | .error f => sh.handle f

def treeLines [Machine] (argument : String) : Except Failure (List String) := do
  let tokens ← tokenize argument
  let program ← Program.compile tokens
  let listing ← program.tree.display
  return [listing, "arity: " ++ intText program.arity]

def tokenLine (argument : String) : Except Failure (List String) := do
  let tokens ← tokenize argument
  return [" ".intercalate (tokens.map fun t => t.symbol.inspect)]

/-- Runs a complete statement: the session afterwards, and the results that are taken out of it. A
blank statement is skipped. -/
def attempt [Machine] (sh : Shell) (text : String) : Session × Except Failure (List String) :=
  match sh.session.add text (some sh.lineNumber) with
  | (session, some .emptyStatement) => (session, .ok [])
  | (session, some f) => (session, .error f)
  | (session, none) =>
    match session.run with
    | (session, some f) => (session, .error f)
    | (session, none) => ({ session with results := [] }, .ok session.results)

def runLine [Machine] (sh : Shell) (text : String) : Shell × Option Failure :=
  let (session, outcome) := sh.attempt text
  { sh with session := session }.answer outcome

/-- Takes a line of statement text: the statement that it completes, if any. A continued line only
waits for the next one. -/
def receive (sh : Shell) (text : String) : Shell × Option String :=
  let line := SourceLine.read text
  let statement := trim (sh.unfinished ++ " " ++ line.text)
  let number := sh.lineNumber + 1
  if line.continued then
    ({ sh with unfinished := statement, lineNumber := number, prompt := secondaryPrompt }, none)
  else
    ({ sh with unfinished := "", lineNumber := number, prompt := primaryPrompt }, some statement)

def typeLine [Machine] (sh : Shell) (text : String) : Shell × Option Failure :=
  match sh.receive text with
  | (sh, none) => (sh, none)
  | (sh, some statement) => sh.runLine statement

def runCommandLine [Machine] (sh : Shell) (argument : String) :
    ShellCommand → Shell × Option Failure
  | .tree => sh.answer (treeLines argument)
  | .tokens => sh.answer (tokenLine argument)
  | .help => (sh.printLine helpText, none)
  | .endOfInput => (sh.printLine "", none)
  | .exit => (sh, none)

def isStop : ShellLine → Bool
  | .command .endOfInput _ => true
  | .command .exit _ => true
  | _ => false

/-- Takes a line: whether the shell is to stop, or what escaped from it. -/
def step [Machine] (sh : Shell) (raw : String) : Shell × Except Failure Bool :=
  let line := ShellLine.read raw
  let (sh, left) := match line with
    | .empty => (sh, none)
    | .command c argument => sh.runCommandLine argument c
    | .statement text => sh.typeLine text
  match left with
  | some f => (sh, .error f)
  | none => (sh, .ok (isStop line))

def endOfInput : String := "EOF"

def showPrompt (sh : Shell) : Shell :=
  { sh with session := sh.session.withReporter (·.print sh.prompt) }

/-- Prompts for lines until one stops the shell or something escapes. -/
def loop [Machine] (sh : Shell) : List String → Shell × Option Failure
  | [] =>
    match sh.showPrompt.step endOfInput with
    | (sh, .error f) => (sh, some f)
    | (sh, .ok _) => (sh, none)
  | raw :: rest =>
    match sh.showPrompt.step raw with
    | (sh, .error f) => (sh, some f)
    | (sh, .ok true) => (sh, none)
    | (sh, .ok false) => loop sh rest

end Shell

end CurryCalc
