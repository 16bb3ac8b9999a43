import CurryCalc.Fault
import CurryCalc.Text.Digit

/-! The command line: options, one file, and arguments for a program. -/
namespace CurryCalc

inductive ProgramOption where
  | absent
  /-- The separator was attached to the option, and separators are taken out. -/
  | blank
  | program (text : String)
deriving DecidableEq, Repr

structure Options where
  /-- The program to run instead of a file. -/
  command : ProgramOption
  file : Option String
  args : List String
deriving DecidableEq, Repr

/-- Why the command line leads to no run. -/
inductive UsageStop where
  | help
  | misuse (message : String)
deriving DecidableEq, Repr

namespace CommandLine

inductive OptionName where
  | help
  | command
deriving DecidableEq, Repr

def OptionName.label : OptionName → String
  | .help => "-h/--help"
  | .command => "-c/--command"

def spellings : List (String × OptionName) :=
  [("-h", .help), ("--help", .help), ("-c", .command), ("--command", .command)]

/-- An option as it is written: an unknown one has no name, and a known one may have text
attached. -/
structure OptionUse where
  name : Option OptionName
  /-- Whether it is spelled out, so that no letters of other options can be joined to it. -/
  long : Bool
  attached : Option (List Char)
deriving DecidableEq, Repr

inductive Role where
  | positional
  | separator
  | option (use : OptionUse)
deriving DecidableEq, Repr

def separatorWord : String := "--"

def isLong (spelling : List Char) : Bool := ['-', '-'].isPrefixOf spelling

def spelled? (spelling : List Char) (attached : Option (List Char)) : Option OptionUse :=
  (spellings.find? fun (s, _) => s.toList = spelling).map fun (_, name) =>
    ⟨some name, isLong spelling, attached⟩

def splitEquals (word : List Char) : List Char × Option (List Char) :=
  match word.dropWhile (· ≠ '=') with
  | [] => (word, none)
  | _ :: attached => (word.takeWhile (· ≠ '='), some attached)

/-- Options that an abbreviated or joined word may mean, with their spelling. -/
def candidates (word : List Char) : List (String × OptionUse) :=
  if isLong word then
    let (stem, attached) := splitEquals word
    (spellings.filter fun (s, _) => stem.isPrefixOf s.toList).map fun (s, name) =>
      (s, ⟨some name, true, attached⟩)
  else
    (spellings.filter fun (s, _) => s.toList = word.take 2).map fun (s, name) =>
      (s, ⟨some name, false, some (word.drop 2)⟩)

def isDigit (c : Char) : Bool := (digitValue? c).isSome

/-- A negative number without exponent, perhaps with a line feed after it. -/
def isNegativeNumber (word : List Char) : Bool :=
  let word := if word.getLast? = some '\n' then word.dropLast else word
  match word with
  | '-' :: digits =>
    let fraction := digits.dropWhile isDigit
    match fraction with
    | [] => !digits.isEmpty
    | '.' :: rest => !rest.isEmpty && rest.all isDigit
    | _ => false
  | _ => false

/-- The role of a word before any separator. -/
def role (word : String) : Except UsageStop Role :=
  let chars := word.toList
  if chars.head? ≠ some '-' then .ok .positional
  else if word = separatorWord then .ok .separator
  else
    match spelled? chars none with
    | some use => .ok (.option use)
    | none =>
      if chars.length = 1 then .ok .positional
      else
        let (stem, attached) := splitEquals chars
        match if attached.isSome then spelled? stem attached else none with
        | some use => .ok (.option use)
        | none =>
          match candidates chars with
          | [] =>
            if isNegativeNumber chars || chars.contains ' ' then .ok .positional
            else .ok (.option ⟨none, true, none⟩)
          | [(_, use)] => .ok (.option use)
          | several =>
            .error (.misuse ("ambiguous option: " ++ word ++ " could match " ++
              ", ".intercalate (several.map Prod.fst)))

def roles : List String → Except UsageStop (List (String × Role))
  | [] => .ok []
  | word :: rest =>
    match role word with
    | .error stop => .error stop
    | .ok .separator => .ok ((word, .separator) :: rest.map fun w => (w, .positional))
    | .ok r => (roles rest).map ((word, r) :: ·)

/-- What an option does; the last two need the word after it. -/
inductive Effect where
  | unknown
  | help
  | command (text : String)
  | commandFromNext
  | helpAfterNext
deriving DecidableEq, Repr

def ignored (attached : List Char) : UsageStop :=
  .misuse ("argument " ++ OptionName.label .help ++ ": ignored explicit argument " ++
    quoted (String.ofList attached))

/-- Letters joined to the one for help are options too; help acts before all others. -/
def joinedEffect : List Char → Except UsageStop Effect
  | [] => .ok .help
  | 'h' :: rest => joinedEffect rest
  | ['c'] => .ok .helpAfterNext
  | 'c' :: _ => .ok .help
  | attached => .error (ignored attached)

def effect (use : OptionUse) : Except UsageStop Effect :=
  match use.name, use.attached with
  | none, _ => .ok .unknown
  | some .help, none => .ok .help
  | some .help, some attached =>
    if use.long || attached.isEmpty then .error (ignored attached) else joinedEffect attached
  | some .command, none => .ok .commandFromNext
  | some .command, some attached => .ok (.command (String.ofList attached))

structure State where
  /-- The first run of positional words, with the separator in it marked, last word first. -/
  run : List (String × Bool)
  runClosed : Bool
  /-- An option waits for its word; it may be the one for help that acts then. -/
  waiting : Option Effect
  command : ProgramOption
  extras : List String
deriving DecidableEq, Repr

def missingWord : UsageStop :=
  .misuse ("argument " ++ OptionName.label .command ++ ": expected one argument")

def State.addPositional (st : State) (word : String) (isSeparator : Bool) : State :=
  if st.runClosed then { st with extras := word :: st.extras }
  else { st with run := (word, isSeparator) :: st.run }

def State.closeRun (st : State) : State :=
  if st.run.isEmpty then st else { st with runClosed := true }

def State.act (st : State) (word : String) : Effect → Except UsageStop State
  | .unknown => .ok { st with extras := word :: st.extras }
  | .help => .error .help
  | .command text =>
    .ok { st with command := if text = separatorWord then .blank else .program text }
  | e => .ok { st with waiting := some e }

def State.step (st : State) (word : String) (r : Role) : Except UsageStop State :=
  match st.waiting, r with
  | some .helpAfterNext, .positional => .error .help
  | some _, .positional => .ok { st with waiting := none, command := .program word }
  | some _, _ => .error missingWord
  | none, .positional => .ok (st.addPositional word false)
  | none, .separator => .ok (st.addPositional word true)
  | none, .option use =>
    match effect use with
    | .error stop => .error stop
    | .ok e => st.closeRun.act word e

def State.steps (st : State) : List (String × Role) → Except UsageStop State
  | [] => .ok st
  | (word, r) :: rest =>
    match st.step word r with
    | .error stop => .error stop
    | .ok st => st.steps rest

/-- The words that go to the file, and the words after them: one word, and separators around it. -/
def splitRun (run : List (String × Bool)) : List String × List String :=
  let before := run.takeWhile Prod.snd
  let rest := run.dropWhile Prod.snd
  let after := (rest.drop 1).takeWhile Prod.snd
  let others := (rest.drop 1).dropWhile Prod.snd
  ((before ++ rest.take 1 ++ after).map Prod.fst, others.map Prod.fst)

def State.finish (st : State) : Except UsageStop Options :=
  if st.waiting.isSome then .error missingWord
  else if !st.extras.isEmpty then
    .error (.misuse ("unrecognized arguments: " ++ " ".intercalate st.extras.reverse))
  else
    let (file, args) := splitRun st.run.reverse
    .ok ⟨st.command, (file.erase separatorWord).head?, args.erase separatorWord⟩

def parse (argv : List String) : Except UsageStop Options := do
  let words ← roles argv
  let st ← State.steps ⟨[], false, none, .absent, []⟩ words
  st.finish

def usage : String := "usage: props [-h] [-c COMMAND] [file] [ARGS ...]\n"

def helpText : String :=
  usage ++
  "\nprops expression interpreter\n" ++
  "\npositional arguments:\n" ++
  "  file                  file to interpret and run (if empty, goes to command-\n" ++
  "                        line mode)\n" ++
  "  ARGS                  arguments for the --command program\n" ++
  "\noptions:\n" ++
  "  -h, --help            show this help message and exit\n" ++
  "  -c COMMAND, --command COMMAND\n" ++
  "                        program to run instead of a file, applied to ARGS\n"

def misuseText (message : String) : String := usage ++ "props: error: " ++ message ++ "\n"

end CommandLine

end CurryCalc
