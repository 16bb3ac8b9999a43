import CurryCalc.Token.Classify

/-! From the lines of a file to its statements. -/
namespace CurryCalc

/-- A line without comment and without its mark of continuation. -/
structure SourceLine where
  text : String
  continued : Bool
deriving DecidableEq, Repr

def continuationMark : Char := '\\'

def SourceLine.read (raw : String) : SourceLine :=
  let text := trimRight (cutBefore commentMark raw)
  if text.toList.getLast? = some continuationMark then
    ⟨String.ofList text.toList.dropLast, true⟩
  else ⟨text, false⟩

structure ScriptEntry where
  text : String
  number : Nat
deriving DecidableEq, Repr

/-- Adds a line to the statements before it. A line after a continued one goes on with the last
statement, if there is any. -/
def addSourceLine (entries : List ScriptEntry) (afterContinued : Bool) (number : Nat)
    (line : SourceLine) : List ScriptEntry :=
  match afterContinued, entries.getLast? with
  | true, some last => entries.dropLast ++ [⟨last.text ++ " " ++ trim line.text, last.number⟩]
  | _, _ => if (trim line.text).isEmpty then entries else entries ++ [⟨trim line.text, number⟩]

def readScriptFrom (number : Nat) (afterContinued : Bool) (entries : List ScriptEntry) :
    List String → List ScriptEntry
  | [] => entries
  | raw :: rest =>
    let line := SourceLine.read raw
    readScriptFrom (number + 1) line.continued (addSourceLine entries afterContinued number line)
      rest

def readScript (lines : List String) : List ScriptEntry := readScriptFrom 1 false [] lines

/-- Cuts a text into lines. A line ends with a line feed, with a carriage return, or with a carriage
return and a line feed; the last one needs no end. `line` holds the current line, last character
first. -/
def fileLinesFrom (line : List Char) (lines : List String) : List Char → List String
  | [] => (if line.isEmpty then lines else String.ofList line.reverse :: lines).reverse
  | '\r' :: '\n' :: cs => fileLinesFrom [] (String.ofList line.reverse :: lines) cs
  | c :: cs =>
    if c = '\n' || c = '\r' then fileLinesFrom [] (String.ofList line.reverse :: lines) cs
    else fileLinesFrom (c :: line) lines cs

def fileLines (text : String) : List String := fileLinesFrom [] [] text.toList

end CurryCalc
