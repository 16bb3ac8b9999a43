import CurryCalc.Text.Digit
import CurryCalc.Text.Quoted

/-! Message templates: text with numbered or successive places, braces written twice. The name of a
place may go on to something within its part, and a mark for quoting may follow it. -/
namespace CurryCalc

namespace Template

inductive Error where
  /-- The place asks for part `index`, and there are fewer. -/
  | noPart (index : Nat)
  | noNamedPart (name : String)
  /-- The place asks for something within a part, which is a text and has characters only. -/
  | nothingWithin (name : String)
  | noCharacter
  | notACharacter
  | namelessWithin
  | afterBracket
  | longNumber
  | loneOpen
  | loneClose
  | unclosed
  | nestedOpen
  | noQuoting
  | unknownQuoting (mark : Char)
  | afterQuoting
  | unclosedLayout
  | successiveAfterNumbered
  | numberedAfterSuccessive
deriving DecidableEq, Repr

/-- How the places met so far were addressed; successive places count up. -/
inductive Numbering where
  | unset
  | successive (next : Nat)
  | numbered
deriving DecidableEq, Repr

def Numbering.isSuccessive : Numbering → Bool
  | .successive _ => true
  | _ => false

/-- Writes a text so that a template shows it as it is. -/
def escape (s : String) : String :=
  String.ofList (s.toList.flatMap fun c => if c = '\x7b' || c = '\x7d' then [c, c] else [c])

/-- The number that a place is addressed by, in digits of any script. -/
def numberedIndex? (name : List Char) : Option Nat :=
  if name.isEmpty then none else (name.mapM digitValue?).map ofDigits

def indexBound : Nat := Nat.pow 2 63

def goesWithin (c : Char) : Bool := c = '.' || c = '['

/-- What a place shows of a part: all of it, unless something within it is asked for. The fuel is
the length of the address. -/
def within : Nat → String → List Char → Except Error String
  | _ + 1, _, '.' :: rest =>
    let name := rest.takeWhile (!goesWithin ·)
    if name.isEmpty then .error .namelessWithin
    else .error (.nothingWithin (String.ofList name))
  | fuel + 1, text, '[' :: rest =>
    let key := rest.takeWhile (· ≠ ']')
    if key.isEmpty then .error .namelessWithin
    else
      match numberedIndex? key with
      | none => .error .notACharacter
      | some index =>
        if indexBound ≤ index then .error .longNumber
        else
          match text.toList[index]? with
          | none => .error .noCharacter
          | some c => within fuel (String.ofList [c]) (rest.drop (key.length + 1))
  | _, text, [] => .ok text
  | _, _, _ => .error .afterBracket

def shown (text : String) : Option Char → Except Error String
  | none => .ok text
  | some 's' => .ok text
  | some 'r' => .ok (quoted text)
  | some 'a' => .ok (quotedPlainly text)
  | some mark => .error (.unknownQuoting mark)

def place (parts : List String) (numbering : Numbering) (address : List Char)
    (quoting : Option Char) : Except Error (String × Numbering) :=
  let name := address.takeWhile (!goesWithin ·)
  let part (index : Nat) (after : Numbering) : Except Error (String × Numbering) :=
    match parts[index]? with
    | some text => do
      let text ← within address.length text (address.drop name.length)
      return (← shown text quoting, after)
    | none => .error (.noPart index)
  match name.isEmpty, numberedIndex? name, numbering with
  | true, _, .numbered => .error .successiveAfterNumbered
  | true, _, .unset => part 0 (.successive 1)
  | true, _, .successive next => part next (.successive (next + 1))
  | false, some index, numbering =>
    if indexBound ≤ index then .error .longNumber
    else if numbering.isSuccessive then .error .numberedAfterSuccessive
    else part index .numbered
  | false, none, _ => .error (.noNamedPart (String.ofList name))

/-- How far a template has been read. Addresses are kept last character first. -/
inductive Reading where
  | text
  | address (read : List Char) (bracketed : Bool)
  /-- After the mark that announces quoting. -/
  | quoting (read : List Char)
  | quoted (read : List Char) (mark : Char)
  /-- Directions for the layout, with the number of braces still open. They are skipped. -/
  | layout (read : List Char) (mark : Option Char) (depth : Nat)
deriving DecidableEq, Repr

inductive Progress where
  | reading (state : Reading)
  | complete (read : List Char) (mark : Option Char)
  | failed (cause : Error)
deriving DecidableEq, Repr

def Reading.step (c : Char) : Reading → Progress
  | .text => .reading .text
  | .address read true => .reading (.address (c :: read) (c ≠ ']'))
  | .address read false =>
    if c = '\x7d' then .complete read none
    else if c = '\x7b' then .failed .nestedOpen
    else if c = ':' then .reading (.layout read none 1)
    else if c = '!' then .reading (.quoting read)
    else .reading (.address (c :: read) (c = '['))
  | .quoting read => .reading (.quoted read c)
  | .quoted read mark =>
    if c = '\x7d' then .complete read (some mark)
    else if c = ':' then .reading (.layout read (some mark) 1)
    else .failed .afterQuoting
  | .layout read mark depth =>
    if c = '\x7b' then .reading (.layout read mark (depth + 1))
    else if c ≠ '\x7d' then .reading (.layout read mark depth)
    else if depth ≤ 1 then .complete read mark
    else .reading (.layout read mark (depth - 1))

def Reading.atEnd (out : List Char) : Reading → Except Error (List Char)
  | .text => .ok out.reverse
  | .address _ _ => .error .unclosed
  | .quoting _ => .error .noQuoting
  | .quoted _ _ => .error .unclosedLayout
  | .layout _ _ _ => .error .unclosedLayout

/-- Fills in a template. The text so far is kept last character first. -/
def fillFrom (parts : List String) (numbering : Numbering) (state : Reading) :
    List Char → List Char → Except Error (List Char)
  | [], out => state.atEnd out
  | c :: cs, out =>
    match state with
    | .text =>
      if c = '\x7b' then
        match cs with
        | [] => .error .loneOpen
        | d :: rest =>
          if d = '\x7b' then fillFrom parts numbering .text rest (d :: out)
          else fillFrom parts numbering (.address [] false) (d :: rest) out
      else if c = '\x7d' then
        match cs with
        | d :: rest =>
          if d = '\x7d' then fillFrom parts numbering .text rest (d :: out)
          else .error .loneClose
        | [] => .error .loneClose
      else fillFrom parts numbering .text cs (c :: out)
    | state =>
      match state.step c with
      | .reading state => fillFrom parts numbering state cs out
      | .failed e => .error e
      | .complete read mark =>
        match place parts numbering read.reverse mark with
        | .ok (text, after) => fillFrom parts after .text cs (text.toList.reverse ++ out)
        | .error e => .error e

def fill (template : String) (parts : List String) : Except Error String :=
  (fillFrom parts .unset .text template.toList []).map String.ofList

end Template

end CurryCalc
