/-! Blank characters, trimming, and the words of a text with their offsets. -/
namespace CurryCalc

def isBlank (c : Char) : Bool :=
  let n := c.toNat
  (0x09 ≤ n && n ≤ 0x0D) || (0x1C ≤ n && n ≤ 0x20) || n == 0x85 || n == 0xA0 || n == 0x1680 ||
    (0x2000 ≤ n && n ≤ 0x200A) || n == 0x2028 || n == 0x2029 || n == 0x202F || n == 0x205F ||
    n == 0x3000

def trimLeft (s : String) : String := String.ofList (s.toList.dropWhile isBlank)

def trimRight (s : String) : String := String.ofList (s.toList.reverse.dropWhile isBlank).reverse

def trim (s : String) : String := trimRight (trimLeft s)

/-- A maximal run of characters that are not blank, and where it starts. -/
structure Word where
  offset : Nat
  text : String
deriving DecidableEq, Repr

/-- Ends the run of characters before offset `i`; `run` holds them last first. -/
def closeRun (i : Nat) (run : List Char) (found : List Word) : List Word :=
  if run.isEmpty then found else ⟨i - run.length, String.ofList run.reverse⟩ :: found

/-- Reads from offset `i` on; `found` holds the words before, last first. -/
def wordsFrom (i : Nat) (run : List Char) (found : List Word) : List Char → List Word
  | [] => (closeRun i run found).reverse
  | c :: cs =>
    if isBlank c then wordsFrom (i + 1) [] (closeRun i run found) cs
    else wordsFrom (i + 1) (c :: run) found cs

def wordsAt (s : String) : List Word := wordsFrom 0 [] [] s.toList

def words (s : String) : List String := (wordsAt s).map Word.text

end CurryCalc
