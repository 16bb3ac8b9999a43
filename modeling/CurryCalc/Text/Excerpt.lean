/-! Parts of a text addressed by code-point offsets. -/
namespace CurryCalc

/-- The offset that `i` stands for in a text of `n` characters: a negative one counts from the end,
and anything outside the text is moved to its nearer end. -/
def clampOffset (n : Nat) (i : Int) : Nat :=
  if i < 0 then (i + n).toNat else min i.toNat n

def excerpt (s : String) (start stop : Int) : String :=
  let first := clampOffset s.length start
  String.ofList ((s.toList.drop first).take (clampOffset s.length stop - first))

def excerptTo (s : String) (stop : Int) : String :=
  String.ofList (s.toList.take (clampOffset s.length stop))

def excerptFrom (s : String) (start : Int) : String :=
  String.ofList (s.toList.drop (clampOffset s.length start))

def occurrencesFrom (part : List Char) (i : Nat) : List Char → List Nat
  | [] => if part.isEmpty then [i] else []
  | c :: cs =>
    if part.isPrefixOf (c :: cs) then i :: occurrencesFrom part (i + 1) cs
    else occurrencesFrom part (i + 1) cs

def firstOffset? (part : List Char) (i : Nat) : List Char → Option Nat
  | [] => if part.isEmpty then some i else none
  | c :: cs => if part.isPrefixOf (c :: cs) then some i else firstOffset? part (i + 1) cs

def findOffset? (s part : String) : Option Nat := firstOffset? part.toList 0 s.toList

def findLastOffset? (s part : String) : Option Nat :=
  (occurrencesFrom part.toList 0 s.toList).getLast?

/-- The offset of `part` in `s`, or -1 where it does not occur. -/
def offsetOf (s part : String) : Int := (findOffset? s part).elim (-1) Int.ofNat

def lastOffsetOf (s part : String) : Int := (findLastOffset? s part).elim (-1) Int.ofNat

/-- The text before the first occurrence of `part`; the whole text if there is none. -/
def cutBefore (part s : String) : String :=
  match findOffset? s part with
  | some i => String.ofList (s.toList.take i)
  | none => s

/-- The pieces between the occurrences of a non-empty `part`, found from left to right. `skip`
counts the characters of an occurrence still to pass over. -/
def piecesFrom (part : List Char) : Nat → List Char → List Char → List String
  | _, piece, [] => [String.ofList piece.reverse]
  | skip + 1, piece, _ :: cs => piecesFrom part skip piece cs
  | 0, piece, c :: cs =>
    if part.isPrefixOf (c :: cs) then
      String.ofList piece.reverse :: piecesFrom part (part.length - 1) [] cs
    else piecesFrom part 0 (c :: piece) cs

def pieces (s part : String) : List String := piecesFrom part.toList 0 [] s.toList

end CurryCalc
