import CurryCalc.Machine
import CurryCalc.Number.Shortest
import CurryCalc.Text.Quoted

/-! Values that programs compute with or merely pass on. -/
namespace CurryCalc

inductive TokenKind where
  | number
  | keyword
  | name
  | placeholder
deriving DecidableEq, Repr

def TokenKind.text : TokenKind → String
  | .number => "Number"
  | .keyword => "Keyword"
  | .name => "Identifier"
  | .placeholder => "ArgumentPlaceholder"

/-- Numbers and truth values are computed with, and all other values are passed on unread. -/
inductive Value where
  | bool (b : Bool)
  | int (n : Int)
  | float (x : Binary64)
  /-- An undefined number that was given and not computed: it is known to be itself by its
  handle. -/
  | undefined (handle : Nat)
  | text (s : String)
  | nothing
  | list (items : List Value)
  | tuple (items : List Value)
  /-- The items are distinct. -/
  | set (items : List Value)
  | token (kind : TokenKind) (payload : Value) (lexeme : String)
  /-- Something outside the language: it is told from others by its handle and shown by its
  label. -/
  | object (handle : Nat) (kind label : String)
deriving Repr

instance : Coe String Value := ⟨.text⟩

instance : Coe Int Value := ⟨.int⟩

instance : Coe Nat Value := ⟨fun n => .int n⟩

namespace Value

mutual

def decEq (a b : Value) : Decidable (a = b) := by
  cases a <;> cases b <;> first | (refine isFalse ?_; simp; done) | skip
  case bool.bool a b => exact decidable_of_iff (a = b) (by simp)
  case int.int a b => exact decidable_of_iff (a = b) (by simp)
  case float.float a b => exact decidable_of_iff (a = b) (by simp)
  case undefined.undefined a b => exact decidable_of_iff (a = b) (by simp)
  case text.text a b => exact decidable_of_iff (a = b) (by simp)
  case nothing.nothing => exact isTrue rfl
  case list.list xs ys =>
    have := decEqAll xs ys
    exact decidable_of_iff (xs = ys) (by simp)
  case tuple.tuple xs ys =>
    have := decEqAll xs ys
    exact decidable_of_iff (xs = ys) (by simp)
  case set.set xs ys =>
    have := decEqAll xs ys
    exact decidable_of_iff (xs = ys) (by simp)
  case token.token s v l t w m =>
    have := decEq v w
    exact decidable_of_iff (s = t ∧ v = w ∧ l = m) (by simp)
  case object.object h s l k t m => exact decidable_of_iff (h = k ∧ s = t ∧ l = m) (by simp)

def decEqAll (xs ys : List Value) : Decidable (xs = ys) := by
  cases xs <;> cases ys <;> first | (refine isFalse ?_; simp; done) | skip
  case nil.nil => exact isTrue rfl
  case cons.cons x xs y ys =>
    have := decEq x y
    have := decEqAll xs ys
    exact decidable_of_iff (x = y ∧ xs = ys) (by simp)

end

instance : DecidableEq Value := decEq

instance : Inhabited Value := ⟨.nothing⟩

def kind : Value → String
  | .bool _ => "bool"
  | .int _ => "int"
  | .float _ => "float"
  | .undefined _ => "float"
  | .text _ => "str"
  | .nothing => "NoneType"
  | .list _ => "list"
  | .tuple _ => "tuple"
  | .set _ => "set"
  | .token k _ _ => k.text
  | .object _ k _ => k

def isBool : Value → Bool
  | .bool _ => true
  | _ => false

/-- The integer that an integer or a truth value counts as. -/
def toInt? : Value → Option Int
  | .bool b => some (if b then 1 else 0)
  | .int n => some n
  | _ => none

mutual

/-- Whether two values are the same one or equal in meaning: numbers of all kinds, truth values
included, compare by their exact value, and what is made of other values compares by those. -/
def alike : Value → Value → Bool
  | .undefined h, .undefined k => h == k
  | .text s, .text t => s == t
  | .nothing, .nothing => true
  | .object h _ _, .object k _ _ => h == k
  | .list xs, .list ys => alikeAll xs ys
  | .tuple xs, .tuple ys => alikeAll xs ys
  | .set xs, .set ys => xs.length == ys.length && alikeAmong xs ys
  | .token s v _, .token t w _ => s == t && alike v w
  | .float x, .float y => x.same y
  | .float x, b => b.toInt?.any x.isInt
  | a, .float y => a.toInt?.any y.isInt
  | a, b => a.toInt?.isSome && a.toInt? == b.toInt?

def alikeAll : List Value → List Value → Bool
  | [], [] => true
  | x :: xs, y :: ys => alike x y && alikeAll xs ys
  | _, _ => false

def alikeAmong : List Value → List Value → Bool
  | [], _ => true
  | x :: xs, ys => ys.any (fun y => alike x y) && alikeAmong xs ys

end

def isUndefined : Value → Bool
  | .undefined _ => true
  | _ => false

/-- Equality by meaning, which an undefined number does not even have to itself. -/
def same (a b : Value) : Bool := !a.isUndefined && a.alike b

/-- Equality in programs: a truth value never equals a number. -/
def equals (a b : Value) : Bool := a.isBool == b.isBool && a.same b

mutual

/-- Whether two values are alike, found out by calls that go down into both as long as nothing
differs; nothing is known if there is too little room for them. A token takes three levels: its own,
that of its contents and that of the comparison of these. Members of sets are compared with those
like them only. -/
def alikeWithin : Room → Value → Value → Option Bool
  | room, .list xs, .list ys =>
    if xs.length = ys.length then (room.enter 1).bind fun room => alikeAllWithin room xs ys
    else some false
  | room, .tuple xs, .tuple ys => (room.enter 1).bind fun room => alikeAllWithin room xs ys
  | room, .set xs, .set ys =>
    if xs.length = ys.length then (room.enter 1).bind fun room => alikeAmongWithin room xs ys
    else some false
  | room, .token s v _, .token t w _ =>
    if s = t then (room.enter 3).bind fun room => alikeWithin room v w else some false
  | _, a, b => some (a.alike b)

def alikeAllWithin : Room → List Value → List Value → Option Bool
  | _, [], [] => some true
  | room, x :: xs, y :: ys =>
    match alikeWithin room x y with
    | some true => alikeAllWithin room xs ys
    | outcome => outcome
  | _, _, _ => some false

def alikeAmongWithin : Room → List Value → List Value → Option Bool
  | _, [], _ => some true
  | room, x :: xs, ys =>
    match ys.find? fun y => alike x y with
    | none => some false
    | some y =>
      match alikeWithin room x y with
      | some true => alikeAmongWithin room xs ys
      | outcome => outcome

end

def equalsWithin (room : Room) (a b : Value) : Option Bool :=
  if a.isBool = b.isBool && !a.isUndefined then a.alikeWithin room b else some false

mutual

/-- How a value is written where its kind has to be seen. What can be written at all is another
matter: see `Value.unwritable?`. -/
def inspect : Value → String
  | .bool b => if b then "True" else "False"
  | .int n => intText n
  | .float x => x.toText
  | .undefined _ => Binary64.nan.toText
  | .text s => quoted s
  | .nothing => "None"
  | .list items => "[" ++ ", ".intercalate (inspectAll items) ++ "]"
  | .tuple [v] => "(" ++ inspect v ++ ",)"
  | .tuple items => "(" ++ ", ".intercalate (inspectAll items) ++ ")"
  | .set items =>
    if items.isEmpty then "set()" else "\x7b" ++ ", ".intercalate (inspectAll items) ++ "\x7d"
  | .token k v _ => k.text ++ "(" ++ inspect v ++ ")"
  | .object _ _ label => label

def inspectAll : List Value → List String
  | [] => []
  | v :: vs => inspect v :: inspectAll vs

end

def toText : Value → String
  | .text s => s
  | v => v.inspect

mutual

/-- Values that are alike have one normal form, as far as they can be names: numbers of all kinds
become integers if they can, and a token does not depend on its lexeme. -/
def normal : Value → Value
  | .bool b => .int (if b then 1 else 0)
  | .float x => x.toInt?.elim (.float x) .int
  | .tuple items => .tuple (normalAll items)
  | .token k v _ => .token k v.normal ""
  | v => v

def normalAll : List Value → List Value
  | [] => []
  | v :: vs => normal v :: normalAll vs

end

mutual

/-- The kind of what keeps a value from being a name or a member of a set. -/
def unhashable? : Value → Option String
  | .list _ => some "list"
  | .set _ => some "set"
  | .tuple items => unhashableAmong? items
  | .token _ v _ => v.unhashable?
  | _ => none

def unhashableAmong? : List Value → Option String
  | [] => none
  | v :: vs => v.unhashable? <|> unhashableAmong? vs

end

def holds : Value → Bool
  | .bool b => b
  | .int n => n ≠ 0
  | .float x => x.toInt? ≠ some 0
  | .text s => !s.isEmpty
  | .nothing => false
  | .list items => !items.isEmpty
  | .tuple items => !items.isEmpty
  | .set items => !items.isEmpty
  | _ => true

/-- The parts of a value that has some: the characters of a text, or the items of a collection. -/
def parts? : Value → Option (List Value)
  | .text s => some (s.toList.map fun c => .text (String.ofList [c]))
  | .list items => some items
  | .tuple items => some items
  | .set items => some items
  | _ => none

end Value

end CurryCalc
