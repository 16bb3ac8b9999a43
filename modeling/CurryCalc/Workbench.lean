import CurryCalc.Program

/-! Building programs word by word. A workbench holds builders and what calling them gave; every
step adds one entry and changes no other, except that a builder remembers its compiled program. -/
namespace CurryCalc

inductive Part where
  | builder (tokens : List Token) (compiled : Option Closure)
  | item (i : Item)
  | extender (tokens : List Token)
  /-- Something that every object has; no more is known of it than its name. -/
  | inherited (name : String)
deriving DecidableEq, Repr

structure Workbench where
  parts : List Part
deriving DecidableEq, Repr

inductive BuildStep where
  /-- Adds a word. A reserved word may have an underscore after it. -/
  | word (on : Nat) (name : String)
  /-- Adds words given as values, one by itself or several together. -/
  | values (on : Nat) (keys : List Value) (together : Bool)
  | call (on : Nat) (args : List Value)
  | namedCall (on : Nat) (args : List Value)
deriving DecidableEq, Repr

namespace Workbench

def builderText (tokens : List Token) : String := "Props('" ++ sourceOf tokens ++ "')"

/-- The entry that a slot stands for; a slot may hold a reference to an earlier one. -/
def slot (w : Workbench) (k : Nat) : Nat :=
  match w.parts[k]? with
  | some (.item (.value (.object handle _ _))) => handle
  | _ => k

/-- The content of a slot as a value. Builders and closures become references to their slot. -/
def refer (w : Workbench) (k : Nat) : Value :=
  match w.parts[k]? with
  | some (.builder tokens _) => .object k "Props" (builderText tokens)
  | some (.item (.closure c)) => .object k "Invoker" c.inspect
  | some (.item (.value v)) => v
  | some (.extender tokens) =>
    .object k "method" ("<bound method Props._extend of " ++ builderText tokens ++ ">")
  | some (.inherited name) => .object k "object" name
  | none => .nothing

/-- Names with two underscores at both ends, which are never words. -/
def isSpecialName (name : String) : Bool :=
  ['_', '_'].isPrefixOf name.toList && ['_', '_'].isSuffixOf name.toList

/-- The word that a name stands for: a reserved word may be followed by one underscore. -/
def plainWord (name : String) : String :=
  if name.toList.getLast? = some '_' then
    let word := String.ofList name.toList.dropLast
    if (Keyword.ofWord? word).isSome then word else name
  else name

def extend [Machine] (tokens : List Token) (keys : List Value) : Except Failure (List Token) :=
  (keys.mapM fun key => classifyValue key .nothing 0).map (tokens ++ ·)

/-- The compiled program of a builder, compiled now unless it was before. -/
def compiledOf [Machine] (tokens : List Token) : Option Closure → Except Failure Closure
  | some c => .ok c
  | none => Closure.compile tokens

def asBuilder (outcome : Except Failure (List Token)) : Except Failure Part :=
  outcome.map fun tokens => .builder tokens none

def tokensName : String := "_tokens"

def compiledName : String := "_invoker"

def extendName : String := "_extend"

/-- Special names that every builder has. -/
def inheritedNames : List String := [
  "__call__", "__class__", "__delattr__", "__dict__", "__dir__", "__doc__", "__eq__", "__format__",
  "__ge__", "__getattr__", "__getattribute__", "__getitem__", "__getstate__", "__gt__", "__hash__",
  "__init__", "__init_subclass__", "__iter__", "__le__", "__lt__", "__module__", "__ne__",
  "__new__",
  "__reduce__", "__reduce_ex__", "__repr__", "__setattr__", "__sizeof__", "__str__",
  "__subclasshook__", "__weakref__"]

/-- What a builder has itself under a name. Such a name is never a word. -/
def ownPart? (tokens : List Token) (compiled : Option Closure) (name : String) : Option Part :=
  if name = tokensName then
    some (.item
      (.value (.tuple (tokens.map fun t => .token t.symbol.kind t.symbol.value t.lexeme))))
  else if name = compiledName then some (.item (compiled.elim (.value .nothing) .closure))
  else if name = extendName then some (.extender tokens)
  else if inheritedNames.contains name then some (.inherited name)
  else none

def addWord [Machine] (tokens : List Token) (name : String) : Except Failure Part :=
  if isSpecialName name || name = tokensName || name = compiledName then .error (.notAWord name)
  else asBuilder (extend tokens [.text (plainWord name)])

def itemKind : Item → String
  | .value v => v.kind
  | .closure _ => "Invoker"

def partKind : Part → String
  | .builder _ _ => "Props"
  | .item i => itemKind i
  | .extender _ => "method"
  | .inherited _ => "object"

def closureWord? (c : Closure) (name : String) : Option Value :=
  if name = "remaining" then some (.int c.remaining)
  else if name = "arguments" then some (.tuple c.arguments)
  else none

def intWord? (n : Int) (name : String) : Option Value :=
  if name = "real" || name = "numerator" then some (.int n)
  else if name = "imag" then some (.int 0)
  else if name = "denominator" then some (.int 1)
  else none

def valueWord? (v : Value) (name : String) : Option Value :=
  match v with
  | .token _ payload lexeme =>
    if name = "value" then some payload
    else if name = "lexeme" then some (.text lexeme)
    else none
  | .float _ | .undefined _ =>
    if name = "real" then some v
    else if name = "imag" then some (.float (.zero false))
    else none
  | v => v.toInt?.bind (intWord? · name)

def itemWord? : Item → String → Option Value
  | .value v => valueWord? v
  | .closure c => closureWord? c

def callTokens [Machine] (tokens : List Token) (args : List Value) : Except Failure Part := do
  let c ← Closure.compile tokens
  return .item (← c.call args)

def callName : String := "call"

def indexLimit : Int := Int.pow 2 63

def elementAt (what : String) (parts : List Value) (index : Int) : Except Failure Value :=
  let offset := if index < 0 then index + parts.length else index
  if index < -indexLimit || indexLimit ≤ index then .error .hugeIndex
  else
    match if offset < 0 then none else parts[offset.toNat]? with
    | some v => .ok v
    | none => .error (.indexOutOfRange what)

/-- The part of a value that keys select: a character of a text, or an item of a list or tuple. -/
def select (v : Value) (keys : List Value) (together : Bool) : Except Failure Value :=
  let index? := if together then none else keys.head?.bind Value.toInt?
  let kind := if together then "tuple" else (keys.headD .nothing).kind
  match v, index? with
  | .text _, some i => elementAt "string" (v.parts?.getD []) i
  | .text _, none => .error (.notAnIndex "string indices must be integers" ("'" ++ kind ++ "'"))
  | .list items, some i => elementAt "list" items i
  | .list _, none => .error (.notAnIndex "list indices must be integers or slices" kind)
  | .tuple items, some i => elementAt "tuple" items i
  | .tuple _, none => .error (.notAnIndex "tuple indices must be integers or slices" kind)
  | v, _ => .error (.noValuesOn v.kind)

/-- The words that keys stand for: a tuple stands for its items. -/
def keyWords (keys : List Value) (together : Bool) : List Value :=
  match keys, together with
  | [.tuple items], false => items
  | keys, _ => keys

/-- What a step makes, and the entry that it acted on as it is afterwards. -/
def act [Machine] (part : Part) : BuildStep → Except Failure Part × Part
  | .word _ name =>
    match part with
    | .builder tokens compiled =>
        ((ownPart? tokens compiled name).elim (addWord tokens name) .ok, part)
    | .item i =>
      ((itemWord? i name).elim (.error (.noWordsOn (itemKind i) name)) fun v =>
        .ok (.item (.value v)), part)
    | part => (.error (.noWordsOn (partKind part) name), part)
  | .values _ keys together =>
    match part with
    | .builder tokens _ => (asBuilder (extend tokens (keyWords keys together)), part)
    | .item (.value v) => ((select v keys together).map fun w => .item (.value w), part)
    | part => (.error (.noValuesOn (partKind part)), part)
  | .call _ args =>
    match part with
    | .builder tokens compiled =>
      match compiledOf tokens compiled with
      | .error f => (.error f, part)
      | .ok c => ((c.call args).map .item, .builder tokens (some c))
    | .item (.closure c) => ((c.call args).map .item, part)
    | .extender tokens => (asBuilder (extend tokens args), part)
    | part => (.error (.notCallable (partKind part)), part)
  | .namedCall _ args =>
    match part with
    | .builder tokens _ => ((extend tokens [.text callName]).bind (callTokens · args), part)
    | .item (.closure c) => ((c.call args).map .item, part)
    | part => (.error (.noWordsOn (partKind part) callName), part)

def BuildStep.on : BuildStep → Nat
  | .word on _ => on
  | .values on _ _ => on
  | .call on _ => on
  | .namedCall on _ => on

/-- Marks an undefined number that has been computed with the slot that it is put in. -/
def marked (slot : Nat) : Part → Part
  | .item (.value (.float .nan)) => .item (.value (.undefined slot))
  | part => part

/-- Adds an empty entry, as a step that fails does. -/
def skip (w : Workbench) : Workbench := ⟨w.parts ++ [.item (.value .nothing)]⟩

def step [Machine] (w : Workbench) (s : BuildStep) : Workbench × Except Failure Part :=
  let on := w.slot (BuildStep.on s)
  match w.parts[on]? with
  | none => (w.skip, .error (.indexOutOfRange "list"))
  | some part =>
    let (outcome, after) := act part s
    let w' : Workbench := ⟨w.parts.set on after⟩
    match outcome with
    | .ok p => (⟨w'.parts ++ [marked w.parts.length p]⟩, outcome)
    | .error _ => (w'.skip, outcome)

def compiled? (w : Workbench) (k : Nat) : Option Bool :=
  match w.parts[w.slot k]? with
  | some (.builder _ compiled) => some compiled.isSome
  | _ => none

def new : Workbench := ⟨[.builder [] none]⟩

def ofClosures (closures : List Closure) : Workbench := ⟨closures.map fun c => .item (.closure c)⟩

end Workbench

end CurryCalc
