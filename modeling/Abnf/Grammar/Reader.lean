import Abnf.Grammar.Token
import Abnf.Interpreter

/-!
# Reading a grammar

A grammar is read from left to right in one pass, and each definition is resolved while it is read:
a reference is looked up at once, bounds are compared as soon as both are known, and the first
fault ends the reading. What is read is what the rules stand for; no tree of the text is kept.

Readers take the characters that are left and answer with what they read and the characters left
after it. Alternatives, concatenations and elements contain each other through groups. How deeply
groups may nest is limited by the interpreter, and that limit is what the recursion through them
goes down on; the loops within one group go down on the characters left.
-/

namespace Abnf.Grammar

open Token

variable [Interpreter]

/-- Ends the reading at the characters left. -/
def refuse {α : Type} (cause : Cause) (left : List Char) : Except Fault α :=
  .error ⟨cause, left.length⟩

/-- How deeply groups may nest. -/
def depthLimit : Nat := Interpreter.groupDepth

theorem depthLimit_pos : 0 < depthLimit :=
  Nat.lt_of_lt_of_le (by decide) Interpreter.room_for_groups

/-- The highest code point there is. -/
def highestCode : Nat := 0x10FFFF

/-- The value of a decimal numeral that ends at the characters left. -/
def decimalAt (digits left : List Char) : Except Fault Nat :=
  match Text.decimalValue digits with
  | .ok n => .ok n
  | .error long => refuse (.numeralTooLong long) left

/-- A repeat that ends at the characters left. -/
def resolveBounds (bounds : Bounds) (left : List Char) : Except Fault Repeat :=
  match bounds with
  | .exact count => return .exactly (← decimalAt count left)
  | .range [] [] => return .any
  | .range least [] => return .atLeast (← decimalAt least left)
  | .range [] most => return .atMost (← decimalAt most left)
  | .range least most => do
    let least ← decimalAt least left
    let most ← decimalAt most left
    if most < least then refuse .repeatOrder left else return .between least most

/-- Reads a repeat, if there is one. -/
def readRepeat (cs : List Char) : Except Fault (Option Repeat × List Char) :=
  match bounds? cs with
  | none => return (none, cs)
  | some (bounds, rest) => return (some (← resolveBounds bounds rest), rest)

/-- A number that has to be a code point and ends at the characters left. -/
def checkCode (code : Nat) (left : List Char) : Except Fault Nat :=
  if highestCode < code then refuse (.codeTooLarge code) left else .ok code

/-- The value of a numeral that ends at the characters left. -/
def valueAt (base : Base) (digits left : List Char) : Except Fault Nat :=
  match base.value digits with
  | .ok n => .ok n
  | .error long => refuse (.numeralTooLong long) left

/-- The code points of numerals, the first fault first. -/
def codesAt (base : Base) (left : List Char) : List (List Char) → Except Fault (List Nat)
  | [] => .ok []
  | digits :: more => do
    let code ← checkCode (← valueAt base digits left) left
    return code :: (← codesAt base left more)

/-- What numbers stand for. The ends of a range are compared before either is checked. -/
def resolveNumbers (numbers : Numbers) (left : List Char) : Except Fault Expr :=
  match numbers with
  | .row base first more => return .codes (← codesAt base left (first :: more))
  | .range base first last => do
    let first ← valueAt base first left
    let last ← valueAt base last left
    if last ≤ first then refuse .rangeOrder left
    else return .range (← checkCode first left) (← checkCode last left)

/-- What a reference that ends at the characters left stands for. -/
def resolveName (scope : Scope) (name : Name) (left : List Char) : Except Fault Expr :=
  match scope.find? name with
  | some expr => .ok expr
  | none => refuse (.undefinedRule name) left

/-- Reads the body of a group and its closing character. -/
def readGroup (body : List Char → Except Fault (Expr × List Char)) (closing : Char)
    (expected : Expected) (cs : List Char) : Except Fault (Expr × List Char) := do
  let (expr, rest) ← body (skip cs)
  match skip rest with
  | c :: after =>
    if c = closing then return (expr, after) else refuse (.expected expected) (c :: after)
  | [] => refuse (.expected expected) []

/-- Reads an element, if there is one. `body` reads what is inside parentheses and brackets. -/
def readElement (scope : Scope) (body : List Char → Except Fault (Expr × List Char))
    (cs : List Char) : Except Fault (Option (Expr × List Char)) :=
  match cs with
  | '(' :: rest => return some (← readGroup body ')' .closingParenthesis rest)
  | '[' :: rest => do
    let (expr, rest) ← readGroup body ']' .closingBracket rest
    return some (.optional expr, rest)
  | '"' :: rest =>
    return (upTo? isQuotedChar '"' rest).map fun (text, rest) => (.literal text, rest)
  | '<' :: rest =>
    return (upTo? isProseChar '>' rest).map fun (text, rest) => (.literal text, rest)
  | '%' :: rest =>
    match numbers? rest with
    | some (numbers, rest) => return some (← resolveNumbers numbers rest, rest)
    | none => return none
  | cs =>
    match name? cs with
    | some (name, rest) => return some (← resolveName scope name rest, rest)
    | none => return none

/-- An element under its repeat. -/
def applyRepeat : Option Repeat → Expr → Expr
  | none, expr => expr
  | some times, expr => .repeated times expr

/-- One expression after what there is so far. -/
def append : Option Expr → Expr → Expr
  | none, expr => expr
  | some before, expr => .seq before expr

/--
Reads a concatenation, of which `before` has been read. It goes on as long as white space follows an
element and an element follows the white space. At most so many elements are read; each takes a
character, so the characters left are as many as there can be.
-/
def readConcatenation (element : List Char → Except Fault (Option (Expr × List Char))) :
    Nat → (before : Option Expr) → List Char → Except Fault (Expr × List Char)
  | 0, _, cs => refuse (.expected .element) cs
  | n + 1, before, cs => do
    let (times, rest) ← readRepeat cs
    match ← element rest with
    | none =>
      match times, before with
      | none, some expr => return (expr, rest)
      | _, _ => refuse (.expected .element) rest
    | some (expr, rest) =>
      let expr := append before (applyRepeat times expr)
      match skip? rest with
      | none => return (expr, rest)
      | some rest => readConcatenation element n expr rest

/-- Reads the alternatives after the first, each behind a slash; at most so many. -/
def readAlternatives (concatenation : List Char → Except Fault (Expr × List Char)) :
    Nat → List Char → Except Fault (List Expr × List Char)
  | n + 1, '/' :: cs => do
    let (expr, rest) ← concatenation (skip cs)
    let (more, rest) ← readAlternatives concatenation n (skip rest)
    return (expr :: more, rest)
  | _, cs => return ([], cs)

/-- Reads alternatives in which groups may nest so deeply. -/
def readAlternation (scope : Scope) : (depth : Nat) → List Char → Except Fault (Expr × List Char)
  | 0, cs => refuse .nestedTooDeeply cs
  | depth + 1, cs => do
    let element := readElement scope (readAlternation scope depth)
    let concatenation cs := readConcatenation element (cs.length + 1) none cs
    let (first, rest) ← concatenation cs
    let (more, rest) ← readAlternatives concatenation cs.length (skip rest)
    return (.anyOf first more, rest)

/-- Reads a definition after its name. -/
def readDefinition (scope : Scope) (name : Name) (cs : List Char) :
    Except Fault (Scope × List Char) :=
  if scope.isReserved name then refuse (.reservedName name) cs
  else
    match definedAs? (skip cs) with
    | none => refuse (.expected .definedAs) (skip cs)
    | some (false, rest) => do
      let (expr, rest) ← readAlternation scope depthLimit (skip rest)
      return (scope.define name expr, skip rest)
    | some (true, rest) =>
      match scope.defined.find? name with
      | none => refuse (.undefinedExtension name) rest
      | some old => do
        let (expr, rest) ← readAlternation scope depthLimit (skip rest)
        return (scope.define name (.grouped (.alt old expr)), skip rest)

/-- Reads a line: a definition, or nothing but white space. Says whether it was a definition. -/
def readLine (scope : Scope) (cs : List Char) : Except Fault ((Scope × Bool) × List Char) :=
  match name? cs with
  | none => return ((scope, false), dropComment (skip cs))
  | some (name, rest) => do
    let (scope, rest) ← readDefinition scope name rest
    return ((scope, true), dropComment rest)

/-- Reads lines up to the end; at most so many. -/
def readLines : Nat → Scope → List Char → Except Fault Scope
  | 0, _, cs => refuse (.expected .ruleName) cs
  | n + 1, scope, cs => do
    let ((scope, defined), rest) ← readLine scope cs
    if rest.isEmpty then return scope
    else
      match lineEnd? rest with
      | some rest => readLines n scope rest
      | none => refuse (.expected (if defined then .newLine else .ruleName)) rest

/-- Reads a grammar over rules that are given to it. -/
def read (given : Rules) (text : List Char) : Except Error Rules :=
  match readLines (text.length + 1) { given := given } text with
  | .ok scope => .ok scope.defined
  | .error fault => .error ⟨fault.cause, text.length - fault.left⟩

end Abnf.Grammar
