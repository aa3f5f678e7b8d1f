import Abnf.Template.Inline
import Abnf.Template.Interpretation
import Abnf.Template.Literal
import Abnf.Text.Margin

/-!
# Filling a template

A template is a grammar text with gaps, each written as a pair of braces. The margin of the text
goes first, then each gap is filled with the grammar text of its value, and last the white space at
the ends goes.

A pattern has no grammar text. It is given a name instead, the same name wherever the same pattern
is used, and the text refers to it; what the name stands for is handed on beside the text.
-/

namespace Abnf

/-- A grammar text, cut at its gaps. -/
structure Template where
  /-- The text before the first gap. -/
  head : List Char
  /-- The text after each gap. -/
  tail : List (List Char)
  deriving DecidableEq, Repr

namespace Template

variable [Interpreter]

/-- A text cut at its gaps. -/
def cut : List Char → Template
  | '\x7b' :: '\x7d' :: cs =>
    let rest := cut cs
    ⟨[], rest.head :: rest.tail⟩
  | c :: cs =>
    let rest := cut cs
    ⟨c :: rest.head, rest.tail⟩
  | [] => ⟨[], []⟩

/-- The template of a text. -/
def ofText (source : List Char) : Template := cut (Text.dedent source)

/-- The template of a datum, which has to be text. -/
def ofDatum : Datum → Except Fault Template
  | .text source => .ok (ofText source)
  | _ => .error .notText

/-- A pattern that has been given a name, and the expression to use for it. -/
structure Placeholder where
  identity : Identity
  source : List Char
  deriving DecidableEq, Repr

/-- How the names of patterns start. -/
def namePrefix : List Char := "placeholder-rule-".toList

/-- The name of a pattern: they are numbered in order of first use. -/
def placeholderName (number : Nat) : List Char := namePrefix ++ Text.decimal number

/-- A template as far as it has been filled. -/
structure Rendered where
  text : List Char
  /-- The patterns in order of first use. -/
  placeholders : List Placeholder := []
  deriving DecidableEq, Repr

namespace Rendered

/-- The number of a pattern that has a name. -/
def number? (r : Rendered) (identity : Identity) : Option Nat :=
  r.placeholders.findIdx? (·.identity = identity)

/-- The names of the patterns and the expressions to use for them. -/
def named (r : Rendered) : List (List Char × List Char) :=
  r.placeholders.mapIdx fun i p => (placeholderName i, p.source)

/-- The name of a pattern, which is given one if it has none. -/
def nameOf (r : Rendered) (p : PatternValue) : Except Fault (List Char × Rendered) :=
  match r.number? p.identity with
  | some number => .ok (placeholderName number, r)
  | none => do
    let source ← inline p.pattern
    return (placeholderName r.placeholders.length,
      { r with placeholders := r.placeholders ++ [⟨p.identity, source⟩] })

/-- Strings as alternatives in parentheses. Empty strings stand for nothing and are left out. -/
def choicesToAbnf (texts : List (List Char)) : List Char :=
  match texts.filter (!·.isEmpty) with
  | [] => []
  | texts => '(' :: ' ' :: [' ', '/', ' '].intercalate (texts.map literalToAbnf) ++ [' ', ')']

/-- The grammar text of a value. -/
def splice (r : Rendered) : Value → Except Fault (List Char × Rendered)
  | .text text => .ok (literalToAbnf text, r)
  | .choices texts => .ok (choicesToAbnf texts, r)
  | .pattern p => r.nameOf p

/-- Grammar text with a space on either side, unless it is empty or a space stands there already. -/
def spaced (before inserted : List Char) : List Char :=
  if inserted.isEmpty then before
  else if before.getLast? = some ' ' then before ++ inserted ++ [' ']
  else before ++ ' ' :: inserted ++ [' ']

/-- Fills a gap with a datum and adds the text after the gap. -/
def fill (r : Rendered) (datum : Datum) (after : List Char) : Except Fault Rendered := do
  let (inserted, r) ← r.splice (← Value.ofDatum datum)
  return { r with text := spaced r.text inserted ++ after }

/-- Fills gaps in order. -/
def fillAll (r : Rendered) : List (Datum × List Char) → Except Fault Rendered
  | [] => .ok r
  | (datum, after) :: rest => do (← r.fill datum after).fillAll rest

end Rendered

/-- A template with all its gaps filled. -/
def render (t : Template) (values : List Datum) : Except Fault Rendered :=
  if t.tail.length ≠ values.length then .error (.gapCount t.tail.length values.length)
  else do
    let r ← Rendered.fillAll { text := t.head } (values.zip t.tail)
    return { r with text := Text.strip r.text }

end Template

end Abnf
