import Abnf.Template.Fault
import Abnf.Datum.Shown

/-!
# Data as values to splice in

A string, a collection of strings and a pattern stand for themselves. A record has to say which of
the three it is, under `kind`. The members of a set have no order of their own and are put in one:
longer strings before shorter ones, so that none is hidden behind a string that it starts with, and
strings of one length by their characters.
-/

namespace Abnf

namespace Datum

/-- Whether a datum has a length. -/
def hasLength : Datum → Bool
  | text _ | bytes _ | list _ | tuple _ | set _ | record _ => true
  | _ => false

/-- The characters of a text. -/
def text? : Datum → Option (List Char)
  | text chars => some chars
  | _ => none

end Datum

namespace Template

namespace Value

variable [Interpreter]

/-- Whether a text comes before another, or is the same, when the first difference decides. -/
def noLater : List Char → List Char → Bool
  | [], _ => true
  | _ :: _, [] => false
  | c :: cs, d :: ds => c < d || (c = d && noLater cs ds)

/-- Longer texts before shorter ones, and texts of one length by their characters. -/
def inOrder (a b : List Char) : Bool := b.length < a.length || (a.length = b.length && noLater a b)

/-- The members of a set of texts, each once and in order. -/
def sorted (texts : List (List Char)) : List (List Char) := texts.eraseDups.mergeSort inOrder

/-- What a check took, or the issues it found. -/
def ofChecked {α : Type} : Checked α → Except Fault α
  | .ok a => .ok a
  | .error issues => .error (.invalid issues)

/-- A check of a field of a value. -/
def ofField {α : Type} (name : String) : Except Fault α → Except Fault α
  | .ok a => .ok a
  | .error fault => .error (fault.under (.field name))

/-- A string as a value. -/
def ofText (datum : Datum) : Except Fault Value :=
  ofField "value" do return .text (← ofChecked datum.checkText)

/-- A collection as a value. -/
def ofTexts (datum : Datum) : Except Fault Value :=
  ofField "values" do return .choices (← ofChecked datum.checkTexts)

/-- The pattern that a text reads as. -/
def readPattern (source : List Char) : Except Fault Regex.Pattern :=
  match Regex.Pattern.compile source with
  | .ok read => .ok read
  | .error e =>
    match e.cause with
    | .repeatTooLarge => .error .repeatTooLarge
    | .repeatTooLong long => ofChecked (Checked.refuse (.repeatTooLong long))
    | _ => ofChecked (Checked.refuse .notRegex)

/-- A pattern, or the text of one, as a value. Bytes may be one too, but not one over text. -/
def ofPattern (datum : Datum) : Except Fault Value :=
  ofField "pattern" <|
    match datum with
    | .pattern p => .ok (.pattern p)
    | .bytesPattern => ofChecked (Checked.refuse .overBytes)
    | .bytes codes => do
      let _ ← readPattern (codes.map Char.ofNat)
      ofChecked (Checked.refuse .overBytes)
    | .text source => return .pattern ⟨.ofText source, ← readPattern source⟩
    | _ => ofChecked (Checked.refuse .notPattern)

/-- A field of a record, or none if it is not there. -/
def required (fields : List (List Char × Datum)) (name : String)
    (check : Datum → Except Fault Value) : Except Fault Value :=
  match fields.lookup name.toList with
  | some datum => check datum
  | none => ofField name (ofChecked (Checked.refuse .missing))

/-- A record as the value that it says it is. -/
def ofRecord (fields : List (List Char × Datum)) : Except Fault Value :=
  match fields.lookup "kind".toList with
  | none => ofChecked (Checked.refuse .tagMissing)
  | some tag =>
    if tag.text? = some "string".toList then ofField "string" (required fields "value" ofText)
    else if tag.text? = some "string-set".toList then
      ofField "string-set" (required fields "values" ofTexts)
    else if tag.text? = some "pattern".toList then
      ofField "pattern" (required fields "pattern" ofPattern)
    else ofChecked (Checked.refuse (.tagUnknown tag.plainText))

/-- The members of a set as a value. -/
def ofSet (members : List Datum) : Except Fault Value :=
  match members.mapM Datum.text? with
  | some texts => .ok (.choices (sorted texts))
  | none =>
    match members.find? (!·.hasLength) with
    | some member => .error (.noLength member.kindName)
    | none => ofTexts (.set members)

/-- Any datum as a value. -/
def ofDatum (datum : Datum) : Except Fault Value :=
  match datum with
  | .value v => .ok v
  | .text chars => .ok (.text chars)
  | .pattern _ | .bytesPattern => ofPattern datum
  | .record fields => ofRecord fields
  | .set members => ofSet members
  | .list _ | .tuple _ => ofTexts datum
  | .bytes codes => ofTexts (.list (codes.map fun code => .int (Int.ofNat code)))
  | .null | .bool _ | .int _ | .real _ => .error (.notSpliceable datum.kindName)

end Value

end Template

end Abnf
