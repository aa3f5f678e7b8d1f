import Abnf.Datum.Checked
import Abnf.Text.Quoted

/-!
# What can be wrong with a template and its values

A template is refused if it has not as many gaps as there are values, and a value if it is of no
kind that can be spliced in, if its parts are not what they should be, or if it is a pattern that
means something else as a part than as a whole.
-/

namespace Abnf.Template

/-- Why a template cannot be filled. -/
inductive Fault where
  /-- The template is no text. -/
  | notText
  /-- As many gaps, and another number of values. -/
  | gapCount (gaps values : Nat)
  /-- A pattern that cannot be read inside a group. -/
  | notInlinable (source wrapped : List Char) (error : Regex.Error)
  /-- A value of a kind that cannot be spliced in. -/
  | notSpliceable (kind : String)
  /-- A member of a set that has no length to be put in order by. -/
  | noLength (kind : String)
  /-- A value with parts that are not what they should be. -/
  | invalid (issues : List Issue)
  /-- A repeat count in the text of a pattern that is too large to be carried out. -/
  | repeatTooLarge
  deriving DecidableEq, Repr

namespace Fault

/-- What is said of a fault; the issues of an invalid value speak for themselves. -/
def message : Fault → String
  | notText => "ABNF source must be a string."
  | gapCount gaps values =>
    "Grammar has " ++ toString gaps ++ " interpolation markers but " ++ toString values
      ++ " values were given."
  | notInlinable source wrapped error =>
    "Pattern " ++ String.ofList (Text.quoted source) ++ " cannot be inlined into a grammar: "
      ++ error.message wrapped
  | notSpliceable kind => "Cannot interpolate a value of type " ++ kind ++ "."
  | noLength kind => "object of type '" ++ kind ++ "' has no len()"
  | invalid _ => ""
  | repeatTooLarge => Regex.Cause.repeatTooLarge.message

/-- A fault of a part, whose issues lie one step further. -/
def under (step : PathStep) : Fault → Fault
  | invalid issues => invalid (issues.map fun issue => { issue with path := step :: issue.path })
  | fault => fault

end Fault

end Abnf.Template
