import Abnf.Bundled.Basic
import Abnf.Cursor.Request
import Abnf.Grammar.TokenPattern
import Abnf.HttpDate.Instant
import Abnf.HttpDate.Reader
import Abnf.Proofs.HttpDate.Record
import Abnf.Proofs.Json.Reading
import Abnf.Proofs.Grammar.Correctness
import Abnf.Proofs.Template.Adjacent
import Abnf.Proofs.Template.Assembly
import Abnf.Proofs.Template.Layout
import Abnf.Proofs.Template.LineEnds
import Abnf.Proofs.Template.Transparent
import Abnf.Proofs.Text.Utf16
import Abnf.Proofs.Grammar.LaterLines
import Abnf.Proofs.Grammar.Refusal
import Abnf.Proofs.Grammar.Caseless
import Abnf.Proofs.Template.Caseless
import Abnf.Proofs.Grammar.Insertion
import Abnf.Proofs.Template.Expansion
import Abnf.Proofs.Template.Insertion
import Abnf.Proofs.Cursor.Repetition
import Abnf.Proofs.Regex.Items
import Abnf.Proofs.Grammar.Items
import Abnf.Proofs.Grammar.Flags
import Abnf.Proofs.Template.Choices
import Abnf.Proofs.Template.OuterFlags
import Abnf.Proofs.Template.Increments
import Abnf.Proofs.Json.Strings
import Abnf.Proofs.Text.Location
import Abnf.Proofs.Text.Casing
import Abnf.Proofs.Grammar.Places
import Abnf.Proofs.Grammar.Arrival
import Abnf.Proofs.Grammar.Progress
import Abnf.Proofs.Grammar.CaseForms
import Abnf.Proofs.Template.Delimited
import Abnf.Proofs.Json.Lexical
import Abnf.Proofs.Grammar.TokenPatterns
