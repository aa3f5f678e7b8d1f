/-!
# The words of JSON

The lexical rules of RFC 8259: white space, numbers and the characters that a string may hold
without an escape.
-/

namespace Abnf.Bundled

/-- The lexical rules of JSON. -/
def rfc8259Text : String := r#"
    ws             = *( %x20 / %x09 / %x0A / %x0D )
    minus          = %x2D
    plus           = %x2B
    zero           = %x30
    digit1-9       = %x31-39
    decimal-point  = %x2E
    e              = %x65 / %x45
    int            = zero / ( digit1-9 *DIGIT )
    frac           = decimal-point 1*DIGIT
    exp            = e [ minus / plus ] 1*DIGIT
    number         = [ minus ] int [ frac ] [ exp ]
    unescaped      = %x20-21 / %x23-5B / %x5D-10FFFF
"#

end Abnf.Bundled
