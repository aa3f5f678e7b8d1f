/-!
# Dates and times

The grammar of RFC 3339 for dates and times of the internet. A rule stands before every rule that
refers to it, as everywhere in this library.
-/

namespace Abnf.Bundled

/-- The rules of RFC 3339. -/
def rfc3339Text : String := r#"
    date-fullyear   = 4DIGIT
    date-month      = 2DIGIT
    date-mday       = 2DIGIT
    time-hour       = 2DIGIT
    time-minute     = 2DIGIT
    time-second     = 2DIGIT
    time-secfrac    = "." 1*DIGIT
    time-numoffset  = ( "+" / "-" ) time-hour ":" time-minute
    time-offset     = "Z" / time-numoffset
    partial-time    = time-hour ":" time-minute ":" time-second [ time-secfrac ]
    full-date       = date-fullyear "-" date-month "-" date-mday
    full-time       = partial-time time-offset
    date-time       = full-date "T" full-time
"#

end Abnf.Bundled
