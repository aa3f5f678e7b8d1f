/-!
# Dates in headers

The preferred format for dates of RFC 7231, section 7.1.1.1. Day, hour, minute and second are
limited to what a calendar and a clock can show, with room for a leap second. The month is a gap,
to be filled with the names of the months.
-/

namespace Abnf.Bundled

/-- The names of the months in order. -/
def monthNames : List String :=
  ["Jan", "Feb", "Mar", "Apr", "May", "Jun", "Jul", "Aug", "Sep", "Oct", "Nov", "Dec"]

/-- The rules of the date format. -/
def rfc7231Text : String := r#"
    day-name     = "Mon" / "Tue" / "Wed" / "Thu" / "Fri" / "Sat" / "Sun"
    day          = "0" ( "1" / "2" / "3" / "4" / "5" / "6" / "7" / "8" / "9" )
                 / ( "1" / "2" ) DIGIT
                 / "3" ( "0" / "1" )
    month        = {} ; one of the twelve month names
    year         = 4DIGIT
    hour         = ( "0" / "1" ) DIGIT / "2" ( "0" / "1" / "2" / "3" )
    minute       = ( "0" / "1" / "2" / "3" / "4" / "5" ) DIGIT
    second       = minute / "60" ; leap second
    date1        = day SP month SP year
    time-of-day  = hour ":" minute ":" second
    GMT          = %x47.4D.54 ; "GMT", case-sensitive
    IMF-fixdate  = day-name "," SP date1 SP time-of-day SP GMT
"#

end Abnf.Bundled
