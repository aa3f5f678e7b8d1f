import Abnf.Interpreter
import Abnf.Regex.Fault
import Abnf.Regex.GroupName
import Abnf.Regex.Node

/-!
# Reading an expression

An expression is read one character at a time. The state keeps what has been read so far: the groups
that are open, the alternatives and items of the innermost one, and a mode that says which construct
the next character belongs to. Reading a text is then a fold over its characters, so what reading
`u ++ v` does is what reading `v` does after `u`.

Some constructs end only where the next character does not belong to them, such as a group reference
or a brace that turns out to open no repeat. Their mode is settled first, and the character is then
read as the start of an item.

Flags are resolved on the way: every group keeps the flags in force inside it, and an item takes
from them what it needs.

Expressions are over text, never over bytes. How deeply their groups may nest is not limited here.
-/

namespace Abnf.Regex

variable [Interpreter]

/-- How often a repeat goes on, and whether it gives rounds back. -/
inductive Greed where
  | greedy
  | lazy
  | possessive
  deriving DecidableEq, Repr

/-- An item of an alternative, told apart by what a quantifier after it may do. -/
inductive Item where
  /-- A place: it cannot be repeated. -/
  | anchor (anchor : Anchor)
  /-- Anything that can be repeated. -/
  | single (node : Node)
  /-- A repeat: it cannot be repeated again. -/
  | repeated (greed : Greed) (least : Nat) (most : Option Nat) (body : Node)
  deriving DecidableEq, Repr

/--
What an item says. A possessive repeat keeps each round and then the whole as they first matched.
-/
def Item.node : Item → Node
  | anchor a => .anchor a
  | single node => node
  | repeated .greedy least most body => .iterate false least most body
  | repeated .lazy least most body => .iterate true least most body
  | repeated .possessive least most body => .atomic (.iterate false least most (.atomic body))

/-- What the body of an open group will become. -/
inductive Opening where
  /-- The body itself. -/
  | plain
  /-- A capture of the body. -/
  | capture (group : Nat)
  /-- The body kept as it first matched. -/
  | atomic
  /-- A look ahead. -/
  | ahead (negated : Bool)
  /-- A look behind, opened when there were so many groups. -/
  | behind (negated : Bool) (groups : Nat)
  /-- A choice by whether a group has taken something. -/
  | condition (group : Nat)

/-- The alternatives of a group as far as they have been read. -/
structure Level where
  /-- The flags in force. -/
  flags : Flags := {}
  /-- The finished alternatives, the latest first. -/
  branches : List Node := []
  /-- The items of the current alternative, the latest first. -/
  items : List Item := []

namespace Level

/-- The current alternative. -/
def branch (level : Level) : Node :=
  level.items.foldl (fun rest item => .seq item.node rest) .empty

/-- All alternatives, in order. -/
def body (level : Level) : Node :=
  level.branches.foldl (fun rest branch => .alt branch rest) level.branch

/-- The first alternative if a group has taken something, or else the second or nothing. -/
def choice (level : Level) (group : Nat) : Node :=
  match level.branches with
  | [] => .ifTaken group level.branch .empty
  | yes :: _ => .ifTaken group yes level.branch

end Level

/-- What is known of a capture group. -/
structure Group where
  name : Option (List Char)
  /-- How much the group can take, once it has been closed. -/
  span : Option Span := none

/-- What an escaped character is to become. -/
inductive Slot where
  /-- An item of its own. -/
  | item
  /-- A member of the set. -/
  | member (set : CharSet)
  /-- The last of a range of the set that starts with a member. -/
  | last (set : CharSet) (first : Member)

/-- What a name is written for. -/
inductive Purpose where
  /-- To give it to a group. -/
  | group
  /-- To refer to a group. -/
  | reference
  /-- To ask whether a group has taken something. -/
  | condition
  /-- To name a character. -/
  | character (slot : Slot)

namespace Purpose

/-- The character that ends the name. -/
def terminator : Purpose → Char
  | group => '>'
  | reference | condition => ')'
  | character _ => '\x7d'

/-- What the name is the name of. -/
def subject : Purpose → String
  | group | reference | condition => "group name"
  | character _ => "character name"

end Purpose

/-- The construct that the next character belongs to. Digits and names are kept as written. -/
inductive Mode where
  /-- An item. -/
  | plain
  /-- An item, or what says how the repeat before it goes on. -/
  | quantified
  /-- After an opening brace that may start a repeat. -/
  | braces (least : List Char) (most : Option (List Char))
  /-- A `#` comment; after a backslash the next character does not end it. -/
  | comment (escaped : Bool)
  /-- After a backslash. -/
  | escape (slot : Slot)
  /-- An escape of so many more hexadecimal digits. -/
  | hex (slot : Slot) (escape : List Char) (left : Nat)
  /-- An escape of up to three octal digits. -/
  | octal (slot : Slot) (digits : List Char)
  /-- The number of a group, which may turn out to be three octal digits. -/
  | reference (digits : List Char)
  /-- After an opening bracket. -/
  | setOpen
  /-- A member of the set. -/
  | setMember (set : CharSet)
  /-- After a member, which may turn out to start a range. -/
  | setAfter (set : CharSet) (first : Member)
  /-- After a member and a hyphen. -/
  | setRange (set : CharSet) (first : Member)
  /-- After an opening parenthesis. -/
  | groupOpen
  /-- After `(?`. -/
  | extension
  /-- Inside `(?#`. -/
  | groupComment (escaped : Bool)
  /-- After `(?P`. -/
  | named
  /-- Before the brace that opens the name of a character. -/
  | characterOpen (slot : Slot)
  /-- Inside a name; after a backslash the next character does not end it. -/
  | name (purpose : Purpose) (name : List Char) (escaped : Bool)
  /-- After `(?<`. -/
  | behind
  /-- Inside a flag group, with the flags it switches on. -/
  | flagsOn (on : List Flag)
  /-- Inside a flag group after the hyphen. -/
  | flagsOff (on off : List Flag)

/-- An expression as far as it has been read. -/
structure State where
  /-- The innermost group, or the whole expression. -/
  level : Level
  /-- What the open groups will become and what they interrupt, the innermost first. -/
  outer : List (Opening × Level) := []
  /-- The construct that the next character belongs to. -/
  mode : Mode := .plain
  /-- The capture groups in order of their numbers. -/
  groups : List Group := []
  /-- The numbers by which groups have been asked for that need not have been read yet. -/
  asked : List Nat := []
  /-- The flags of the whole expression. -/
  flags : Flags := {}

/-- A repeat count from here on is too large to be carried out. -/
def repeatLimit : Nat := 4294967295

/-- The most characters that a look behind can take. -/
def lookbehindLimit : Nat := 4294967295

/-- The white space that is skipped between items under the verbose flag. -/
def isPatternSpace (c : Char) : Bool := c = ' ' || (9 ≤ c.toNat && c.toNat ≤ 13)

/-- A digit of octal. -/
def isOctalDigit (c : Char) : Bool := '0' ≤ c && c ≤ '7'

/-- The control characters that have an escape of their own. -/
def controlEscape? : Char → Option Nat
  | 'a' => some 7
  | 'f' => some 12
  | 'n' => some 10
  | 'r' => some 13
  | 't' => some 9
  | 'v' => some 11
  | _ => none

/-- The kind of characters that an escape stands for, and whether it stands for all others. -/
def kindEscape? : Char → Option (Kind × Bool)
  | 'd' => some (.digit, false)
  | 'D' => some (.digit, true)
  | 's' => some (.space, false)
  | 'S' => some (.space, true)
  | 'w' => some (.word, false)
  | 'W' => some (.word, true)
  | _ => none

/-- How many digits an escape by number has. -/
def hexWidth? : Char → Option Nat
  | 'x' => some 2
  | 'u' => some 4
  | 'U' => some 8
  | _ => none

namespace State

/-- The start of an expression under flags. -/
def start (flags : Flags) : State := { level := { flags := flags }, flags := flags }

/-- Refuses the expression at the character being read, or so many characters before it. -/
def refuse (cause : Cause) (back : Nat := 0) : Except Fault State := .error ⟨cause, back⟩

/-- The state in another mode. -/
def enter (s : State) (mode : Mode) : State := { s with mode := mode }

/-- The state with one more item, ready for the next. -/
def push (s : State) (item : Item) : State :=
  { s with level := { s.level with items := item :: s.level.items }, mode := .plain }

/-- A character that stands for itself. -/
def pushCode (s : State) (code : Nat) : State :=
  s.push (.single (.char s.level.flags.caseRule code))

/-- A character set. -/
def pushSet (s : State) (set : CharSet) : State :=
  s.push (.single (.set s.level.flags.caseRule { set with members := set.members.reverse }))

/-- What an escape stands for, put where it belongs. -/
def deliver (s : State) (slot : Slot) (m : Member) : Except Fault State :=
  match slot, m with
  | .item, .one code => .ok (s.pushCode code)
  | .item, m => .ok (s.pushSet { members := [m] })
  | .member set, m => .ok (s.enter (.setAfter set m))
  | .last set (.one first), .one last =>
    if last < first then refuse .badRange
    else .ok (s.enter (.setMember { set with members := .range first last :: set.members }))
  | .last _ _, _ => refuse .badRange

/-- The set with a member that turned out to start no range. -/
def addMember (set : CharSet) (m : Member) : CharSet :=
  { set with members := m :: set.members }

/-- Opens a group whose body is read under flags of its own. -/
def openGroup (s : State) (opening : Opening) (flags : Flags) : State :=
  { s with level := { flags := flags }, outer := (opening, s.level) :: s.outer, mode := .plain }

/-- Opens the next capture group. -/
def openCapture (s : State) (name : Option (List Char)) : State :=
  let counted : State := { s with groups := s.groups ++ [⟨name, none⟩] }
  counted.openGroup (.capture (s.groups.length + 1)) s.level.flags

/-- The number of the group with a name. -/
def groupNamed? (s : State) (name : List Char) : Option Nat :=
  (s.groups.findIdx? (·.name = some name)).map (· + 1)

/-- The spans of the groups that have been closed. -/
def spanOf (s : State) (group : Nat) : Span :=
  ((s.groups[group - 1]?).bind (·.span)).getD (.exactly 0)

/-- How many groups there were when the outermost open lookbehind was opened. -/
def groupsBeforeBehind? (s : State) : Option Nat :=
  s.outer.foldl (fun found o => match o.1 with
    | .behind _ groups => some groups
    | _ => found) none

/-- Whether a group has been closed. -/
def hasClosed (s : State) (group : Nat) : Bool := ((s.groups[group - 1]?).bind (·.span)).isSome

/-- A reference to a group, which has to be closed and outside the lookbehind that refers to it. -/
def refer (s : State) (group : Nat) (unknown : Cause) : Except Fault State :=
  match if group = 0 then none else s.groups[group - 1]? with
  | none => refuse unknown
  | some g =>
    if g.span.isNone then refuse .openGroup
    else if (s.groupsBeforeBehind?).any (· < group) then refuse .groupOfLookbehind
    else .ok (s.push (.single (.again s.level.flags.caseRule group)))

/--
Opens a choice by whether a group has taken something. Only in a lookbehind does the group have to
be closed, and outside of it.
-/
def openCondition (s : State) (group : Nat) : Except Fault State :=
  let inside := s.openGroup (.condition group) s.level.flags
  match s.groupsBeforeBehind? with
  | none => .ok inside
  | some before =>
    if !s.hasClosed group then refuse .openGroup
    else if before < group then refuse .groupOfLookbehind
    else .ok inside

/-- The state, if the flags of the whole expression can be in force together over text. -/
def checkFlags (s : State) : Except Fault State :=
  if s.flags.locale then refuse .localeOverText
  else if s.flags.ascii && s.flags.unicode then refuse .asciiAndUnicode
  else .ok s

/-- The state, if there are as many groups as have been asked for. -/
def checkAsked (s : State) : Except Fault State :=
  match s.asked.find? (s.groups.length < ·) with
  | some group => refuse (.unknownGroup group)
  | none => .ok s

/--
Closes the innermost group. A parenthesis with no group to close ends the expression, so its flags
are looked at before it is refused.
-/
def close (s : State) : Except Fault State :=
  match s.outer with
  | [] => s.checkFlags.bind fun _ => refuse .unbalanced
  | (opening, level) :: outer =>
    let inner := s.level
    let body := inner.body
    let s : State := { s with level := level, outer := outer }
    match opening with
    | .plain => .ok (s.push (.single body))
    | .atomic => .ok (s.push (.single (.atomic body)))
    | .ahead negated => .ok (s.push (.single (.ahead negated body)))
    | .behind negated _ =>
      let span := body.span s.spanOf
      if lookbehindLimit < span.least then refuse .lookbehindTooWide
      else if span.most = some span.least then
        .ok (s.push (.single (.behind negated span.least body)))
      else refuse .variableLookbehind
    | .condition group => .ok (s.push (.single (inner.choice group)))
    | .capture group =>
      let closed (g : Group) : Group := { g with span := some (body.span s.spanOf) }
      .ok ({ s with groups := s.groups.modify (group - 1) closed }.push
        (.single (.capture group body)))

/-- Ends an alternative. -/
def nextBranch (s : State) : State :=
  { s with
    level := { s.level with branches := s.level.branch :: s.level.branches, items := [] }
    mode := .plain }

/-- Ends an alternative, if there may be another: a condition decides between two at most. -/
def bar (s : State) : Except Fault State :=
  match s.outer, s.level.branches with
  | (.condition _, _) :: _, _ :: _ => refuse .tooManyBranches
  | _, _ => .ok s.nextBranch

/-- Repeats the latest item. -/
def quantify (s : State) (least : Nat) (most : Option Nat) : Except Fault State :=
  match s.level.items with
  | [] | .anchor _ :: _ => refuse .nothingToRepeat
  | .repeated _ _ _ _ :: _ => refuse .multipleRepeat
  | .single body :: rest =>
    .ok { s with
      level := { s.level with items := .repeated .greedy least most body :: rest }
      mode := .quantified }

/-- Says how the latest repeat goes on. -/
def setGreed (s : State) (greed : Greed) : State :=
  match s.level.items with
  | .repeated _ least most body :: rest =>
    { s with
      level := { s.level with items := .repeated greed least most body :: rest }
      mode := .plain }
  | _ => s.enter .plain

/-- A character at the start of an item. -/
def readPlain (s : State) (c : Char) : Except Fault State :=
  let flags := s.level.flags
  if flags.verbose && isPatternSpace c then .ok (s.enter .plain)
  else if flags.verbose && c = '#' then .ok (s.enter (.comment false))
  else match c with
    | '\\' => .ok (s.enter (.escape .item))
    | '[' => .ok (s.enter .setOpen)
    | '(' => .ok (s.enter .groupOpen)
    | ')' => s.close
    | '|' => s.bar
    | '.' => .ok (s.push (.single (.any flags.dotAll)))
    | '^' => .ok (s.push (.anchor (if flags.multiline then .lineStart else .textStart)))
    | '$' => .ok (s.push (.anchor (if flags.multiline then .lineEnd else .lastLineEnd)))
    | '*' => s.quantify 0 none
    | '+' => s.quantify 1 none
    | '?' => s.quantify 0 (some 1)
    | '{' => .ok (s.enter (.braces [] none))
    | c => .ok (s.pushCode c.toNat)

/-- The characters of a brace that opens no repeat, each standing for itself. -/
def flushBraces (s : State) (least : List Char) (most : Option (List Char)) : State :=
  let digits := least ++ (most.map (',' :: ·)).getD []
  ('{' :: digits).foldl (fun s c => s.pushCode c.toNat) s

/-- A bound in braces, if it can be carried out. -/
def bound (digits : List Char) : Except Fault Nat :=
  match Text.decimalValue digits with
  | .error long => .error ⟨.repeatTooLong long, 0⟩
  | .ok n => if repeatLimit ≤ n then .error ⟨.repeatTooLarge, 0⟩ else .ok n

/-- Repeats the latest item as often as braces say. An absent bound is zero, or none. -/
def quantifyBraces (s : State) (least : List Char) (most : Option (List Char)) :
    Except Fault State := do
  let low ← bound least
  match most.getD least with
  | [] => s.quantify low none
  | digits =>
    let high ← bound digits
    if high < low then refuse .repeatOrder else s.quantify low (some high)

/-- A character inside braces that may turn out to open no repeat. -/
def readBraces (s : State) (least : List Char) (most : Option (List Char)) (c : Char) :
    Except Fault State :=
  if Text.isAsciiDigit c then
    .ok (s.enter (match most with
      | none => .braces (least ++ [c]) none
      | some digits => .braces least (some (digits ++ [c]))))
  else if c = ',' && most.isNone then .ok (s.enter (.braces least (some [])))
  else if c = '}' && !(least.isEmpty && most.isNone) then s.quantifyBraces least most
  else (s.flushBraces least most).readPlain c

/-- The value of an octal escape. -/
def deliverOctal (s : State) (slot : Slot) (digits : List Char) : Except Fault State :=
  let code := Text.numeralValue 8 digits
  if 0o377 < code then refuse (.octalTooLarge ('\\' :: digits)) else s.deliver slot (.one code)

/-- A reference to a group by its number. -/
def deliverReference (s : State) (digits : List Char) : Except Fault State :=
  let group := Text.numeralValue 10 digits
  s.refer group (.unknownGroup group)

/-- The character after a backslash that stands for an item. -/
def readItemEscape (s : State) (c : Char) : Except Fault State :=
  let ascii := s.level.flags.ascii
  match c with
  | 'A' => .ok (s.push (.anchor .textStart))
  | 'Z' => .ok (s.push (.anchor .textEnd))
  | 'b' => .ok (s.push (.anchor (.wordEdge ascii)))
  | 'B' => .ok (s.push (.anchor (.noWordEdge ascii)))
  | '0' => .ok (s.enter (.octal .item [c]))
  | c =>
    if Text.isAsciiDigit c then .ok (s.enter (.reference [c]))
    else if c = 'N' then .ok (s.enter (.characterOpen .item))
    else refuse (.badEscape ['\\', c])

/-- The character after a backslash inside a set. -/
def readMemberEscape (s : State) (slot : Slot) (c : Char) : Except Fault State :=
  if c = 'b' then s.deliver slot (.one 8)
  else if isOctalDigit c then .ok (s.enter (.octal slot [c]))
  else if c = 'N' then .ok (s.enter (.characterOpen slot))
  else refuse (.badEscape ['\\', c])

/-- The character after a backslash. -/
def readEscape (s : State) (slot : Slot) (c : Char) : Except Fault State :=
  match controlEscape? c, kindEscape? c, hexWidth? c with
  | some code, _, _ => s.deliver slot (.one code)
  | _, some (kind, negated), _ => s.deliver slot (.kind kind s.level.flags.ascii negated)
  | _, _, some width => .ok (s.enter (.hex slot ['\\', c] width))
  | _, _, _ =>
    if c.isAlphanum then
      match slot with
      | .item => s.readItemEscape c
      | slot => s.readMemberEscape slot c
    else s.deliver slot (.one c.toNat)

/-- A character of an escape by number. -/
def readHex (s : State) (slot : Slot) (escape : List Char) (left : Nat) (c : Char) :
    Except Fault State :=
  if !Text.isHexDigit c then refuse (.incompleteEscape escape)
  else
    let escape := escape ++ [c]
    if left ≤ 1 then
      let code := Text.numeralValue 16 (escape.drop 2)
      if 0x10FFFF < code then refuse (.badEscape escape) else s.deliver slot (.one code)
    else .ok (s.enter (.hex slot escape (left - 1)))

/-- A character where a member of a set is expected. -/
def readMember (s : State) (set : CharSet) (c : Char) : Except Fault State :=
  if c = ']' && !set.members.isEmpty then .ok (s.pushSet set)
  else if c = '\\' then .ok (s.enter (.escape (.member set)))
  else .ok (s.enter (.setAfter set (.one c.toNat)))

/--
A character after a member of a set and a hyphen. A hyphen before the closing bracket is itself.
-/
def readRange (s : State) (set : CharSet) (first : Member) (c : Char) : Except Fault State :=
  if c = ']' then .ok (s.pushSet (addMember (addMember set first) (.one '-'.toNat)))
  else if c = '\\' then .ok (s.enter (.escape (.last set first)))
  else s.deliver (.last set first) (.one c.toNat)

/-- One more flag that a group switches on. -/
def addFlag (s : State) (on : List Flag) (f : Flag) : Except Fault State :=
  if f = .locale then refuse .localeFlag
  else if f.isAlphabet && on.any (fun g => g.isAlphabet && g ≠ f) then refuse .alphabetConflict
  else .ok (s.enter (.flagsOn (f :: on)))

/-- Flags for the whole expression, which have to come before every item. -/
def setGlobal (s : State) (on : List Flag) : Except Fault State :=
  if s.outer.isEmpty && s.level.branches.isEmpty && s.level.items.isEmpty then
    .ok { s with
      level := { s.level with flags := s.level.flags.insertAll on }
      flags := s.flags.insertAll on
      mode := .plain }
  else refuse .flagsNotAtStart (on.length + 2)

/-- A character where a flag group names another flag or goes on. -/
def readFlagsOn (s : State) (on : List Flag) (c : Char) : Except Fault State :=
  match Flag.ofLetter? c with
  | some f => s.addFlag on f
  | none =>
    match c with
    | ')' => s.setGlobal on
    | ':' => .ok (s.openGroup .plain (s.level.flags.within on []))
    | '-' => .ok (s.enter (.flagsOff on []))
    | c => if c.isAlpha then refuse .unknownFlag else refuse (.missing "-, : or )")

/-- A character after the hyphen of a flag group. -/
def readFlagsOff (s : State) (on off : List Flag) (c : Char) : Except Fault State :=
  match Flag.ofLetter? c with
  | some f => if f.isAlphabet then refuse .alphabetOff else .ok (s.enter (.flagsOff on (f :: off)))
  | none =>
    if c = ':' && !off.isEmpty then
      if on.any off.contains then refuse .flagOnAndOff
      else .ok (s.openGroup .plain (s.level.flags.within on off))
    else if c.isAlpha then refuse .unknownFlag
    else refuse (.missing (if off.isEmpty then "flag" else ":"))

/-- The character after `(?`. -/
def readExtension (s : State) (c : Char) : Except Fault State :=
  match c with
  | 'P' => .ok (s.enter .named)
  | ':' => .ok (s.openGroup .plain s.level.flags)
  | '#' => .ok (s.enter (.groupComment false))
  | '=' => .ok (s.openGroup (.ahead false) s.level.flags)
  | '!' => .ok (s.openGroup (.ahead true) s.level.flags)
  | '<' => .ok (s.enter .behind)
  | '>' => .ok (s.openGroup .atomic s.level.flags)
  | '(' => .ok (s.enter (.name .condition [] false))
  | '-' => .ok (s.enter (.flagsOff [] []))
  | c =>
    match Flag.ofLetter? c with
    | some f => s.addFlag [] f
    | none => refuse (.unknownExtension ['?', c])

/-- The character after `(?P`. -/
def readNamed (s : State) (c : Char) : Except Fault State :=
  match c with
  | '<' => .ok (s.enter (.name .group [] false))
  | '=' => .ok (s.enter (.name .reference [] false))
  | c => refuse (.unknownExtension ['?', 'P', c])

/-- The character after `(?<`. -/
def readBehind (s : State) (c : Char) : Except Fault State :=
  match c with
  | '=' => .ok (s.openGroup (.behind false s.groups.length) s.level.flags)
  | '!' => .ok (s.openGroup (.behind true s.groups.length) s.level.flags)
  | c => refuse (.unknownExtension ['?', '<', c])

/-- The character after `\N`. -/
def readCharacterOpen (s : State) (slot : Slot) (c : Char) : Except Fault State :=
  if c = '\x7b' then .ok (s.enter (.name (.character slot) [] false)) else refuse (.missing "\x7b")

/-- Opens the next capture group under a name. -/
def openNamed (s : State) (name : List Char) : Except Fault State :=
  if !isGroupName name then refuse (.badName name) name.length
  else match s.groupNamed? name with
    | some earlier => refuse (.nameTaken name (s.groups.length + 1) earlier) name.length
    | none => .ok (s.openCapture (some name))

/-- A reference to a group by its name. -/
def referNamed (s : State) (name : List Char) : Except Fault State :=
  if !isGroupName name then refuse (.badName name) name.length
  else match s.groupNamed? name with
    | some group => s.refer group (.unknownName name)
    | none => refuse (.unknownName name) name.length

/--
Opens a choice by what is known of a group by its name or number. A number may be that of a group to
come, so it is looked at again when the expression has ended.
-/
def openConditionOn (s : State) (name : List Char) : Except Fault State :=
  if isGroupName name then
    match s.groupNamed? name with
    | some group => s.openCondition group
    | none => refuse (.unknownName name) name.length
  else
    match groupNumber? name with
    | none => refuse (.badName name) name.length
    | some group =>
      if group = 0 then refuse .badNumber name.length
      else if groupLimit ≤ group then refuse (.unknownGroup group) name.length
      else State.openCondition { s with asked := s.asked ++ [group] } group

/-- A character by its name. -/
def deliverNamed (s : State) (slot : Slot) (name : List Char) : Except Fault State :=
  match Interpreter.charNamed? name with
  | some c => s.deliver slot (.one c.toNat)
  | none => refuse (.unknownCharacter name) (name.length + 3)

/-- What follows from a name that has been read. -/
def endName (s : State) (purpose : Purpose) (name : List Char) : Except Fault State :=
  match purpose with
  | .group => s.openNamed name
  | .reference => s.referNamed name
  | .condition => s.openConditionOn name
  | .character slot => s.deliverNamed slot name

/-- A character of a name. -/
def readName (s : State) (purpose : Purpose) (name : List Char) (escaped : Bool) (c : Char) :
    Except Fault State :=
  if !escaped && c = purpose.terminator then
    if name.isEmpty then refuse (.missing purpose.subject) else s.endName purpose name
  else .ok (s.enter (.name purpose (name ++ [c]) (!escaped && c = '\\')))

/--
A character of a number after a backslash. Two digits name a group, unless a third makes them an
octal escape.
-/
def readReference (s : State) (digits : List Char) (c : Char) : Except Fault State :=
  if digits.length < 2 && Text.isAsciiDigit c then .ok (s.enter (.reference (digits ++ [c])))
  else if (digits ++ [c]).length = 3 && (digits ++ [c]).all isOctalDigit then
    s.deliverOctal .item (digits ++ [c])
  else do (← s.deliverReference digits).readPlain c

/-- A character in a mode that a character inside a set belongs to. -/
def readSet (s : State) (c : Char) : Except Fault State :=
  match s.mode with
  | .setOpen =>
    if c = '^' then .ok (s.enter (.setMember { negated := true })) else s.readMember {} c
  | .setMember set => s.readMember set c
  | .setAfter set first =>
    if c = '-' then .ok (s.enter (.setRange set first)) else s.readMember (addMember set first) c
  | .setRange set first => s.readRange set first c
  | _ => s.readPlain c

/-- A character after an octal escape that it does not belong to. -/
def readOctal (s : State) (slot : Slot) (digits : List Char) (c : Char) : Except Fault State :=
  if digits.length < 3 && isOctalDigit c then .ok (s.enter (.octal slot (digits ++ [c])))
  else do (← s.deliverOctal slot digits).readSet c

/-- Reads one character. -/
def step (s : State) (c : Char) : Except Fault State :=
  match s.mode with
  | .plain => s.readPlain c
  | .quantified =>
    if c = '?' then .ok (s.setGreed .lazy)
    else if c = '+' then .ok (s.setGreed .possessive)
    else s.readPlain c
  | .braces least most => s.readBraces least most c
  | .comment true => .ok (s.enter (.comment false))
  | .comment false =>
    .ok (s.enter (if c = '\n' then .plain else .comment (c = '\\')))
  | .escape slot => s.readEscape slot c
  | .hex slot escape left => s.readHex slot escape left c
  | .octal slot digits => s.readOctal slot digits c
  | .reference digits => s.readReference digits c
  | .setOpen | .setMember _ | .setAfter _ _ | .setRange _ _ => s.readSet c
  | .groupOpen =>
    if c = '?' then .ok (s.enter .extension) else (s.openCapture none).readPlain c
  | .extension => s.readExtension c
  | .groupComment true => .ok (s.enter (.groupComment false))
  | .groupComment false =>
    .ok (s.enter (if c = ')' then .plain else .groupComment (c = '\\')))
  | .named => s.readNamed c
  | .characterOpen slot => s.readCharacterOpen slot c
  | .name purpose name escaped => s.readName purpose name escaped c
  | .behind => s.readBehind c
  | .flagsOn on => s.readFlagsOn on c
  | .flagsOff on off => s.readFlagsOff on off c

/-- Ends the construct that the end of the expression cuts off, if it may end there. -/
def settle (s : State) : Except Fault State :=
  match s.mode with
  | .plain | .quantified | .comment false => .ok s
  | .braces least most => .ok (s.flushBraces least most)
  | .comment true | .escape _ | .groupComment true | .name _ _ true => refuse .escapeAtEnd
  | .hex _ escape _ => refuse (.incompleteEscape escape)
  | .octal .item digits => s.deliverOctal .item digits
  | .reference digits => s.deliverReference digits
  | .octal _ _ | .setOpen | .setMember _ | .setAfter _ _ | .setRange _ _ => refuse .unterminatedSet
  | .groupOpen => refuse .unterminatedGroup
  | .extension | .named | .behind => refuse .unexpectedEnd
  | .groupComment false => refuse .unterminatedComment
  | .characterOpen _ => refuse (.missing "\x7b")
  | .name purpose [] false => refuse (.missing purpose.subject)
  | .name purpose name false => refuse (.unterminatedName purpose.terminator) name.length
  | .flagsOn _ => refuse (.missing "-, : or )")
  | .flagsOff _ off => refuse (.missing (if off.isEmpty then "flag" else ":"))

/-- Ends the expression. -/
def finish (s : State) : Except Fault State := do
  let s ← s.settle
  if s.outer.isEmpty then (← s.checkFlags).checkAsked else refuse .unterminatedGroup

/-- Reads characters from a position on, and ends the expression after them. -/
def readFrom (s : State) (position : Nat) : List Char → Except Error State
  | [] => s.finish.mapError fun f => ⟨f.cause, position - f.back⟩
  | c :: cs =>
    match s.step c with
    | .ok next => next.readFrom (position + 1) cs
    | .error f => .error ⟨f.cause, position - f.back⟩

end State

end Abnf.Regex
