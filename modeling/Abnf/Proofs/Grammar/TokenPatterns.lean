import Abnf.Grammar.TokenPattern
import Abnf.Proofs.Cursor.Runs
import Abnf.Proofs.Grammar.Source
import Abnf.Proofs.Grammar.Tokens
import Abnf.Proofs.Regex.Scanning
import Abnf.Proofs.Text.Casing

/-!
# The patterns of tokens and the scanners

The reader of grammars has scanners, and for a cursor of one's own there are patterns. Here both are
shown to take the same at every point of every text (`match?_eq_scan?`), the parts of a token that
have a name included.

A pattern goes about it in more ways than a scanner does: it gives back what it has taken, and it
ignores case by the tables of all letters. Neither makes a difference. What follows a run fails in
front of each of its characters, or never fails, so that nothing is given back. And no character
beyond ASCII differs only in case from a digit, a sign or the letter of a base (`alike_letter`,
`holds_digits`).
-/

namespace Abnf.Grammar.TokenPattern

open Regex Token

variable {members : List Member} {c : Char} {base : Base} {code first last : Nat}
  {next : Place → Option Place} {p : Place} {cs rest : List Char}

/-! ## What the patterns say -/

/-- A character as it is. -/
def literal (c : Char) : Node := .char .exact c.toNat

/-- As many characters of a set as possible. -/
def anyOf (rule : CaseRule) (chars : CharSet) : Node := .iterate false 0 none (.set rule chars)

/-- As many characters of a set as possible, and at least one. -/
def someOf (rule : CaseRule) (chars : CharSet) : Node := .iterate false 1 none (.set rule chars)

def letters : CharSet := { members := [.range 65 90, .range 97 122] }

def nameChars : CharSet := { members := [.range 65 90, .range 97 122, .range 48 57, .one 45] }

def blanks : CharSet := { members := [.one 32, .one 9] }

def commentChars : CharSet := { members := [.one 32, .one 9, .range 33 126] }

def quotedChars : CharSet := { members := [.one 32, .one 33, .range 35 126] }

def proseChars : CharSet := { members := [.range 32 61, .range 63 126] }

/-- The digits of a base, of which the letters may be in either case. -/
def digits : Base → CharSet
  | .binary => { members := [.one 48, .one 49] }
  | .decimal => { members := [.range 48 57] }
  | .hexadecimal => { members := [.range 48 57, .range 65 70] }

/-- The letter of a base. -/
def letter : Base → Char
  | .binary => 'b'
  | .decimal => 'd'
  | .hexadecimal => 'x'

def commentNode : Node := .seq (literal ';') (.seq (anyOf .exact commentChars) .empty)

/-- A line break, and something behind it. -/
def lineBreakNode (behind : Node) : Node :=
  .seq (.iterate false 0 (some 1) (literal '\r')) (.seq (literal '\n') behind)

/-- A line break with its comment, and something behind it. -/
def lineEndNode (behind : Node) : Node :=
  .seq (.iterate false 0 (some 1) commentNode) (lineBreakNode behind)

/-- Characters of a set between two others, as the first group. -/
def betweenNode (opening closing : Char) (chars : CharSet) : Node :=
  .seq (literal opening)
    (.seq (.capture 1 (.seq (anyOf .exact chars) .empty)) (.seq (literal closing) .empty))

/-- Two bounds with an asterisk between them. -/
def boundsNode : Node :=
  .seq (.capture 1 (.seq (anyOf .exact (digits .decimal)) .empty))
    (.seq (literal '*') (.seq (.capture 2 (.seq (anyOf .exact (digits .decimal)) .empty)) .empty))

def countNode : Node := .seq (.capture 3 (.seq (someOf .exact (digits .decimal)) .empty)) .empty

/-- Two numerals with a hyphen between them. -/
def rangeNode (base : Base) : Node :=
  .seq (.char .full (letter base).toNat)
    (.seq (someOf .full (digits base))
      (.seq (.char .full '-'.toNat) (.seq (someOf .full (digits base)) .empty)))

/-- A point and a numeral. -/
def furtherNode (base : Base) : Node :=
  .seq (.char .full '.'.toNat) (.seq (someOf .full (digits base)) .empty)

/-- Numerals with points between them. -/
def rowNode (base : Base) : Node :=
  .seq (.char .full (letter base).toNat)
    (.seq (someOf .full (digits base)) (.seq (.iterate false 0 none (furtherNode base)) .empty))

/-- Numbers of one base or another behind their percent sign. -/
def numbersNode (ofBase : Base → Node) : Node :=
  .seq (.char .full '%'.toNat)
    (.seq (.alt (ofBase .binary) (.alt (ofBase .decimal) (ofBase .hexadecimal))) .empty)

/-- What a token says as a regular expression. -/
def node : TokenPattern → Node
  | ruleName => .seq (.set .exact letters) (.seq (anyOf .exact nameChars) .empty)
  | definedAs => .seq (literal '=') (.seq (.iterate false 0 (some 1) (literal '/')) .empty)
  | blank =>
    .alt (.seq (.set .exact blanks) .empty) (lineEndNode (.seq (.set .exact blanks) .empty))
  | comment => commentNode
  | lineEnd => lineEndNode .empty
  | bounds => .alt boundsNode countNode
  | quoted => betweenNode '"' '"' quotedChars
  | numberRange => numbersNode rangeNode
  | numberRow => numbersNode rowNode
  | prose => betweenNode '<' '>' proseChars

/-- The groups of a token. -/
def names : TokenPattern → List (Option (List Char))
  | bounds => [some ['m', 'i', 'n'], some ['m', 'a', 'x'], some ['e', 'x', 'a', 'c', 't']]
  | quoted | prose => [some ['v', 'a', 'l', 'u', 'e']]
  | _ => []

/-- Every token is compiled, and its pattern says this. -/
theorem pattern_eq [Interpreter] (token : TokenPattern) :
    token.pattern =
      .ok ⟨token.source.toList, { token.flags with unicode := true }, token.names, token.node⟩ := by
  cases token <;> rfl

/-! ## The characters of the patterns -/

/-- The classes of the scanners, with their characters as numbers. -/
theorem isBlank_iff : isBlank c ↔ c.toNat = 32 ∨ c.toNat = 9 := by
  have hspace : c = ' ' ↔ c.toNat = 32 := Char.toNat_inj.symm
  have htab : c = '\t' ↔ c.toNat = 9 := Char.toNat_inj.symm
  rw [isBlank, Bool.or_eq_true, decide_eq_true_eq, decide_eq_true_eq, hspace, htab]

theorem isCommentChar_iff : isCommentChar c ↔
    (c.toNat = 32 ∨ c.toNat = 9) ∨ 33 ≤ c.toNat ∧ c.toNat ≤ 126 := by
  have hvisible : '!' ≤ c ∧ c ≤ '~' ↔ 33 ≤ c.toNat ∧ c.toNat ≤ 126 := Iff.rfl
  rw [isCommentChar, Bool.or_eq_true, isBlank_iff, Bool.and_eq_true, decide_eq_true_eq,
    decide_eq_true_eq, hvisible]

theorem isNameChar_iff : isNameChar c ↔
    ((65 ≤ c.toNat ∧ c.toNat ≤ 90 ∨ 97 ≤ c.toNat ∧ c.toNat ≤ 122) ∨
      48 ≤ c.toNat ∧ c.toNat ≤ 57) ∨ c.toNat = 45 := by
  have hhyphen : c = '-' ↔ c.toNat = 45 := Char.toNat_inj.symm
  rw [isNameChar, Bool.or_eq_true, Bool.or_eq_true, isLetter_iff, Text.isAsciiDigit_iff,
    decide_eq_true_eq, hhyphen]

theorem isQuotedChar_iff : isQuotedChar c ↔ (32 ≤ c.toNat ∧ c.toNat ≤ 126) ∧ c.toNat ≠ 34 := by
  have hprintable : ' ' ≤ c ∧ c ≤ '~' ↔ 32 ≤ c.toNat ∧ c.toNat ≤ 126 := Iff.rfl
  have hquote : c = '"' ↔ c.toNat = 34 := Char.toNat_inj.symm
  rw [isQuotedChar, Bool.and_eq_true, Bool.and_eq_true, decide_eq_true_eq, decide_eq_true_eq,
    decide_eq_true_eq, hprintable, ne_eq, hquote]

theorem isProseChar_iff : isProseChar c ↔ (32 ≤ c.toNat ∧ c.toNat ≤ 126) ∧ c.toNat ≠ 62 := by
  have hprintable : ' ' ≤ c ∧ c ≤ '~' ↔ 32 ≤ c.toNat ∧ c.toNat ≤ 126 := Iff.rfl
  have hclosing : c = '>' ↔ c.toNat = 62 := Char.toNat_inj.symm
  rw [isProseChar, Bool.and_eq_true, Bool.and_eq_true, decide_eq_true_eq, decide_eq_true_eq,
    decide_eq_true_eq, hprintable, ne_eq, hclosing]

theorem holds_nil (rule : CaseRule) (c : Char) : CharSet.holds { members := [] } rule c ↔ False :=
  Bool.false_eq_true ▸ Iff.rfl

/-- A set holds what one of its members holds. -/
theorem holds_cons {member : Member} {rule : CaseRule} :
    CharSet.holds { members := member :: members } rule c ↔
      member.holds rule c ∨ CharSet.holds { members := members } rule c := by
  rw [CharSet.holds, CharSet.holds, List.any_cons, Bool.bne_false, Bool.bne_false, Bool.or_eq_true]

/-- The sets of the patterns hold the characters of these classes. -/
theorem holds_letters : letters.holds .exact = isLetter := by
  funext c
  rw [Bool.eq_iff_iff, isLetter_iff, letters]
  simp only [holds_cons, holds_nil, holds_range, or_false]

theorem holds_nameChars : nameChars.holds .exact = isNameChar := by
  funext c
  rw [Bool.eq_iff_iff, isNameChar_iff, nameChars]
  simp only [holds_cons, holds_nil, holds_range, holds_one, or_false]
  omega

theorem holds_blanks : blanks.holds .exact = isBlank := by
  funext c
  rw [Bool.eq_iff_iff, isBlank_iff, blanks]
  simp only [holds_cons, holds_nil, holds_one, or_false]
  omega

theorem holds_commentChars : commentChars.holds .exact = isCommentChar := by
  funext c
  rw [Bool.eq_iff_iff, isCommentChar_iff, commentChars]
  simp only [holds_cons, holds_nil, holds_range, holds_one, or_false]
  omega

theorem holds_quotedChars : quotedChars.holds .exact = isQuotedChar := by
  funext c
  rw [Bool.eq_iff_iff, isQuotedChar_iff, quotedChars]
  simp only [holds_cons, holds_nil, holds_range, holds_one, or_false]
  omega

theorem holds_proseChars : proseChars.holds .exact = isProseChar := by
  funext c
  rw [Bool.eq_iff_iff, isProseChar_iff, proseChars]
  simp only [holds_cons, holds_nil, holds_range, or_false]
  omega

theorem holds_decimal : (digits .decimal).holds .exact = Text.isAsciiDigit := by
  funext c
  rw [Bool.eq_iff_iff, Text.isAsciiDigit_iff, digits]
  simp only [holds_cons, holds_nil, holds_range, or_false]

/-! ### Case is ignored -/

/-- Two properties of characters are the same that are so in ASCII and hold of nothing beyond. -/
theorem eq_of_ascii {kind kind' : Char → Bool}
    (h : ∀ code < 128, kind (.ofNat code) = kind' (.ofNat code))
    (hkind : ∀ c : Char, 128 ≤ c.toNat → ¬ kind c)
    (hkind' : ∀ c : Char, 128 ≤ c.toNat → ¬ kind' c) : kind = kind' := by
  funext c
  rcases Nat.lt_or_ge c.toNat 128 with hascii | hbeyond
  · rw [← Char.ofNat_toNat c]
    exact h c.toNat hascii
  · rw [Bool.eq_false_of_not_eq_true (hkind c hbeyond),
      Bool.eq_false_of_not_eq_true (hkind' c hbeyond)]

/--
Beyond ASCII no character differs from one of ASCII only in case, but for those that share a letter.
-/
theorem not_alike_full (hc : 128 ≤ c.toNat) (hcode : code < 128)
    (hshared : code ∉ Text.sharedLetters) : ¬ CaseRule.full.alike code c.toNat := by
  rw [CaseRule.alike, Bool.or_eq_true, decide_eq_true_eq, List.contains_iff_mem]
  rintro (rfl | hvariant)
  · omega
  · rcases Text.le_or_mem_of_mem_caseVariants hc hvariant with hbeyond | hmem
    · omega
    · exact hshared hmem

/--
The least letter that is shared has the number 73, `I`, and what stands before it has no such
partner.
-/
theorem not_holds_one_full (hc : 128 ≤ c.toNat) (hcode : code < 73) :
    ¬ (Member.one code).holds .full c := by
  refine not_alike_full hc (by omega) fun hmem => ?_
  have hall : ∀ code ∈ Text.sharedLetters, 73 ≤ code := by decide
  exact Nat.not_lt.mpr (hall code hmem) hcode

/-- So has no range before it. -/
theorem not_holds_range_full (hc : 128 ≤ c.toNat) (hlast : last < 73) :
    ¬ (Member.range first last).holds .full c := by
  rw [Member.holds, List.any_eq_true]
  rintro ⟨code, hcode, hbounds⟩
  rw [Bool.and_eq_true, decide_eq_true_eq, decide_eq_true_eq] at hbounds
  -- a range holds what differs only in case from a code point in it
  have hone : CaseRule.full.alike code c.toNat := by
    rw [CaseRule.alike, Bool.or_eq_true, decide_eq_true_eq, List.contains_iff_mem, eq_comm]
    exact List.mem_cons.mp hcode
  exact not_holds_one_full hc (Nat.lt_of_le_of_lt hbounds.2 hlast) hone

/-- Digits and the letters of bases are ASCII. -/
theorem lt_of_isHexDigit (h : Text.isHexDigit c) : c.toNat < 128 := by
  have hle {d e : Char} : d ≤ e ↔ d.toNat ≤ e.toNat := Iff.rfl
  simp only [Text.isHexDigit, Bool.or_eq_true, Bool.and_eq_true, decide_eq_true_eq, hle] at h
  have hbounds : '9'.toNat < 128 ∧ 'F'.toNat < 128 ∧ 'f'.toNat < 128 := by decide
  omega

theorem lt_of_ofLetter? (h : Base.ofLetter? c = some base) : c.toNat < 128 := by
  unfold Base.ofLetter? at h
  split at h
  all_goals first | decide | cases h

/-- The digits of a base, in either case, are the digits that a scanner takes. -/
theorem holds_digits (base : Base) : (digits base).holds .full = base.isDigit := by
  refine eq_of_ascii ?_ (fun c hc => ?_) fun c hc hdigit => ?_
  · cases base <;> decide
  · cases base <;> simp only [digits, holds_cons, holds_nil, or_false, not_or]
    · exact ⟨not_holds_one_full hc (by decide), not_holds_one_full hc (by decide)⟩
    · exact not_holds_range_full hc (by decide)
    · exact ⟨not_holds_range_full hc (by decide), not_holds_range_full hc (by decide)⟩
  · exact Nat.not_lt.mpr hc (lt_of_isHexDigit (isHexDigit_of_isDigit hdigit))

/-- The letter of a base, in either case, is a letter by which a scanner knows the base. -/
theorem alike_letter (base : Base) :
    (fun c : Char => CaseRule.full.alike (letter base).toNat c.toNat) =
      fun c => Base.ofLetter? c = some base := by
  refine eq_of_ascii ?_ (fun c hc => ?_) fun c hc hletter => ?_
  · cases base <;> decide
  · refine not_alike_full hc ?_ ?_ <;> cases base <;> decide
  · exact Nat.not_lt.mpr hc (lt_of_ofLetter? (of_decide_eq_true hletter))

/-- A sign has no case. -/
theorem alike_sign {sign : Char} (h : sign ∈ ['%', '-', '.']) :
    (fun c : Char => CaseRule.full.alike sign.toNat c.toNat) = fun c => c = sign := by
  have hsign : sign = '%' ∨ sign = '-' ∨ sign = '.' := by simpa using h
  refine eq_of_ascii ?_ (fun c hc => ?_) fun c hc hsame => ?_
  · rcases hsign with rfl | rfl | rfl <;> decide
  · refine not_alike_full hc ?_ ?_ <;> rcases hsign with rfl | rfl | rfl <;> decide
  · obtain rfl := of_decide_eq_true hsame
    rcases hsign with rfl | rfl | rfl <;> exact absurd hc (by decide)

/-! ## The parts of the patterns -/

/-- What the parts of a pattern take, said with the classes of the scanners. -/
theorem attempt_literal (c : Char) (p : Place) :
    (literal c).attempt p next = (p.take? fun d => d = c).bind next := by
  have halike : (fun d : Char => CaseRule.exact.alike c.toNat d.toNat) = fun d => d = c := by
    funext d
    simp only [CaseRule.alike, CaseRule.variants, List.contains_nil, Bool.or_false, Char.toNat_inj]
  rw [literal, Node.attempt, halike]

theorem attempt_sign (sign : Char) (h : sign ∈ ['%', '-', '.']) (p : Place) :
    (Node.char .full sign.toNat).attempt p next = (p.take? fun d => d = sign).bind next := by
  rw [Node.attempt, alike_sign h]

theorem attempt_letter (base : Base) (p : Place) :
    (Node.char .full (letter base).toNat).attempt p next =
      (p.take? fun c => Base.ofLetter? c = some base).bind next := by
  rw [Node.attempt, alike_letter]

theorem attempt_blank (p : Place) :
    (Node.set .exact blanks).attempt p next = (p.take? isBlank).bind next := by
  rw [Node.attempt, holds_blanks]

/-- A line break is taken in one way, or there is none. -/
theorem attempt_lineBreak (p : Place) :
    (lineEnd? p.after = none ∧ ∀ behind next, (lineBreakNode behind).attempt p next = none) ∨
      ∃ q, lineEnd? p.after = some q.after ∧ q.captures = p.captures ∧
        ∀ behind next, (lineBreakNode behind).attempt p next = behind.attempt q next := by
  obtain ⟨before, cs, captures⟩ := p
  simp only [lineBreakNode, attempt_seq, attempt_optional, attempt_literal]
  fun_cases lineEnd? cs with
  | case1 rest => exact .inr ⟨⟨'\n' :: before, rest, captures⟩, rfl, rfl, fun _ _ => rfl⟩
  | case2 rest =>
    refine .inr ⟨⟨'\n' :: '\r' :: before, rest, captures⟩, rfl, rfl, fun behind next => ?_⟩
    simp [Place.take?]
  | case3 =>
    rename_i hnewline hreturn
    refine .inl ⟨rfl, fun behind next => ?_⟩
    cases cs with
    | nil => rfl
    | cons c rest =>
      have hc : c ≠ '\n' := fun h => hnewline rest (h ▸ rfl)
      by_cases hfirst : c = '\r'
      · subst hfirst
        cases rest with
        | nil => rfl
        | cons d rest =>
          have hd : d ≠ '\n' := fun h => hreturn rest (h ▸ rfl)
          simp [Place.take?, hd]
      · simp [Place.take?, hc, hfirst]

/-- What is left behind a comment and a line break. -/
theorem onward_lineBreak (behind : Node) (next : Place → Option Place) :
    Onward isCommentChar fun q => (lineBreakNode behind).attempt q next := by
  refine .of_none fun p q htake => ?_
  rcases attempt_lineBreak p with ⟨-, hnone⟩ | ⟨r, hline, -⟩
  · exact hnone behind next
  · -- a line break starts with a character that no comment holds
    obtain ⟨nl, hnl, hafter⟩ := exists_of_lineEnd? hline
    obtain ⟨c, tail, rfl, hc⟩ := hnl.cases_head
    rw [Place.take?_cons hafter, if_neg (by rcases hc with rfl | rfl <;> decide)] at htake
    cases htake

/-- A comment goes as far as it can, if what follows cannot be read before its end. -/
theorem attempt_comment (hnext : Onward isCommentChar next) (p : Place) :
    commentNode.attempt p next =
      (p.take? fun d => d = ';').bind fun q => next (q.skip isCommentChar) := by
  simp only [commentNode, anyOf, attempt_seq, attempt_empty, attempt_literal,
    attempt_any holds_commentChars hnext]

/-- A line end with its comment is taken in one way, or there is none. -/
theorem attempt_lineEnd (p : Place) :
    (lineEnd? (dropComment p.after) = none ∧
        ∀ behind next, (lineEndNode behind).attempt p next = none) ∨
      ∃ q, lineEnd? (dropComment p.after) = some q.after ∧ q.captures = p.captures ∧
        ∀ behind next, (lineEndNode behind).attempt p next = behind.attempt q next := by
  have hattempt (behind : Node) (next : Place → Option Place) :
      (lineEndNode behind).attempt p next =
        ((p.take? fun d => d = ';').bind fun q =>
          (lineBreakNode behind).attempt (q.skip isCommentChar) next).or
            ((lineBreakNode behind).attempt p next) := by
    rw [lineEndNode, attempt_seq, attempt_optional, attempt_comment (onward_lineBreak behind next)]
  -- with a semicolon in front the line break comes behind a comment, else at once
  cases htake : p.take? fun d => d = ';' with
  | none =>
    have hcomment : dropComment p.after = p.after := by
      unfold dropComment
      split
      · rename_i rest hafter
        rw [Place.take?_cons hafter, if_pos (decide_eq_true rfl)] at htake
        cases htake
      · rfl
    simp only [hattempt, htake, hcomment]
    exact attempt_lineBreak p
  | some q =>
    obtain ⟨c, rest, hafter, hc, rfl⟩ := Place.exists_of_take? htake
    obtain rfl : c = ';' := of_decide_eq_true hc
    -- in front of the semicolon there is no line break
    have hbefore (behind : Node) (next : Place → Option Place) :
        (lineBreakNode behind).attempt p next = none := by
      rcases attempt_lineBreak p with ⟨-, hnone⟩ | ⟨r, hline, -⟩
      · exact hnone behind next
      · rw [hafter] at hline
        cases hline
    simp only [hattempt, htake, hafter, hbefore, Option.bind_some, Option.or_none]
    exact attempt_lineBreak ((Place.mk (';' :: p.before) rest p.captures).skip isCommentChar)

/-! ## Tokens -/

/-- What the groups of a token with a name have taken, and what is left. -/
def outcome (token : TokenPattern) (q : Place) : List (List Char × List Char) × List Char :=
  ((token.names.mapIdx fun i name => (name, q.captured? (i + 1))).filterMap
    fun (name, taken) => do return (← name, ← taken), q.after)

/-- What stands behind an opening character, up to a closing one. -/
def between? (kind : Char → Bool) (opening closing : Char) (cs : List Char) :
    Taken (List (List Char × List Char)) :=
  match cs with
  | [] => none
  | c :: cs =>
    if c = opening then
      (upTo? kind closing cs).map fun (text, rest) => ([("value".toList, text)], rest)
    else none

/-- The bounds of a repeat under their names. -/
def named : Bounds → List (List Char × List Char)
  | .range least most => [("min".toList, least), ("max".toList, most)]
  | .exact count => [("exact".toList, count)]

/-- What is left behind a hyphen and a numeral. -/
def leftOfLast? (base : Base) : List Char → Option (List Char)
  | '-' :: cs => (run? base.isDigit cs).map (·.2)
  | _ => none

/-- What is left behind two numerals with a hyphen between them. -/
def leftOfRange? (base : Base) (cs : List Char) : Option (List Char) :=
  (run? base.isDigit cs).bind fun (_, rest) => leftOfLast? base rest

/-- What is left behind numerals with points between them. -/
def leftOfRow? (base : Base) (cs : List Char) : Option (List Char) :=
  (run? base.isDigit cs).map fun (_, rest) => (row base rest.length rest).2

/-- What is left behind a percent sign, the letter of a base, and what goes with the base. -/
def behindLetter? (left? : Base → List Char → Option (List Char)) :
    List Char → Taken (List (List Char × List Char))
  | '%' :: letter :: cs => ((Base.ofLetter? letter).bind (left? · cs)).map fun rest => ([], rest)
  | _ => none

/-- Whether numbers are a range. -/
def isRange : Numbers → Bool
  | .range _ _ _ => true
  | .row _ _ _ => false

/-- What the scanners of the reader take for a token: its parts with a name, and what is left. -/
def scan? : TokenPattern → List Char → Taken (List (List Char × List Char))
  | ruleName, cs => (name? cs).map fun (_, rest) => ([], rest)
  | definedAs, cs => (definedAs? cs).map fun (_, rest) => ([], rest)
  | blank, cs => (blank? cs).map fun rest => ([], rest)
  | comment, cs => if cs.head? = some ';' then some ([], dropComment cs) else none
  | lineEnd, cs => (lineEnd? (dropComment cs)).map fun rest => ([], rest)
  | bounds, cs => (bounds? cs).map fun (found, rest) => (named found, rest)
  | quoted, cs => between? isQuotedChar '"' '"' cs
  | numberRange, cs => behindLetter? leftOfRange? cs
  | numberRow, cs => behindLetter? leftOfRow? cs
  | prose, cs => between? isProseChar '<' '>' cs

/-- A token is scanned as it is matched. -/
def Scanned (token : TokenPattern) : Prop :=
  ∀ before cs, (token.node.attempt ⟨before, cs, []⟩ some).map token.outcome = token.scan? cs

theorem scanned_ruleName : Scanned ruleName := by
  intro before cs
  simp only [node, anyOf, attempt_seq, attempt_set, attempt_empty, holds_letters,
    attempt_any holds_nameChars onward_some]
  cases cs with
  | nil => rfl
  | cons c rest =>
    rw [Place.take?_cons rfl, scan?, name?]
    split <;> rfl

theorem scanned_definedAs : Scanned definedAs := by
  intro before cs
  simp only [node, attempt_seq, attempt_empty, attempt_literal, attempt_optional]
  cases cs with
  | nil => rfl
  | cons c rest =>
    rw [Place.take?_cons rfl]
    by_cases hc : c = '='
    · subst hc
      cases rest with
      | nil => rfl
      | cons d rest =>
        rw [if_pos (decide_eq_true rfl), Option.bind_some, Place.take?_cons rfl]
        -- the slash is taken if it is there, and then the sign adds
        by_cases hd : d = '/'
        · subst hd
          rfl
        · have hsign : definedAs? ('=' :: d :: rest) = some (false, d :: rest) := by
            simp [definedAs?, hd]
          rw [if_neg (by simpa using hd), scan?, hsign]
          rfl
    · have hsign : definedAs? (c :: rest) = none := by simp [definedAs?, hc]
      rw [if_neg (by simpa using hc), scan?, hsign]
      rfl

theorem scanned_comment : Scanned comment := by
  intro before cs
  rw [node, attempt_comment onward_some]
  cases cs with
  | nil => rfl
  | cons c rest =>
    rw [Place.take?_cons rfl, scan?]
    by_cases hc : c = ';'
    · subst hc
      rfl
    · rw [if_neg (by simpa using hc), if_neg (by simpa using hc)]
      rfl

theorem scanned_lineEnd : Scanned lineEnd := by
  intro before cs
  rw [node, scan?]
  rcases attempt_lineEnd ⟨before, cs, []⟩ with ⟨hline, hnone⟩ | ⟨q, hline, -, hsome⟩
  · rw [hnone, hline]
    rfl
  · rw [hsome, hline]
    rfl

theorem scanned_blank : Scanned blank := by
  intro before cs
  simp only [node, attempt_alt, attempt_seq, attempt_empty, attempt_blank, scan?]
  cases cs with
  | nil => rfl
  | cons c rest =>
    rw [Place.take?_cons rfl, blank?]
    split
    · rfl
    · -- no blank: it is a line end with a blank on the next line, or nothing
      rw [Option.bind_none, Option.none_or]
      rcases attempt_lineEnd ⟨before, c :: rest, []⟩ with ⟨hline, hnone⟩ | ⟨q, hline, -, hsome⟩
      · rw [hnone, hline]
        rfl
      · rw [hsome, hline, attempt_seq, attempt_blank]
        cases hafter : q.after with
        | nil =>
          rw [Place.take?_nil hafter]
          rfl
        | cons d rest =>
          rw [Place.take?_cons hafter]
          simp only
          split <;> rfl

/-- A text between two characters, of which the closing one cannot be in the text. -/
theorem scanned_between {token : TokenPattern} {opening closing : Char} {chars : CharSet}
    {kind : Char → Bool} (hnode : token.node = betweenNode opening closing chars)
    (hnames : token.names = [some "value".toList])
    (hscan : token.scan? = between? kind opening closing) (hholds : chars.holds .exact = kind)
    (hclosing : ¬ kind closing) : Scanned token := by
  intro before cs
  have honward (q : Place) :
      Onward kind fun r => ((r.record 1 q).take? fun d => d = closing).bind some :=
    onward_literal hclosing (·.record 1 q) (fun _ => rfl) some
  simp only [hnode, betweenNode, anyOf, attempt_seq, attempt_capture, attempt_empty,
    attempt_literal, attempt_any hholds (honward _), hscan]
  cases cs with
  | nil => rfl
  | cons c rest =>
    rw [Place.take?_cons rfl, between?]
    by_cases hc : c = opening
    · rw [if_pos (decide_eq_true hc), if_pos hc, Option.bind_some, upTo?, run]
      -- the group takes the run of characters between the two, and is closed where the run ends
      let since : Place := ⟨c :: before, rest, []⟩
      let stop : Place := ((since.reopen 1).skip kind).record 1 since
      have htext : since.upTo ((since.reopen 1).skip kind) = rest.takeWhile kind :=
        (since.reopen 1).upTo_skip kind
      have hafter : stop.after = rest.dropWhile kind := rfl
      change ((stop.take? fun d => d = closing).bind some).map token.outcome = _
      cases hleft : rest.dropWhile kind with
      | nil =>
        rw [Place.take?_nil (hafter.trans hleft)]
        rfl
      | cons d left =>
        rw [Place.take?_cons (hafter.trans hleft)]
        simp only
        by_cases hd : d = closing
        · rw [if_pos (decide_eq_true hd), if_pos hd, ← htext]
          simp only [Option.bind_some, Option.map_some, outcome, hnames]
          rfl
        · rw [if_neg (by simpa using hd), if_neg hd]
          rfl
    · rw [if_neg (by simpa using hc), if_neg hc]
      rfl

/-- Without an asterisk behind its digits a repeat is a count. -/
theorem bounds?_of_count (h : (cs.dropWhile Text.isAsciiDigit).head? ≠ some '*') :
    bounds? cs = (run? Text.isAsciiDigit cs).map fun (count, rest) => (.exact count, rest) := by
  rw [bounds?, run?, run]
  cases hleft : cs.dropWhile Text.isAsciiDigit with
  | nil => cases cs.takeWhile Text.isAsciiDigit <;> rfl
  | cons d left =>
    have hd : d ≠ '*' := fun hd => h (by rw [hleft, hd]; rfl)
    cases cs.takeWhile Text.isAsciiDigit <;> simp [hd]

/-- A count alone: one digit or more. -/
theorem attempt_count (before cs : List Char) :
    (countNode.attempt ⟨before, cs, []⟩ some).map bounds.outcome =
      (run? Text.isAsciiDigit cs).map fun (count, rest) => (named (.exact count), rest) := by
  let since : Place := ⟨before, cs, []⟩
  have hattempt : countNode.attempt since some =
      (since.take? Text.isAsciiDigit).bind fun _ =>
        some (((since.reopen 3).skip Text.isAsciiDigit).record 3 since) := by
    simp only [countNode, someOf, attempt_seq, attempt_capture, attempt_empty,
      attempt_some holds_decimal (Onward.of_ne_none fun _ => Option.some_ne_none _)]
    rfl
  have htext : since.upTo ((since.reopen 3).skip Text.isAsciiDigit) =
      cs.takeWhile Text.isAsciiDigit := (since.reopen 3).upTo_skip Text.isAsciiDigit
  rw [hattempt, run?, run]
  cases cs with
  | nil => rfl
  | cons c rest =>
    rw [Place.take?_cons rfl]
    -- the repeat asks for one digit, and the run that starts with it is what the group takes
    by_cases hc : Text.isAsciiDigit c
    · have hsome : (c :: rest).takeWhile Text.isAsciiDigit ≠ [] := by
        rw [List.takeWhile_cons_of_pos hc]
        exact List.cons_ne_nil _ _
      rw [if_pos hc]
      cases htaken : (c :: rest).takeWhile Text.isAsciiDigit with
      | nil => exact absurd htaken hsome
      | cons d more =>
        rw [htaken] at htext
        simp only [Option.map_some, named, ← htext]
        rfl
    · rw [if_neg hc, List.takeWhile_cons_of_neg hc]
      rfl

theorem scanned_bounds : Scanned bounds := by
  intro before cs
  let since : Place := ⟨before, cs, []⟩
  let least : Place := ((since.reopen 1).skip Text.isAsciiDigit).record 1 since
  have honward : Onward Text.isAsciiDigit fun q =>
      ((q.record 1 since).take? fun d => d = '*').bind fun q =>
        some (((q.reopen 2).skip Text.isAsciiDigit).record 2 q) :=
    onward_literal (by decide) (·.record 1 since) (fun _ => rfl) _
  have hattempt : boundsNode.attempt since some =
      (least.take? fun d => d = '*').bind fun q =>
        some (((q.reopen 2).skip Text.isAsciiDigit).record 2 q) := by
    simp only [boundsNode, anyOf, attempt_seq, attempt_capture, attempt_empty, attempt_literal,
      attempt_any holds_decimal (Onward.of_ne_none fun _ => Option.some_ne_none _),
      attempt_any holds_decimal honward]
    rfl
  have htext : since.upTo ((since.reopen 1).skip Text.isAsciiDigit) =
      cs.takeWhile Text.isAsciiDigit := (since.reopen 1).upTo_skip Text.isAsciiDigit
  have hafter : least.after = cs.dropWhile Text.isAsciiDigit := rfl
  rw [node, attempt_alt, hattempt, scan?]
  -- the first branch needs an asterisk behind the digits; without one the second is tried
  by_cases hstar : (cs.dropWhile Text.isAsciiDigit).head? = some '*'
  · obtain ⟨left, hleft⟩ : ∃ left, cs.dropWhile Text.isAsciiDigit = '*' :: left :=
      ⟨_, (List.cons_head?_tail hstar).symm⟩
    let mid : Place := { least with before := '*' :: least.before, after := left }
    have hmost : mid.upTo ((mid.reopen 2).skip Text.isAsciiDigit) =
        left.takeWhile Text.isAsciiDigit := (mid.reopen 2).upTo_skip Text.isAsciiDigit
    rw [Place.take?_cons (hafter.trans hleft), bounds?, run, hleft]
    simp only [Option.map_some, run, named, ← htext, ← hmost]
    rfl
  · rw [Place.take?_eq_none_of_head? (p := least) hstar, Option.bind_none, Option.none_or,
      attempt_count, bounds?_of_count hstar, Option.map_map]
    rfl

theorem scanned_quoted : Scanned quoted :=
  scanned_between rfl rfl rfl holds_quotedChars (by decide)

theorem scanned_prose : Scanned prose :=
  scanned_between rfl rfl rfl holds_proseChars (by decide)

/-- A numeral is taken to its end, or there is none. -/
theorem attempt_numeral (base : Base) (p : Place) :
    (run? base.isDigit p.after = none ∧ ∀ next, Onward base.isDigit next →
        (someOf .full (digits base)).attempt p next = none) ∨
      ∃ u, run? base.isDigit p.after = some (u, (p.skip base.isDigit).after) ∧
        p.index < (p.skip base.isDigit).index ∧
        (p.skip base.isDigit).after.length < p.after.length ∧
        ∀ next, Onward base.isDigit next →
          (someOf .full (digits base)).attempt p next = next (p.skip base.isDigit) := by
  have hattempt : ∀ next, Onward base.isDigit next →
      (someOf .full (digits base)).attempt p next =
        (p.take? base.isDigit).bind fun _ => next (p.skip base.isDigit) :=
    fun next hnext => attempt_some (holds_digits base) hnext p
  cases hafter : p.after with
  | nil =>
    refine .inl ⟨rfl, fun next hnext => ?_⟩
    rw [hattempt next hnext, Place.take?_nil hafter]
    rfl
  | cons c rest =>
    by_cases hc : base.isDigit c
    · have hrun : run? base.isDigit (c :: rest) =
          some (c :: rest.takeWhile base.isDigit, rest.dropWhile base.isDigit) := by
        rw [run?, run, List.takeWhile_cons_of_pos hc, List.dropWhile_cons_of_pos hc]
      have hskip : (p.skip base.isDigit).after = rest.dropWhile base.isDigit := by
        rw [Place.skip, hafter, List.dropWhile_cons_of_pos hc]
      have hindex : p.index < (p.skip base.isDigit).index := by
        rw [Place.skip, hafter, List.takeWhile_cons_of_pos hc]
        simp only [Place.index, List.length_append, List.length_reverse, List.length_cons]
        omega
      have hlength : (rest.dropWhile base.isDigit).length < (c :: rest).length :=
        Nat.lt_succ_of_le (List.dropWhile_sublist _).length_le
      refine .inr ⟨_, hskip ▸ hrun, hindex, hskip ▸ hlength, fun next hnext => ?_⟩
      rw [hattempt next hnext, Place.take?_cons hafter, if_pos hc]
      rfl
    · refine .inl ⟨?_, fun next hnext => ?_⟩
      · rw [run?, run, List.takeWhile_cons_of_neg hc]
      · rw [hattempt next hnext, Place.take?_cons hafter, if_neg hc]
        rfl

/-- Behind the letter of a base: two numerals with a hyphen between them. -/
theorem attempt_range (base : Base) (before : List Char) {letter : Char}
    (hletter : Base.ofLetter? letter = some base) (cs : List Char) :
    ((rangeNode base).attempt ⟨before, letter :: cs, []⟩ some).map (·.after) =
      leftOfRange? base cs := by
  let first : Place := ⟨letter :: before, cs, []⟩
  have hattempt : (rangeNode base).attempt ⟨before, letter :: cs, []⟩ some =
      (someOf .full (digits base)).attempt first fun q =>
        (q.take? fun d => d = '-').bind fun q =>
          (someOf .full (digits base)).attempt q some := by
    simp only [rangeNode, attempt_seq, attempt_letter, attempt_empty,
      attempt_sign '-' (by decide)]
    rw [Place.take?_cons rfl, if_pos (decide_eq_true hletter), Option.bind_some]
  have hhyphen : Onward base.isDigit fun q => (q.take? fun d => d = '-').bind fun q =>
      (someOf .full (digits base)).attempt q some :=
    onward_literal (not_isDigit_hyphen base) id (fun _ => rfl) _
  rw [hattempt, leftOfRange?]
  -- a hyphen is no digit, so the first numeral goes as far as its digits do
  rcases attempt_numeral base first with ⟨hrun, hnone⟩ | ⟨u, hrun, -, -, hsome⟩
  · rw [hnone _ hhyphen, hrun]
    rfl
  · rw [hsome _ hhyphen, hrun, Option.bind_some]
    simp only
    unfold leftOfLast?
    split
    · rename_i rest hafter
      rw [Place.take?_cons hafter, if_pos (decide_eq_true rfl), Option.bind_some]
      rcases attempt_numeral base ⟨'-' :: (first.skip base.isDigit).before, rest, _⟩ with
        ⟨hrun, hnone⟩ | ⟨v, hrun, -, -, hsome⟩
      · rw [hnone some onward_some, hrun]
        rfl
      · rw [hsome some onward_some, hrun]
        rfl
    · rename_i hafter
      rw [Place.take?_eq_none_of_head? fun hhead => hafter _ (List.cons_head?_tail hhead).symm]
      rfl

/-- Without a point there is no further numeral. -/
theorem row_of_head? (base : Base) (m : Nat) (h : cs.head? ≠ some '.') :
    row base m cs = ([], cs) := by
  unfold row
  split
  · exact absurd rfl h
  · rfl

/-- Further numerals are taken as long as there are any. -/
theorem upTo_further (base : Base) :
    ∀ (n m : Nat) (last : Option Nat) (p : Place), p.after.length < n → p.after.length ≤ m →
      last ≠ some p.index →
      (Attempt.upTo (furtherNode base).attempt false n last p some).map (·.after) =
        some (row base m p.after).2
  | 0, _, _, _, hn, _, _ => absurd hn (Nat.not_lt_zero _)
  | n + 1, m, last, p, hn, hm, hlast => by
      let further (q : Place) :=
        Attempt.upTo (furtherNode base).attempt false n (some p.index) q some
      have honward : Onward base.isDigit further := .of_ne_none (upTo_ne_none _ n _)
      have hround : (furtherNode base).attempt p further =
          (p.take? fun d => d = '.').bind fun q =>
            (someOf .full (digits base)).attempt q further := by
        simp only [furtherNode, attempt_seq, attempt_empty, attempt_sign '.' (by decide)]
      rw [upTo_succ _ hlast, hround]
      by_cases hpoint : p.after.head? = some '.'
      · obtain ⟨cs, hafter⟩ : ∃ cs, p.after = '.' :: cs := ⟨_, (List.cons_head?_tail hpoint).symm⟩
        rw [hafter, List.length_cons] at hn hm
        obtain ⟨m, rfl⟩ : ∃ k, m = k + 1 := ⟨m - 1, by omega⟩
        let q : Place := ⟨'.' :: p.before, cs, p.captures⟩
        rw [Place.take?_cons hafter, if_pos (decide_eq_true rfl), Option.bind_some, hafter, row]
        rcases attempt_numeral base q with ⟨hrun, hnone⟩ | ⟨u, hrun, hindex, hlength, hsome⟩
        · rw [hnone further honward, hrun, Option.none_or, Option.map_some, hafter]
        · have hq : q.index = p.index + 1 := rfl
          -- a point and a numeral have been taken, so this round has moved and another may come
          have hmoved : some p.index ≠ some (q.skip base.isDigit).index := by
            rw [ne_eq, Option.some.injEq]
            omega
          have hrest : (q.skip base.isDigit).after.length < cs.length := hlength
          obtain ⟨r, hr, hleft⟩ := Option.map_eq_some_iff.mp
            (upTo_further base n m (some p.index) (q.skip base.isDigit) (by omega) (by omega)
              hmoved)
          have hend : further (q.skip base.isDigit) = some r := hr
          rw [hsome further honward, hrun, hend, Option.some_or, Option.map_some, hleft]
      · rw [Place.take?_eq_none_of_head? hpoint, row_of_head? base m hpoint]
        rfl

/-- Behind the letter of a base: numerals with points between them, at least one. -/
theorem attempt_row (base : Base) (before : List Char) {letter : Char}
    (hletter : Base.ofLetter? letter = some base) (cs : List Char) :
    ((rowNode base).attempt ⟨before, letter :: cs, []⟩ some).map (·.after) =
      leftOfRow? base cs := by
  let first : Place := ⟨letter :: before, cs, []⟩
  let further (q : Place) := (Node.iterate false 0 none (furtherNode base)).attempt q some
  have hfurther (q : Place) : further q =
      Attempt.upTo (furtherNode base).attempt false (q.after.length + 1) none q some := rfl
  have hattempt : (rowNode base).attempt ⟨before, letter :: cs, []⟩ some =
      (someOf .full (digits base)).attempt first further := by
    simp only [rowNode, attempt_seq, attempt_letter, attempt_empty]
    rw [Place.take?_cons rfl, if_pos (decide_eq_true hletter), Option.bind_some]
  have honward : Onward base.isDigit further := .of_ne_none fun q => upTo_ne_none _ _ none q
  rw [hattempt, leftOfRow?]
  rcases attempt_numeral base first with ⟨hrun, hnone⟩ | ⟨u, hrun, -, -, hsome⟩
  · rw [hnone _ honward, hrun]
    rfl
  · rw [hsome _ honward, hrun, hfurther]
    exact upTo_further base _ _ none _ (Nat.lt_succ_self _) (Nat.le_refl _)
      (Option.some_ne_none _).symm

/-- The letter of the one base is that of no other. -/
theorem or_of_base (ends : Base → Option Place) (h : ∀ other, other ≠ base → ends other = none) :
    (ends .binary).or ((ends .decimal).or (ends .hexadecimal)) = ends base := by
  cases base with
  | binary =>
    rw [h .decimal (by decide), h .hexadecimal (by decide), Option.none_or, Option.or_none]
  | decimal =>
    rw [h .binary (by decide), h .hexadecimal (by decide), Option.none_or, Option.or_none]
  | hexadecimal =>
    rw [h .binary (by decide), h .decimal (by decide), Option.none_or, Option.none_or]

/-- Of the branches for the bases only the one whose letter comes next can be taken. -/
theorem scanned_numbers {token : TokenPattern} {ofBase : Base → Node}
    {left? : Base → List Char → Option (List Char)} (hnode : token.node = numbersNode ofBase)
    (hnames : token.names = []) (hscan : token.scan? = behindLetter? left?)
    (hother : ∀ base p, p.take? (fun c => Base.ofLetter? c = some base) = none →
      (ofBase base).attempt p some = none)
    (hleft : ∀ base before letter cs, Base.ofLetter? letter = some base →
      ((ofBase base).attempt ⟨before, letter :: cs, []⟩ some).map (·.after) = left? base cs) :
    Scanned token := by
  intro before cs
  have houtcome : token.outcome = fun q => ([], q.after) := by
    funext q
    rw [outcome, hnames]
    rfl
  simp only [hnode, numbersNode, attempt_seq, attempt_alt, attempt_empty,
    attempt_sign '%' (by decide), hscan, houtcome]
  by_cases hpercent : cs.head? = some '%'
  · obtain ⟨cs, rfl⟩ : ∃ rest, cs = '%' :: rest := ⟨_, (List.cons_head?_tail hpercent).symm⟩
    rw [Place.take?_cons rfl, if_pos (decide_eq_true rfl), Option.bind_some]
    cases cs with
    | nil =>
      rw [hother _ _ (Place.take?_nil rfl), hother _ _ (Place.take?_nil rfl),
        hother _ _ (Place.take?_nil rfl)]
      rfl
    | cons letter cs =>
      have hnone (other : Base) (hne : Base.ofLetter? letter ≠ some other) :
          (ofBase other).attempt ⟨'%' :: before, letter :: cs, []⟩ some = none := by
        refine hother other _ ?_
        rw [Place.take?_cons rfl, if_neg (by simpa using hne)]
      let ends (base : Base) := (ofBase base).attempt ⟨'%' :: before, letter :: cs, []⟩ some
      change (Option.or (ends .binary) (Option.or (ends .decimal) (ends .hexadecimal))).map _ = _
      rw [behindLetter?]
      -- no base has this letter, or one base has it and the branches of the others fail
      cases hletter : Base.ofLetter? letter with
      | none =>
        have hall (other : Base) : ends other = none :=
          hnone other (hletter ▸ (Option.some_ne_none _).symm)
        rw [hall, hall, hall]
        rfl
      | some base =>
        have hends : ∀ other, other ≠ base → ends other = none := fun other hne =>
          hnone other fun h => hne (Option.some.inj (h.symm.trans hletter))
        rw [or_of_base ends hends, Option.bind_some, ← hleft base ('%' :: before) letter cs hletter,
          Option.map_map]
        rfl
  · have hscan : behindLetter? left? cs = none := by
      unfold behindLetter?
      split
      · exact absurd rfl hpercent
      · rfl
    rw [Place.take?_eq_none_of_head? hpercent, hscan]
    rfl

theorem scanned_numberRange : Scanned numberRange := by
  refine scanned_numbers rfl rfl rfl (fun base p hnone => ?_) fun base before _ cs hletter =>
    attempt_range base before hletter cs
  rw [rangeNode, attempt_seq, attempt_letter, hnone]
  rfl

theorem scanned_numberRow : Scanned numberRow := by
  refine scanned_numbers rfl rfl rfl (fun base p hnone => ?_) fun base before _ cs hletter =>
    attempt_row base before hletter cs
  rw [rowNode, attempt_seq, attempt_letter, hnone]
  rfl

/-- Every token is scanned as it is matched. -/
theorem scanned (token : TokenPattern) : Scanned token := by
  cases token with
  | ruleName => exact scanned_ruleName
  | definedAs => exact scanned_definedAs
  | blank => exact scanned_blank
  | comment => exact scanned_comment
  | lineEnd => exact scanned_lineEnd
  | bounds => exact scanned_bounds
  | quoted => exact scanned_quoted
  | numberRange => exact scanned_numberRange
  | numberRow => exact scanned_numberRow
  | prose => exact scanned_prose

/--
**A cursor takes a token as the reader does.** Wherever it stands, what the groups with a name take
and what is left are the same.
-/
theorem match?_eq_scan? [Interpreter] {token : TokenPattern} {pattern : Pattern}
    (h : token.pattern = .ok pattern) (c : Cursor) :
    (c.match? pattern).map (fun (found, later) => (found.named, later.after)) =
      token.scan? c.after := by
  rw [pattern_eq] at h
  cases h
  rw [← scanned token c.before c.after, Cursor.match?, Option.map_map]
  rfl

/-- The name of a rule is what its pattern takes, in lower case. -/
theorem name?_eq_match? [Interpreter] {pattern : Pattern} (h : ruleName.pattern = .ok pattern)
    (c : Cursor) :
    name? c.after =
      (c.match? pattern).map fun (found, later) =>
        (found.whole.map Text.asciiLower, later.after) := by
  have hscan := match?_eq_scan? h c
  rw [scan?] at hscan
  cases hname : name? c.after with
  | none =>
    rw [hname] at hscan
    rw [Option.map_eq_none_iff.mp hscan]
    rfl
  | some taken =>
    obtain ⟨name, rest⟩ := taken
    rw [hname] at hscan
    obtain ⟨⟨found, later⟩, hmatch, hfound⟩ := Option.map_eq_some_iff.mp hscan
    obtain ⟨-, rfl⟩ := Prod.mk.inj hfound
    -- both took what stands before the same rest
    obtain ⟨u, -, hcs, rfl⟩ := exists_of_name? hname
    have hwhole := (Cursor.match?_advances hmatch).after
    rw [hmatch, Option.map_some, List.append_cancel_right (hcs.symm.trans hwhole)]

/-- Numbers are a range if there is one, and otherwise a row. -/
theorem numbers?_eq (cs : List Char) :
    (numbers? cs).map (fun (numbers, rest) => (isRange numbers, rest)) =
      ((numberRange.scan? ('%' :: cs)).map fun (_, rest) => (true, rest)).or
        ((numberRow.scan? ('%' :: cs)).map fun (_, rest) => (false, rest)) := by
  cases cs with
  | nil => rfl
  | cons letter cs =>
    rw [scan?, scan?, behindLetter?, behindLetter?, numbers?]
    cases Base.ofLetter? letter with
    | none => rfl
    | some base =>
      rw [Option.bind_some, Option.bind_some, leftOfRange?, leftOfRow?]
      simp only
      cases run? base.isDigit cs with
      | none => rfl
      | some taken =>
        obtain ⟨first, mid⟩ := taken
        rw [Option.map_some, Option.map_some, Option.bind_some]
        simp only [numbersFrom]
        split
        · -- a hyphen with no numeral behind it is left to what comes next, as by a row
          rename_i rest
          have hrow : row base ('-' :: rest).length ('-' :: rest) = ([], '-' :: rest) :=
            row_of_head? base _ (by simp)
          rw [leftOfLast?]
          cases run? base.isDigit rest with
          | none => simp only [hrow, isRange, Option.map_none, Option.map_some, Option.none_or]
          | some last => rfl
        · rename_i hhyphen
          have hlast : leftOfLast? base mid = none := by
            unfold leftOfLast?
            split
            · exact absurd rfl (hhyphen _)
            · rfl
          rw [hlast]
          rfl

end Abnf.Grammar.TokenPattern
