import Abnf.Grammar.Token

/-!
# The notation of grammars

RFC 5234, section 4, as it stands there: which texts are white space, which are elements,
concatenations, alternations and rules. Nothing here reads anything; a text may be derived in more
than one way, and the reader has to be shown to agree with every one of them.

A `Phrase` is what is left of an alternation when its layout is forgotten. It keeps everything else
as written: names in their case, numbers by their digits. Layout is not part of it, so two texts of
one phrase differ in nothing but white space and comments.

One liberty is taken: a line may end in a newline alone.
-/

namespace Abnf.Grammar

open Token

/-! ## White space -/

/-- The end of a line: a newline, alone or behind a carriage return. -/
inductive LineBreak : List Char → Prop where
  | lf : LineBreak ['\n']
  | crlf : LineBreak ['\r', '\n']

/-- A comment without its line end, or nothing. -/
inductive Remark : List Char → Prop where
  | nothing : Remark []
  | comment {text : List Char} : (∀ c ∈ text, isCommentChar c) → Remark (';' :: text)

/-- `c-nl`: a line end and the comment before it. -/
inductive LineEnd : List Char → Prop where
  | mk {remark nl : List Char} : Remark remark → LineBreak nl → LineEnd (remark ++ nl)

/-- `c-wsp`: a space or tab, or a line end with a space or tab behind it. -/
inductive Blank : List Char → Prop where
  | blank {c : Char} : isBlank c → Blank [c]
  | folded {nl : List Char} {c : Char} : LineEnd nl → isBlank c → Blank (nl ++ [c])

/-- `*c-wsp` -/
inductive Blanks : List Char → Prop where
  | nil : Blanks []
  | cons {b w : List Char} : Blank b → Blanks w → Blanks (b ++ w)

/-! ## Tokens -/

/-- `rulename`: a letter, then letters, digits and hyphens. -/
inductive RuleName : List Char → Prop where
  | mk {c : Char} {more : List Char} : isLetter c → (∀ d ∈ more, isNameChar d) →
    RuleName (c :: more)

theorem RuleName.letter {c : Char} (h : isLetter c) : RuleName [c] := .mk h (List.forall_mem_nil _)

/-- One digit of a base or more. -/
def Digits (base : Base) (digits : List Char) : Prop :=
  digits ≠ [] ∧ ∀ c ∈ digits, base.isDigit c

theorem Digits.digit {base : Base} {c : Char} (h : base.isDigit c) : Digits base [c] :=
  ⟨List.cons_ne_nil _ _, List.forall_mem_singleton.mpr h⟩

/-- `repeat` -/
inductive RepeatText : Bounds → List Char → Prop where
  | exact {count : List Char} : Digits .decimal count → RepeatText (.exact count) count
  | range {least most : List Char} :
      (∀ c ∈ least, Base.decimal.isDigit c) → (∀ c ∈ most, Base.decimal.isDigit c) →
      RepeatText (.range least most) (least ++ '*' :: most)

/-- `bin-val`, `dec-val` or `hex-val` -/
inductive NumbersText : Numbers → List Char → Prop where
  | row {base : Base} {letter : Char} {first : List Char} {more : List (List Char)} :
      Base.ofLetter? letter = some base → Digits base first →
        (∀ digits ∈ more, Digits base digits) →
      NumbersText (.row base first more) (letter :: (first ++ more.flatMap ('.' :: ·)))
  | range {base : Base} {letter : Char} {first last : List Char} :
      Base.ofLetter? letter = some base → Digits base first → Digits base last →
      NumbersText (.range base first last) (letter :: (first ++ '-' :: last))

/-! ## Phrases -/

/-- What an alternation says, as written but without its layout. -/
inductive Phrase where
  /-- A reference to a rule, in the case it was written in. -/
  | reference (name : List Char)
  /-- Text between double quotes. -/
  | quoted (text : List Char)
  /-- Text between angle brackets. -/
  | prose (text : List Char)
  /-- Characters by their numbers. -/
  | codes (numbers : Numbers)
  /-- What stands between parentheses. -/
  | group (body : Phrase)
  /-- What stands between brackets. -/
  | option (body : Phrase)
  /-- An element behind a repeat. -/
  | times (bounds : Bounds) (body : Phrase)
  /-- One after the other. -/
  | seq (a b : Phrase)
  /-- The one or the other. -/
  | alt (a b : Phrase)

/-- The nonterminals that contain each other through groups and options. -/
inductive Nonterminal where
  | element
  | repetition
  | concatenation
  | alternation

/-- `Derives n p u`: the text `u` is derived from the nonterminal `n` and says `p`. -/
inductive Derives : Nonterminal → Phrase → List Char → Prop where
  | reference {name : List Char} : RuleName name → Derives .element (.reference name) name
  | group {p : Phrase} {u v w : List Char} :
      Blanks v → Derives .alternation p u → Blanks w →
      Derives .element (.group p) ('(' :: (v ++ (u ++ (w ++ [')']))))
  | option {p : Phrase} {u v w : List Char} :
      Blanks v → Derives .alternation p u → Blanks w →
      Derives .element (.option p) ('[' :: (v ++ (u ++ (w ++ [']']))))
  | quoted {text : List Char} :
      (∀ c ∈ text, isQuotedChar c) → Derives .element (.quoted text) ('"' :: (text ++ ['"']))
  | codes {numbers : Numbers} {u : List Char} :
      NumbersText numbers u → Derives .element (.codes numbers) ('%' :: u)
  | prose {text : List Char} :
      (∀ c ∈ text, isProseChar c) → Derives .element (.prose text) ('<' :: (text ++ ['>']))
  | once {p : Phrase} {u : List Char} : Derives .element p u → Derives .repetition p u
  | times {p : Phrase} {bounds : Bounds} {u v : List Char} :
      RepeatText bounds v → Derives .element p u → Derives .repetition (.times bounds p) (v ++ u)
  | single {p : Phrase} {u : List Char} : Derives .repetition p u → Derives .concatenation p u
  | seq {p q : Phrase} {u v b w : List Char} :
      Derives .concatenation p u → Blank b → Blanks w → Derives .repetition q v →
      Derives .concatenation (.seq p q) (u ++ (b ++ (w ++ v)))
  | only {p : Phrase} {u : List Char} : Derives .concatenation p u → Derives .alternation p u
  | alt {p q : Phrase} {u v w x : List Char} :
      Derives .concatenation p u → Blanks w → Blanks x → Derives .alternation q v →
      Derives .alternation (.alt p q) (u ++ (w ++ '/' :: (x ++ v)))

/-! ## Rules -/

/-- What a rule says: its name as written, whether it adds to an earlier rule, and its body. -/
structure Definition where
  name : List Char
  adds : Bool
  body : Phrase

/-- How the name and the body of a rule are joined. -/
def Definition.sign (d : Definition) : List Char := if d.adds then ['=', '/'] else ['=']

/-- `rule`, up to its line end -/
inductive RuleText : Definition → List Char → Prop where
  | mk {d : Definition} {u v w x : List Char} :
      RuleName d.name → Blanks v → Blanks w → Derives .alternation d.body u → Blanks x →
      RuleText d (d.name ++ (v ++ (d.sign ++ (w ++ (u ++ x)))))

/-- `*( rule / (*c-wsp c-nl) )`, with the rules in order -/
inductive Lines : List Definition → List Char → Prop where
  | nil : Lines [] []
  | rule {d : Definition} {ds : List Definition} {u nl cs : List Char} :
      RuleText d u → LineEnd nl → Lines ds cs → Lines (d :: ds) (u ++ (nl ++ cs))
  | blank {ds : List Definition} {w nl cs : List Char} :
      Blanks w → LineEnd nl → Lines ds cs → Lines ds (w ++ (nl ++ cs))

/-- `rulelist` -/
def RuleList (ds : List Definition) (cs : List Char) : Prop := cs ≠ [] ∧ Lines ds cs

end Abnf.Grammar
