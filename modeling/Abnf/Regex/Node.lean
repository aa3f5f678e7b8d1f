import Abnf.Regex.Flags
import Abnf.Text.CharKind

/-!
# What a regular expression says

The structure behind the text of an expression, with every flag resolved: a node says itself how it
compares characters and where its anchors hold, so that flags play no part once an expression has
been read. Characters are code points, because an expression may name a code point that no text of
this model holds: texts are lists of `Char`, and a lone surrogate is none. Texts with lone
surrogates are outside of the model.

A repeat keeps its bounds as numbers and its body once. Whether it prefers more rounds or fewer is
part of the node; a repeat that never gives back is an `atomic` node around it.
-/

namespace Abnf.Regex

/-- The kinds of characters that have a letter of their own: `\d`, `\s` and `\w`. -/
inductive Kind where
  | digit
  | space
  | word
  deriving DecidableEq, Repr

/-- Whether a character is of a kind, by ASCII or by Unicode. -/
def Kind.holds : Kind → (ascii : Bool) → Char → Bool
  | digit, true, c => Text.isAsciiDigit c
  | digit, false, c => Text.isDecimal c
  | space, true, c => Text.isAsciiSpace c
  | space, false, c => Text.isSpace c
  | word, true, c => Text.isAsciiWordChar c
  | word, false, c => Text.isWordChar c

/-- A member of a character set. -/
inductive Member where
  /-- One code point. -/
  | one (code : Nat)
  /-- The code points from `first` to `last`. -/
  | range (first last : Nat)
  /-- The characters of a kind, or all others. -/
  | kind (kind : Kind) (ascii negated : Bool)
  deriving DecidableEq, Repr

/-- Whether a member takes in a character: itself, or as what differs from it only in case. -/
def Member.holds (rule : CaseRule) (c : Char) : Member → Bool
  | one code => rule.alike code c.toNat
  | range first last =>
    (c.toNat :: rule.variants c.toNat).any fun code => first ≤ code && code ≤ last
  | kind k ascii negated => k.holds ascii c != negated

/-- A set of characters, or of all others. -/
structure CharSet where
  negated : Bool := false
  members : List Member := []
  deriving DecidableEq, Repr

/-- Whether a set takes in a character. -/
def CharSet.holds (set : CharSet) (rule : CaseRule) (c : Char) : Bool :=
  set.members.any (Member.holds rule c) != set.negated

/-- A place in the text that an expression can ask for without reading on. -/
inductive Anchor where
  /-- The start of the text. -/
  | textStart
  /-- The start of the text or of a line. -/
  | lineStart
  /-- The end of the text. -/
  | textEnd
  /-- The end of the text, or just before a newline that ends it. -/
  | lastLineEnd
  /-- The end of the text or of a line. -/
  | lineEnd
  /-- Where a word starts or ends. -/
  | wordEdge (ascii : Bool)
  /-- Where no word starts or ends. -/
  | noWordEdge (ascii : Bool)
  deriving DecidableEq, Repr

/-- A regular expression. -/
inductive Node where
  /-- Nothing. -/
  | empty
  /-- One character. -/
  | char (rule : CaseRule) (code : Nat)
  /-- Any character, except a newline unless `newline` is set. -/
  | any (newline : Bool)
  /-- A character of a set. -/
  | set (rule : CaseRule) (set : CharSet)
  /-- A place. -/
  | anchor (anchor : Anchor)
  /-- The text that a group took last. -/
  | again (rule : CaseRule) (group : Nat)
  /-- The first if a group has taken something, or else the second. -/
  | ifTaken (group : Nat) (yes no : Node)
  /-- One after the other. -/
  | seq (a b : Node)
  /-- The first, or else the second. -/
  | alt (a b : Node)
  /-- What is taken is kept under the number of the group. -/
  | capture (group : Nat) (body : Node)
  /-- From `least` to `most` rounds, as many as possible unless `lazy` asks for as few. -/
  | iterate (lazy : Bool) (least : Nat) (most : Option Nat) (body : Node)
  /-- The first way in which the body matches, for good. -/
  | atomic (body : Node)
  /-- The body matches from here, or does not, and nothing is taken. -/
  | ahead (negated : Bool) (body : Node)
  /-- The body matches the `width` characters before, or does not. -/
  | behind (negated : Bool) (width : Nat) (body : Node)
  deriving DecidableEq, Repr

/--
The fewest and the most characters that a node can take; no bound stands for as many as there are.
-/
structure Span where
  least : Nat
  most : Option Nat
  deriving DecidableEq, Repr

namespace Span

/-- Exactly this many characters. -/
def exactly (n : Nat) : Span := ⟨n, some n⟩

/-- One after the other. -/
def add (s t : Span) : Span := ⟨s.least + t.least, do return (← s.most) + (← t.most)⟩

/-- The one or the other. -/
def union (s t : Span) : Span := ⟨min s.least t.least, do return max (← s.most) (← t.most)⟩

/--
So many rounds. What takes no character takes none in any number of rounds, and no rounds take none,
however much one of them could.
-/
def times (s : Span) (least : Nat) (most : Option Nat) : Span :=
  ⟨s.least * least,
    if s.most = some 0 || most = some 0 then some 0 else do return (← s.most) * (← most)⟩

end Span

/-- The span of a node, given the spans of the groups that it may take again. -/
def Node.span (groups : Nat → Span) : Node → Span
  | .empty | .anchor _ | .ahead _ _ | .behind _ _ _ => .exactly 0
  | .char _ _ | .any _ | .set _ _ => .exactly 1
  | .again _ group => groups group
  | .seq a b => (a.span groups).add (b.span groups)
  | .alt a b | .ifTaken _ a b => (a.span groups).union (b.span groups)
  | .capture _ body | .atomic body => body.span groups
  | .iterate _ least most body => (body.span groups).times least most

end Abnf.Regex
