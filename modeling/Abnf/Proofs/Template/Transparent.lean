import Abnf.Proofs.Template.Filling
import Abnf.Proofs.Template.Inlining

/-!
# A pattern alone in a rule

A rule that is nothing but a pattern matches as the pattern does: at the start of a text, all of a
text, and wherever it is looked for, with the same span and the same groups
(`compile_oneGap_transparent`). The parentheses around the pattern, the flags in them and the
newline after a comment change nothing, whatever the pattern holds.
-/

namespace Abnf

open Grammar Regex Template

variable {p q : Pattern} {place : Place} {before after text wrapped : List Char}

namespace Regex.Pattern

/-- The first match at a place or after it, and how many characters come before it. -/
def spanFrom? (p : Pattern) (before : List Char) : List Char → Option (Nat × Match)
  | [] => (p.matchAt? ⟨before, [], []⟩).map (before.length, ·)
  | c :: rest =>
    ((p.matchAt? ⟨before, c :: rest, []⟩).map (before.length, ·)).orElse fun _ =>
      p.spanFrom? (c :: before) rest

/-- The first match in a text, and how many characters come before it. -/
def span? (p : Pattern) (text : List Char) : Option (Nat × Match) := p.spanFrom? [] text

/-- The match is the one that a search finds. -/
theorem map_spanFrom? (p : Pattern) (before after : List Char) :
    (p.spanFrom? before after).map (·.2) = p.searchFrom? before after := by
  induction after generalizing before with
  | nil => simp [spanFrom?, searchFrom?, Function.comp_def]
  | cons c rest ih =>
    rw [spanFrom?, searchFrom?, ← ih]
    cases p.matchAt? ⟨before, c :: rest, []⟩ <;> rfl

/-- Two patterns match in the same way, with the same spans and groups. -/
structure SameMatches (p q : Pattern) : Prop where
  matchAt : ∀ text, p.matchAt? (.start text) = q.matchAt? (.start text)
  fullMatch : ∀ text, p.fullMatch? text = q.fullMatch? text
  span : ∀ text, p.span? text = q.span? text
  search : ∀ text, p.search? text = q.search? text

theorem SameMatches.symm (h : p.SameMatches q) : q.SameMatches p where
  matchAt text := (h.matchAt text).symm
  fullMatch text := (h.fullMatch text).symm
  span text := (h.span text).symm
  search text := (h.search text).symm

theorem SameMatches.trans {r : Pattern} (h : p.SameMatches q) (h' : q.SameMatches r) :
    p.SameMatches r where
  matchAt text := (h.matchAt text).trans (h'.matchAt text)
  fullMatch text := (h.fullMatch text).trans (h'.fullMatch text)
  span text := (h.span text).trans (h'.span text)
  search text := (h.search text).trans (h'.search text)

/-- Patterns that say the same and have the same groups match in the same way. -/
theorem sameMatches_of_attempt (hnode : p.node.attempt = q.node.attempt)
    (hgroups : p.groups = q.groups) : p.SameMatches q := by
  have hextract : p.extract = q.extract := by
    funext since stop
    rw [extract, hgroups]
    rfl
  have hmatch : p.matchAt? = q.matchAt? := by
    funext place
    rw [matchAt?, matchAt?, end?, end?, hnode, hextract]
  have hspan (before after : List Char) : p.spanFrom? before after = q.spanFrom? before after := by
    induction after generalizing before with
    | nil => rw [spanFrom?, spanFrom?, hmatch]
    | cons c rest ih => rw [spanFrom?, spanFrom?, hmatch, ih]
  refine ⟨fun text => by rw [hmatch], fun text => ?_, fun text => hspan [] text, fun text => ?_⟩
  · rw [fullMatch?, fullMatch?, fullEnd?, fullEnd?, hnode, hextract]
  · rw [search?, search?, ← map_spanFrom?, ← map_spanFrom?, hspan]

end Regex.Pattern

/--
A pattern that is alone in a rule, and is not refused there, is matched by the rule as by itself:
the rule is compiled, what it is compiled to can be read without flags, and every match has the same
span and the same groups.
-/
theorem compile_oneGap_transparent [Interpreter] {value : PatternValue} {source : List Char}
    {flags : Flags}
    (hread : Pattern.compile source flags = .ok value.pattern)
    (haccepted : ∀ fault, compile (.text oneGap) [.pattern value] ≠ .error (.template fault)) :
    ∃ rules expression read, compile (.text oneGap) [.pattern value] = .ok rules ∧
      rules.sources = [(['r'], expression)] ∧ Pattern.compile expression = .ok read ∧
        read.SameMatches value.pattern := by
  rw [compile_oneGap_pattern] at haccepted ⊢
  cases hinline : Template.inline value.pattern with
  | error fault =>
    rw [hinline] at haccepted
    exact absurd rfl (haccepted fault)
  | ok wrapped =>
    obtain ⟨_, _, _, hinlined⟩ := exists_inlined hread hinline
    obtain ⟨read, hcompile, hnode, hgroups⟩ := hinlined.compile_wrap
    refine ⟨_, wrapped, read, rfl, rfl, ?_, Pattern.sameMatches_of_attempt ?_ hgroups⟩
    · rw [(compile_of_inline hinline).1, hcompile]
    · rw [hnode]
      rfl

/-- Flag groups, a condition, a character by its name, and a comment that holds a parenthesis. -/
def mixedSource : List Char :=
  "(?i)(?m) a ( b | ^ c ) (?P<n> d )? (?(n) e | \\N\x7bDIGIT ONE\x7d ) # (".toList

theorem compile_oneGap_transparent_verbose : ∃ p,
    Pattern.compile mixedSource { verbose := true } = .ok p ∧
      (∀ fault, compile (.text oneGap) [.pattern ⟨.unique 0, p⟩] ≠ .error (.template fault)) ∧
      ∃ rules expression read, compile (.text oneGap) [.pattern ⟨.unique 0, p⟩] = .ok rules ∧
        rules.sources = [(['r'], expression)] ∧ Pattern.compile expression = .ok read ∧
          read.SameMatches p := by
  refine ⟨_, rfl, ?accepted, @compile_oneGap_transparent _ ⟨.unique 0, _⟩ mixedSource
    { verbose := true } rfl ?accepted⟩
  exact fun _ => nofun

end Abnf
