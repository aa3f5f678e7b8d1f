import Abnf.Proofs.Template.Transparent

/-!
# A pattern in rules under flags

The parentheses around a pattern switch on the flags that it has. They switch none off, so flags
that are given for the rules are in force in the pattern too: a rule that is nothing but a pattern
matches as the text of the pattern does with its flags and the given ones together
(`compilePatterns_oneGap_joined`). Flags that the pattern has of its own change nothing, while
others do wherever they would change the pattern: `abc` then is matched in capitals too
(`compilePatterns_oneGap_ignoreCase`).

White space that is skipped is the one thing that may keep the rule from being read: a comment in a
pattern that was none before has no newline to end it.
-/

namespace Abnf

open Grammar Regex Template

variable {value : PatternValue} {other flagged : Pattern} {around given flags : Flags}
  {source text wrapped : List Char}

/-! ## A text in parentheses under flags -/

/--
A text in parentheses matches as it does on its own, if what flags it has there, from the
parentheses and from around them, are those that it has on its own.
-/
theorem sameMatches_between [Interpreter] (hother : Pattern.compile text flags = .ok other)
    (hjoin : other.flags.Agree (joined around given)) (hlocale : given.locale = false)
    (hunicode : given.unicode = false)
    (hflagged : Pattern.compile (opening around ++ (dropFlagGroups text ++ ending around)) given =
      .ok flagged) :
    flagged.SameMatches other := by
  obtain ⟨_, _, _, hinlined, hcomment⟩ :=
    exists_inlined_of_compile hother hjoin hlocale hunicode hflagged
  obtain ⟨read, hread, hnode, hgroups⟩ :=
    hinlined.compile_between hjoin hlocale hunicode hcomment
  rw [Pattern.source_of_compile hother, hflagged] at hread
  obtain rfl := Except.ok.inj hread
  have hattempt : flagged.node.attempt = other.node.attempt := by
    rw [hnode]
    rfl
  exact Pattern.sameMatches_of_attempt hattempt hgroups

/-- It can be read there, if white space is skipped only where the parentheses say so themselves. -/
theorem exists_between [Interpreter] (hother : Pattern.compile text flags = .ok other)
    (hjoin : other.flags.Agree (joined around given)) (hlocale : given.locale = false)
    (hunicode : given.unicode = false) (hinline : Template.inline other = .ok wrapped)
    (hverbose : given.verbose = true → around.verbose = true) :
    ∃ flagged, Pattern.compile (opening around ++ (dropFlagGroups text ++ ending around)) given =
      .ok flagged := by
  obtain ⟨fs, last, done, hinlined⟩ := exists_inlined hother hinline
  -- a comment that no newline ends would have to be one under the given flags alone
  have hcomment : around.verbose = false → last.mode ≠ .comment false := by
    intro hnone
    have hgiven : given.verbose = false := by
      cases hskips : given.verbose with
      | false => rfl
      | true =>
        have hboth := hverbose hskips
        rw [hnone] at hboth
        cases hboth
    have hflags : (around.verbose || given.verbose) = other.flags.verbose := hjoin.verbose
    rw [hnone, hgiven, hinlined.flags] at hflags
    exact hinlined.comment hflags.symm
  obtain ⟨flagged, hread, -, -⟩ := hinlined.compile_between hjoin hlocale hunicode hcomment
  rw [Pattern.source_of_compile hother] at hread
  exact ⟨flagged, hread⟩

/-! ## A pattern alone in a rule -/

/-- A rule that is nothing but a pattern is read as the pattern in its parentheses. -/
theorem compilePatterns_oneGap_eq_ok [Interpreter]
    (hinline : Template.inline value.pattern = .ok wrapped)
    {rules : List (Name × Pattern)} :
    compilePatterns (.text oneGap) [.pattern value] given = .ok rules ↔
      ∃ read, Pattern.compile (wrap value.pattern) given = .ok read ∧ rules = [(['r'], read)] := by
  have hrules : compile (.text oneGap) [.pattern value] =
      .ok [(['r'], .foreign (wrap value.pattern))] := by
    rw [compile_oneGap_pattern, hinline, (compile_of_inline hinline).1]
    rfl
  have hsources : Rules.sources [(['r'], .foreign (wrap value.pattern))] =
      [(['r'], wrap value.pattern)] := rfl
  rw [compilePatterns, hrules]
  simp only [bind, Except.bind, Rules.patterns, hsources, List.mapM_cons, List.mapM_nil]
  cases hread : Pattern.compile (wrap value.pattern) given with
  | error e => simp
  | ok read => simp [pure, Except.pure, eq_comm]

/--
**Given flags join those of the pattern.** A pattern alone in a rule is matched by the rule as by
itself as long as no flags are given for the rules. Under flags it is matched as the same text is,
but for flag groups at its start, with the flags of both. So the flags alter the rule if and only if
they alter the pattern, and those that the pattern has anyhow do not.
-/
theorem compilePatterns_oneGap_joined [Interpreter] {flags' : Flags}
    (hread : Pattern.compile source flags = .ok value.pattern)
    (haccepted : ∃ rules, compile (.text oneGap) [.pattern value] = .ok rules)
    (hother : Pattern.compile text flags' = .ok other)
    (hsame : dropFlagGroups text = dropFlagGroups source)
    (hjoin : other.flags.Agree (joined value.pattern.flags given))
    (hlocale : given.locale = false) (hunicode : given.unicode = false) :
    ∃ plain, compilePatterns (.text oneGap) [.pattern value] {} = .ok [(['r'], plain)] ∧
      plain.SameMatches value.pattern ∧
      (∀ rules, compilePatterns (.text oneGap) [.pattern value] given = .ok rules →
        ∃ flagged, rules = [(['r'], flagged)] ∧ flagged.SameMatches other ∧
          (flagged.SameMatches plain ↔ other.SameMatches value.pattern)) ∧
      ((∃ alone, Template.inline other = .ok alone) →
        (given.verbose = true → value.pattern.flags.verbose = true) →
          ∃ rules, compilePatterns (.text oneGap) [.pattern value] given = .ok rules) := by
  obtain ⟨wrapped, hinline⟩ := inline_of_compile_oneGap haccepted
  obtain ⟨-, plain, hplain⟩ := compile_of_inline hinline
  -- the parentheses hold the text of either pattern, first with the flags of the one
  have hwrap : wrap value.pattern = opening value.pattern.flags ++
      (dropFlagGroups source ++ ending value.pattern.flags) := by
    rw [wrap_eq, Pattern.source_of_compile hread]
  have hplainSame : plain.SameMatches value.pattern := by
    refine sameMatches_between hread (agree_joined _) rfl rfl ?_
    rw [← hwrap, hplain]
  rw [← hsame] at hwrap
  refine ⟨plain, (compilePatterns_oneGap_eq_ok hinline).mpr ⟨plain, hplain, rfl⟩, hplainSame, ?_,
    ?_⟩
  · intro rules hrules
    obtain ⟨flagged, hflagged, rfl⟩ := (compilePatterns_oneGap_eq_ok hinline).mp hrules
    rw [hwrap] at hflagged
    have hflaggedSame := sameMatches_between hother hjoin hlocale hunicode hflagged
    refine ⟨flagged, rfl, hflaggedSame, ?_, ?_⟩
    · intro halike
      exact (hflaggedSame.symm.trans halike).trans hplainSame
    · intro halike
      exact (hflaggedSame.trans halike).trans hplainSame.symm
  · rintro ⟨alone, hinlineOther⟩ hverbose
    obtain ⟨flagged, hflagged⟩ :=
      exists_between hother hjoin hlocale hunicode hinlineOther hverbose
    rw [← hwrap] at hflagged
    exact ⟨_, (compilePatterns_oneGap_eq_ok hinline).mpr ⟨flagged, hflagged, rfl⟩⟩

/-- A pattern over lines with a comment at its end, in rules that tell no case and skip blanks. -/
theorem compilePatterns_oneGap_joined_comment : ∃ p other,
    Pattern.compile "(?m) ^ a $ # end".toList { verbose := true } = .ok p ∧
      (∃ rules, compile (.text oneGap) [.pattern ⟨.unique 0, p⟩] = .ok rules) ∧
      Pattern.compile "(?x) ^ a $ # end".toList { ignoreCase := true, multiline := true } =
        .ok other ∧
      ∃ plain, compilePatterns (.text oneGap) [.pattern ⟨.unique 0, p⟩] {} = .ok [(['r'], plain)] ∧
        plain.SameMatches p ∧
        ∃ rules, compilePatterns (.text oneGap) [.pattern ⟨.unique 0, p⟩]
            { ignoreCase := true, verbose := true } = .ok rules ∧
          ∃ flagged, rules = [(['r'], flagged)] ∧ flagged.SameMatches other ∧
            (flagged.SameMatches plain ↔ other.SameMatches p) := by
  have hsame : dropFlagGroups "(?x) ^ a $ # end".toList =
      dropFlagGroups "(?m) ^ a $ # end".toList := by decide +kernel
  refine ⟨_, _, rfl, ⟨_, rfl⟩, rfl, ?_⟩
  have hjoined := @compilePatterns_oneGap_joined ⟨.unique 0, _⟩ _
    { ignoreCase := true, verbose := true } { verbose := true } "(?m) ^ a $ # end".toList
    "(?x) ^ a $ # end".toList _ { ignoreCase := true, multiline := true } rfl ⟨_, rfl⟩ rfl hsame
    ⟨rfl, rfl, rfl, rfl, rfl⟩ rfl rfl
  refine hjoined.imp fun plain h => ⟨h.1, h.2.1, ?_⟩
  have hcompiles := h.2.2.2 ⟨_, rfl⟩ fun _ => rfl
  exact hcompiles.imp fun rules hrules => ⟨hrules, h.2.2.1 rules hrules⟩

/-- Letters that a pattern tells apart by case, which a rule under a flag does not. -/
theorem compilePatterns_oneGap_ignoreCase : ∃ p plain flagged,
    Pattern.compile "abc".toList = .ok p ∧
      compilePatterns (.text oneGap) [.pattern ⟨.unique 0, p⟩] {} = .ok [(['r'], plain)] ∧
      compilePatterns (.text oneGap) [.pattern ⟨.unique 0, p⟩] { ignoreCase := true } =
        .ok [(['r'], flagged)] ∧
      plain.fullMatch? "ABC".toList = none ∧ (flagged.fullMatch? "ABC".toList).isSome := by
  refine ⟨_, _, _, rfl, rfl, rfl, ?_⟩
  decide +kernel

end Abnf
