import Abnf.Proofs.Grammar.Insertion
import Abnf.Proofs.Template.Printable

/-!
# Strings cannot break out of their gaps

A template that is compiled with the string `x` in every gap is compiled with any other strings in
them, to rules of the same names in the same order (`compile_texts`). So nothing that stands in a
string ends a token, a line or a rule, wherever its gap may be: in front of other tokens or behind
them, at the start of a line that goes on, or in a comment. Prose is the one exception, since a
string may end it.

The string `x` is put in as a quoted string, with a space before it, and any other as a
concatenation in its place. `Filled` relates the two texts as they are assembled, gap by gap, and
still does so when the white space at their ends has been taken away.
-/

namespace Abnf

open Grammar Token Text Template Regex

/-! ## Strings as other words -/

namespace Grammar

variable {space : Bool} {s u v : List Char}

theorem Phrase.Legal.mono {p : Phrase} {defined defined' : Name → Prop} (h : p.Legal defined)
    (hmono : ∀ name, defined name → defined' name) : p.Legal defined' := by
  induction p with
  | reference name => exact hmono _ h
  | quoted | prose => trivial
  | codes => exact h
  | group body ih | option body ih => exact ih h
  | times bounds body ih => exact h.imp_right ih
  | seq a b iha ihb | alt a b iha ihb => exact h.imp iha ihb

theorem isCommentChar_of_isPrintable {c : Char} (h : IsPrintable c) : isCommentChar c := by
  have hbounds : 32 ≤ c.toNat ∧ c.toNat ≤ 126 := h
  simp only [isCommentChar, isBlank, Bool.or_eq_true, Bool.and_eq_true, decide_eq_true_eq]
  by_cases hspace : c = ' '
  · exact .inl (.inl hspace)
  · have hne : c.toNat ≠ 32 := fun hcode => hspace (Char.toNat_inj.mp hcode)
    have hle : 33 ≤ c.toNat := by omega
    exact .inr ⟨hle, h.2⟩

/-- A string is put into a grammar as a concatenation that may stand in any grammar. -/
theorem insertable_literalToAbnf (hs : s ≠ []) (hquotes : ¬ List.replicate repeatLimit '"' <:+: s) :
    Insertable (literalToAbnf s) where
  derives := by
    obtain ⟨p, hp⟩ := exists_spells_concatenation hs hquotes
    refine ⟨p, hp.derives, fun text => ⟨hp.nesting.le, fun _ => hp.fits, fun hcore _ => ?_⟩⟩
    refine hp.legal.mono fun name hname => hcore name ?_
    unfold Scope.find? at hname
    split at hname
    · rename_i rule hrule
      rw [hrule]
      rfl
    · cases hname
  printable c hc := isCommentChar_of_isPrintable (printable_literalToAbnf s c hc)

/-! ## White space at the ends -/

theorem Insertable.startsFull (h : Insertable u) : StartsFull u := by
  obtain ⟨p, hp, -⟩ := h.derives
  obtain ⟨c, tail, rfl, hc⟩ := hp.startsPhrase_head
  exact ⟨c, rfl, not_isSpace_of_startsPhrase hc⟩

theorem Insertable.trimEnd (h : Insertable u) : trimEnd u = u := by
  obtain ⟨p, hp, -⟩ := h.derives
  exact trimEnd_eq_self hp.not_isSpace_getLast?

namespace Filled

theorem dropWhile_isSpace (h : Filled space u v) :
    ∃ space', Filled space' (u.dropWhile isSpace) (v.dropWhile isSpace) := by
  induction h with
  | nil => exact ⟨false, .nil⟩
  | @char space c u v hc h ih =>
    by_cases hspace : isSpace c
    · rwa [List.dropWhile_cons_of_pos hspace, List.dropWhile_cons_of_pos hspace]
    · rw [List.dropWhile_cons_of_neg hspace, List.dropWhile_cons_of_neg hspace]
      exact ⟨space, .char hc h⟩
  | @place words u v hwords h ih =>
    obtain ⟨c, tail, rfl, hc⟩ : ∃ c tail, words = c :: tail ∧ ¬ isSpace c := by
      obtain ⟨c, hc, hspace⟩ := hwords.startsFull
      obtain ⟨tail, rfl⟩ := List.head?_eq_some_iff.mp hc
      exact ⟨c, tail, rfl, hspace⟩
    rw [List.dropWhile_cons_of_neg (by decide), List.cons_append, List.dropWhile_cons_of_neg hc]
    exact ⟨true, .place hwords h⟩

theorem forall_isSpace_iff (h : Filled space u v) :
    (∀ c ∈ u, isSpace c) ↔ ∀ c ∈ v, isSpace c := by
  induction h with
  | nil => rfl
  | char _ _ ih => rw [List.forall_mem_cons, List.forall_mem_cons, ih]
  | @place words u v hwords _ _ =>
    refine iff_of_false (fun hall => ?_) fun hall => ?_
    · exact absurd (hall '"' List.mem_cons_self) (by decide)
    · exact (hwords.startsFull.append v).not_forall_isSpace hall

theorem trimEnd (h : Filled space u v) : Filled space (trimEnd u) (trimEnd v) := by
  induction h with
  | nil => exact .nil
  | @char space c u v hc h ih =>
    have hone : '<' ∉ Text.trimEnd [c] := fun hmem =>
      hc (List.mem_singleton.mp ((List.rdropWhile_prefix _ _).mem hmem)).symm
    change Filled space (Text.trimEnd ([c] ++ u)) (Text.trimEnd ([c] ++ v))
    by_cases hspace : ∀ d ∈ u, isSpace d
    · rw [trimEnd_append_of_space hspace, trimEnd_append_of_space (h.forall_isSpace_iff.mp hspace)]
      exact .self hone
    · rw [trimEnd_append hspace, trimEnd_append (mt h.forall_isSpace_iff.mpr hspace)]
      exact .char hc ih
  | @place words u v hwords h ih =>
    have hplace : Text.trimEnd ['"', 'x', '"'] = ['"', 'x', '"'] := by decide
    change Filled true (Text.trimEnd (['"', 'x', '"'] ++ u)) _
    -- no place ends in white space, before or after
    by_cases hspace : ∀ d ∈ u, isSpace d
    · rw [trimEnd_append_of_space hspace, trimEnd_append_of_space (h.forall_isSpace_iff.mp hspace),
        hplace, hwords.trimEnd]
      simpa using Filled.place hwords .nil
    · rw [trimEnd_append hspace, trimEnd_append (mt h.forall_isSpace_iff.mpr hspace)]
      exact .place hwords ih

theorem strip (h : Filled space u v) : ∃ space', Filled space' (strip u) (strip v) := by
  obtain ⟨space', h⟩ := h.dropWhile_isSpace
  exact ⟨space', h.trimEnd⟩

end Filled

end Grammar

/-! ## Filling gaps in step -/

namespace Template

namespace Rendered

/-- Two templates as far as they have been filled with strings, the first one with `x` alone. -/
structure FilledInStep (r r' : Rendered) : Prop where
  text : Filled false r.text r'.text
  last : r.text.getLast? = r'.text.getLast?
  bare : r.placeholders = []
  bare' : r'.placeholders = []

variable {r r' : Rendered} {s after : List Char}

/-- Behind the words for a string stands a space, and behind it what comes after the gap. -/
theorem spaced_append {words : List Char} (h : words ≠ []) (before after : List Char) :
    spaced before words ++ after =
      (if before.getLast? = some ' ' then before else before ++ [' ']) ++
        (words ++ ' ' :: after) := by
  cases words with
  | nil => exact absurd rfl h
  | cons c words =>
    unfold spaced
    split
    · contradiction
    · split <;> simp

theorem FilledInStep.fill (h : FilledInStep r r') (hafter : '<' ∉ after)
    (hs : Insertable (literalToAbnf s)) :
    FilledInStep { r with text := spaced r.text (literalToAbnf ['x']) ++ after }
      { r' with text := spaced r'.text (literalToAbnf s) ++ after } := by
  have hx : literalToAbnf ['x'] = ['"', 'x', '"'] := by decide
  have hbehind : '<' ∉ ' ' :: after := by simpa using hafter
  have hwords : literalToAbnf s ≠ [] := fun hnil => by
    obtain ⟨c, hc, -⟩ := hs.startsFull
    rw [hnil] at hc
    cases hc
  rw [hx, spaced_append (by decide), spaced_append hwords, ← h.last]
  -- a space stands before the gap in both texts, whether it is put there or not
  obtain ⟨before, before', hbefore, hbefore', hfilled, hspace⟩ : ∃ before before',
      (if r.text.getLast? = some ' ' then r.text else r.text ++ [' ']) = before ∧
        (if r.text.getLast? = some ' ' then r'.text else r'.text ++ [' ']) = before' ∧
          Filled false before before' ∧ spaceAfter false before = true := by
    refine ⟨_, _, rfl, rfl, ?_⟩
    split
    · rename_i hlast
      exact ⟨h.text, by rw [spaceAfter, hlast]; rfl⟩
    · refine ⟨h.text.append (.self (by decide)), ?_⟩
      rw [spaceAfter_append, spaceAfter_cons]
      rfl
  rw [hbefore, hbefore']
  refine ⟨hfilled.append ?_, ?_, h.bare, h.bare'⟩
  · rw [hspace]
    exact .place hs (.self hbehind)
  · have hlast (u words : List Char) :
        (u ++ (words ++ ' ' :: after)).getLast? = (' ' :: after).getLast? := by
      rw [← List.append_assoc, List.getLast?_append_of_ne_nil _ (List.cons_ne_nil _ _)]
    exact (hlast before _).trans (hlast before' _).symm

theorem FilledInStep.fillAll [Interpreter] {strings afters : List (List Char)}
    (h : FilledInStep r r')
    (hafters : ∀ after ∈ afters, '<' ∉ after)
    (hstrings : ∀ s ∈ strings, Insertable (literalToAbnf s)) :
    ∃ next next', r.fillAll ((strings.map fun _ => Datum.text ['x']).zip afters) = .ok next ∧
      r'.fillAll ((strings.map Datum.text).zip afters) = .ok next' ∧ FilledInStep next next' := by
  induction strings generalizing r r' afters with
  | nil => exact ⟨r, r', rfl, rfl, h⟩
  | cons s strings ih =>
    cases afters with
    | nil => exact ⟨r, r', rfl, rfl, h⟩
    | cons after afters =>
      rw [List.forall_mem_cons] at hafters hstrings
      exact ih (h.fill hafters.1 hstrings.1) hafters.2 hstrings.2

theorem FilledInStep.readRendered [Interpreter] {rules : Rules} (h : FilledInStep r r')
    (hread : readRendered { r with text := strip r.text } = .ok rules) :
    ∃ filled, readRendered { r' with text := strip r'.text } = .ok filled ∧
      filled.names = rules.names := by
  have hnamed {r : Rendered} (hr : r.placeholders = []) : r.named = [] := by
    rw [named, hr]
    rfl
  obtain ⟨space, hfilled⟩ := h.text.strip
  unfold Abnf.readRendered at hread ⊢
  rw [hnamed (by exact h.bare)] at hread
  rw [hnamed (by exact h.bare')]
  obtain ⟨filled, hok, hnames⟩ := exists_read_of_filled (Except.mapError_eq_ok.mp hread) hfilled
  exact ⟨filled, Except.mapError_eq_ok.mpr hok, hnames⟩

end Rendered

end Template

/--
Strings cannot break out of their gaps: where a template without prose is compiled with the string
`x` in every gap, it is compiled with any strings in them, to rules of the same names in the same
order. Only empty strings, which leave nothing in their gap, and more double quotes in a row than
can be counted are left out.
-/
theorem compile_texts [Interpreter] {source : List Char} {strings : List (List Char)}
    {rules : Rules}
    (hprose : '<' ∉ source)
    (h : compile (.text source) (List.replicate strings.length (.text ['x'])) = .ok rules)
    (hstrings : ∀ s ∈ strings, s ≠ [] ∧ ¬ List.replicate repeatLimit '"' <:+: s) :
    ∃ filled, compile (.text source) (strings.map .text) = .ok filled ∧
      filled.names = rules.names := by
  have hparts : '<' ∉ (ofText source).head ∧ ∀ after ∈ (ofText source).tail, '<' ∉ after :=
    not_mem_cut fun hc => hprose (mem_of_mem_dedent hc (by decide))
  have hwords : ∀ s ∈ strings, Insertable (literalToAbnf s) := fun s hs =>
    insertable_literalToAbnf (hstrings s hs).1 (hstrings s hs).2
  rw [← List.map_const'] at h
  obtain ⟨rendered, hrender, hread⟩ := Except.bind_eq_ok.mp h
  have hrender : (ofText source).render (strings.map fun _ => .text ['x']) = .ok rendered :=
    Except.mapError_eq_ok.mp hrender
  have hlength : (ofText source).tail.length = (strings.map Datum.text).length := by
    simpa using length_eq_of_render hrender
  obtain ⟨next, hfill, rfl⟩ := exists_filled hrender
  -- both runs start with the same text, and each gap keeps them filled in step
  have hstart : Rendered.FilledInStep { text := (ofText source).head }
      { text := (ofText source).head } := ⟨.self hparts.1, rfl, rfl, rfl⟩
  obtain ⟨_, next', hfill', hfilled, hstep⟩ := hstart.fillAll hparts.2 hwords
  obtain rfl := Except.ok.inj (hfill.symm.trans hfill')
  obtain ⟨filled, hread', hnames⟩ := hstep.readRendered hread
  refine ⟨filled, Except.bind_eq_ok.mpr ⟨_, Except.mapError_eq_ok.mpr ?_, hread'⟩, hnames⟩
  change (ofText source).render (strings.map .text) = _
  rw [render_eq _ _ hlength, hfilled]
  rfl

/-- A template with a gap beside other tokens, one in a comment and one in brackets. -/
def threeGaps : List Char := "a = \x7b\x7d/%x41 ; \x7b\x7d\nb = [\x7b\x7d]\n  a".toList

theorem compile_texts_threeGaps :
    '<' ∉ threeGaps ∧
      compile (.text threeGaps) (List.replicate 3 (.text ['x'])) =
        .ok [(['a'], .grouped (.alt (.literal ['x']) (.codes [65]))),
          (['b'], .seq (.optional (.literal ['x']))
            (.grouped (.alt (.literal ['x']) (.codes [65]))))] ∧
      (∀ s ∈ ["\"\nc = x".toList, ['\n'], "\"\"]<;".toList],
        s ≠ [] ∧ ¬ List.replicate repeatLimit '"' <:+: s) ∧
      ∃ filled, compile (.text threeGaps)
          (["\"\nc = x".toList, ['\n'], "\"\"]<;".toList].map .text) = .ok filled ∧
        filled.names = [['a'], ['b']] := by
  have hprose : '<' ∉ threeGaps := by decide
  have hcompile : compile (.text threeGaps) (List.replicate 3 (.text ['x'])) =
      .ok [(['a'], .grouped (.alt (.literal ['x']) (.codes [65]))),
        (['b'], .seq (.optional (.literal ['x']))
          (.grouped (.alt (.literal ['x']) (.codes [65]))))] := by decide +kernel
  have hstrings : ∀ s ∈ ["\"\nc = x".toList, ['\n'], "\"\"]<;".toList],
      s ≠ [] ∧ ¬ List.replicate repeatLimit '"' <:+: s := by
    have hshort : ∀ s ∈ ["\"\nc = x".toList, ['\n'], "\"\"]<;".toList],
        s ≠ [] ∧ s.length < repeatLimit := by decide
    refine fun s hs => ⟨(hshort s hs).1, fun hrun => ?_⟩
    have hlength := hrun.length_le
    rw [List.length_replicate] at hlength
    exact absurd (hshort s hs).2 (Nat.not_lt.mpr hlength)
  have h := @compile_texts _ threeGaps ["\"\nc = x".toList, ['\n'], "\"\"]<;".toList] _ hprose
    hcompile hstrings
  exact ⟨hprose, hcompile, hstrings, h⟩

end Abnf
