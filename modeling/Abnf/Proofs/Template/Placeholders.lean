import Abnf.Proofs.Grammar.Arrival
import Abnf.Proofs.Grammar.Expansion
import Abnf.Proofs.Template.Inlining
import Abnf.Proofs.Template.Layout
import Abnf.Proofs.Text.Numeral
import Mathlib.Data.List.Nodup

/-!
# Names for patterns

The patterns among the values of a template are given names, one for every pattern however often it
is used, numbered in order of first use. One gap after the other is filled, and what is kept is the
list of the patterns that have a name: it holds those of the values so far, each once, and every gap
that holds a pattern is filled with the name of its place in the list (`fillAll_spec`).

The names are rules for the text to refer to, and for nothing else. No rule that comes out has such
a name, and no line can define one (`assemble_placeholders`).
-/

namespace Abnf

open Grammar Template Text Token

namespace Template

variable {r next : Rendered} {p : PatternValue} {ps : List PatternValue} {seen : List Identity}
  {value : Value} {vs : List Value} {datum : Datum} {inserted after : List Char}
  {pairs : List (Datum × List Char)}

/-! ## First uses -/

/-- The patterns that are not among those seen before, each at its first use. -/
def firstUses (seen : List Identity) : List PatternValue → List PatternValue
  | [] => []
  | p :: ps =>
    if p.identity ∈ seen then firstUses seen ps else p :: firstUses (seen ++ [p.identity]) ps

theorem firstUses_sublist (seen : List Identity) (ps : List PatternValue) :
    (firstUses seen ps).Sublist ps := by
  induction ps generalizing seen with
  | nil => exact List.Sublist.refl _
  | cons p ps ih =>
    rw [firstUses]
    split
    · exact (ih seen).cons p
    · exact (ih _).cons_cons p

theorem not_mem_of_mem_firstUses (seen : List Identity) (ps : List PatternValue) :
    ∀ p ∈ firstUses seen ps, p.identity ∉ seen := by
  induction ps generalizing seen with
  | nil => exact nofun
  | cons p ps ih =>
    rw [firstUses]
    split
    · exact ih seen
    · rename_i hnew
      refine List.forall_mem_cons.mpr ⟨hnew, fun q hq hseen => ?_⟩
      exact ih _ q hq (List.mem_append_left _ hseen)

/-- No pattern is there twice. -/
theorem nodup_firstUses (seen : List Identity) (ps : List PatternValue) :
    ((firstUses seen ps).map (·.identity)).Nodup := by
  induction ps generalizing seen with
  | nil => exact List.nodup_nil
  | cons p ps ih =>
    rw [firstUses]
    split
    · exact ih seen
    · refine List.nodup_cons.mpr ⟨fun hmem => ?_, ih _⟩
      obtain ⟨q, hq, hidentity⟩ := List.mem_map.mp hmem
      refine not_mem_of_mem_firstUses _ _ q hq (List.mem_append_right _ ?_)
      exact List.mem_singleton.mpr hidentity

/-- Every pattern is there that has not been seen before. -/
theorem mem_firstUses (seen : List Identity) (ps : List PatternValue) :
    ∀ p ∈ ps, p.identity ∈ seen ∨ p.identity ∈ (firstUses seen ps).map (·.identity) := by
  induction ps generalizing seen with
  | nil => exact nofun
  | cons p ps ih =>
    rw [firstUses]
    split
    · rename_i hseen
      exact List.forall_mem_cons.mpr ⟨.inl hseen, ih seen⟩
    · refine List.forall_mem_cons.mpr ⟨.inr List.mem_cons_self, fun q hq => ?_⟩
      rcases ih (seen ++ [p.identity]) q hq with hseen | hlater
      · rcases List.mem_append.mp hseen with hseen | hsame
        · exact .inl hseen
        · rw [List.mem_singleton.mp hsame]
          exact .inr List.mem_cons_self
      · exact .inr (List.mem_cons_of_mem _ hlater)

theorem firstUses_append (seen : List Identity) (ps qs : List PatternValue) :
    firstUses seen (ps ++ qs) =
      firstUses seen ps ++ firstUses (seen ++ (firstUses seen ps).map (·.identity)) qs := by
  induction ps generalizing seen with
  | nil => rw [List.nil_append, firstUses, List.map_nil, List.append_nil, List.nil_append]
  | cons p ps ih =>
    rw [List.cons_append, firstUses, firstUses]
    split
    · exact ih seen
    · rw [ih, List.map_cons, List.cons_append, List.append_assoc, List.singleton_append]

/-- The pattern that a value is. -/
def Value.pattern? : Value → Option PatternValue
  | .pattern p => some p
  | .text _ | .choices _ => none

/-- The patterns among values, each once and in order of first use. -/
def patternsOf (vs : List Value) : List PatternValue := firstUses [] (vs.filterMap Value.pattern?)

/-! ## Filling gaps -/

/-- The patterns that have a name, in the order of their names. -/
def Rendered.identities (r : Rendered) : List Identity := r.placeholders.map (·.identity)

/-- A pattern and what is used for it. -/
def PatternValue.placeholder (p : PatternValue) : Placeholder := ⟨p.identity, wrap p.pattern⟩

/-- What a value is spliced in as, if these are the patterns that have names. -/
def SplicedAs (identities : List Identity) : Value → List Char → Prop
  | .text s, inserted => inserted = literalToAbnf s
  | .choices texts, inserted => inserted = Rendered.choicesToAbnf texts
  | .pattern p, inserted =>
    ∃ i, identities[i]? = some p.identity ∧ inserted = placeholderName i

/-- Names that are given later change nothing. -/
theorem SplicedAs.mono {identities identities' : List Identity}
    (h : SplicedAs identities value inserted) (hmore : identities <+: identities') :
    SplicedAs identities' value inserted := by
  cases value with
  | text | choices => exact h
  | pattern p =>
    obtain ⟨i, hi, rfl⟩ := h
    obtain ⟨more, rfl⟩ := hmore
    refine ⟨i, ?_, rfl⟩
    rw [List.getElem?_append_left (List.getElem?_eq_some_iff.mp hi).1, hi]

/-- What a gap is filled with, and which patterns have a name then. -/
theorem splice_spec [Interpreter] (h : r.splice value = .ok (inserted, next)) :
    next.placeholders = r.placeholders ++
        (firstUses r.identities value.pattern?.toList).map PatternValue.placeholder ∧
      SplicedAs next.identities value inserted := by
  cases value with
  | text s | choices texts =>
    cases h
    exact ⟨(List.append_nil _).symm, rfl⟩
  | pattern p =>
    change r.nameOf p = _ at h
    cases hnumber : r.number? p.identity with
    | some i =>
      rw [nameOf_known hnumber] at h
      cases h
      obtain ⟨hi, hidentity, -⟩ := List.findIdx?_eq_some_iff_getElem.mp hnumber
      have hat : r.identities[i]? = some p.identity := by
        rw [Rendered.identities, List.getElem?_map, List.getElem?_eq_getElem hi, Option.map_some,
          of_decide_eq_true hidentity]
      refine ⟨?_, i, hat, rfl⟩
      rw [Value.pattern?, Option.toList, firstUses, if_pos (List.mem_of_getElem? hat)]
      exact (List.append_nil _).symm
    | none =>
      rw [Rendered.nameOf, hnumber] at h
      obtain ⟨wrapped, hinline, h⟩ := Except.bind_eq_ok.mp h
      cases h
      obtain rfl := (compile_of_inline hinline).1
      -- the number of a new pattern is the place at which it is added
      have hnew : p.identity ∉ r.identities := by
        intro hmem
        obtain ⟨placeholder, hplaceholder, hidentity⟩ := List.mem_map.mp hmem
        have := List.findIdx?_eq_none_iff.mp hnumber placeholder hplaceholder
        exact absurd hidentity (of_decide_eq_false this)
      refine ⟨?_, r.placeholders.length, ?_, rfl⟩
      · rw [Value.pattern?, Option.toList, firstUses, if_neg hnew]
        rfl
      · simp [Rendered.identities]

/-- A text with gaps filled and the text behind each of them added. -/
def weave (text : List Char) (gaps : List (List Char × List Char)) : List Char :=
  gaps.foldl (fun text gap => Rendered.spaced text gap.1 ++ gap.2) text

/-- What a row of gaps is filled with, and which patterns have a name at the end. -/
theorem fillAll_spec [Interpreter] (h : r.fillAll pairs = .ok next) : ∃ vs inserted,
    List.Forall₂ (fun pair value => Value.ofDatum pair.1 = .ok value) pairs vs ∧
      next.placeholders = r.placeholders ++
        (firstUses r.identities (vs.filterMap Value.pattern?)).map PatternValue.placeholder ∧
      List.Forall₂ (SplicedAs next.identities) vs inserted ∧
      next.text = weave r.text (inserted.zip (pairs.map (·.2))) := by
  induction pairs generalizing r with
  | nil =>
    cases h
    exact ⟨[], [], .nil, (List.append_nil _).symm, .nil, rfl⟩
  | cons pair pairs ih =>
    obtain ⟨datum, after⟩ := pair
    obtain ⟨filled, hfill, hrest⟩ := Except.bind_eq_ok.mp h
    obtain ⟨value, hvalue, hfill⟩ := Except.bind_eq_ok.mp hfill
    obtain ⟨⟨first, mid⟩, hsplice, hfill⟩ := Except.bind_eq_ok.mp hfill
    cases hfill
    have htext : mid.text = r.text := text_of_splice hsplice
    obtain ⟨hplaceholders, hfirst⟩ := splice_spec hsplice
    obtain ⟨vs, inserted, hvs, hmore, hinserted, hwoven⟩ := ih hrest
    change _ = mid.placeholders ++ (firstUses mid.identities _).map _ at hmore
    -- what the first gap is filled with stays right, since names are only added
    refine ⟨value :: vs, first :: inserted, .cons hvalue hvs, ?_, .cons (hfirst.mono ?_) hinserted,
      ?_⟩
    · have hvalues : (value :: vs).filterMap Value.pattern? =
          value.pattern?.toList ++ vs.filterMap Value.pattern? := by
        cases value <;> rfl
      have hidentities : mid.identities = r.identities ++
          (firstUses r.identities value.pattern?.toList).map (·.identity) := by
        rw [Rendered.identities, hplaceholders, List.map_append, List.map_map]
        rfl
      rw [hmore, hidentities, hplaceholders, hvalues, firstUses_append, List.map_append,
        List.append_assoc]
    · rw [Rendered.identities, Rendered.identities, hmore, List.map_append]
      exact List.prefix_append ..
    · rw [hwoven, htext]
      rfl

/-! ## Names -/

theorem placeholderName_inj {i j : Nat} (h : placeholderName i = placeholderName j) : i = j := by
  have hdecimal := List.append_cancel_left h
  rw [← numeralValue_decimal i, hdecimal, numeralValue_decimal]

theorem ruleName_placeholderName (i : Nat) : RuleName (placeholderName i) := by
  have hchars : namePrefix.tail.all isNameChar := by decide +kernel
  refine .mk (by decide +kernel) fun c hc => ?_
  rcases List.mem_append.mp (show c ∈ namePrefix.tail ++ decimal i from hc) with hc | hc
  · exact List.all_eq_true.mp hchars c hc
  · simp [isNameChar, isAsciiDigit_of_mem_decimal i c hc]

/-- The names come in order, and each once. -/
theorem Rendered.names_named (r : Rendered) :
    r.named.map (·.1) = (List.range r.placeholders.length).map placeholderName := by
  refine List.ext_getElem (by simp [named]) fun i hi hi' => ?_
  simp [named]

theorem Rendered.nodup_named (r : Rendered) : (r.named.map (·.1)).Nodup := by
  rw [names_named]
  exact List.Nodup.map (fun _ _ => placeholderName_inj) List.nodup_range

/-- Patterns that have names, in the text and for what they stand for. -/
structure Named (t : Template) (vs : List Value) (r : Rendered) : Prop where
  /-- The patterns come in the order of the values, -/
  patterns_sublist : (patternsOf vs).Sublist (vs.filterMap Value.pattern?)
  /-- each of them once, -/
  patterns_nodup : ((patternsOf vs).map (·.identity)).Nodup
  /-- and none is left out. -/
  patterns_all : ∀ p ∈ vs.filterMap Value.pattern?, p.identity ∈ (patternsOf vs).map (·.identity)
  /-- Each pattern in parentheses stands under its name. -/
  named_eq : r.named = (patternsOf vs).mapIdx fun i p => (placeholderName i, wrap p.pattern)
  /-- The names are numbered without a gap, -/
  names_eq : r.named.map (·.1) = (List.range (patternsOf vs).length).map placeholderName
  /-- and no two of them are the same. -/
  nodup : (r.named.map (·.1)).Nodup
  /-- Every gap with a pattern holds the name of the pattern. -/
  text_eq : ∃ inserted, List.Forall₂ (SplicedAs ((patternsOf vs).map (·.identity))) vs inserted ∧
    r.text = strip (weave t.head (inserted.zip t.tail))

theorem named_of_render [Interpreter] {t : Template} {values : List Datum}
    (h : t.render values = .ok r) :
    ∃ vs, List.Forall₂ (fun datum value => Value.ofDatum datum = .ok value) values vs ∧
      Named t vs r := by
  have hlength := length_eq_of_render h
  obtain ⟨filled, hfilled, rfl⟩ := exists_filled h
  obtain ⟨vs, inserted, hvs, hplaceholders, hinserted, htext⟩ := fillAll_spec hfilled
  change filled.placeholders = (patternsOf vs).map _ at hplaceholders
  -- there are as many values as gaps, so the pairs give both lists back
  have hvalues : (values.zip t.tail).map (·.1) = values := List.map_fst_zip hlength.ge
  have hafter : (values.zip t.tail).map (·.2) = t.tail := List.map_snd_zip hlength.le
  have hidentities : filled.identities = (patternsOf vs).map (·.identity) := by
    rw [Rendered.identities, hplaceholders, List.map_map]
    rfl
  have hnumber : filled.placeholders.length = (patternsOf vs).length := by
    rw [hplaceholders, List.length_map]
  refine ⟨vs, ?_, firstUses_sublist .., nodup_firstUses .., fun p hp => ?_, ?_, ?_, ?_, inserted,
    ?_, ?_⟩
  · rw [← hvalues]
    exact List.forall₂_map_left_iff.mpr hvs
  · exact (mem_firstUses [] _ p hp).resolve_left List.not_mem_nil
  · change filled.named = _
    rw [Rendered.named, hplaceholders]
    exact List.ext_getElem (by simp) fun i hi hi' => by simp [PatternValue.placeholder]
  · rw [← hnumber]
    exact Rendered.names_named filled
  · exact Rendered.nodup_named filled
  · rwa [← hidentities]
  · rw [htext, hafter]

/-- The rules that a text may refer to. -/
def Rendered.given (r : Rendered) :
    Rules := r.named.map fun (name, source) => (name, .foreign source)

theorem Rendered.isSome_given (r : Rendered) {name : Name} (h : name ∈ r.named.map (·.1)) :
    (r.given.find? name).isSome := by
  unfold given
  generalize r.named = named at h ⊢
  induction named with
  | nil => cases h
  | cons rule named ih =>
    obtain ⟨first, source⟩ := rule
    rw [List.map_cons, Rules.find?_cons]
    dsimp only
    split
    · rfl
    · rename_i hne
      exact ih ((List.mem_cons.mp h).resolve_left hne)

end Template

/-- A template that is filled is compiled to rules, none of which has a name that was given. -/
theorem not_mem_given_of_readRendered [Interpreter] {r : Rendered} {rules : Rules}
    (h : readRendered r = .ok rules) : ∀ name ∈ rules.names, name ∉ r.named.map (·.1) := by
  intro name hname hgiven
  obtain ⟨ds, scope, -, hscope, rfl⟩ := read_eq_ok.mp (Except.mapError_eq_ok.mp h)
  have hfree := (Scope.distinct_start.addAll? hscope).free name hname
  have hsome : (scope.given.find? name).isSome := by
    rw [Scope.given_addAll? hscope]
    exact r.isSome_given hgiven
  rw [Scope.isReserved, hsome, Bool.or_true] at hfree
  cases hfree

/--
A template that can be filled gives a name to every pattern among its values, and these are the
names with which its text refers to the patterns. With the same values, no text is compiled to a
rule of such a name, and every text is refused for the first line that starts with one.
-/
theorem assemble_placeholders [Interpreter] {source : Datum} {values : List Datum} {r : Rendered}
    (h : assemble source values = .ok r) :
    ∃ template vs, Template.ofDatum source = .ok template ∧
      List.Forall₂ (fun datum value => Value.ofDatum datum = .ok value) values vs ∧
      Named template vs r ∧
      (∀ source' rules, compile source' values = .ok rules →
        ∀ name ∈ rules.names, name ∉ r.named.map (·.1)) ∧
      ∀ source' r', assemble source' values = .ok r' →
        ∀ scope written after, Arrives r'.given r'.text scope (written ++ after) →
          lowerCase written ∈ r.named.map (·.1) → (∀ c ∈ after.head?, ¬ isNameChar c) →
            compile source' values = .error (.grammar r'.text
              ⟨.reservedName (lowerCase written), r'.text.length - after.length⟩) := by
  obtain ⟨template, htemplate, hrender⟩ := Except.bind_eq_ok.mp h
  obtain ⟨vs, hvs, hnamed⟩ := named_of_render hrender
  -- which names are given depends on the values alone
  have hsame {source' : Datum} {r' : Rendered} (hr' : assemble source' values = .ok r') :
      r'.named = r.named := by
    obtain ⟨_, -, hrender'⟩ := Except.bind_eq_ok.mp hr'
    obtain ⟨vs', hvs', hnamed'⟩ := named_of_render hrender'
    obtain rfl : vs' = vs := List.right_unique_forall₂'
      (fun _ _ _ hvalue hvalue' => Except.ok.inj (hvalue.symm.trans hvalue')) hvs' hvs
    rw [hnamed'.named_eq, hnamed.named_eq]
  refine ⟨template, vs, htemplate, hvs, hnamed, ?_, ?_⟩
  · intro source' rules hrules
    obtain ⟨r', hr', hread⟩ := Except.bind_eq_ok.mp hrules
    rw [← hsame (Except.mapError_eq_ok.mp hr')]
    exact not_mem_given_of_readRendered hread
  · intro source' r' hr' scope written after harrives hmem hafter
    have hname : RuleName (lowerCase written) := by
      rw [hnamed.names_eq] at hmem
      obtain ⟨i, -, hi⟩ := List.mem_map.mp hmem
      exact hi ▸ ruleName_placeholderName i
    have hread := harrives.read_reserved hname (r'.isSome_given (hsame hr' ▸ hmem)) hafter
    rw [compile_eq hr']
    exact Except.mapError_eq_error.mpr ⟨_, hread, rfl⟩

/-- The pattern of a letter. -/
def letterPattern (c : Char) : Regex.Pattern :=
  { source := [c], flags := { unicode := true }, groups := []
    node := .seq (.char .exact c.toNat) .empty }

/-- The name of the second pattern in another case, with a sign that adds to a rule. -/
def addingLine : List Char :=
  ['P', 'l', 'a', 'c', 'e', 'h', 'o', 'l', 'd', 'e', 'r', '-', 'R', 'u', 'l', 'e', '-', '1', '=',
    '/']

/-- A template with a second line that adds to the name of a pattern. -/
def addingTemplate : List Char :=
  ['a', '=', '\x7b', '\x7d', '\n'] ++ addingLine ++ ['\x7b', '\x7d', '\x7b', '\x7d']

/-- Two patterns, and the first of them once more. -/
def addingValues : List Datum :=
  [.pattern ⟨.unique 0, letterPattern 'x'⟩, .pattern ⟨.unique 1, letterPattern 'y'⟩,
    .pattern ⟨.unique 0, letterPattern 'x'⟩]

/-- The template with the values in its gaps. -/
def addingRendered : Rendered where
  text := ['a', '=', ' '] ++ placeholderName 0 ++ [' ', '\n'] ++ addingLine ++ [' '] ++
    placeholderName 1 ++ [' '] ++ placeholderName 0
  placeholders := [⟨.unique 0, ['(', '?', ':', 'x', ')']⟩, ⟨.unique 1, ['(', '?', ':', 'y', ')']⟩]

theorem assemble_placeholders_adding :
    assemble (.text addingTemplate) addingValues = .ok addingRendered ∧
      addingRendered.named =
        [(placeholderName 0, ['(', '?', ':', 'x', ')']),
          (placeholderName 1, ['(', '?', ':', 'y', ')'])] ∧
      compile (.text addingTemplate) addingValues =
        .error (.grammar addingRendered.text ⟨.reservedName (placeholderName 1), 41⟩) := by
  have hr : assemble (.text addingTemplate) addingValues = .ok addingRendered := by decide +kernel
  have hname : lowerCase (addingLine.take 18) = placeholderName 1 := by decide +kernel
  have hmem : lowerCase (addingLine.take 18) ∈ addingRendered.named.map (·.1) := by
    rw [hname]
    exact List.mem_cons_of_mem _ List.mem_cons_self
  obtain ⟨scope, hline⟩ : ∃ scope, readLine { given := addingRendered.given } addingRendered.text =
      .ok ((scope, true), addingRendered.text.drop 22) := ⟨_, rfl⟩
  -- the first line is read, and the second starts with the name of a pattern
  have harrives : Arrives addingRendered.given addingRendered.text scope
      (addingLine.take 18 ++ addingRendered.text.drop 41) := .next .start hline rfl
  have hafter : ∀ c ∈ (addingRendered.text.drop 41).head?, ¬ isNameChar c := by
    rw [show (addingRendered.text.drop 41).head? = some '=' from rfl]
    rintro c ⟨⟩
    decide
  obtain ⟨template, vs, -, -, -, -, hreserved⟩ := assemble_placeholders hr
  have herror := hreserved _ _ hr scope _ _ harrives hmem hafter
  rw [hname] at herror
  exact ⟨hr, rfl, herror⟩

end Abnf
