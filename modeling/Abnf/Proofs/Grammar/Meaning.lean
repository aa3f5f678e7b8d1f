import Abnf.Proofs.Grammar.Resolution
import Abnf.Proofs.Regex.Denotes
import Abnf.Proofs.Text.Numeral

/-!
# The language of a rule

What RFC 5234 says a rule stands for: a set of texts. Phrases denote languages where names do, and
rules in order give names their languages, one after the other. A reference means what its name
stands for at that point, so a later rule of the same name has no effect on it.

`Scope.Denotes.addAll?` says that the expressions kept for the rules denote the same languages.
-/

namespace Abnf.Grammar

open Regex Token
open scoped Computability

variable {scope scope' : Scope} {p : Phrase} {expr : Expr} {depth n : Nat}

/-! ## Core rules -/

/-- The characters of some ranges of code points, each a text of its own. -/
def within (ranges : Text.Ranges) : Language Char := oneOf fun c => ranges.has c.toNat

/-- A core rule by RFC 5234, Appendix B.1. -/
def CoreRule.language : CoreRule → Language Char
  | alpha => within [(0x41, 0x5A), (0x61, 0x7A)]
  | bit => within [(0x30, 0x30), (0x31, 0x31)]
  | char => within [(0x01, 0x7F)]
  | cr => within [(0x0D, 0x0D)]
  | crlf => within [(0x0D, 0x0D)] * within [(0x0A, 0x0A)]
  | ctl => within [(0x00, 0x1F), (0x7F, 0x7F)]
  | digit => within [(0x30, 0x39)]
  | dquote => within [(0x22, 0x22)]
  | hexdig => within [(0x30, 0x39), (0x41, 0x46), (0x61, 0x66)]
  | htab => within [(0x09, 0x09)]
  | lf => within [(0x0A, 0x0A)]
  | lwsp => (within [(0x20, 0x20), (0x09, 0x09)] +
      within [(0x0D, 0x0D)] * within [(0x0A, 0x0A)] * within [(0x20, 0x20), (0x09, 0x09)])∗
  | octet => within [(0x00, 0xFF)]
  | sp => within [(0x20, 0x20)]
  | vchar => within [(0x21, 0x7E)]
  | wsp => within [(0x20, 0x20), (0x09, 0x09)]

theorem CoreRule.language_digit : digit.language = oneOf fun c => Text.isAsciiDigit c := by
  ext u
  refine exists_congr fun c => and_congr_right fun _ => ?_
  simp [Text.Ranges.has_iff, Text.isAsciiDigit_iff]

/-! ## Phrases -/

/-- The texts that differ from a text at most in the case of the letters `A` to `Z`. -/
def inAnyCase (text : List Char) : Language Char :=
  {u | u.map Text.asciiLower = text.map Text.asciiLower}

/-- The text with these code points. -/
def ofCodes (codes : List Nat) : Language Char := {u | u.map Char.toNat = codes}

/-- Whether a repeat asks for so many copies. A bound that is left out is no bound. -/
def Token.Bounds.Allows (n : Nat) : Bounds → Prop
  | exact count => n = Base.decimal.number count
  | range least most =>
    (least ≠ [] → Base.decimal.number least ≤ n) ∧ (most ≠ [] → n ≤ Base.decimal.number most)

/-- The texts that numbers stand for. -/
def Token.Numbers.language : Numbers → Language Char
  | row base first more => ofCodes ((first :: more).map base.number)
  | range base first last => oneOf fun c => base.number first ≤ c.toNat ∧ c.toNat ≤ base.number last

theorem ofCodes_map_toNat (text : List Char) : ofCodes (text.map Char.toNat) = {text} := by
  have hinj := List.map_injective_iff.mpr fun c d : Char => Char.toNat_inj.mp
  ext u
  exact hinj.eq_iff

/-- So many copies, as many as are allowed. -/
def repeated (allowed : Nat → Prop) (L : Language Char) : Language Char :=
  {u | ∃ n, allowed n ∧ u ∈ L ^ n}

/-- What names stand for. -/
abbrev Meaning := Name → Language Char

/-- The texts of a phrase. -/
def Phrase.language (meaning : Meaning) : Phrase → Language Char
  | reference name => meaning (keyOf name)
  | quoted text | prose text => inAnyCase text
  | codes numbers => numbers.language
  | group body => body.language meaning
  | option body => 1 + body.language meaning
  | times bounds body => repeated (fun n => bounds.Allows n) (body.language meaning)
  | seq a b => a.language meaning * b.language meaning
  | alt a b => a.language meaning + b.language meaning

/-! ## Rules in order -/

/-- What names stand for before any rule: only core rules mean something. -/
def coreMeaning : Meaning := fun name =>
  match CoreRule.ofName? name with
  | some rule => rule.language
  | none => 0

/-- What names stand for after one more rule. A rule that adds leaves what there was. -/
def Definition.extend (meaning : Meaning) (d : Definition) : Meaning :=
  Function.update meaning d.key
    (if d.adds then meaning d.key + d.body.language meaning else d.body.language meaning)

/-- The texts of an expression. Nothing is known of one that comes from outside. -/
def Expr.language : Expr → Language Char
  | literal text => inAnyCase text
  | codes cs => ofCodes cs
  | range first last => oneOf fun c => first ≤ c.toNat ∧ c.toNat ≤ last
  | core rule => rule.language
  | foreign _ => 0
  | seq a b => a.language * b.language
  | alt a b => a.language + b.language
  | grouped body => body.language
  | optional body => copies body.language 0 (some 1)
  | repeated times body => copies body.language times.least times.most

theorem Expr.language_alternatives (first second : Expr) (more : List Expr) :
    (anyOf.alternatives first second more).language =
      first.language + (second.language + (more.map language).sum) := by
  induction more generalizing first second with
  | nil => simp [anyOf.alternatives, language]
  | cons third more ih => rw [anyOf.alternatives, language, ih, List.map_cons, List.sum_cons]

theorem Expr.language_anyOf (first : Expr) (more : List Expr) :
    (anyOf first more).language = first.language + (more.map language).sum := by
  cases more with
  | nil => simp [anyOf]
  | cons second more =>
    rw [anyOf, language, language_alternatives, List.map_cons, List.sum_cons]

theorem copies_zero_one (L : Language Char) : copies L 0 (some 1) = 1 + L := by
  ext u
  rw [mem_copies, Language.mem_add]
  constructor
  · rintro ⟨n, -, hn, hu⟩
    rcases Nat.le_one_iff_eq_zero_or_eq_one.mp (hn 1 rfl) with rfl | rfl
    · exact .inl hu
    · exact .inr (by rwa [pow_one] at hu)
  · rintro (hu | hu)
    · exact ⟨0, Nat.le_refl 0, by simp, hu⟩
    · exact ⟨1, Nat.zero_le 1, by simp, by rwa [pow_one]⟩

theorem Expr.mem_language_optional {u : List Char} :
    u ∈ (optional expr).language ↔ u = [] ∨ u ∈ expr.language := by
  rw [language, copies_zero_one]
  rfl

theorem Token.Bounds.allows_iff (bounds : Bounds) (n : Nat) : bounds.Allows n ↔
    bounds.times.least ≤ n ∧ ∀ m ∈ bounds.times.most, n ≤ m := by
  match bounds with
  | .exact count =>
    simp only [Allows, times, Repeat.least, Repeat.most, Option.mem_some_iff, forall_eq']
    omega
  | .range [] [] => simp [Allows, times, Repeat.least, Repeat.most]
  | .range (c :: least) [] => simp [Allows, times, Repeat.least, Repeat.most]
  | .range [] (d :: most) => simp [Allows, times, Repeat.least, Repeat.most]
  | .range (c :: least) (d :: most) => simp [Allows, times, Repeat.least, Repeat.most]

theorem repeated_allows (bounds : Bounds) (L : Language Char) :
    repeated (fun n => bounds.Allows n) L = copies L bounds.times.least bounds.times.most := by
  ext u
  simp only [repeated, copies, Bounds.allows_iff, and_assoc]

/-- What a phrase stands for denotes its language, if that is so of what it refers to. -/
theorem Phrase.language_of_resolve {meaning : Meaning}
    (hscope : ∀ name expr, scope.find? name = some expr → expr.language = meaning name) :
    ∀ {p : Phrase} {depth : Nat} {r : Expr × List Expr}, p.resolve scope depth = some r →
      r.1.language + (r.2.map Expr.language).sum = p.language meaning := by
  intro p
  -- what stands beside the first alternative comes from choices alone; in all other cases it is
  -- empty, and its sum is nothing
  induction p with
  | reference name =>
    intro depth r h
    obtain ⟨expr, hexpr, rfl⟩ := Option.map_eq_some_iff.mp h
    simp only [List.map_nil, List.sum_nil, add_zero, language, hscope _ _ hexpr]
  | quoted text | prose text =>
    intro depth r h
    cases h
    exact add_zero _
  | codes numbers =>
    intro depth r h
    rw [resolve] at h
    split at h
    · cases h
      rw [List.map_nil, List.sum_nil, add_zero]
      cases numbers <;> rfl
    · cases h
  | group body ih =>
    intro depth r h
    cases depth with
    | zero => cases h
    | succ depth =>
      obtain ⟨s, hs, rfl⟩ := Option.map_eq_some_iff.mp h
      simp only [List.map_nil, List.sum_nil, add_zero, Expr.language_anyOf, ih hs, language]
  | option body ih =>
    intro depth r h
    cases depth with
    | zero => cases h
    | succ depth =>
      obtain ⟨s, hs, rfl⟩ := Option.map_eq_some_iff.mp h
      simp only [List.map_nil, List.sum_nil, add_zero, Expr.language, copies_zero_one,
        Expr.language_anyOf, ih hs, language]
  | times bounds body ih =>
    intro depth r h
    rw [resolve] at h
    split at h
    · obtain ⟨s, hs, rfl⟩ := Option.map_eq_some_iff.mp h
      simp only [List.map_nil, List.sum_nil, add_zero, Expr.language, Expr.language_anyOf, ih hs,
        language, repeated_allows]
    · cases h
  | seq a b iha ihb =>
    intro depth r h
    obtain ⟨s, hs, h⟩ := Option.bind_eq_some_iff.mp h
    obtain ⟨t, ht, rfl⟩ := Option.map_eq_some_iff.mp h
    simp only [List.map_nil, List.sum_nil, add_zero, Expr.language, Expr.language_anyOf, iha hs,
      ihb ht, language]
  | alt a b iha ihb =>
    intro depth r h
    obtain ⟨s, hs, h⟩ := Option.bind_eq_some_iff.mp h
    obtain ⟨t, ht, rfl⟩ := Option.map_eq_some_iff.mp h
    simp only [List.map_cons, List.sum_cons, Expr.language_anyOf, iha hs, ihb ht, language]

theorem Phrase.language_of_expr? {meaning : Meaning}
    (hscope : ∀ name expr, scope.find? name = some expr → expr.language = meaning name)
    (h : p.expr? scope depth = some expr) : expr.language = p.language meaning := by
  obtain ⟨r, hr, rfl⟩ := Option.map_eq_some_iff.mp h
  rw [Expr.language_anyOf, language_of_resolve hscope hr]

/-! ## Scopes -/

/-- What a scope keeps for names denotes what they stand for. -/
def Scope.Denotes (scope : Scope) (meaning : Meaning) : Prop :=
  ∀ name expr, scope.find? name = some expr → expr.language = meaning name

theorem Scope.denotes_start : Scope.Denotes {} coreMeaning := by
  intro name expr h
  unfold Scope.find? at h
  unfold coreMeaning
  cases hcore : CoreRule.ofName? name with
  | none => simp [hcore, Rules.find?] at h
  | some rule =>
    rw [hcore] at h
    cases h
    rfl

theorem Scope.Denotes.define {meaning : Meaning} {name : Name} (h : scope.Denotes meaning)
    (hreserved : scope.isReserved name = false) (expr : Expr) :
    (scope.define name expr).Denotes (Function.update meaning name expr.language) := by
  intro other found hfound
  rw [Scope.find?_define hreserved] at hfound
  split at hfound
  · rename_i hname
    cases hfound
    rw [hname, Function.update_self]
  · rename_i hname
    rw [h _ _ hfound, Function.update_of_ne hname]

/-- Reading a rule keeps a scope in step with what names stand for. -/
theorem Scope.Denotes.add? [Interpreter] {meaning : Meaning} {d : Definition}
    (h : scope.Denotes meaning)
    (hadd : scope.add? d = some scope') : scope'.Denotes (d.extend meaning) := by
  obtain ⟨hreserved, body, hbody, ⟨hadds, rfl⟩ | ⟨hadds, old, hold, rfl⟩⟩ :=
    Scope.exists_of_add? hadd
  · rw [Definition.extend, hadds, ← Phrase.language_of_expr? h hbody]
    exact h.define hreserved body
  · rw [Definition.extend, hadds, ← h _ _ hold, ← Phrase.language_of_expr? h hbody]
    exact h.define hreserved (.grouped (.alt old body))

/-- After rules in order, the expressions kept for names denote what the names stand for. -/
theorem Scope.Denotes.addAll? [Interpreter] {meaning : Meaning} {ds : List Definition}
    (h : scope.Denotes meaning)
    (hadd : scope.addAll? ds = some scope') :
    scope'.Denotes (ds.foldl Definition.extend meaning) := by
  induction ds generalizing scope meaning with
  | nil =>
    cases hadd
    exact h
  | cons d ds ih =>
    obtain ⟨mid, hmid, hadd⟩ := Option.bind_eq_some_iff.mp hadd
    exact ih (h.add? hmid) hadd

end Abnf.Grammar
