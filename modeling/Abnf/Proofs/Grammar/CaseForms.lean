import Abnf.Proofs.Grammar.Source
import Abnf.Proofs.Text.Casing

/-!
# Strings in their case forms

What a string matches as a regular expression, whatever its characters are: texts of the same length
that have at every place the character of the string or, if it has two different case forms, one of
them (`literalSource_matches`). A form that is several characters is none, and a character that is
neither of its case forms, as a capital at the start of a word may be, matches all three.

The source can be had in two steps, by escaping first and putting sets for letters afterwards. No
character that is escaped has case forms and neither has the backslash, so the second step leaves
escapes alone (`literalSource_eq`).
-/

namespace Abnf.Grammar

open Regex Text
open scoped Computability

variable {c d : Char} {text other : List Char}

/-- A text with a backslash before every character that is escaped. -/
def escape (text : List Char) : List Char :=
  text.flatMap fun c => if isEscaped c then ['\\', c] else [c]

/-- A character is another one, or one of its two case forms. -/
def CaseVariant (c d : Char) : Prop :=
  d = c ∨ ∃ upper lower, caseForms? c.toNat = some (upper, lower) ∧
    (d.toNat = upper ∨ d.toNat = lower)

/-! ## Escapes -/

theorem letterSource_of_caseForms?_eq_none (h : caseForms? c.toNat = none) :
    letterSource c = [c] := by
  rw [letterSource, h]

/-- What is escaped is neither a letter nor a digit, and has no case forms. -/
theorem of_isEscaped (h : isEscaped c) : c.isAlphanum = false ∧ caseForms? c.toNat = none := by
  have hall : ['\t', '\n', '\x0b', '\x0c', '\r', ' ', '#', '$', '&', '(', ')', '*', '+', '-', '.',
      '?', '[', '\\', ']', '^', '\x7b', '|', '\x7d', '~'].all fun c =>
        !c.isAlphanum && (caseForms? c.toNat).isNone := by decide
  have hc := List.all_eq_true.mp hall c (List.contains_iff_mem.mp h)
  rwa [Bool.and_eq_true, Bool.not_eq_true', Option.isNone_iff_eq_none] at hc

/-- Escaping first and then putting sets for letters comes to the same. -/
theorem literalSource_eq (text : List Char) :
    literalSource text = (escape text).flatMap letterSource := by
  have hchar (c : Char) :
      charSource c = (if isEscaped c then ['\\', c] else [c]).flatMap letterSource := by
    rw [charSource]
    split
    · rename_i hescaped
      -- the second step meets the backslash first, and then the character behind it
      have hbackslash : letterSource '\\' = ['\\'] := by decide
      rw [List.flatMap_cons, List.flatMap_singleton, hbackslash,
        letterSource_of_caseForms?_eq_none (of_isEscaped hescaped).2]
      rfl
    · exact (List.flatMap_singleton letterSource c).symm
  rw [literalSource, escape, List.flatMap_assoc]
  exact congrArg (List.flatMap · text) (funext hchar)

/-! ## Characters -/

theorem caseVariant_iff (h : caseForms? c.toNat = none) : CaseVariant c d ↔ d = c := by
  refine ⟨fun hd => hd.resolve_right ?_, Or.inl⟩
  rintro ⟨_, _, hforms, -⟩
  rw [h] at hforms
  cases hforms

/-- What is neither escaped nor a letter means nothing else. -/
theorem not_mem_of_not_isEscaped (h : ¬ isEscaped c) :
    c ∉ ['\\', '[', '(', ')', '|', '.', '^', '$', '*', '+', '?', '{', '-', ']'] := by
  intro hmem
  have hall :
    ['\\', '[', '(', ')', '|', '.', '^', '$', '*', '+', '?', '{', '-', ']'].all isEscaped := by
    decide
  exact h (List.all_eq_true.mp hall c hmem)

/-- The variants of a letter, as they are written in its set. -/
theorem caseVariant_iff_mem {upper lower : Nat} (h : caseForms? c.toNat = some (upper, lower)) :
    CaseVariant c d ↔ d ∈ [Char.ofNat upper, Char.ofNat lower, c] := by
  obtain ⟨hupper, hlower⟩ := isForm_of_caseForms? c.valid h
  simp only [CaseVariant, h, Option.some.injEq, Prod.mk.injEq, List.mem_cons, List.not_mem_nil,
    or_false]
  rw [← Char.toNat_inj (d := Char.ofNat upper), ← Char.toNat_inj (d := Char.ofNat lower),
    hupper.toNat_ofNat, hlower.toNat_ofNat]
  constructor
  · rintro (hsame | ⟨_, _, ⟨rfl, rfl⟩, hform⟩)
    · exact .inr (.inr hsame)
    · exact hform.imp_right .inl
  · rintro (hform | hform | hsame)
    · exact .inr ⟨_, _, ⟨rfl, rfl⟩, .inl hform⟩
    · exact .inr ⟨_, _, ⟨rfl, rfl⟩, .inr hform⟩
    · exact .inl hsame

/-- A set of case forms reads as what is written in it. -/
theorem pushes_forms [Interpreter] {upper lower : Nat}
    (h : caseForms? c.toNat = some (upper, lower))
    (hescaped : ¬ isEscaped c) : Pushes (letterSource c) (oneOf (CaseVariant c)) := by
  obtain ⟨hupper, hlower⟩ := isForm_of_caseForms? c.valid h
  have hfirst : Char.ofNat upper ∉ ['^', ']', '\\'] := by
    have := hupper.not_mem
    simp only [List.mem_cons, List.not_mem_nil, or_false, not_or] at this ⊢
    exact ⟨this.1, this.2.2.1, this.2.2.2⟩
  have hother : ∀ d ∈ [Char.ofNat lower, c], d ∉ ['-', ']', '\\'] := by
    have := hlower.not_mem
    have := not_mem_of_not_isEscaped hescaped
    simp_all
  rw [List.forall_mem_cons] at hother
  rw [letterSource, h]
  dsimp only
  -- the character itself is in the set only if it is neither of its forms
  split
  · rename_i hmem
    refine (Pushes.characters hfirst (List.forall_mem_singleton.mpr hother.1)).congr fun d => ?_
    rw [caseVariant_iff_mem h]
    have hc := List.contains_iff_mem.mp hmem
    constructor
    · exact fun hd => List.mem_append_left [c] hd
    · intro hd
      rcases List.mem_append.mp (show d ∈ [Char.ofNat upper, Char.ofNat lower] ++ [c] from hd) with
        hd | hd
      · exact hd
      · exact List.mem_singleton.mp hd ▸ hc
  · exact (Pushes.characters hfirst (List.forall_mem_cons.mpr hother)).congr fun d =>
      (caseVariant_iff_mem h).symm

/-- A character reads as its variants. -/
theorem pushes_variants [Interpreter] (c : Char) :
    Pushes (charSource c) (oneOf (CaseVariant c)) := by
  rw [charSource]
  split
  · rename_i hescaped
    obtain ⟨hplain, hforms⟩ := of_isEscaped hescaped
    exact (Pushes.escaped hplain).congr fun d => (caseVariant_iff hforms).symm
  · rename_i hescaped
    cases hforms : caseForms? c.toNat with
    | some forms => exact pushes_forms hforms hescaped
    | none =>
      rw [letterSource_of_caseForms?_eq_none hforms]
      refine (Pushes.literal fun hmem => not_mem_of_not_isEscaped hescaped ?_).congr fun d =>
        (caseVariant_iff hforms).symm
      exact List.mem_append_left ['-', ']'] hmem

/-! ## Strings -/

/-- The texts that have a variant of the character at every place of a string. -/
def variants (text : List Char) : Language Char := {other | List.Forall₂ CaseVariant text other}

theorem reads_variants [Interpreter] (text : List Char) :
    Reads (literalSource text) (variants text) := by
  induction text with
  | nil =>
    have hnil : variants [] = 1 := Set.ext fun other => List.forall₂_nil_left_iff
    rw [hnil]
    exact .nil
  | cons c text ih =>
    -- the forms of a text are made letter by letter, as its source is
    have hcons : variants (c :: text) = oneOf (CaseVariant c) * variants text := by
      ext other
      rw [Language.mem_mul]
      constructor
      · intro h
        obtain ⟨d, more, hd, hmore, rfl⟩ := List.forall₂_cons_left_iff.mp h
        exact ⟨[d], ⟨d, rfl, hd⟩, more, hmore, rfl⟩
      · rintro ⟨_, ⟨d, rfl, hd⟩, more, hmore, rfl⟩
        exact .cons hd hmore
    rw [hcons]
    exact (pushes_variants c).reads.append ih

/--
A string, escaped and with sets for its letters, is a regular expression that matches exactly the
texts of its length with a variant of its character at every place.
-/
theorem literalSource_matches [Interpreter] (text : List Char) :
    literalSource text = (escape text).flatMap letterSource ∧
      ∃ pattern, Pattern.compile (literalSource text) = .ok pattern ∧
        ∀ other, (pattern.fullMatch? other).isSome ↔ other.length = text.length ∧
          ∀ i (h : i < text.length) (h' : i < other.length), other[i] = text[i] ∨
            ∃ upper lower, caseForms? text[i].toNat = some (upper, lower) ∧
              (other[i].toNat = upper ∨ other[i].toNat = lower) := by
  obtain ⟨pattern, hcompile, hmatch⟩ := (reads_variants text).compile
  refine ⟨literalSource_eq text, pattern, hcompile, fun other => (hmatch other).trans ?_⟩
  refine List.forall₂_iff_get.trans ?_
  rw [eq_comm]
  rfl

end Abnf.Grammar
