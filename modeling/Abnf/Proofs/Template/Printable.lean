import Abnf.Proofs.Template.Strings

/-!
# What fills the gaps

Whatever the value of a gap is, it is spliced in as printable characters of ASCII: all others are
given by number.
-/

namespace Abnf

open Grammar Token Text

namespace Template

variable {c : Char} {s inserted : List Char} {r next : Rendered} {value : Value}

/-- Whether a text is printable can be computed. -/
theorem printable_of_all (h : s.all (decide <| IsPrintable ·)) : ∀ c ∈ s, IsPrintable c := by
  simpa using h

theorem isPrintable_of_isAsciiDigit (h : isAsciiDigit c) : IsPrintable c := by
  simp only [isAsciiDigit, Bool.and_eq_true, decide_eq_true_eq] at h
  exact ⟨Char.le_trans (by decide) h.1, Char.le_trans h.2 (by decide)⟩

theorem isPrintable_of_isHexDigit (h : isHexDigit c) : IsPrintable c := by
  simp only [isHexDigit, Bool.or_eq_true, Bool.and_eq_true, decide_eq_true_eq] at h
  rcases h with (h | h) | h <;>
    exact ⟨Char.le_trans (by decide) h.1, Char.le_trans h.2 (by decide)⟩

theorem printable_decimal (n : Nat) : ∀ c ∈ decimal n, IsPrintable c := fun c hc =>
  isPrintable_of_isAsciiDigit (isAsciiDigit_of_mem_decimal n c hc)

theorem Piece.Sound.printable {piece : Piece} (h : piece.Sound) :
    ∀ c ∈ piece.toAbnf, IsPrintable c := by
  have hquote : ∀ c ∈ Piece.quoteRule, IsPrintable c := printable_of_all (by decide)
  cases piece with
  | quotes n =>
    rw [toAbnf]
    split
    · exact hquote
    · exact List.forall_mem_append.mpr ⟨printable_decimal n, hquote⟩
  | plain text =>
    have htext : ∀ c ∈ text, IsPrintable c := fun c hc => by
      have hc := h c hc
      simp only [isPlain, Bool.and_eq_true, decide_eq_true_eq] at hc
      exact hc.1
    refine List.forall_mem_cons.mpr ⟨by decide, List.forall_mem_append.mpr ⟨htext, ?_⟩⟩
    exact List.forall_mem_singleton.mpr (by decide)
  | code n =>
    refine List.forall_mem_cons.mpr ⟨by decide, List.forall_mem_cons.mpr ⟨by decide, ?_⟩⟩
    exact fun c hc => isPrintable_of_isHexDigit (isHexDigit_of_mem_map_toUpper n c hc)

theorem printable_intercalate {separator : List Char} {us : List (List Char)}
    (hseparator : ∀ c ∈ separator, IsPrintable c) (hus : ∀ u ∈ us, ∀ c ∈ u, IsPrintable c) :
    ∀ c ∈ separator.intercalate us, IsPrintable c := by
  cases us with
  | nil => exact nofun
  | cons u us =>
    rw [List.forall_mem_cons] at hus
    rw [Piece.intercalate_cons]
    refine List.forall_mem_append.mpr ⟨hus.1, fun c hc => ?_⟩
    obtain ⟨v, hv, hc⟩ := List.mem_flatMap.mp hc
    exact List.forall_mem_append.mpr ⟨hseparator, hus.2 v hv⟩ c hc

theorem printable_literalToAbnf (s : List Char) : ∀ c ∈ literalToAbnf s, IsPrintable c :=
  printable_intercalate (List.forall_mem_singleton.mpr (by decide))
    (List.forall_mem_map.mpr fun piece hpiece =>
      (Piece.sound_of_mem_ofText s piece hpiece).printable)

theorem printable_choicesToAbnf (texts : List (List Char)) :
    ∀ c ∈ Rendered.choicesToAbnf texts, IsPrintable c := by
  have hchoices (members : List (List Char)) :
      ∀ c ∈ [' ', '/', ' '].intercalate (members.map literalToAbnf), IsPrintable c :=
    printable_intercalate (printable_of_all (by decide))
      (List.forall_mem_map.mpr fun s _ => printable_literalToAbnf s)
  rw [Rendered.choicesToAbnf]
  split
  · exact nofun
  · refine List.forall_mem_cons.mpr ⟨by decide, List.forall_mem_append.mpr ⟨?_, ?_⟩⟩
    · exact List.forall_mem_cons.mpr ⟨by decide, hchoices _⟩
    · exact printable_of_all (by decide)

theorem printable_placeholderName (n : Nat) : ∀ c ∈ placeholderName n, IsPrintable c :=
  List.forall_mem_append.mpr ⟨printable_of_all (by decide), printable_decimal n⟩

/-- What a value is spliced in as is printable. -/
theorem printable_of_splice [Interpreter] (h : r.splice value = .ok (inserted, next)) :
    ∀ c ∈ inserted, IsPrintable c := by
  cases value with
  | text s =>
    cases h
    exact printable_literalToAbnf s
  | choices texts =>
    cases h
    exact printable_choicesToAbnf texts
  | pattern p =>
    rw [Rendered.splice, Rendered.nameOf] at h
    split at h
    · cases h
      exact printable_placeholderName _
    · obtain ⟨wrapped, -, h⟩ := Except.bind_eq_ok.mp h
      cases h
      exact printable_placeholderName _

end Template

end Abnf
