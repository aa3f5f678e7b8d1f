import Abnf.Proofs.Json.Reading
import Abnf.Proofs.Text.Numeral
import Abnf.Proofs.Text.Utf16

/-!
# What a string spells

A string spells a row of sixteen-bit numbers: an escape spells one of them, and a character that
stands for itself spells the one or two that it always has. The value of the string is the one text
that is spelled by these numbers and in which no halves are left to be joined (`parse_string`). So
it does not matter which of the numbers came from escapes, and a half that finds no partner is kept
where it stands.
-/

namespace Abnf.Json

open Text

variable {p : Piece} {pieces : List Piece} {text : List Char}

/-- The sixteen-bit numbers that a character of a string spells. -/
def Piece.spelled : Piece → List Nat
  | unescaped c => units c.toNat
  | short letter => [(shortEscapes.lookup letter).getD 0]
  | number ds => [numeralValue 16 ds]

/-- The sixteen-bit numbers that a string spells. -/
def spelled (pieces : List Piece) : List Nat := pieces.flatMap Piece.spelled

namespace Piece

/-- An escape spells a number of sixteen bits, whatever it stands for. -/
theorem Legal.code_lt (h : p.Legal) (hescape : ∀ c, p ≠ unescaped c) : p.code < 0x10000 := by
  cases p with
  | unescaped c => exact absurd rfl (hescape c)
  | short letter =>
    have hsmall : ∀ escape ∈ shortEscapes, escape.2 < 0x10000 := by decide
    obtain ⟨found, hfound⟩ := Option.isSome_iff_exists.mp h
    obtain ⟨before, after, hsplit, -⟩ := List.lookup_eq_some_iff.mp hfound
    have hmem : (letter, found) ∈ shortEscapes := by
      rw [hsplit]
      exact List.mem_append_right before (List.mem_cons_self ..)
    rw [code, hfound]
    exact hsmall _ hmem
  | number ds =>
    obtain ⟨hlength, hhex⟩ := h
    have hvalue := numeralValue_lt_pow fun c hc => digitValue_lt_of_isHexDigit (hhex c hc)
    rwa [hlength] at hvalue

theorem Legal.units_code (h : p.Legal) : units p.code = p.spelled := by
  cases p with
  | unescaped c => rfl
  | short letter | number ds => exact if_pos (h.code_lt (by rintro _ ⟨⟩))

theorem Legal.code_le (h : p.Legal) : p.code ≤ 0x10FFFF := by
  cases p with
  | unescaped c =>
    simp only [Legal, code] at h ⊢
    omega
  | short letter | number ds =>
    have hlt := h.code_lt (by rintro _ ⟨⟩)
    omega

end Piece

theorem flatMap_units_code (h : ∀ p ∈ pieces, p.Legal) :
    (pieces.map Piece.code).flatMap units = spelled pieces := by
  rw [List.flatMap_map]
  exact List.flatMap_congr fun p hp => (h p hp).units_code

/-- A text that is a string, but for the white space around it, is made of legal characters. -/
theorem JsonText.forall_legal (h : JsonText (.string pieces) text) : ∀ p ∈ pieces, p.Legal := by
  obtain ⟨-, hderives, -⟩ := h
  cases hderives with
  | string hstring =>
    obtain ⟨hlegal⟩ := hstring
    exact hlegal

/--
A string is read as the only text of code points in which no high half is followed by a low half and
that is spelled by the numbers of the string. A U+FEFF in front is part of it, and wherever a number
stands alone, as a half without its partner does, it is a code point there.
-/
theorem parse_string [Interpreter] (h : JsonText (.string pieces) text) :
    ∃ codes, parse text = .ok (.string codes) ∧
      (∀ other, ((∀ code ∈ other, code ≤ 0x10FFFF) ∧ Unpaired other ∧
        other.flatMap units = spelled pieces) ↔ other = codes) ∧
      (∀ after, spelled pieces = 0xFEFF :: after →
        ∃ rest, codes = 0xFEFF :: rest ∧ rest.flatMap units = after) ∧
      ∀ before unit after, spelled pieces = before ++ unit :: after → Alone before unit after →
        ∃ u v, codes = u ++ unit :: v ∧ u.flatMap units = before ∧ v.flatMap units = after := by
  have hlegal := h.forall_legal
  have hle : ∀ code ∈ pieces.map Piece.code, code ≤ 0x10FFFF :=
    List.forall_mem_map.mpr fun p hp => (hlegal p hp).code_le
  have hjoined : ∀ code ∈ textOf pieces, code ≤ 0x10FFFF := forall_mem_joinPairs hle
  have hunits : (textOf pieces).flatMap units = spelled pieces :=
    (flatMap_units_joinPairs _).trans (flatMap_units_code hlegal)
  have hkept (before : List Nat) {after : List Nat} {unit : Nat}
      (hspelled : spelled pieces = before ++ unit :: after)
      (halone : Alone before unit after) := exists_of_alone hjoined (hunits.trans hspelled) halone
  refine ⟨textOf pieces, ?_, fun other => ⟨?_, ?_⟩, fun after hafter => ?_,
    fun before unit after => hkept before⟩
  · exact (parse_decides text).1 _ h ⟨show 1 ≤ depthLimit from Interpreter.room_for_value, trivial⟩
  · rintro ⟨hother, hunpaired, hspelled⟩
    exact eq_joinPairs hother hle hunpaired (hspelled.trans (flatMap_units_code hlegal).symm)
  · rintro rfl
    exact ⟨hjoined, unpaired_joinPairs _, hunits⟩
  · obtain ⟨u, v, hcodes, hu, hv⟩ := hkept [] hafter (.of_not_half (by decide) (by decide))
    -- every code point spells something, so none stands in front
    obtain rfl : u = [] :=
      List.eq_nil_iff_forall_not_mem.mpr fun code hcode =>
        units_ne_nil code (List.flatMap_eq_nil_iff.mp hu code hcode)
    exact ⟨v, hcodes, hv⟩

/-- A U+FEFF, a high half, a pair in two escapes, the same character as it is, and a low half. -/
theorem parse_string_halves : ∃ text,
    text = ['"', '\ufeff', '\\', 'u', 'D', '8', '3', 'd', '\\', 'u', 'd', '8', '3', 'D',
      '\\', 'u', 'D', 'E', '0', '0', '😀', '\\', 'u', 'd', 'e', '0', '0', '"'] ∧
    (∃ pieces, JsonText (.string pieces) text) ∧
    parse text = .ok (.string [0xFEFF, 0xD83D, 0x1F600, 0x1F600, 0xDE00]) := by
  let pieces : List Piece := [.unescaped '\ufeff', .number ['D', '8', '3', 'd'],
    .number ['d', '8', '3', 'D'], .number ['D', 'E', '0', '0'], .unescaped '😀',
    .number ['d', 'e', '0', '0']]
  have hlegal : ∀ p ∈ pieces, p.Legal := by
    simp [pieces, Piece.Legal, Text.isHexDigit]
  have hblank : Space [] := fun c hc => absurd hc List.not_mem_nil
  have h : JsonText (.string pieces) ([] ++ (_ ++ [])) := .mk hblank (.string (.mk hlegal)) hblank
  obtain ⟨codes, hparse, honly, -⟩ := parse_string h
  have hcodes : [0xFEFF, 0xD83D, 0x1F600, 0x1F600, 0xDE00] = codes :=
    (honly _).mp ⟨by decide, ⟨by decide, by decide, by decide, by decide, trivial⟩, by decide⟩
  exact ⟨_, rfl, ⟨pieces, h⟩, hcodes ▸ hparse⟩

end Abnf.Json
