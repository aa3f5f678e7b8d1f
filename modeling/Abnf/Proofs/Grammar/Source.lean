import Abnf.Proofs.Grammar.Meaning
import Abnf.Proofs.Regex.Pieces
import Abnf.Proofs.Text.Numeral

/-!
# Expressions as regular expressions

An expression is written as a regular expression piece by piece, and each piece has to mean the same
beside every other. That is what `Reads` asks of a text, so the source of an expression is followed
through its construction: characters and code points, core rules, repeats, and what is put together
from them. `Expr.Proper.reads` is the result.

Not every expression has such a source. Alternatives that stand bare in a sequence would reach over
what is beside them, and a range the wrong way around is no range. `Expr.Proper` excludes these, and
the end of this module shows that no phrase and no rule ever stands for one of them.
-/

namespace Abnf.Grammar

open Regex Token
open scoped Computability

variable {scope scope' : Scope} {p : Phrase} {expr : Expr} {depth n code : Nat} {c d : Char}
  {L : Language Char}

/-! ## Characters of strings -/

theorem toNat_ofNat_of_ascii (h : n < 128) : (Char.ofNat n).toNat = n := by
  have : ∀ n < 128, (Char.ofNat n).toNat = n := by decide
  exact this n h

theorem toNat_asciiLower (c : Char) : (Text.asciiLower c).toNat =
    if 65 ≤ c.toNat ∧ c.toNat ≤ 90 then c.toNat + 32 else c.toNat := by
  have hcapital : 'A' ≤ c ∧ c ≤ 'Z' ↔ 65 ≤ c.toNat ∧ c.toNat ≤ 90 := Iff.rfl
  unfold Text.asciiLower
  simp only [hcapital]
  split
  · rename_i h
    exact toNat_ofNat_of_ascii (by omega)
  · rfl

/-- A text in any case is its first character in any case, and then the others. -/
theorem inAnyCase_cons (c : Char) (text : List Char) : inAnyCase (c :: text) =
    (oneOf fun d => Text.asciiLower d = Text.asciiLower c) * inAnyCase text := by
  ext u
  rw [Language.mem_mul]
  constructor
  · intro hu
    obtain ⟨d, v, rfl, hd, hv⟩ := List.map_eq_cons_iff.mp hu
    exact ⟨[d], ⟨d, rfl, hd⟩, v, hv, rfl⟩
  · rintro ⟨_, ⟨d, rfl, hd⟩, v, hv, rfl⟩
    exact congrArg₂ List.cons hd hv

theorem inAnyCase_nil : inAnyCase [] = 1 := by
  ext u
  exact List.map_eq_nil_iff

/-- A character that a string or prose may hold. -/
def IsPrintable (c : Char) : Prop := ' ' ≤ c ∧ c ≤ '~'

instance (c : Char) : Decidable (IsPrintable c) := inferInstanceAs (Decidable (_ ∧ _))

theorem isPrintable_of_isQuotedChar (h : isQuotedChar c) : IsPrintable c := by
  simp only [isQuotedChar, Bool.and_eq_true, decide_eq_true_eq] at h
  exact h.1

theorem isPrintable_of_isProseChar (h : isProseChar c) : IsPrintable c := by
  simp only [isProseChar, Bool.and_eq_true, decide_eq_true_eq] at h
  exact h.1

/-- How a character of a string is written: as a set if it is a letter, else escaped or as it is. -/
theorem charSource_cases (h : IsPrintable c) :
    (isLetter c ∧ charSource c =
      ['[', Char.ofNat ((Text.asciiLower c).toNat - 32), Text.asciiLower c, ']']) ∨
    (¬ isLetter c ∧ charSource c = ['\\', c] ∧ c.isAlphanum = false) ∨
    (¬ isLetter c ∧ charSource c = [c] ∧
      c ∉ ['\\', '[', '(', ')', '|', '.', '^', '$', '*', '+', '?', '{']) := by
  have hall : ∀ code < 127, 32 ≤ code → ∀ c, c = Char.ofNat code →
      (isLetter c ∧ charSource c =
        ['[', Char.ofNat ((Text.asciiLower c).toNat - 32), Text.asciiLower c, ']']) ∨
      (¬ isLetter c ∧ charSource c = ['\\', c] ∧ c.isAlphanum = false) ∨
      (¬ isLetter c ∧ charSource c = [c] ∧
        c ∉ ['\\', '[', '(', ')', '|', '.', '^', '$', '*', '+', '?', '{']) := by
    simp only [forall_eq]
    decide
  have hbounds : 32 ≤ c.toNat ∧ c.toNat ≤ 126 := h
  exact hall c.toNat (by omega) hbounds.1 c (Char.ofNat_toNat c).symm

theorem isLetter_iff (c : Char) :
    isLetter c ↔ (65 ≤ c.toNat ∧ c.toNat ≤ 90) ∨ (97 ≤ c.toNat ∧ c.toNat ≤ 122) := by
  have hcapital : 'A' ≤ c ∧ c ≤ 'Z' ↔ 65 ≤ c.toNat ∧ c.toNat ≤ 90 := Iff.rfl
  have hsmall : 'a' ≤ c ∧ c ≤ 'z' ↔ 97 ≤ c.toNat ∧ c.toNat ≤ 122 := Iff.rfl
  simp only [isLetter, Bool.or_eq_true, Bool.and_eq_true, decide_eq_true_eq, hcapital, hsmall]

/-- What is no letter has no other case. -/
theorem asciiLower_eq_iff_of_not_isLetter (hletter : ¬ isLetter c) (d : Char) :
    Text.asciiLower d = Text.asciiLower c ↔ d = c := by
  rw [isLetter_iff] at hletter
  rw [← Char.toNat_inj, toNat_asciiLower, toNat_asciiLower, ← Char.toNat_inj]
  split <;> split <;> omega

/-- The two cases of a letter, and that neither means anything else in a set. -/
theorem letter_forms (hletter : isLetter c) :
    (Char.ofNat ((Text.asciiLower c).toNat - 32)).toNat = (Text.asciiLower c).toNat - 32 ∧
      Char.ofNat ((Text.asciiLower c).toNat - 32) ∉ ['^', ']', '\\'] ∧
      Text.asciiLower c ∉ ['-', ']', '\\'] := by
  rw [isLetter_iff] at hletter
  -- the small letters are the codes 97 to 122, the capital ones are 32 below
  have hsmall : 97 ≤ (Text.asciiLower c).toNat ∧ (Text.asciiLower c).toNat ≤ 122 := by
    rw [toNat_asciiLower]
    split <;> omega
  have hcapital := toNat_ofNat_of_ascii (n := (Text.asciiLower c).toNat - 32) (by omega)
  have hne {code : Nat} {d e : Char} (hd : d.toNat = code) (he : code ≠ e.toNat) : d ≠ e := by
    rintro rfl
    exact he hd.symm
  refine ⟨hcapital, ?_, ?_⟩
  · simp only [List.mem_cons, List.not_mem_nil, or_false, not_or]
    refine ⟨hne hcapital ?_, hne hcapital ?_, hne hcapital ?_⟩ <;> simp <;> omega
  · simp only [List.mem_cons, List.not_mem_nil, or_false, not_or]
    refine ⟨hne rfl ?_, hne rfl ?_, hne rfl ?_⟩ <;> simp <;> omega

/-! ## Code points and what they denote -/

/-- A code point is written as an escape by number. -/
theorem exists_codeSource (h : code ≤ highestCode) :
    ∃ text, codeSource code = '\\' :: text ∧ NamesCode text code := by
  have hnames {letter : Char} {width : Nat} (hletter : hexWidth? letter = some width)
      (hwidth : 0 < width) (hfits : code < 16 ^ width) :
      NamesCode (letter :: Text.hexadecimal width code) code := by
    have hlength := Text.length_hexadecimal hwidth hfits
    refine ⟨⟨letter, _, rfl, by rw [hlength, hletter], ?_,
      Text.isHexDigit_of_mem_hexadecimal width code, Text.numeralValue_hexadecimal width code⟩, h⟩
    exact List.ne_nil_of_length_pos (by omega)
  unfold highestCode at h
  unfold codeSource
  split
  · exact ⟨_, rfl, hnames rfl (by decide) (by omega)⟩
  · split
    · exact ⟨_, rfl, hnames rfl (by decide) (by omega)⟩
    · exact ⟨_, rfl, hnames rfl (by decide) (by omega)⟩

theorem ofCodes_nil : ofCodes [] = 1 := by
  ext u
  exact List.map_eq_nil_iff

theorem ofCodes_cons (code : Nat) (codes : List Nat) :
    ofCodes (code :: codes) = (oneOf fun c => c.toNat = code) * ofCodes codes := by
  ext u
  rw [Language.mem_mul]
  constructor
  · intro hu
    obtain ⟨c, v, rfl, hc, hv⟩ := List.map_eq_cons_iff.mp hu
    exact ⟨[c], ⟨c, rfl, hc⟩, v, hv, rfl⟩
  · rintro ⟨_, ⟨c, rfl, hc⟩, v, hv, rfl⟩
    exact congrArg₂ List.cons hc hv

theorem holds_range (first last : Nat) (c : Char) :
    (Member.range first last).holds .exact c ↔ first ≤ c.toNat ∧ c.toNat ≤ last := by
  simp [Member.holds, CaseRule.variants]

theorem holds_one (code : Nat) (c : Char) :
    (Member.one code).holds .exact c ↔ code ≤ c.toNat ∧ c.toNat ≤ code := by
  simp only [Member.holds, CaseRule.alike, CaseRule.variants, List.contains_nil, Bool.or_false,
    decide_eq_true_eq]
  omega

theorem within_single (code : Nat) : within [(code, code)] = oneOf fun c => c.toNat = code := by
  have (c : Char) : Text.Ranges.has [(code, code)] c.toNat ↔ c.toNat = code := by
    simp only [Text.Ranges.has_iff, List.mem_singleton, exists_eq_left]
    omega
  simp only [within, this]

theorem copies_zero_none (L : Language Char) : copies L 0 none = L∗ := by
  ext u
  rw [mem_copies, Language.kstar_eq_iSup_pow, Language.mem_iSup]
  simp

/-! ## Expressions that mean what they say -/

/-- Counts that can be carried out, in order. -/
def Repeat.Proper (times : Repeat) : Prop :=
  times.least < repeatLimit ∧ ∀ m ∈ times.most, m < repeatLimit ∧ times.least ≤ m

instance (times : Repeat) : Decidable times.Proper := inferInstanceAs (Decidable (_ ∧ _))

/--
An expression whose source means what it says. Alternatives may stand bare only where the text ends
on both sides; everywhere else they need parentheses. Of the texts from outside, some may be known.
-/
def Expr.Proper (known : List Char → Prop) : (bare : Bool) → Expr → Prop
  | _, literal text => ∀ c ∈ text, IsPrintable c
  | _, codes cs => ∀ code ∈ cs, code ≤ highestCode
  | _, range first last => first ≤ last ∧ last ≤ highestCode
  | _, core _ => True
  | _, foreign source => known source
  | _, seq a b => a.Proper known false ∧ b.Proper known false
  | bare, alt a b => bare = true ∧ a.Proper known false ∧ b.Proper known true
  | _, grouped body | _, optional body => body.Proper known true
  | _, repeated times body => times.Proper ∧ body.Proper known true

/-- Whether an expression with nothing from outside is proper can be decided. -/
instance Expr.decidableProper : (bare : Bool) → (expr : Expr) →
    Decidable (expr.Proper (fun _ => False) bare)
  | _, literal text => List.decidableBAll IsPrintable text
  | _, codes cs => inferInstanceAs (Decidable (∀ code ∈ cs, code ≤ highestCode))
  | _, range first last => inferInstanceAs (Decidable (first ≤ last ∧ last ≤ highestCode))
  | _, core _ => inferInstanceAs (Decidable True)
  | _, foreign _ => inferInstanceAs (Decidable False)
  | _, seq a b =>
    haveI := decidableProper false a
    haveI := decidableProper false b
    inferInstanceAs (Decidable (_ ∧ _))
  | bare, alt a b =>
    haveI := decidableProper false a
    haveI := decidableProper true b
    inferInstanceAs (Decidable (bare = true ∧ _ ∧ _))
  | _, grouped body | _, optional body => decidableProper true body
  | _, repeated times body =>
    haveI := decidableProper true body
    inferInstanceAs (Decidable (times.Proper ∧ _))

/-- What may stand anywhere may stand bare. -/
theorem Expr.Proper.bare {known : List Char → Prop} (h : expr.Proper known false) :
    expr.Proper known true := by
  cases expr with
  | alt a b => exact absurd h.1 Bool.false_ne_true
  | _ => exact h

/-! ## Strings -/

variable [Interpreter]

/-- A character of a string reads as itself in either case. -/
theorem pushes_charSource (h : IsPrintable c) :
    Pushes (charSource c) (oneOf fun d => Text.asciiLower d = Text.asciiLower c) := by
  rcases charSource_cases h with ⟨hletter, hsource⟩ | ⟨hletter, hsource, hplain⟩ |
    ⟨hletter, hsource, hplain⟩
  · obtain ⟨hcapital, hupper, hlower⟩ := letter_forms hletter
    rw [hsource]
    refine (Pushes.pair hupper hlower).congr fun d => ?_
    rw [isLetter_iff] at hletter
    rw [← Char.toNat_inj, ← Char.toNat_inj, ← Char.toNat_inj, hcapital, toNat_asciiLower d,
      toNat_asciiLower c]
    split <;> split <;> omega
  · simp only [hsource, asciiLower_eq_iff_of_not_isLetter hletter]
    exact .escaped hplain
  · simp only [hsource, asciiLower_eq_iff_of_not_isLetter hletter]
    exact .literal hplain

/-- A string reads as itself in any case. -/
theorem reads_literalSource {text : List Char} (h : ∀ c ∈ text, IsPrintable c) :
    Reads (literalSource text) (inAnyCase text) := by
  induction text with
  | nil =>
    rw [inAnyCase_nil]
    exact .nil
  | cons c text ih =>
    rw [List.forall_mem_cons] at h
    rw [inAnyCase_cons]
    exact (pushes_charSource h.1).reads.append (ih h.2)

/-! ## Code points and ranges -/

/-- Code points in a row read as the characters they are. -/
theorem reads_codes {codes : List Nat} (h : ∀ code ∈ codes, code ≤ highestCode) :
    Reads (codes.flatMap codeSource) (ofCodes codes) := by
  induction codes with
  | nil =>
    rw [ofCodes_nil]
    exact .nil
  | cons code codes ih =>
    rw [List.forall_mem_cons] at h
    obtain ⟨text, htext, hnames⟩ := exists_codeSource h.1
    rw [ofCodes_cons, List.flatMap_cons, htext]
    exact (Pushes.numbered hnames).reads.append (ih h.2)

/-- A range of code points is written as a set with one member. -/
theorem exists_brackets_range {first last : Nat} (hle : first ≤ last) (hlast : last ≤ highestCode) :
    ∃ cs, (Expr.range first last).source = '[' :: cs ∧ Brackets cs [.range first last] := by
  obtain ⟨u, hu, hfirst⟩ := exists_codeSource (hle.trans hlast)
  obtain ⟨v, hv, hlast⟩ := exists_codeSource hlast
  refine ⟨_, ?_, .range hfirst hlast hle⟩
  rw [Expr.source, hu, hv]
  simp

/-- A range of code points reads as one of them. -/
theorem pushes_range {first last : Nat} (hle : first ≤ last) (hlast : last ≤ highestCode) :
    Pushes (Expr.range first last).source
      (oneOf fun c => first ≤ c.toNat ∧ c.toNat ≤ last) := by
  obtain ⟨cs, hcs, hbrackets⟩ := exists_brackets_range hle hlast
  rw [hcs]
  refine (Pushes.set _ hbrackets).congr fun c => ?_
  simp [Member.holds, CaseRule.variants]

/-! ## Core rules -/

/-- The members of the set that a core rule is written as, if it is written as one. -/
def CoreRule.members? : CoreRule → Option (List Member)
  | alpha => some [.range 0x41 0x5A, .range 0x61 0x7A]
  | bit => some [.one 0x30, .one 0x31]
  | char => some [.range 0x01 0x7F]
  | ctl => some [.range 0x00 0x1F, .one 0x7F]
  | digit => some [.range 0x30 0x39]
  | hexdig => some [.range 0x30 0x39, .range 0x41 0x46, .range 0x61 0x66]
  | octet => some [.range 0x00 0xFF]
  | vchar => some [.range 0x21 0x7E]
  | wsp => some [.one 0x20, .one 0x09]
  | cr | crlf | dquote | htab | lf | lwsp | sp => none

theorem brackets_blank : Brackets [' ', '\\', 't', ']'] [.one 0x20, .one 0x09] := fun _ => rfl

/-- A control character, as core rules write it: a range and one more. -/
theorem brackets_ctl : Brackets
    ('\\' :: 'x' :: '0' :: '0' :: '-' :: '\\' :: 'x' :: '1' :: 'f' :: ['\\', 'x', '7', 'f', ']'])
    [.range 0x00 0x1F, .one 0x7F] := by
  intro s
  have hnames (digits : List Char) (h : digits.length = 2) (hhex : digits.all Text.isHexDigit)
      (hcode : Text.numeralValue 16 digits ≤ 0x10FFFF) :
      NamesCode ('x' :: digits) (Text.numeralValue 16 digits) :=
    ⟨⟨'x', digits, rfl, by rw [h]; rfl, List.ne_nil_of_length_pos (by omega),
      List.all_eq_true.mp hhex, rfl⟩, hcode⟩
  have hfirst := hnames ['0', '0'] rfl (by decide) (by decide)
  have hlast := hnames ['1', 'f'] rfl (by decide) (by decide)
  have hmore := hnames ['7', 'f'] rfl (by decide) (by decide)
  have hrange : (s.enter .setOpen).readAll
        ('\\' :: 'x' :: '0' :: '0' :: '-' :: '\\' :: 'x' :: '1' :: 'f' ::
          ['\\', 'x', '7', 'f', ']']) =
      (s.enter (.setMember { members := [.range 0x00 0x1F] })).readAll ['\\', 'x', '7', 'f', ']'] :=
    State.readAll_range hfirst hlast (by decide) s
  have hone : (s.enter (.escape (.member { members := [.range 0x00 0x1F] }))).readAll
      ['x', '7', 'f'] = .ok (s.enter (.setAfter { members := [.range 0x00 0x1F] } (.one 0x7F))) :=
    hmore.readAll s _
  rw [hrange, State.readAll_cons
    (t := s.enter (.escape (.member { members := [.range 0x00 0x1F] }))) rfl]
  exact State.readAll_of_append (v := [']']) hone

/-- A hexadecimal digit, as core rules write it: three ranges. -/
theorem brackets_hexdig : Brackets ['0', '-', '9', 'A', '-', 'F', 'a', '-', 'f', ']']
    [.range 0x30 0x39, .range 0x41 0x46, .range 0x61 0x66] := by
  intro s
  have hdigits : (s.enter .setOpen).readAll ['0', '-', '9'] =
      .ok (s.enter (.setMember { members := [.range 0x30 0x39] })) := rfl
  have hcapitals : (s.enter (.setMember { members := [.range 0x30 0x39] })).readAll
      ['A', '-', 'F'] =
      .ok (s.enter (.setMember { members := [.range 0x41 0x46, .range 0x30 0x39] })) := rfl
  have hsmall : (s.enter (.setMember { members := [.range 0x41 0x46, .range 0x30 0x39] })).readAll
      ['a', '-', 'f', ']'] = .ok (s.push (.single (.set s.level.flags.caseRule
        { members := [.range 0x30 0x39, .range 0x41 0x46, .range 0x61 0x66] }))) := rfl
  calc (s.enter .setOpen).readAll ['0', '-', '9', 'A', '-', 'F', 'a', '-', 'f', ']']
    _ = _ := State.readAll_of_append hdigits (v := ['A', '-', 'F', 'a', '-', 'f', ']'])
    _ = _ := State.readAll_of_append hcapitals (v := ['a', '-', 'f', ']'])
    _ = _ := hsmall

/-- A core rule that is written as a set reads as one, whatever flags are in force. -/
theorem CoreRule.exists_brackets {rule : CoreRule} {members : List Member}
    (h : rule.members? = some members) :
    ∃ cs, rule.source = '[' :: cs ∧ Brackets cs members := by
  cases rule with
  | char =>
    cases h
    -- a range of escapes is written as the expression for it is
    exact @exists_brackets_range _ 0x01 0x7F (by decide) (by decide)
  | octet =>
    cases h
    exact @exists_brackets_range _ 0x00 0xFF (by decide) (by decide)
  | vchar =>
    cases h
    exact @exists_brackets_range _ 0x21 0x7E (by decide) (by decide)
  | ctl =>
    cases h
    exact ⟨_, rfl, brackets_ctl⟩
  | hexdig =>
    cases h
    exact ⟨_, rfl, brackets_hexdig⟩
  | wsp =>
    cases h
    exact ⟨_, rfl, brackets_blank⟩
  | alpha | bit | digit =>
    cases h
    exact ⟨_, rfl, fun _ => rfl⟩
  | cr | crlf | dquote | htab | lf | lwsp | sp => cases h

/-- A set reads as the characters of ranges, if its members are the same characters. -/
theorem pushes_within {cs : List Char} {members : List Member} {ranges : Text.Ranges}
    (h : Brackets cs members)
    (hsame : ∀ c, (∃ m ∈ members, m.holds .exact c) ↔ ranges.has c.toNat) :
    Pushes ('[' :: cs) (within ranges) :=
  (Pushes.set members h).congr hsame

theorem pushes_control (letter : Char) (h : controlEscape? letter = some code) :
    Pushes ['\\', letter] (within [(code, code)]) := by
  rw [within_single]
  exact .control h

/-- A space or tab, as core rules write it. -/
theorem pushes_blank : Pushes ['[', ' ', '\\', 't', ']'] (within [(0x20, 0x20), (0x09, 0x09)]) :=
  pushes_within brackets_blank (by simp [holds_one, Text.Ranges.has_iff])

/-- Every core rule reads as what it stands for. -/
theorem CoreRule.reads (rule : CoreRule) : Reads rule.source rule.language := by
  have hcrlf : Reads ['\\', 'r', '\\', 'n'] (within [(0x0D, 0x0D)] * within [(0x0A, 0x0A)]) :=
    (pushes_control 'r' rfl).reads.append (pushes_control 'n' rfl).reads
  -- most core rules are a set whose members say the ranges
  have hset {members : List Member} {ranges : Text.Ranges} (hmembers : rule.members? = some members)
      (hlanguage : rule.language = within ranges)
      (hsame : ∀ c, (∃ m ∈ members, m.holds .exact c) ↔ ranges.has c.toNat) :
      Reads rule.source rule.language := by
    obtain ⟨cs, hcs, hbrackets⟩ := exists_brackets hmembers
    rw [hcs, hlanguage]
    exact (pushes_within hbrackets hsame).reads
  cases rule with
  | cr => exact (pushes_control 'r' rfl).reads
  | lf => exact (pushes_control 'n' rfl).reads
  | htab => exact (pushes_control 't' rfl).reads
  | crlf => exact hcrlf
  | dquote | sp =>
    refine Pushes.reads ?_
    rw [language, within_single]
    exact (Pushes.literal (by decide)).congr fun c => Char.toNat_inj.symm
  | bit | wsp => exact hset rfl rfl (by simp [holds_one, Text.Ranges.has_iff])
  | ctl => exact hset rfl rfl (by simp [holds_range, holds_one, Text.Ranges.has_iff])
  | alpha | char | digit | hexdig | octet | vchar =>
    exact hset rfl rfl (by simp [holds_range, Text.Ranges.has_iff])
  | lwsp =>
    rw [language, ← copies_zero_none]
    exact (pushes_blank.reads.bar (hcrlf.append pushes_blank.reads).body).parenthesise.quantified
      nofun fun s => State.readAll_star

/-! ## Repeats -/

theorem Repeat.Proper.readAll_source {times : Repeat} (h : times.Proper) {s : State}
    (hmode : s.mode = .plain) :
    s.readAll times.source = s.quantify times.least times.most := by
  have hdigits (n : Nat) := Text.isAsciiDigit_of_mem_decimal n
  have hne (n : Nat) := Text.decimal_ne_nil n
  obtain ⟨hleast, hmost⟩ := h
  -- how a repeat is written depends on its bounds, which have shorter forms where they are equal or
  -- 1
  cases times with
  | any => exact State.readAll_star hmode
  | exactly n => exact State.readAll_exactly hmode (hne n) (hdigits n) (State.bound_decimal hleast)
  | atMost m =>
    have := @State.readAll_between _ _ [] _ 0 m hmode nofun (hdigits m) rfl fun _ =>
      ⟨State.bound_decimal (hmost m rfl).1, Nat.zero_le m⟩
    rwa [if_neg (hne m)] at this
  | atLeast n =>
    rw [source]
    split
    · rename_i hone
      subst hone
      exact State.readAll_plus hmode
    · have := @State.readAll_between _ _ _ [] n 0 hmode (hdigits n) nofun
        (State.bound_decimal hleast) fun h => absurd rfl h
      rw [if_pos rfl] at this
      rw [← show '{' :: (Text.decimal n ++ ',' :: ([] ++ ['}'])) =
        braces (Text.decimal n ++ [',']) by simp [braces]]
      exact this
  | between n m =>
    have hm := hmost m rfl
    rw [source]
    split
    · rename_i heq
      subst heq
      exact State.readAll_exactly hmode (hne n) (hdigits n) (State.bound_decimal hleast)
    · have := State.readAll_between hmode (hdigits n) (hdigits m) (State.bound_decimal hleast)
        fun _ => ⟨State.bound_decimal hm.1, hm.2⟩
      rw [if_neg (hne m)] at this
      rw [← show '{' :: (Text.decimal n ++ ',' :: (Text.decimal m ++ ['}'])) =
        braces (Text.decimal n ++ ',' :: Text.decimal m) by simp [braces]]
      exact this

/-! ## Expressions -/

/--
The source of a proper expression with nothing from outside reads as alternatives, or else as items,
of its language.
-/
theorem Expr.Proper.reads_source {bare : Bool} (h : expr.Proper (fun _ => False) bare) :
    ReadsBody expr.source expr.language ∧ (bare = false → Reads expr.source expr.language) := by
  -- whatever reads as an item reads as the inside of parentheses too
  have hitems {expr : Expr} {bare : Bool} (h : Reads expr.source expr.language) :
      ReadsBody expr.source expr.language ∧ (bare = false → Reads expr.source expr.language) :=
    ⟨h.body, fun _ => h⟩
  induction expr generalizing bare with
  | literal text => exact hitems (reads_literalSource h)
  | codes cs => exact hitems (reads_codes h)
  | range first last => exact hitems (pushes_range h.1 h.2).reads
  | core rule => exact hitems rule.reads
  | foreign source => exact h.elim
  | seq a b iha ihb => exact hitems (((iha h.1).2 rfl).append ((ihb h.2).2 rfl))
  | alt a b iha ihb =>
    obtain ⟨rfl, ha, hb⟩ := h
    exact ⟨((iha ha).2 rfl).bar (ihb hb).1, nofun⟩
  | grouped body ih => exact hitems (ih h).1.parenthesise.reads
  | optional body ih =>
    exact hitems ((ih h).1.parenthesise.quantified (by simp)
      fun s => State.readAll_question)
  | repeated times body ih =>
    exact hitems ((ih h.2).1.parenthesise.quantified (fun m hm => (h.1.2 m hm).2)
      fun s => h.1.readAll_source)

end Abnf.Grammar
