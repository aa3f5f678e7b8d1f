import Abnf.Proofs.Grammar.Correctness
import Abnf.Proofs.Grammar.Spaces
import Abnf.Proofs.Template.Filling

/-!
# A string in a gap

A string is put into a grammar as grammar text, which is read as rules, whose bodies are written as
regular expressions. At the end of this way the string still stands for itself, and letters for
either of their cases (`compile_oneGap_text`).

A string is cut into pieces, and every piece is written in a way of its own. What has to be shown of
a piece is the same for all of them: its text is a phrase of the notation, one that is legal and
within the limits, and it stands for the piece. `Spells` puts this together, and follows the pieces
as they are joined.
-/

namespace Abnf

open Grammar Token Regex Template

/-! ## Letters and their case -/

/-- The same character, or two letters of ASCII that differ in their case alone. -/
def SameLetter (c d : Char) : Prop :=
  c = d ∨ (isLetter c ∧ isLetter d ∧ (c.toNat + 32 = d.toNat ∨ d.toNat + 32 = c.toNat))

theorem sameLetter_iff {c d : Char} : SameLetter c d ↔ Text.asciiLower c = Text.asciiLower d := by
  rw [SameLetter, isLetter_iff, isLetter_iff, ← Char.toNat_inj, ← Char.toNat_inj, toNat_asciiLower,
    toNat_asciiLower]
  split <;> split <;> omega

namespace Grammar

theorem mem_inAnyCase_iff {s t : List Char} : t ∈ inAnyCase s ↔ List.Forall₂ SameLetter s t := by
  have hsame : SameLetter = fun c d => Text.asciiLower c = Text.asciiLower d :=
    funext₂ fun _ _ => propext sameLetter_iff
  rw [hsame, ← List.forall₂_map_right_iff, ← List.forall₂_map_left_iff, List.forall₂_eq_eq_eq]
  exact eq_comm

theorem inAnyCase_append (s t : List Char) : inAnyCase (s ++ t) = inAnyCase s * inAnyCase t := by
  induction s with
  | nil => rw [List.nil_append, inAnyCase_nil, one_mul]
  | cons c s ih => rw [List.cons_append, inAnyCase_cons, inAnyCase_cons, ih, mul_assoc]

/-- What is no letter stands for itself alone. -/
theorem inAnyCase_singleton {c : Char} (h : ¬ isLetter c) :
    inAnyCase [c] = oneOf fun d => d.toNat = c.toNat := by
  rw [inAnyCase_cons, inAnyCase_nil, mul_one]
  simp only [asciiLower_eq_iff_of_not_isLetter h, Char.toNat_inj]

/-! ## Phrases that spell a string -/

/-- A text is a phrase that may stand anywhere in a grammar and means a string in any case. -/
structure Spells (n : Nonterminal) (p : Phrase) (u s : List Char) : Prop where
  derives : Derives n p u
  nesting : p.nesting = 0
  fits : p.Fits
  legal : p.Legal fun name => (({} : Scope).find? name).isSome
  counts : p.CountsBelow repeatLimit
  language : p.language coreMeaning = inAnyCase s

variable {p q : Phrase} {u v s t : List Char}

/-- One phrase behind another spells one string behind the other. -/
theorem Spells.seq (h : Spells .concatenation p u s) (hq : Spells .repetition q v t) :
    Spells .concatenation (.seq p q) (u ++ ' ' :: v) (s ++ t) where
  derives := .seq h.derives (.blank (by decide)) .nil hq.derives
  nesting := by rw [Phrase.nesting, h.nesting, hq.nesting]; rfl
  fits := ⟨h.fits, hq.fits⟩
  legal := ⟨h.legal, hq.legal⟩
  counts := ⟨h.counts, hq.counts⟩
  language := by rw [Phrase.language, h.language, hq.language, inAnyCase_append]

theorem Spells.once (h : Spells .element p u s) : Spells .repetition p u s :=
  { h with derives := .once h.derives }

theorem Spells.single (h : Spells .repetition p u s) : Spells .concatenation p u s :=
  { h with derives := .single h.derives }

theorem Spells.only (h : Spells .concatenation p u s) : Spells .alternation p u s :=
  { h with derives := .only h.derives }

theorem inAnyCase_replicate (n : Nat) (s : List Char) :
    inAnyCase (List.replicate n s).flatten = inAnyCase s ^ n := by
  induction n with
  | zero => exact inAnyCase_nil
  | succ n ih => rw [List.replicate_succ, List.flatten_cons, inAnyCase_append, ih, pow_succ']

/-- An element behind a count spells its string so many times. -/
theorem Spells.times (h : Spells .element p u s) {n : Nat} (hn : n < repeatLimit) :
    Spells .repetition (.times (.exact (Text.decimal n)) p) (Text.decimal n ++ u)
      (List.replicate n s).flatten where
  derives := .times (.exact ⟨Text.decimal_ne_nil n, Text.isAsciiDigit_of_mem_decimal n⟩) h.derives
  nesting := h.nesting
  fits := by
    refine ⟨fun _ => ?_, h.fits⟩
    -- a count below the limit has few digits, far from what the reader of numbers refuses
    have : (Text.decimal n).length ≤ 10 :=
      (Nat.length_toDigits_le_iff (by decide) (by decide)).mpr
        (Nat.lt_of_lt_of_le hn (by decide))
    exact Nat.le_trans this (by decide)
  legal := ⟨trivial, h.legal⟩
  counts := ⟨(Text.numeralValue_decimal n).trans_lt hn, h.counts⟩
  language := by
    rw [Phrase.language, h.language, inAnyCase_replicate]
    ext w
    have hcount : Base.decimal.number (Text.decimal n) = n := Text.numeralValue_decimal n
    simp only [repeated, Bounds.Allows, hcount, exists_eq_left]
    rfl

end Grammar

namespace Template.Piece

/-- The string of a piece. -/
def text : Piece → List Char
  | quotes n => List.replicate n '"'
  | plain text => text
  | code n => [Char.ofNat n]

/-- The pieces of a string make up the string. -/
theorem flatMap_text_ofText (s : List Char) : (ofText s).flatMap text = s := by
  induction s with
  | nil => rfl
  | cons c s ih =>
    rw [ofText]
    -- a quote, a plain character and any other; the first two may join the piece behind them
    split
    · rename_i hc
      subst hc
      split
      · rename_i n rest hpieces
        rw [hpieces] at ih
        rw [← ih]
        rfl
      · rw [List.flatMap_cons, ih]
        rfl
    · split
      · split
        · rename_i t rest hpieces
          rw [hpieces] at ih
          rw [← ih]
          rfl
        · rw [List.flatMap_cons, ih]
          rfl
      · rw [List.flatMap_cons, ih, text, Char.ofNat_toNat]
        rfl

/-- What is in a piece is of its kind. -/
def Sound : Piece → Prop
  | quotes _ => True
  | plain text => ∀ c ∈ text, isPlain c
  | code n => ∃ c : Char, c.toNat = n ∧ isPlain c = false

theorem sound_of_mem_ofText (s : List Char) : ∀ piece ∈ ofText s, piece.Sound := by
  induction s with
  | nil => nofun
  | cons c s ih =>
    rw [ofText]
    split
    · split
      · rename_i n rest hpieces
        rw [hpieces, List.forall_mem_cons] at ih
        exact List.forall_mem_cons.mpr ⟨trivial, ih.2⟩
      · exact List.forall_mem_cons.mpr ⟨trivial, ih⟩
    · split
      · rename_i hplain
        split
        · rename_i t rest hpieces
          rw [hpieces, List.forall_mem_cons] at ih
          exact List.forall_mem_cons.mpr ⟨List.forall_mem_cons.mpr ⟨hplain, ih.1⟩, ih.2⟩
        · exact List.forall_mem_cons.mpr ⟨List.forall_mem_singleton.mpr hplain, ih⟩
      · rename_i hplain
        exact List.forall_mem_cons.mpr ⟨⟨c, rfl, Bool.eq_false_iff.mpr hplain⟩, ih⟩

theorem spells_quotes {n : Nat} (hn : n < repeatLimit) :
    ∃ p, Spells .repetition p (quotes n).toAbnf (quotes n).text := by
  have hquote : Spells .element (.reference quoteRule) quoteRule ['"'] :=
    { derives := .reference (.mk (by decide) (List.all_eq_true.mp (by decide)))
      nesting := rfl
      fits := trivial
      legal := rfl
      counts := trivial
      language := by
        rw [inAnyCase_singleton (by decide)]
        exact within_single 0x22 }
  rw [toAbnf, text]
  split
  · rename_i hone
    subst hone
    exact ⟨_, hquote.once⟩
  · have htimes := hquote.times hn
    rw [List.flatten_replicate_singleton] at htimes
    exact ⟨_, htimes⟩

theorem spells_plain {s : List Char} (hs : ∀ c ∈ s, isPlain c) :
    ∃ p, Spells .repetition p (plain s).toAbnf (plain s).text :=
  ⟨.quoted s, Spells.once {
    derives := .quoted hs
    nesting := rfl
    fits := trivial
    legal := trivial
    counts := trivial
    language := rfl }⟩

theorem toNat_le_highestCode (c : Char) : c.toNat ≤ highestCode := by
  have hvalid : c.toNat < 0xd800 ∨ 0xdfff < c.toNat ∧ c.toNat < 0x110000 := c.valid
  rw [highestCode]
  omega

theorem not_isLetter_of_not_isPlain {c : Char} (hc : isPlain c = false) : ¬ isLetter c := by
  rw [isLetter_iff]
  intro hletter
  have hplain : 32 ≤ c.toNat ∧ c.toNat ≤ 126 ∧ c.toNat ≠ 34 := by omega
  refine Bool.eq_false_iff.mp hc ?_
  simp only [isPlain, Bool.and_eq_true, decide_eq_true_eq]
  exact ⟨⟨hplain.1, hplain.2.1⟩, fun h => hplain.2.2 (congrArg Char.toNat h)⟩

theorem spells_code {c : Char} (hc : isPlain c = false) :
    ∃ p, Spells .repetition p (code c.toNat).toAbnf (code c.toNat).text := by
  have hnumber : Base.hexadecimal.number ((Nat.toDigits 16 c.toNat).map Char.toUpper) = c.toNat :=
    Text.numeralValue_map_toUpper c.toNat
  refine ⟨.codes (.row .hexadecimal ((Nat.toDigits 16 c.toNat).map Char.toUpper) []), Spells.once {
    derives := ?_
    nesting := rfl
    fits := ?_
    legal := ?_
    counts := trivial
    language := ?_ }⟩
  · have hdigits : Digits .hexadecimal ((Nat.toDigits 16 c.toNat).map Char.toUpper) :=
      ⟨by simp, Text.isHexDigit_of_mem_map_toUpper c.toNat⟩
    have hrow := @NumbersText.row .hexadecimal 'x' _ [] rfl hdigits nofun
    rw [List.flatMap_nil, List.append_nil] at hrow
    exact .codes hrow
  · exact List.forall_mem_singleton.mpr nofun
  · refine List.forall_mem_singleton.mpr ?_
    rw [hnumber]
    exact toNat_le_highestCode c
  · rw [text, Char.ofNat_toNat, inAnyCase_singleton (not_isLetter_of_not_isPlain hc)]
    change ofCodes [_] = _
    rw [hnumber, ofCodes_cons, ofCodes_nil, mul_one]

/-- Every piece of a string spells its part of it. -/
theorem Sound.spells {piece : Piece} (h : piece.Sound)
    (hquotes : ∀ n, piece = quotes n → n < repeatLimit) :
    ∃ p, Spells .repetition p piece.toAbnf piece.text := by
  cases piece with
  | quotes n => exact spells_quotes (hquotes n rfl)
  | plain s => exact spells_plain h
  | code n =>
    obtain ⟨c, rfl, hc⟩ := h
    exact spells_code hc

theorem intercalate_cons (separator u : List Char) (us : List (List Char)) :
    separator.intercalate (u :: us) = u ++ us.flatMap (separator ++ ·) := by
  induction us generalizing u with
  | nil => simp [List.intercalate_singleton]
  | cons v us ih =>
    rw [List.intercalate_cons_cons, ih v, List.flatMap_cons]
    simp

/-- Pieces behind a concatenation go on with the string. -/
theorem spells_append {pieces : List Piece}
    (h : ∀ x ∈ pieces, ∃ p, Spells .repetition p x.toAbnf x.text) {p : Phrase} {u s : List Char}
    (hp : Spells .concatenation p u s) :
    ∃ q, Spells .concatenation q (u ++ (pieces.map toAbnf).flatMap ([' '] ++ ·))
      (s ++ pieces.flatMap text) := by
  induction pieces generalizing p u s with
  | nil => exact ⟨p, by simpa using hp⟩
  | cons piece pieces ih =>
    rw [List.forall_mem_cons] at h
    obtain ⟨q, hq⟩ := h.1
    obtain ⟨r, hr⟩ := ih h.2 (hp.seq hq)
    exact ⟨r, by simpa using hr⟩

end Template.Piece

/-! ## The rule of a string -/

/--
A non-empty string is spelled by the grammar text that is made of it, which is a concatenation.
-/
theorem exists_spells_concatenation {s : List Char} (hs : s ≠ [])
    (hquotes : ¬ List.replicate repeatLimit '"' <:+: s) :
    ∃ p, Spells .concatenation p (literalToAbnf s) s := by
  have hpieces : ∀ piece ∈ Piece.ofText s, ∃ p, Spells .repetition p piece.toAbnf piece.text := by
    intro piece hmem
    refine (Piece.sound_of_mem_ofText s piece hmem).spells fun n hn => ?_
    subst hn
    -- a piece of more quotes is a part of the string, and with it the run that is ruled out
    by_contra hlarge
    have hrun : List.replicate repeatLimit '"' <:+: List.replicate n '"' :=
      (List.prefix_replicate_iff.mpr ⟨by simpa using hlarge, by simp⟩).isInfix
    have hpart : List.replicate n '"' <:+: (Piece.ofText s).flatMap Piece.text :=
      List.infix_of_mem_flatten (List.mem_map_of_mem (f := Piece.text) hmem)
    rw [Piece.flatMap_text_ofText] at hpart
    exact hquotes (hrun.trans hpart)
  cases hof : Piece.ofText s with
  | nil =>
    have hs' := Piece.flatMap_text_ofText s
    rw [hof] at hs'
    exact absurd hs'.symm hs
  | cons piece pieces =>
    rw [hof, List.forall_mem_cons] at hpieces
    obtain ⟨q, hq⟩ := hpieces.1
    obtain ⟨p, hp⟩ := Piece.spells_append hpieces.2 hq.single
    rw [← Piece.intercalate_cons, ← List.map_cons, ← List.flatMap_cons, ← hof,
      Piece.flatMap_text_ofText] at hp
    exact ⟨p, hp⟩

theorem exists_spells_literalToAbnf {s : List Char} (hs : s ≠ [])
    (hquotes : ¬ List.replicate repeatLimit '"' <:+: s) :
    ∃ p, Spells .alternation p (literalToAbnf s) s := by
  obtain ⟨p, hp⟩ := exists_spells_concatenation hs hquotes
  exact ⟨p, hp.only⟩

/-- A phrase that spells a string stands for a proper expression of the string. -/
theorem Grammar.Spells.exists_expr {n : Nonterminal} {p : Phrase} {u s : List Char}
    (h : Spells n p u s) (depth : Nat) : ∃ expr, p.expr? {} depth = some expr ∧
      expr.Proper (fun _ => False) false ∧ expr.language = inAnyCase s := by
  have hsome : (p.expr? {} depth).isSome :=
    Phrase.expr?_isSome_iff.mpr ⟨h.nesting ▸ Nat.zero_le _, h.fits, h.legal⟩
  obtain ⟨expr, hexpr⟩ := Option.isSome_iff_exists.mp hsome
  obtain ⟨r, hr, hexpr'⟩ := Option.map_eq_some_iff.mp hexpr
  have hproper := Phrase.proper_of_resolve Scope.proper_start h.derives.printable h.counts hr
  refine ⟨expr, hexpr, ?_, ?_⟩
  · rw [← hexpr']
    exact Expr.proper_anyOf hproper.1 hproper.2
  · rw [Phrase.language_of_expr? Scope.denotes_start hexpr, h.language]

/-- A value whose grammar text is an alternation is all that the rule of one gap stands for. -/
theorem compile_oneGap_of_derives [Interpreter] {datum : Datum} {value : Value} {p : Phrase}
    {u : List Char}
    {expr : Expr} (hvalue : Value.ofDatum datum = .ok value)
    (hsplice : Rendered.splice { text := ['r', ' ', '=', ' '] } value =
      .ok (u, { text := ['r', ' ', '=', ' '] }))
    (hp : Derives .alternation p u) (hexpr : p.expr? {} (depthLimit - 1) = some expr) :
    compile (.text oneGap) [datum] = .ok [(['r'], expr)] := by
  have htext : Text.strip (Rendered.spaced ['r', ' ', '=', ' '] u) =
      'r' :: ' ' :: '=' :: ' ' :: u := by
    obtain ⟨c, tail, rfl, -⟩ := hp.startsPhrase_head
    have hlast := hp.not_isSpace_getLast?
    have hhead : ∀ d ∈ ['r'].head?, ¬ Text.isSpace d := by
      rintro d ⟨⟩
      decide
    exact @Text.strip_append_space ('r' :: ' ' :: '=' :: ' ' :: c :: tail) hhead hlast
  rw [compile_oneGap hvalue, hsplice]
  change readRendered { text := Text.strip _ } = _
  rw [htext, readRendered]
  change (read [] _).mapError _ = _
  rw [read_rule hp rfl hexpr]
  rfl

/--
A string in a gap stands for itself: a rule that is nothing but a non-empty string is compiled, to a
pattern that matches the texts with the same characters, and letters of ASCII in either case. Only
so many double quotes in a row that they cannot be counted are out of reach.
-/
theorem compile_oneGap_text [Interpreter] {s : List Char} (hs : s ≠ [])
    (hquotes : ¬ List.replicate repeatLimit '"' <:+: s) :
    ∃ rules expression pattern, compile (.text oneGap) [.text s] = .ok rules ∧
      rules.sources = [(['r'], expression)] ∧ Pattern.compile expression = .ok pattern ∧
        ∀ t, (pattern.fullMatch? t).isSome ↔ List.Forall₂ SameLetter s t := by
  obtain ⟨p, hp⟩ := exists_spells_literalToAbnf hs hquotes
  obtain ⟨expr, hexpr, hproper, hlanguage⟩ := hp.exists_expr (depthLimit - 1)
  obtain ⟨pattern, hcompile, hmatch⟩ := (hproper.reads_source.2 rfl).compile
  refine ⟨[(['r'], expr)], expr.source, pattern, compile_oneGap_of_derives rfl rfl hp.derives hexpr,
    rfl, hcompile, fun t => ?_⟩
  rw [hmatch, hlanguage, mem_inAnyCase_iff]

theorem compile_oneGap_text_quotes :
    "\"\"x\"\n;\x7b\x7d\u00e9".toList ≠ [] ∧
      ¬ List.replicate repeatLimit '"' <:+: "\"\"x\"\n;\x7b\x7d\u00e9".toList ∧
      ∃ rules expression pattern,
        compile (.text oneGap) [.text "\"\"x\"\n;\x7b\x7d\u00e9".toList] = .ok rules ∧
          rules.sources = [(['r'], expression)] ∧ Pattern.compile expression = .ok pattern ∧
            ∀ t, (pattern.fullMatch? t).isSome ↔
              List.Forall₂ SameLetter "\"\"x\"\n;\x7b\x7d\u00e9".toList t := by
  have hne : "\"\"x\"\n;\x7b\x7d\u00e9".toList ≠ [] := by decide
  have hquotes : ¬ List.replicate repeatLimit '"' <:+: "\"\"x\"\n;\x7b\x7d\u00e9".toList := by
    intro h
    have hlength := h.length_le
    rw [List.length_replicate] at hlength
    exact absurd hlength (by decide)
  exact ⟨hne, hquotes, compile_oneGap_text hne hquotes⟩

end Abnf
