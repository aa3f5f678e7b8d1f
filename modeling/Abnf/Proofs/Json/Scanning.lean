import Abnf.Proofs.Grammar.Tokens
import Abnf.Proofs.Json.Notation
import Abnf.Proofs.Outcome

/-!
# White space, numbers and strings

What the reader takes before it comes to arrays and objects. For each piece of the notation one
theorem says that the reader takes all of it where it stands, and one that the reader takes nothing
else.

A number is taken as far as it goes, so what stands behind it matters. `Follows` says what may:
white space, a comma, a closing bracket or nothing.
-/

namespace Abnf.Json

variable {u v w cs ds rest : List Char} {c : Char} {n : Numeral} {pieces : List Piece}

/-! ## White space -/

/-- White space is four characters. -/
theorem isSpace_iff : isSpace c ↔ c ∈ [' ', '\t', '\n', '\r'] := by
  simp [isSpace, or_assoc]

/-- All white space at the start is passed over. -/
theorem skip_append (h : Space w) : skip (w ++ rest) = skip rest :=
  List.dropWhile_append_of_pos fun c hc => isSpace_iff.mpr (h c hc)

theorem skip_cons (h : ¬ isSpace c) : skip (c :: rest) = c :: rest := List.dropWhile_cons_of_neg h

/-- Nothing is left to pass over then. -/
theorem skip_skip (cs : List Char) : skip (skip cs) = skip cs := by
  unfold skip
  cases h : cs.dropWhile isSpace with
  | nil => rfl
  | cons c rest =>
    have := List.head?_dropWhile_not isSpace cs
    rw [h] at this
    exact List.dropWhile_cons_of_neg (by simpa using this)

/-- What is passed over is white space. -/
theorem exists_space (cs : List Char) : ∃ w, Space w ∧ cs = w ++ skip cs := by
  refine ⟨cs.takeWhile isSpace, fun c hc => ?_, List.takeWhile_append_dropWhile.symm⟩
  exact isSpace_iff.mp (List.all_eq_true.mp (List.all_takeWhile (p := isSpace)) c hc)

/-! ## Digits -/

/-- Digits are taken up to what is none. -/
theorem digits_append (hds : ∀ c ∈ ds, Text.isAsciiDigit c)
    (hrest : ∀ c ∈ rest.head?, ¬ Text.isAsciiDigit c) : digits (ds ++ rest) = (ds, rest) :=
  Grammar.run_append hds hrest

/-- What is taken are digits. -/
theorem exists_of_digits (h : digits cs = (ds, rest)) :
    (∀ c ∈ ds, Text.isAsciiDigit c) ∧ cs = ds ++ rest := by
  obtain ⟨u, tail, hrun, hcs, hu⟩ := Grammar.exists_run Text.isAsciiDigit cs
  obtain ⟨rfl, rfl⟩ := Prod.mk.inj (hrun.symm.trans h)
  exact ⟨hu, hcs⟩

/-! ## Numbers -/

/-- What may stand behind a value: white space, a comma, a closing bracket or nothing. -/
def Follows (rest : List Char) : Prop :=
  ∀ c ∈ rest.head?, c ∈ [' ', '\t', '\n', '\r', ',', ']', '\x7d']

/-- None of these goes on with a number. -/
theorem Follows.not_number (h : Follows rest) :
    ∀ c ∈ rest.head?, ¬ Text.isAsciiDigit c ∧ c ≠ '.' ∧ c ∉ ['e', 'E'] := by
  intro c hc
  have := h c hc
  simp only [List.mem_cons, List.not_mem_nil, or_false] at this
  rcases this with rfl | rfl | rfl | rfl | rfl | rfl | rfl <;> decide

/-- A whole part is taken before what is no digit. -/
theorem WholeText.whole?_append (h : WholeText ds)
    (hrest : ∀ c ∈ rest.head?, ¬ Text.isAsciiDigit c) : whole? (ds ++ rest) = some (ds, rest) := by
  cases h with
  | zero => rfl
  | @more c ds hc hzero hds =>
    have hdigits : digits (c :: ds ++ rest) = (c :: ds, rest) :=
      digits_append (List.forall_mem_cons.mpr ⟨hc, hds⟩) hrest
    rw [List.cons_append] at hdigits ⊢
    unfold whole?
    split
    · rename_i heq
      exact absurd (List.cons.inj heq).1 hzero
    · rw [hdigits]

/-- What is taken as a whole part is one. -/
theorem exists_of_whole? (h : whole? cs = some (ds, rest)) : WholeText ds ∧ cs = ds ++ rest := by
  unfold whole? at h
  split at h
  · cases h
    exact ⟨.zero, rfl⟩
  · rename_i hzero
    split at h
    · cases h
    · rename_i hne
      obtain ⟨hds, rfl⟩ := exists_of_digits (Option.some.inj h)
      refine ⟨?_, rfl⟩
      cases ds with
      | nil => exact absurd (Option.some.inj h) (hne _)
      | cons c ds =>
        rw [List.forall_mem_cons] at hds
        refine .more hds.1 ?_ hds.2
        rintro rfl
        exact hzero _ rfl

/-- A fraction is taken, or there is none and no point either. -/
theorem FractionText.fraction?_append {f : Option (List Char)} (h : FractionText f u)
    (hrest : ∀ c ∈ rest.head?, ¬ Text.isAsciiDigit c ∧ c ≠ '.') :
    fraction? (u ++ rest) = (f, rest) := by
  cases h with
  | absent =>
    rw [List.nil_append]
    unfold fraction?
    split
    · exact absurd rfl (hrest '.' rfl).2
    · rfl
  | @present ds hds =>
    have hdigits : digits (ds ++ rest) = (ds, rest) :=
      digits_append hds.2 fun c hc => (hrest c hc).1
    cases ds with
    | nil => exact absurd rfl hds.1
    | cons d ds => simp only [List.cons_append, fraction?] at hdigits ⊢; rw [hdigits]

/-- A point with no digit behind it is left where it is. -/
theorem exists_of_fraction? {f : Option (List Char)} (h : fraction? cs = (f, rest)) :
    ∃ u, FractionText f u ∧ cs = u ++ rest := by
  unfold fraction? at h
  split at h
  · split at h
    · cases h
      exact ⟨[], .absent, rfl⟩
    · rename_i taken left hne hdigits
      cases h
      obtain ⟨hds, rfl⟩ := exists_of_digits hdigits
      exact ⟨'.' :: taken, .present ⟨hne, hds⟩, rfl⟩
  · cases h
    exact ⟨[], .absent, rfl⟩

/-- A sign before digits. -/
theorem SignText.sign_append {negative : Bool} (h : SignText negative u) (hds : Digits ds) :
    sign (u ++ (ds ++ rest)) = (negative, ds ++ rest) := by
  cases h with
  | plus | minus => rfl
  | absent =>
    obtain ⟨hne, hds⟩ := hds
    cases ds with
    | nil => exact absurd rfl hne
    | cons d ds =>
      have hd := hds d (List.mem_cons_self ..)
      rw [List.nil_append, List.cons_append]
      unfold sign
      split
      · rename_i heq
        obtain rfl := (List.cons.inj heq).1
        exact absurd hd (by decide)
      · rename_i heq
        obtain rfl := (List.cons.inj heq).1
        exact absurd hd (by decide)
      · rfl

/-- A sign that is taken is one, or is not there. -/
theorem exists_of_sign {negative : Bool} (h : sign cs = (negative, rest)) :
    ∃ u, SignText negative u ∧ cs = u ++ rest := by
  unfold sign at h
  split at h
  · cases h
    exact ⟨['-'], .minus, rfl⟩
  · cases h
    exact ⟨['+'], .plus, rfl⟩
  · cases h
    exact ⟨[], .absent, rfl⟩

/-- An exponent is taken, or there is none and no letter of one either. -/
theorem ExponentText.exponent?_append {e : Option (Bool × List Char)} (h : ExponentText e u)
    (hrest : ∀ c ∈ rest.head?, ¬ Text.isAsciiDigit c ∧ c ∉ ['e', 'E']) :
    exponent? (u ++ rest) = (e, rest) := by
  cases h with
  | absent =>
    cases rest with
    | nil => rfl
    | cons c rest =>
      have hc := (hrest c rfl).2
      simp only [List.mem_cons, List.not_mem_nil, or_false, not_or] at hc
      simp [exponent?, hc]
  | @present letter negative u ds hletter hsign hds =>
    -- the digits end where the number ends
    have hdigits : digits (ds ++ rest) = (ds, rest) :=
      digits_append hds.2 fun c hc => (hrest c hc).1
    have htext : letter :: (u ++ ds) ++ rest = letter :: (u ++ (ds ++ rest)) := by simp
    have hletter : (letter = 'e' || letter = 'E') = true := by simpa using hletter
    rw [htext, exponent?, if_pos hletter, hsign.sign_append hds]
    simp only [hdigits]
    cases ds with
    | nil => exact absurd rfl hds.1
    | cons d ds => rfl

/-- A letter with no digits behind it is left where it is. -/
theorem exists_of_exponent? {e : Option (Bool × List Char)} (h : exponent? cs = (e, rest)) :
    ∃ u, ExponentText e u ∧ cs = u ++ rest := by
  -- a letter without digits behind it is not taken at all
  have habsent : ∃ u, ExponentText none u ∧ cs = u ++ cs := ⟨[], .absent, rfl⟩
  unfold exponent? at h
  split at h
  · split at h
    · rename_i letter after hletter
      cases hsign : sign after with
      | mk negative signed =>
        rw [hsign] at h
        simp only at h
        split at h
        · cases h
          exact habsent
        · rename_i taken left hne hdigits
          cases h
          obtain ⟨u, hu, rfl⟩ := exists_of_sign hsign
          obtain ⟨hds, rfl⟩ := exists_of_digits hdigits
          refine ⟨letter :: (u ++ taken), .present ?_ hu ⟨hne, hds⟩, by simp⟩
          simpa using hletter
    · cases h
      exact habsent
  · cases h
    exact habsent

/-- How a number is taken: its sign, its integer digits, its fraction and its exponent. -/
theorem numeral?_eq_some : numeral? cs = some (n, rest) ↔ ∃ unsigned left tail,
    (n.negative = true ∧ cs = '-' :: unsigned ∨
      n.negative = false ∧ cs = unsigned ∧ cs.head? ≠ some '-') ∧
    whole? unsigned = some (n.whole, left) ∧ fraction? left = (n.fraction, tail) ∧
      exponent? tail = (n.exponent, rest) := by
  unfold numeral?
  constructor
  · intro h
    split at h
    rename_i negative unsigned hsign
    obtain ⟨⟨whole, left⟩, hwhole, h⟩ := Option.map_eq_some_iff.mp h
    cases h
    refine ⟨unsigned, left, (fraction? left).2, ?_, hwhole, rfl, rfl⟩
    split at hsign
    · cases hsign
      exact .inl ⟨rfl, rfl⟩
    · rename_i hminus
      cases hsign
      refine .inr ⟨rfl, rfl, fun hhead => ?_⟩
      obtain ⟨tail, rfl⟩ := List.head?_eq_some_iff.mp hhead
      exact hminus _ rfl
  · -- with its sign and without one
    rintro ⟨unsigned, left, tail, hsign, hwhole, hfraction, hexponent⟩
    obtain ⟨negative, whole, fraction, exponent⟩ := n
    rcases hsign with ⟨rfl, rfl⟩ | ⟨rfl, rfl, hminus⟩
    · simp only [hwhole, hfraction, hexponent, Option.map_some]
    · split
      · rename_i hsplit
        split at hsplit
        · exact absurd rfl hminus
        · cases hsplit
          simp only [hwhole, hfraction, hexponent, Option.map_some]

/-- A whole part starts with a digit. -/
theorem WholeText.head (h : WholeText ds) : ∃ c tail, ds = c :: tail ∧ Text.isAsciiDigit c := by
  cases h with
  | zero => exact ⟨_, _, rfl, by decide⟩
  | more hc => exact ⟨_, _, rfl, hc⟩

/-- A fraction starts with no digit, so the whole part ends before it. -/
theorem FractionText.not_digit_head {f : Option (List Char)} (h : FractionText f u) :
    ∀ c ∈ u.head?, ¬ Text.isAsciiDigit c := by
  cases h <;> simp
  decide

/-- An exponent starts with no digit and no point. -/
theorem ExponentText.not_number_head {e : Option (Bool × List Char)} (h : ExponentText e u) :
    ∀ c ∈ u.head?, ¬ Text.isAsciiDigit c ∧ c ≠ '.' := by
  cases h with
  | absent => simp
  | present hletter =>
    simp only [List.mem_cons, List.not_mem_nil, or_false] at hletter
    rcases hletter with rfl | rfl <;> simp <;> decide

/-- What holds of the first character of each of two texts holds of that of both together. -/
theorem forall_head?_append {p : Char → Prop} (hu : ∀ c ∈ u.head?, p c)
    (hv : ∀ c ∈ v.head?, p c) : ∀ c ∈ (u ++ v).head?, p c := by
  cases u with
  | nil => exact hv
  | cons c u => exact hu

/-- A number is taken whole. -/
theorem NumberText.numeral?_append (h : NumberText n u) (hrest : Follows rest) :
    numeral? (u ++ rest) = some (n, rest) := by
  obtain @⟨f, e, hwhole, hfraction, hexponent⟩ := h
  have hnumber := hrest.not_number
  -- from the end: what follows each part is not what the part goes on with
  have htail : ∀ c ∈ (e ++ rest).head?, ¬ Text.isAsciiDigit c ∧ c ≠ '.' :=
    forall_head?_append hexponent.not_number_head fun c hc => ⟨(hnumber c hc).1, (hnumber c hc).2.1⟩
  have hleft : ∀ c ∈ (f ++ (e ++ rest)).head?, ¬ Text.isAsciiDigit c :=
    forall_head?_append hfraction.not_digit_head fun c hc => (htail c hc).1
  rw [numeral?_eq_some]
  refine ⟨n.whole ++ (f ++ (e ++ rest)), f ++ (e ++ rest), e ++ rest, ?_,
    hwhole.whole?_append hleft, hfraction.fraction?_append htail,
    hexponent.exponent?_append fun c hc => ⟨(hnumber c hc).1, (hnumber c hc).2.2⟩⟩
  unfold minusText
  cases n.negative with
  | true => exact .inl ⟨rfl, by simp⟩
  | false =>
    obtain ⟨c, tail, hc, hdigit⟩ := hwhole.head
    refine .inr ⟨rfl, by simp, ?_⟩
    rw [hc]
    rintro ⟨⟩
    exact absurd hdigit (by decide)

/-- A number that is taken is one. -/
theorem exists_of_numeral? (h : numeral? cs = some (n, rest)) :
    ∃ u, NumberText n u ∧ cs = u ++ rest := by
  obtain ⟨unsigned, left, tail, hsign, hwhole, hfraction, hexponent⟩ := numeral?_eq_some.mp h
  obtain ⟨hds, rfl⟩ := exists_of_whole? hwhole
  obtain ⟨f, hf, rfl⟩ := exists_of_fraction? hfraction
  obtain ⟨e, he, rfl⟩ := exists_of_exponent? hexponent
  refine ⟨_, .mk hds hf he, ?_⟩
  unfold minusText
  rcases hsign with ⟨hminus, rfl⟩ | ⟨hplus, rfl, -⟩
  · simp [hminus]
  · simp [hplus]

/-- No number starts with a character that is neither a minus nor a digit. -/
theorem numeral?_eq_none (hminus : c ≠ '-') (hdigit : ¬ Text.isAsciiDigit c) :
    numeral? (c :: cs) = none := by
  rw [Option.eq_none_iff_forall_ne_some]
  rintro ⟨n, rest⟩ h
  obtain ⟨u, hu, hcs⟩ := exists_of_numeral? h
  obtain ⟨hwhole, -, -⟩ := hu
  obtain ⟨d, tail, hd, hdigit'⟩ := hwhole.head
  rw [hd] at hcs
  cases hnegative : n.negative with
  | true =>
    rw [hnegative] at hcs
    exact hminus (List.cons.inj hcs).1
  | false =>
    rw [hnegative] at hcs
    obtain rfl : c = d := (List.cons.inj hcs).1
    exact hdigit hdigit'

/-- A number has a value exactly if it is not too long, and then it is what the number means. -/
theorem Numeral.value_eq_ok {value : Value} :
    n.value rest = .ok value ↔ n.Fits ∧ n.meaning = value := by
  obtain ⟨negative, whole, fraction, exponent⟩ := n
  unfold Numeral.value Numeral.Fits Numeral.meaning
  cases fraction with
  | some ds => cases exponent <;> simp [IsInteger, rounded, power]
  | none =>
    cases exponent with
    | some e => simp [IsInteger, rounded, power]
    | none =>
      have hinteger : IsInteger ⟨negative, whole, none, none⟩ := ⟨rfl, rfl⟩
      simp only [hinteger, if_true, forall_const]
      unfold Text.decimalValue
      split
      · rename_i size hsize
        split at hsize
        · rename_i hfits
          cases hsize
          simp [hfits, integer]
        · cases hsize
      · rename_i long hlong
        split at hlong
        · cases hlong
        · rename_i hfits
          simp [refuse, hfits]

/-! ## Strings -/

/-- The characters that a string may hold as they are. -/
theorem isUnescaped_iff : isUnescaped c ↔ (Piece.unescaped c).Legal := by
  have hspace : ' ' ≤ c ↔ 0x20 ≤ c.toNat := Iff.rfl
  have hquote : c = '"' ↔ c.toNat = 0x22 := Char.toNat_inj.symm
  have hbackslash : c = '\\' ↔ c.toNat = 0x5C := Char.toNat_inj.symm
  have hmost : c.toNat ≤ 0x10FFFF := by
    rcases c.valid with h | ⟨-, h⟩
    · exact Nat.le_trans (Nat.le_of_lt h) (by decide)
    · exact Nat.le_of_lt_succ h
  simp only [isUnescaped, Piece.Legal, Bool.and_eq_true, decide_eq_true_eq, ne_eq, hspace, hquote,
    hbackslash]
  omega

/-- The letters of escapes, as a table and one by one. -/
theorem simpleEscape?_eq (c : Char) : simpleEscape? c = Piece.shortEscapes.lookup c := by
  unfold simpleEscape? Piece.shortEscapes
  split
  case h_9 =>
    symm
    rw [List.lookup_eq_none_iff]
    simp_all
  all_goals rfl

/-- What is taken behind a backslash is an escape. -/
theorem exists_of_escape? {code : Nat} (h : escape? cs = some (code, rest)) :
    ∃ p : Piece, p.Legal ∧ p.code = code ∧ '\\' :: cs = p.text ++ rest := by
  unfold escape? at h
  split at h
  · split at h
    · rename_i hhex
      cases h
      exact ⟨.number _, ⟨rfl, List.all_eq_true.mp hhex⟩, rfl, rfl⟩
    · cases h
  · rename_i letter left _
    obtain ⟨found, hfound, h⟩ := Option.map_eq_some_iff.mp h
    cases h
    rw [simpleEscape?_eq] at hfound
    exact ⟨.short letter, Option.isSome_of_mem hfound, by rw [Piece.code, hfound]; rfl, rfl⟩
  · cases h

/-- An escape by a letter is taken. -/
theorem escape?_short {letter : Char} (h : (Piece.short letter).Legal) :
    escape? (letter :: rest) = some ((Piece.short letter).code, rest) := by
  obtain ⟨code, hcode⟩ := Option.isSome_iff_exists.mp h
  have hu : letter ≠ 'u' := by
    rintro rfl
    cases hcode
  unfold escape?
  split
  · rename_i heq
    exact absurd (List.cons.inj heq).1 hu
  · rename_i heq
    obtain ⟨rfl, rfl⟩ := List.cons.inj heq
    rw [simpleEscape?_eq, Piece.code, hcode]
    rfl
  · rename_i heq
    cases heq

/-- An escape by four digits is taken. -/
theorem escape?_number {ds : List Char} (h : (Piece.number ds).Legal) :
    escape? ('u' :: (ds ++ rest)) = some ((Piece.number ds).code, rest) := by
  obtain ⟨hlength, hhex⟩ := h
  match ds, hlength with
  | [a, b, c, d], _ =>
    simp only [List.cons_append, List.nil_append, escape?]
    rw [if_pos (List.all_eq_true.mpr hhex)]
    rfl

/-- Of a legal piece of a string, the reader takes the number that it spells. -/
theorem Piece.Legal.readCodes_append {p : Piece} (h : p.Legal) (n : Nat) (before : List Nat) :
    readCodes (n + 1) before (p.text ++ rest) = readCodes n (p.code :: before) rest := by
  cases p with
  | unescaped c =>
    have hc := isUnescaped_iff.mpr h
    rw [Piece.text, List.singleton_append, readCodes]
    · rw [if_pos hc]
      rfl
    · rintro rfl
      exact absurd hc (by decide)
  | short letter =>
    simp only [Piece.text, List.cons_append, List.nil_append, readCodes, escape?_short h]
  | number ds =>
    simp only [Piece.text, List.cons_append, readCodes, escape?_number h]

/-- The pieces of a string are read up to its closing quote. -/
theorem readCodes_append (h : ∀ p ∈ pieces, p.Legal) (n : Nat) (before : List Nat)
    (hn : pieces.length < n) :
    readCodes n before (pieces.flatMap Piece.text ++ '"' :: rest) =
      .ok (before.reverse ++ pieces.map Piece.code, rest) := by
  induction pieces generalizing n before with
  | nil =>
    cases n with
    | zero => exact absurd hn (Nat.not_lt_zero _)
    | succ n => simp [readCodes, isUnescaped]
  | cons p pieces ih =>
    rw [List.forall_mem_cons] at h
    cases n with
    | zero => exact absurd hn (Nat.not_lt_zero _)
    | succ n =>
      rw [List.flatMap_cons, List.append_assoc, h.1.readCodes_append,
        ih h.2 n _ (Nat.lt_of_succ_lt_succ hn), List.reverse_cons, List.append_assoc, List.map_cons,
        List.singleton_append]

/-- What is read up to the closing quote are pieces, and the codes are theirs in order. -/
theorem exists_of_readCodes {codes : List Nat} : ∀ (n : Nat) {before : List Nat} {cs : List Char},
    readCodes n before cs = .ok (codes, rest) →
      ∃ pieces : List Piece, (∀ p ∈ pieces, p.Legal) ∧
        codes = before.reverse ++ pieces.map Piece.code ∧
        cs = pieces.flatMap Piece.text ++ '"' :: rest
  | 0, _, _, h => by cases h
  | n + 1, before, cs, h => by
      -- one piece has been read: the others are by induction, with its code kept
      have hpiece {p : Piece} {left : List Char} (hp : p.Legal) (hcs : cs = p.text ++ left)
          (h : readCodes n (p.code :: before) left = .ok (codes, rest)) :
          ∃ pieces : List Piece, (∀ p ∈ pieces, p.Legal) ∧
            codes = before.reverse ++ pieces.map Piece.code ∧
            cs = pieces.flatMap Piece.text ++ '"' :: rest := by
        obtain ⟨pieces, hpieces, rfl, rfl⟩ := exists_of_readCodes n h
        refine ⟨p :: pieces, List.forall_mem_cons.mpr ⟨hp, hpieces⟩, by simp, ?_⟩
        rw [hcs, List.flatMap_cons, List.append_assoc]
      unfold readCodes at h
      split at h
      · rename_i left
        split at h
        · rename_i code left' hescape
          obtain ⟨p, hp, rfl, htext⟩ := exists_of_escape? hescape
          exact hpiece hp htext h
        · cases h
      · rename_i c left hne
        split at h
        · rename_i hc
          exact hpiece (p := .unescaped c) (isUnescaped_iff.mp hc) rfl h
        · split at h
          · rename_i hquote
            cases h
            exact ⟨[], nofun, by simp, by rw [hquote]; rfl⟩
          · cases h
      · cases h

/-- Every piece has a character at least, so no more rounds are needed than there are characters. -/
theorem length_le_flatMap_text (pieces : List Piece) :
    pieces.length ≤ (pieces.flatMap Piece.text).length := by
  induction pieces with
  | nil => exact Nat.le_refl 0
  | cons p pieces ih =>
    have hp : 0 < p.text.length := by cases p <;> simp [Piece.text]
    rw [List.flatMap_cons, List.length_append, List.length_cons]
    omega

/-- A string is read to its closing quote. -/
theorem StringText.readString_append (h : StringText pieces u) :
    readString (u ++ rest) = .ok (some (textOf pieces, rest)) := by
  obtain ⟨hpieces⟩ := h
  have hlength := length_le_flatMap_text pieces
  have hread : readCodes ((pieces.flatMap Piece.text ++ '"' :: rest).length + 1) []
      (pieces.flatMap Piece.text ++ '"' :: rest) = .ok (pieces.map Piece.code, rest) :=
    readCodes_append hpieces _ [] (by rw [List.length_append, List.length_cons]; omega)
  rw [List.cons_append, List.append_assoc, List.singleton_append]
  unfold readString
  simp only [hread, bind, Except.bind]
  rfl

/-- What is read as a string is one. -/
theorem exists_of_readString {codes : List Nat} (h : readString cs = .ok (some (codes, rest))) :
    ∃ pieces u, StringText pieces u ∧ textOf pieces = codes ∧ cs = u ++ rest := by
  unfold readString at h
  split at h
  · rw [Except.bind_eq_ok] at h
    obtain ⟨⟨spelled, left⟩, hread, h⟩ := h
    cases h
    obtain ⟨pieces, hpieces, rfl, rfl⟩ := exists_of_readCodes _ hread
    exact ⟨pieces, _, .mk hpieces, rfl, by simp⟩
  · cases h

end Abnf.Json
