import Abnf.Proofs.Json.Fields
import Abnf.Proofs.Json.Scanning

/-!
# What the reader makes of a text

A text of the notation is read as what it means, and a text that is read is one of the notation.

For every reader one theorem says when it comes out well, in terms of the readers that it calls. The
rest goes from there by induction: over derivations for the one direction (`Derives.readsAs`), over
how deeply the reader may still go for the other (`readValue_sound`).

White space belongs to both sides of a bracket in the notation, but the reader takes what stands
behind a value only when it looks for what comes next. So where two texts differ in nothing but the
white space in front, they are told apart no further; `skip` makes them the same.
-/

namespace Abnf.Json

variable {value : List Char → Except Fault (Value × List Char)} {cs rest u v w : List Char}
  {n depth : Nat} {c : Char}

/-! ## When a reader comes out well -/

/-- What is expected is the next character. -/
theorem expect_eq_ok : expect c cs = .ok rest ↔ cs = c :: rest := by
  unfold expect
  split
  · split
    · rename_i hc
      simp [hc]
    · rename_i hc
      simp [refuse, hc]
  · simp [refuse]

/-- Items are one value, and behind it a comma and more of them, or the bracket. -/
theorem readItems_eq_ok {items : List Value} : readItems value (n + 1) cs = .ok (items, rest) ↔
    ∃ item left, value (skip cs) = .ok (item, left) ∧
      ((∃ tail more, skip left = ',' :: tail ∧ readItems value n tail = .ok (more, rest) ∧
          items = item :: more) ∨
        (skip left = ']' :: rest ∧ items = [item])) := by
  rw [readItems, Except.bind_eq_ok]
  constructor
  · rintro ⟨⟨item, left⟩, hitem, h⟩
    refine ⟨item, left, hitem, ?_⟩
    simp only at h
    split at h
    · rename_i tail hcomma
      obtain ⟨⟨more, last⟩, hmore, h⟩ := Except.bind_eq_ok.mp h
      cases h
      exact .inl ⟨tail, more, hcomma, hmore, rfl⟩
    · obtain ⟨last, hclose, h⟩ := Except.bind_eq_ok.mp h
      cases h
      exact .inr ⟨expect_eq_ok.mp hclose, rfl⟩
  · rintro ⟨item, left, hitem, ⟨tail, more, hcomma, hmore, rfl⟩ | ⟨hclose, rfl⟩⟩
    · refine ⟨(item, left), hitem, ?_⟩
      simp only [hcomma]
      exact Except.bind_eq_ok.mpr ⟨_, hmore, rfl⟩
    · refine ⟨(item, left), hitem, ?_⟩
      simp only [hclose]
      exact Except.bind_eq_ok.mpr ⟨_, expect_eq_ok.mpr rfl, rfl⟩

/-- An array is closed at once, or has items. -/
theorem readArray_eq_ok {items : List Value} : readArray value cs = .ok (items, rest) ↔
    (skip cs = ']' :: rest ∧ items = []) ∨
      ((∀ tail, skip cs ≠ ']' :: tail) ∧
        readItems value ((skip cs).length + 1) (skip cs) = .ok (items, rest)) := by
  unfold readArray
  split
  · rename_i tail hclose
    simp only [hclose, Except.pure_eq_ok, Prod.mk.injEq, List.cons.injEq, true_and]
    constructor
    · rintro ⟨rfl, rfl⟩
      exact .inl ⟨rfl, rfl⟩
    · rintro (⟨rfl, rfl⟩ | ⟨hne, -⟩)
      · exact ⟨rfl, rfl⟩
      · exact absurd rfl (hne _)
  · rename_i hne
    constructor
    · intro h
      exact .inr ⟨hne, h⟩
    · rintro (⟨hclose, -⟩ | ⟨-, h⟩)
      · exact absurd hclose (hne _)
      · exact h

/-- A field is a string, a colon and a value. -/
theorem readField_eq_ok {name : List Nat} {item : Value} :
    readField value cs = .ok ((name, item), rest) ↔ ∃ left tail,
      readString (skip cs) = .ok (some (name, left)) ∧ skip left = ':' :: tail ∧
        value (skip tail) = .ok (item, rest) := by
  rw [readField, Except.bind_eq_ok]
  constructor
  · rintro ⟨found, hname, h⟩
    split at h
    · cases h
    · rename_i spelled left
      obtain ⟨tail, hcolon, h⟩ := Except.bind_eq_ok.mp h
      obtain ⟨⟨first, last⟩, hvalue, h⟩ := Except.bind_eq_ok.mp h
      cases h
      exact ⟨left, tail, hname, expect_eq_ok.mp hcolon, hvalue⟩
  · rintro ⟨left, tail, hname, hcolon, hvalue⟩
    refine ⟨_, hname, Except.bind_eq_ok.mpr ⟨tail, expect_eq_ok.mpr hcolon, ?_⟩⟩
    exact Except.bind_eq_ok.mpr ⟨_, hvalue, rfl⟩

/-- Fields are one field, and behind it a comma and more of them, or the brace. -/
theorem readFields_eq_ok {before fields : List (List Nat × Value)} :
    readFields value (n + 1) before cs = .ok (fields, rest) ↔
      ∃ name item left, readField value cs = .ok ((name, item), left) ∧
        ((∃ tail, skip left = ',' :: tail ∧
            readFields value n (insertField before name item) tail = .ok (fields, rest)) ∨
          (skip left = '\x7d' :: rest ∧ fields = insertField before name item)) := by
  rw [readFields, Except.bind_eq_ok]
  constructor
  · rintro ⟨⟨⟨name, item⟩, left⟩, hfield, h⟩
    refine ⟨name, item, left, hfield, ?_⟩
    simp only at h
    split at h
    · rename_i tail hcomma
      exact .inl ⟨tail, hcomma, h⟩
    · obtain ⟨last, hclose, h⟩ := Except.bind_eq_ok.mp h
      cases h
      exact .inr ⟨expect_eq_ok.mp hclose, rfl⟩
  · rintro ⟨name, item, left, hfield, ⟨tail, hcomma, hmore⟩ | ⟨hclose, rfl⟩⟩
    · refine ⟨((name, item), left), hfield, ?_⟩
      simp only [hcomma]
      exact hmore
    · refine ⟨((name, item), left), hfield, ?_⟩
      simp only [hclose]
      exact Except.bind_eq_ok.mpr ⟨_, expect_eq_ok.mpr rfl, rfl⟩

/-- An object is closed at once, or has fields. -/
theorem readObject_eq_ok {fields : List (List Nat × Value)} :
    readObject value cs = .ok (fields, rest) ↔
      (skip cs = '\x7d' :: rest ∧ fields = []) ∨
        ((∀ tail, skip cs ≠ '\x7d' :: tail) ∧
          readFields value ((skip cs).length + 1) [] (skip cs) = .ok (fields, rest)) := by
  unfold readObject
  split
  · rename_i tail hclose
    simp only [hclose, Except.pure_eq_ok, Prod.mk.injEq, List.cons.injEq, true_and]
    constructor
    · rintro ⟨rfl, rfl⟩
      exact .inl ⟨rfl, rfl⟩
    · rintro (⟨rfl, rfl⟩ | ⟨hne, -⟩)
      · exact ⟨rfl, rfl⟩
      · exact absurd rfl (hne _)
  · rename_i hne
    constructor
    · intro h
      exact .inr ⟨hne, h⟩
    · rintro (⟨hclose, -⟩ | ⟨-, h⟩)
      · exact absurd hclose (hne _)
      · exact h

/-! ## Words and what else a value may start with -/

/-- A word that is taken stands at the start of the text. -/
theorem exists_of_word? {word : List Char} (h : word? word cs = some rest) : cs = word ++ rest := by
  unfold word? at h
  split at h
  · rename_i hword
    obtain ⟨tail, rfl⟩ := List.isPrefixOf_iff_prefix.mp hword
    cases h
    rw [List.drop_left]
  · cases h

/-- The words that are values are those of the notation. -/
theorem word_eq_some {x : Value × List Char} : word cs = some x ↔
    (cs = 'n' :: 'u' :: 'l' :: 'l' :: x.2 ∧ x.1 = .null) ∨
      (cs = 'f' :: 'a' :: 'l' :: 's' :: 'e' :: x.2 ∧ x.1 = .bool false) ∨
      (cs = 't' :: 'r' :: 'u' :: 'e' :: x.2 ∧ x.1 = .bool true) := by
  have hnull : "null".toList = ['n', 'u', 'l', 'l'] := by decide
  have hfalse : "false".toList = ['f', 'a', 'l', 's', 'e'] := by decide
  have htrue : "true".toList = ['t', 'r', 'u', 'e'] := by decide
  unfold word
  rw [hnull, hfalse, htrue]
  -- the three are tried in order, and none of them is the start of another
  constructor
  · intro h
    rcases Option.or_eq_some_iff.mp h with h | ⟨-, h⟩
    · rcases Option.or_eq_some_iff.mp h with h | ⟨-, h⟩
      · obtain ⟨rest, hword, rfl⟩ := Option.map_eq_some_iff.mp h
        exact .inl ⟨exists_of_word? hword, rfl⟩
      · obtain ⟨rest, hword, rfl⟩ := Option.map_eq_some_iff.mp h
        exact .inr (.inl ⟨exists_of_word? hword, rfl⟩)
    · obtain ⟨rest, hword, rfl⟩ := Option.map_eq_some_iff.mp h
      exact .inr (.inr ⟨exists_of_word? hword, rfl⟩)
  · obtain ⟨value, rest⟩ := x
    rintro (⟨rfl, rfl⟩ | ⟨rfl, rfl⟩ | ⟨rfl, rfl⟩) <;> rfl

/-- No word starts with another letter than these. -/
theorem word_eq_none (h : c ∉ ['n', 'f', 't']) : word (c :: cs) = none := by
  rw [Option.eq_none_iff_forall_ne_some]
  intro x hx
  simp only [List.mem_cons, List.not_mem_nil, or_false, not_or] at h
  rcases word_eq_some.mp hx with ⟨hcs, -⟩ | ⟨hcs, -⟩ | ⟨hcs, -⟩
  · exact h.1 (List.cons.inj hcs).1
  · exact h.2.1 (List.cons.inj hcs).1
  · exact h.2.2 (List.cons.inj hcs).1

/-- A number starts with its sign or a digit. -/
theorem head_of_numeral? {n : Numeral} (h : numeral? cs = some (n, rest)) :
    ∃ c tail, cs = c :: tail ∧ (c = '-' ∨ Text.isAsciiDigit c) := by
  cases cs with
  | nil => cases h
  | cons c tail =>
    refine ⟨c, tail, rfl, ?_⟩
    by_contra hc
    obtain ⟨hminus, hdigit⟩ := not_or.mp hc
    rw [numeral?_eq_none hminus hdigit] at h
    cases h

/-- A string starts with a quote. -/
theorem head_of_readString {x : List Nat × List Char} (h : readString cs = .ok (some x)) :
    ∃ tail, cs = '"' :: tail := by
  unfold readString at h
  split at h
  · exact ⟨_, rfl⟩
  · cases h

/-- What is read as a value: a word, a number, an array, an object or a string. -/
theorem readValue_eq_ok {v : Value} : readValue (depth + 1) cs = .ok (v, rest) ↔
    word cs = some (v, rest) ∨
      (∃ n : Numeral, numeral? cs = some (n, rest) ∧ n.Fits ∧ n.meaning = v) ∨
      (∃ tail items, cs = '[' :: tail ∧ readArray (readValue depth) tail = .ok (items, rest) ∧
        v = .array items) ∨
      (∃ tail fields, cs = '\x7b' :: tail ∧
        readObject (readValue depth) tail = .ok (fields, rest) ∧ v = .object fields) ∨
      (∃ codes, readString cs = .ok (some (codes, rest)) ∧ v = .string codes) := by
  constructor
  · intro h
    unfold readValue at h
    split at h
    · rename_i found hword
      cases h
      exact .inl hword
    · rename_i numeral left _ hnumeral
      obtain ⟨value, hvalue, h⟩ := Except.bind_eq_ok.mp h
      cases h
      exact .inr (.inl ⟨numeral, hnumeral, Numeral.value_eq_ok.mp hvalue⟩)
    · refine .inr (.inr ?_)
      split at h
      · obtain ⟨⟨items, left⟩, hitems, h⟩ := Except.bind_eq_ok.mp h
        cases h
        exact .inl ⟨_, items, rfl, hitems, rfl⟩
      · obtain ⟨⟨fields, left⟩, hfields, h⟩ := Except.bind_eq_ok.mp h
        cases h
        exact .inr (.inl ⟨_, fields, rfl, hfields, rfl⟩)
      · obtain ⟨found, hfound, h⟩ := Except.bind_eq_ok.mp h
        split at h
        · rename_i codes left
          cases h
          exact .inr (.inr ⟨codes, hfound, rfl⟩)
        · cases h
  · -- the kinds are told apart by their first characters, so none that is tried before is in the
    -- way
    rintro (hword | ⟨n, hnumeral, hvalue⟩ | ⟨tail, items, rfl, hitems, rfl⟩ |
      ⟨tail, fields, rfl, hfields, rfl⟩ | ⟨codes, hstring, rfl⟩)
    · simp only [readValue, hword]
      rfl
    · obtain ⟨c, tail, rfl, hc⟩ := head_of_numeral? hnumeral
      have hword : word (c :: tail) = none := by
        refine word_eq_none fun hmem => ?_
        simp only [List.mem_cons, List.not_mem_nil, or_false] at hmem
        rcases hmem with rfl | rfl | rfl <;> revert hc <;> decide
      simp only [readValue, hword, hnumeral]
      exact Except.bind_eq_ok.mpr ⟨_, Numeral.value_eq_ok.mpr hvalue, rfl⟩
    · have hword : word ('[' :: tail) = none := word_eq_none (by decide)
      have hnumeral : numeral? ('[' :: tail) = none := numeral?_eq_none (by decide) (by decide)
      simp only [readValue, hword, hnumeral]
      exact Except.bind_eq_ok.mpr ⟨_, hitems, rfl⟩
    · have hword : word ('\x7b' :: tail) = none := word_eq_none (by decide)
      have hnumeral : numeral? ('\x7b' :: tail) = none := numeral?_eq_none (by decide) (by decide)
      simp only [readValue, hword, hnumeral]
      exact Except.bind_eq_ok.mpr ⟨_, hfields, rfl⟩
    · obtain ⟨tail, rfl⟩ := head_of_readString hstring
      have hword : word ('"' :: tail) = none := word_eq_none (by decide)
      have hnumeral : numeral? ('"' :: tail) = none := numeral?_eq_none (by decide) (by decide)
      simp only [readValue, hword, hnumeral]
      exact Except.bind_eq_ok.mpr ⟨_, hstring, rfl⟩

/-! ## Texts that differ in white space only -/

/-- How many characters are no white space. -/
def solid (cs : List Char) : Nat := cs.countP (!isSpace ·)

theorem solid_append (u v : List Char) : solid (u ++ v) = solid u + solid v := List.countP_append

theorem solid_le_length (cs : List Char) : solid cs ≤ cs.length := List.countP_le_length

/-- White space at the start does not count. -/
theorem solid_skip (cs : List Char) : solid (skip cs) = solid cs := by
  obtain ⟨w, hw, hcs⟩ := exists_space cs
  have hnone : solid w = 0 := by
    refine List.countP_eq_zero.mpr fun c hc => ?_
    simpa using isSpace_iff.mpr (hw c hc)
  calc solid (skip cs) = solid w + solid (skip cs) := by rw [hnone, Nat.zero_add]
    _ = solid cs := by rw [← solid_append, ← hcs]

/-- Texts that differ in the white space in front have as many other characters. -/
theorem solid_eq (h : skip u = skip v) : solid u = solid v := by
  rw [← solid_skip u, h, solid_skip]

/-- The characters that have white space around them. -/
def isStructural (c : Char) : Bool := ['[', ']', '\x7b', '\x7d', ',', ':'].contains c

/-- Brackets, commas and colons are no white space. -/
theorem not_isSpace_of_isStructural (h : isStructural c) : ¬ isSpace c := by
  simp only [isStructural, List.contains_iff_mem, List.mem_cons, List.not_mem_nil, or_false] at h
  rcases h with rfl | rfl | rfl | rfl | rfl | rfl <;> decide

namespace Structural

/--
What is between white space is found behind it, and the white space behind it does not matter.
-/
theorem skip_append (h : Structural c u) (hc : isStructural c) (rest : List Char) :
    ∃ tail, skip (u ++ rest) = c :: tail ∧ skip tail = skip rest := by
  obtain ⟨hv, hw⟩ := h
  rw [List.append_assoc, List.cons_append, Json.skip_append hv,
    skip_cons (not_isSpace_of_isStructural hc)]
  exact ⟨_, rfl, Json.skip_append hw⟩

/-- It is one character that counts. -/
theorem solid_pos (h : Structural c u) (hc : isStructural c) : 0 < solid u := by
  obtain ⟨-, -⟩ := h
  rw [solid_append]
  refine Nat.lt_add_left _ (List.countP_pos_iff.mpr ⟨c, List.mem_cons_self .., ?_⟩)
  simpa using not_isSpace_of_isStructural hc

/-- A number may stand before it. -/
theorem follows (h : Structural c u) (hc : c ∈ [',', ']', '\x7d']) (rest : List Char) :
    Follows (u ++ rest) := by
  obtain @⟨v, w, hv, -⟩ := h
  rw [List.append_assoc]
  refine forall_head?_append (fun d hd => ?_) fun d hd => ?_
  · have := hv d (List.mem_of_head? hd)
    simp only [List.mem_cons, List.not_mem_nil, or_false] at this ⊢
    rcases this with rfl | rfl | rfl | rfl <;> simp
  · obtain rfl : c = d := Option.some.inj hd
    simp only [List.mem_cons, List.not_mem_nil, or_false] at hc ⊢
    rcases hc with rfl | rfl | rfl <;> simp

end Structural

/-- A number starts with no white space, nor with a closing bracket. -/
theorem NumberText.skip_append {n : Numeral} (h : NumberText n u) (rest : List Char) :
    ∃ c tail, u ++ rest = c :: tail ∧ skip (u ++ rest) = c :: tail ∧ c ≠ ']' ∧ c ≠ '\x7d' := by
  have hnumeral : numeral? u = some (n, []) := by
    have : numeral? (u ++ []) = some (n, []) := h.numeral?_append nofun
    rwa [List.append_nil] at this
  obtain ⟨c, tail, rfl, hc⟩ := head_of_numeral? hnumeral
  have hnot : ¬ isSpace c ∧ c ≠ ']' ∧ c ≠ '\x7d' := by
    refine ⟨fun hspace => ?_, ?_, ?_⟩
    · have := isSpace_iff.mp hspace
      simp only [List.mem_cons, List.not_mem_nil, or_false] at this
      rcases this with rfl | rfl | rfl | rfl <;> revert hc <;> decide
    · rintro rfl
      revert hc
      decide
    · rintro rfl
      revert hc
      decide
  exact ⟨c, tail ++ rest, rfl, skip_cons hnot.1, hnot.2⟩

/-- Nor does a string. -/
theorem StringText.skip_append {pieces : List Piece} (h : StringText pieces u) (rest : List Char) :
    ∃ tail, u ++ rest = '"' :: tail ∧ skip (u ++ rest) = '"' :: tail := by
  obtain ⟨-⟩ := h
  exact ⟨_, rfl, skip_cons (by decide)⟩

/-- Behind its white space, nothing that is derived starts with a closing bracket. -/
theorem Derives.head {part : Part} {t : Tree part} (h : Derives t u) (rest : List Char) :
    ∃ c tail, skip (u ++ rest) = c :: tail ∧ c ≠ ']' ∧ c ≠ '\x7d' := by
  -- the first character is that of the first token, and no value or member starts with a bracket
  -- that closes
  induction h generalizing rest with
  | null => exact ⟨'n', _, skip_cons (by decide), by decide⟩
  | false => exact ⟨'f', _, skip_cons (by decide), by decide⟩
  | true => exact ⟨'t', _, skip_cons (by decide), by decide⟩
  | number h =>
    obtain ⟨c, tail, -, hskip, hc⟩ := h.skip_append rest
    exact ⟨c, tail, hskip, hc⟩
  | string h =>
    obtain ⟨tail, -, hskip⟩ := h.skip_append rest
    exact ⟨'"', tail, hskip, by decide⟩
  | emptyArray hopen _ | array hopen _ _ =>
    obtain ⟨tail, htail, -⟩ := hopen.skip_append (by decide) (_ ++ rest)
    rw [List.append_assoc, htail]
    exact ⟨_, _, rfl, by decide⟩
  | emptyObject hopen _ | object hopen _ _ =>
    obtain ⟨tail, htail, -⟩ := hopen.skip_append (by decide) (_ ++ rest)
    rw [List.append_assoc, htail]
    exact ⟨_, _, rfl, by decide⟩
  | lastItem _ ih => exact ih rest
  | item _ _ _ ih _ =>
    rw [List.append_assoc]
    exact ih _
  | lastMember h _ _ _ | member h _ _ _ _ _ _ =>
    obtain ⟨tail, -, hskip⟩ := h.skip_append (_ ++ rest)
    rw [List.append_assoc, hskip]
    exact ⟨'"', tail, rfl, by decide⟩

/-! ## What is derived is read -/

/--
A text is read as what it means, wherever it stands and whatever white space stands before it, and
the reader stops behind it. Items and members are read together with the bracket that closes them.
-/
def ReadsAs : {part : Part} → Tree part → List Char → Prop
  | .value, t, u => ∀ (depth : Nat) {cs rest : List Char}, t.depth ≤ depth → t.Fits → Follows rest →
    skip cs = skip (u ++ rest) →
    ∃ left, readValue depth (skip cs) = .ok (t.meaning, left) ∧ skip left = skip rest
  | .items, t, u => ∀ (depth : Nat) {n : Nat} {cs rest w : List Char}, t.depth ≤ depth → t.Fits →
    Structural ']' w → solid cs < n → skip cs = skip (u ++ (w ++ rest)) →
    ∃ left, readItems (readValue depth) n cs = .ok (t.meaning, left) ∧ skip left = skip rest
  | .members, t, u => ∀ (depth : Nat) (before : List (List Nat × Value)) {n : Nat}
      {cs rest w : List Char},
    t.depth ≤ depth → t.Fits → Structural '\x7d' w → solid cs < n →
    skip cs = skip (u ++ (w ++ rest)) →
    ∃ left, readFields (readValue depth) n before cs = .ok (insertAll before t.meaning, left) ∧
      skip left = skip rest

/-- Where there is room for one level more, one has been counted. -/
theorem exists_succ_of_le {k depth : Nat} (h : k + 1 ≤ depth) : ∃ d, depth = d + 1 ∧ k ≤ d :=
  ⟨depth - 1, by omega, by omega⟩

/-- What has no white space in front and nothing inside it is read where it stands. -/
theorem ReadsAs.scalar {t : Tree .value} (hdepth : t.depth = 1)
    (hskip : ∀ rest, skip (u ++ rest) = u ++ rest)
    (hread : ∀ depth rest, t.Fits → Follows rest →
      readValue (depth + 1) (u ++ rest) = .ok (t.meaning, rest)) : ReadsAs t u := by
  intro depth cs rest hle hfits hrest hcs
  rw [hdepth] at hle
  obtain ⟨d, rfl, -⟩ := exists_succ_of_le hle
  rw [hcs, hskip]
  exact ⟨rest, hread d rest hfits hrest, rfl⟩

/-- Two brackets with white space between them. -/
theorem ReadsAs.emptyArray (hopen : Structural '[' u) (hclose : Structural ']' v) :
    ReadsAs (.array .noItems) (u ++ v) := by
  intro depth cs rest hle hfits hrest hcs
  obtain ⟨d, rfl, -⟩ := exists_succ_of_le hle
  rw [List.append_assoc] at hcs
  obtain ⟨tail, htail, hskip⟩ := hopen.skip_append (by decide) (v ++ rest)
  obtain ⟨left, hleft, hrest'⟩ := hclose.skip_append (by decide) rest
  rw [hcs, htail]
  refine ⟨left, readValue_eq_ok.2 (.inr (.inr (.inl ⟨tail, [], rfl, ?_, rfl⟩))), hrest'⟩
  exact readArray_eq_ok.mpr (.inl ⟨hskip.trans hleft, rfl⟩)

/-- Items in brackets, which are one level down. -/
theorem ReadsAs.array {items : Tree .items} (hopen : Structural '[' u) (hitems : Derives items v)
    (ih : ReadsAs items v) (hclose : Structural ']' w) :
    ReadsAs (.array items) (u ++ (v ++ w)) := by
  intro depth cs rest hle hfits hrest hcs
  obtain ⟨d, rfl, hd⟩ := exists_succ_of_le hle
  rw [List.append_assoc, List.append_assoc] at hcs
  obtain ⟨tail, htail, hskip⟩ := hopen.skip_append (by decide) (v ++ (w ++ rest))
  obtain ⟨c, _, hhead, hc, -⟩ := hitems.head (w ++ rest)
  have hlength : solid (skip tail) < (skip tail).length + 1 :=
    Nat.lt_succ_of_le (solid_le_length _)
  obtain ⟨left, hread, hleft⟩ := ih d hd hfits hclose hlength ((skip_skip tail).trans hskip)
  rw [hcs, htail]
  refine ⟨left, readValue_eq_ok.2 (.inr (.inr (.inl ⟨tail, _, rfl, ?_, rfl⟩))), hleft⟩
  refine readArray_eq_ok.mpr (.inr ⟨fun other hother => hc ?_, hread⟩)
  rw [hskip, hhead] at hother
  exact (List.cons.inj hother).1

/-- Two braces with white space between them. -/
theorem ReadsAs.emptyObject (hopen : Structural '\x7b' u) (hclose : Structural '\x7d' v) :
    ReadsAs (.object .noMembers) (u ++ v) := by
  intro depth cs rest hle hfits hrest hcs
  obtain ⟨d, rfl, -⟩ := exists_succ_of_le hle
  rw [List.append_assoc] at hcs
  obtain ⟨tail, htail, hskip⟩ := hopen.skip_append (by decide) (v ++ rest)
  obtain ⟨left, hleft, hrest'⟩ := hclose.skip_append (by decide) rest
  rw [hcs, htail]
  refine ⟨left, readValue_eq_ok.2 (.inr (.inr (.inr (.inl ⟨tail, [], rfl, ?_, rfl⟩)))), hrest'⟩
  exact readObject_eq_ok.mpr (.inl ⟨hskip.trans hleft, rfl⟩)

/-- Members in braces, which are one level down. -/
theorem ReadsAs.object {members : Tree .members} (hopen : Structural '\x7b' u)
    (hmembers : Derives members v) (ih : ReadsAs members v) (hclose : Structural '\x7d' w) :
    ReadsAs (.object members) (u ++ (v ++ w)) := by
  intro depth cs rest hle hfits hrest hcs
  obtain ⟨d, rfl, hd⟩ := exists_succ_of_le hle
  rw [List.append_assoc, List.append_assoc] at hcs
  obtain ⟨tail, htail, hskip⟩ := hopen.skip_append (by decide) (v ++ (w ++ rest))
  obtain ⟨c, _, hhead, -, hc⟩ := hmembers.head (w ++ rest)
  -- the bound on the members is the number of characters, which is enough for what is solid in them
  have hlength : solid (skip tail) < (skip tail).length + 1 :=
    Nat.lt_succ_of_le (solid_le_length _)
  obtain ⟨left, hread, hleft⟩ :=
    ih d [] hd hfits hclose hlength ((skip_skip tail).trans hskip)
  rw [hcs, htail]
  rw [insertAll_nil] at hread
  refine ⟨left, readValue_eq_ok.2 (.inr (.inr (.inr (.inl ⟨tail, _, rfl, ?_, rfl⟩)))), hleft⟩
  refine readObject_eq_ok.mpr (.inr ⟨fun other hother => hc ?_, hread⟩)
  rw [hskip, hhead] at hother
  exact (List.cons.inj hother).1

/-- The last item is read, and behind it the closing bracket. -/
theorem ReadsAs.lastItem {t : Tree .value} (ih : ReadsAs t u) : ReadsAs (.item t .noItems) u := by
  intro depth n cs rest w hle hfits hclose hn hcs
  obtain ⟨m, rfl, -⟩ := exists_succ_of_le (Nat.succ_le_of_lt (Nat.zero_lt_of_lt hn))
  have hdepth : t.depth ≤ depth := Nat.le_trans (Nat.le_max_left ..) hle
  obtain ⟨left, hread, hleft⟩ := ih depth hdepth hfits.1 (hclose.follows (by decide) rest) hcs
  obtain ⟨tail, htail, hrest⟩ := hclose.skip_append (by decide) rest
  exact ⟨tail, readItems_eq_ok.mpr ⟨_, left, hread, .inr ⟨hleft.trans htail, rfl⟩⟩, hrest⟩

/-- An item is read, a comma and the other items. -/
theorem ReadsAs.item {t : Tree .value} {items : Tree .items} (iht : ReadsAs t u)
    (hcomma : Structural ',' v) (ih : ReadsAs items w) :
    ReadsAs (.item t items) (u ++ (v ++ w)) := by
  intro depth n cs rest x hle hfits hclose hn hcs
  obtain ⟨m, rfl, hm⟩ := exists_succ_of_le (Nat.succ_le_of_lt hn)
  have hfirst : t.depth ≤ depth := Nat.le_trans (Nat.le_max_left ..) hle
  have hmore : items.depth ≤ depth := Nat.le_trans (Nat.le_max_right ..) hle
  rw [List.append_assoc, List.append_assoc] at hcs
  obtain ⟨left, hread, hleft⟩ :=
    iht depth hfirst hfits.1 (hcomma.follows (by decide) (w ++ (x ++ rest))) hcs
  obtain ⟨tail, htail, hskip⟩ := hcomma.skip_append (by decide) (w ++ (x ++ rest))
  -- the comma is solid, so one round less is left and enough
  have hsolid : solid tail < m := by
    have hpos := hcomma.solid_pos (by decide)
    rw [solid_eq hcs, solid_append, solid_append] at hn
    rw [solid_eq hskip]
    omega
  obtain ⟨last, hreadMore, hlast⟩ := ih depth hmore hfits.2 hclose hsolid hskip
  exact ⟨last, readItems_eq_ok.mpr ⟨_, left, hread,
    .inl ⟨tail, _, hleft.trans htail, hreadMore, rfl⟩⟩, hlast⟩

/-- The name, the colon and the value of a member are read as a field. -/
theorem readField_append {name : List Piece} {t : Tree .value} (hname : StringText name u)
    (hcolon : Structural ':' v) (ih : ReadsAs t w) (hdepth : t.depth ≤ depth) (hfits : t.Fits)
    (hrest : Follows rest) (hcs : skip cs = skip (u ++ (v ++ (w ++ rest)))) :
    ∃ left, readField (readValue depth) cs = .ok ((textOf name, t.meaning), left) ∧
      skip left = skip rest := by
  obtain ⟨_, htext, hskip⟩ := hname.skip_append (v ++ (w ++ rest))
  obtain ⟨tail, htail, hvalue⟩ := hcolon.skip_append (by decide) (w ++ rest)
  obtain ⟨left, hread, hleft⟩ := ih depth hdepth hfits hrest hvalue
  refine ⟨left, readField_eq_ok.mpr ⟨_, tail, ?_, htail, hread⟩, hleft⟩
  rw [hcs, hskip, ← htext]
  exact hname.readString_append

/-- The last member is read, and behind it the closing brace. -/
theorem ReadsAs.lastMember {name : List Piece} {t : Tree .value} (hname : StringText name u)
    (hcolon : Structural ':' v) (iht : ReadsAs t w) :
    ReadsAs (.member name t .noMembers) (u ++ (v ++ w)) := by
  intro depth before n cs rest x hle hfits hclose hn hcs
  obtain ⟨m, rfl, -⟩ := exists_succ_of_le (Nat.succ_le_of_lt (Nat.zero_lt_of_lt hn))
  have hdepth : t.depth ≤ depth := Nat.le_trans (Nat.le_max_left ..) hle
  rw [List.append_assoc, List.append_assoc] at hcs
  obtain ⟨left, hread, hleft⟩ := readField_append hname hcolon iht hdepth hfits.1
    (hclose.follows (by decide) rest) hcs
  obtain ⟨tail, htail, hrest⟩ := hclose.skip_append (by decide) rest
  exact ⟨tail, readFields_eq_ok.mpr ⟨_, _, left, hread, .inr ⟨hleft.trans htail, rfl⟩⟩, hrest⟩

/-- A member is read, a comma and the other members. -/
theorem ReadsAs.member {name : List Piece} {t : Tree .value} {members : Tree .members}
    {x y : List Char} (hname : StringText name u) (hcolon : Structural ':' v) (iht : ReadsAs t w)
    (hcomma : Structural ',' x) (ih : ReadsAs members y) :
    ReadsAs (.member name t members) (u ++ (v ++ (w ++ (x ++ y)))) := by
  intro depth before n cs rest z hle hfits hclose hn hcs
  obtain ⟨m, rfl, hm⟩ := exists_succ_of_le (Nat.succ_le_of_lt hn)
  have hfirst : t.depth ≤ depth := Nat.le_trans (Nat.le_max_left ..) hle
  have hmore : members.depth ≤ depth := Nat.le_trans (Nat.le_max_right ..) hle
  simp only [List.append_assoc] at hcs
  obtain ⟨left, hread, hleft⟩ := readField_append hname hcolon iht hfirst hfits.1
    (hcomma.follows (by decide) (y ++ (z ++ rest))) hcs
  obtain ⟨tail, htail, hskip⟩ := hcomma.skip_append (by decide) (y ++ (z ++ rest))
  -- the comma counts, so fewer characters are left for the other members
  have hsolid : solid tail < m := by
    have hpos := hcomma.solid_pos (by decide)
    rw [solid_eq hcs] at hn
    simp only [solid_append] at hn
    rw [solid_eq hskip]
    simp only [solid_append]
    omega
  obtain ⟨last, hreadMore, hlast⟩ := ih depth _ hmore hfits.2 hclose hsolid hskip
  exact ⟨last, readFields_eq_ok.mpr ⟨_, _, left, hread,
    .inl ⟨tail, hleft.trans htail, hreadMore⟩⟩, hlast⟩

/-- Whatever is derived is read as what it means, if it keeps to the limits. -/
theorem Derives.readsAs {part : Part} {t : Tree part} (h : Derives t u) : ReadsAs t u := by
  -- a case for each constructor: scalars are their own token, the others have been dealt with above
  induction h with
  | null | false | true =>
    refine ReadsAs.scalar rfl (fun rest => skip_cons (by decide)) fun depth rest _ _ => ?_
    exact readValue_eq_ok.2 (.inl (word_eq_some.mpr (by simp [Tree.meaning])))
  | number h =>
    refine ReadsAs.scalar rfl (fun rest => ?_) fun depth rest hfits hrest => ?_
    · obtain ⟨c, tail, htext, hskip, -⟩ := h.skip_append rest
      rw [hskip, htext]
    · exact readValue_eq_ok.2 (.inr (.inl ⟨_, h.numeral?_append hrest, hfits, rfl⟩))
  | string h =>
    refine ReadsAs.scalar rfl (fun rest => ?_) fun depth rest _ _ => ?_
    · obtain ⟨tail, htext, hskip⟩ := h.skip_append rest
      rw [hskip, htext]
    · exact readValue_eq_ok.2 (.inr (.inr (.inr (.inr ⟨_, h.readString_append, rfl⟩))))
  | emptyArray hopen hclose => exact ReadsAs.emptyArray hopen hclose
  | array hopen hitems hclose ih => exact ReadsAs.array hopen hitems ih hclose
  | emptyObject hopen hclose => exact ReadsAs.emptyObject hopen hclose
  | object hopen hmembers hclose ih => exact ReadsAs.object hopen hmembers ih hclose
  | lastItem _ ih => exact ReadsAs.lastItem ih
  | item _ hcomma _ iht ih => exact ReadsAs.item iht hcomma ih
  | lastMember hname hcolon _ iht => exact ReadsAs.lastMember hname hcolon iht
  | member hname hcolon _ hcomma _ iht ih => exact ReadsAs.member hname hcolon iht hcomma ih

/-! ## What is read is derived -/

/-- A text starts with what is derived, means so much and is no deeper. -/
def Begins {k : Part} (depth : Nat) (m : k.Meaning) (cs rest : List Char) : Prop :=
  ∃ (t : Tree k) (u : List Char), Derives t u ∧ t.meaning = m ∧ t.depth ≤ depth ∧ t.Fits ∧
    cs = u ++ rest

/-- As `Begins`, with white space in front and a closing bracket behind. -/
def BeginsClosed {k : Part} (closing : Char) (depth : Nat) (m : k.Meaning)
    (cs rest : List Char) : Prop :=
  ∃ w x, Space w ∧ Structural closing x ∧ ∃ mid, cs = w ++ mid ∧ Begins depth m mid (x ++ rest)

/-- White space behind white space. -/
theorem Space.append (hv : Space v) (hw : Space w) : Space (v ++ w) := by
  intro c hc
  exact (List.mem_append.mp hc).elim (hv c) (hw c)

/-- What comes next behind white space, with the white space. -/
theorem Structural.of_skip (h : skip cs = c :: rest) : ∃ u, Structural c u ∧ cs = u ++ rest := by
  obtain ⟨w, hw, hcs⟩ := exists_space cs
  refine ⟨w ++ [c], .mk hw nofun, ?_⟩
  rw [hcs, h, List.append_assoc, List.singleton_append]

theorem Structural.opening (hw : Space w) : Structural c (c :: w) := .mk (v := []) nofun hw

/-- With white space behind it too, as far as it goes. -/
theorem Structural.append_space (h : Structural c u) (hw : Space w) : Structural c (u ++ w) := by
  obtain ⟨hv, hx⟩ := h
  rw [List.append_assoc, List.cons_append]
  exact .mk hv (hx.append hw)

/-- Items that are read are derived, if values are. -/
theorem readItems_sound
    (hvalue : ∀ cs v rest, value cs = .ok (v, rest) → Begins (k := .value) depth v cs rest) :
    ∀ (n : Nat) {cs rest : List Char} {items : List Value},
      readItems value n cs = .ok (items, rest) → BeginsClosed (k := .items) ']' depth items cs rest
  | 0, _, _, _, h => by cases h
  | n + 1, cs, rest, items, h => by
      obtain ⟨w, hw, hcs⟩ := exists_space cs
      obtain ⟨item, left, hitem, hnext⟩ := readItems_eq_ok.mp h
      obtain ⟨t, u, ht, rfl, hdepth, hfits, hskip⟩ := hvalue _ _ _ hitem
      rcases hnext with ⟨tail, more, hcomma, hmore, rfl⟩ | ⟨hclose, rfl⟩
      · obtain ⟨v, hv, hleft⟩ := Structural.of_skip hcomma
        -- the white space in front of the next item belongs to the comma
        obtain ⟨w', x, hw', hx, mid, rfl, ts, u', hts, rfl, hdepths, hfitss, rfl⟩ :=
          readItems_sound hvalue n hmore
        refine ⟨w, x, hw, hx, skip cs, hcs, .item t ts, _,
          .item ht (hv.append_space hw') hts, rfl, Nat.max_le.mpr ⟨hdepth, hdepths⟩,
          ⟨hfits, hfitss⟩, ?_⟩
        rw [hskip, hleft]
        simp only [List.append_assoc]
      · obtain ⟨x, hx, hleft⟩ := Structural.of_skip hclose
        refine ⟨w, x, hw, hx, skip cs, hcs, .item t .noItems, u, .lastItem ht, rfl,
          Nat.max_le.mpr ⟨hdepth, Nat.zero_le _⟩, ⟨hfits, trivial⟩, ?_⟩
        rw [hskip, hleft]

/-- A field that is read is a name, a colon and a value that is derived. -/
theorem readField_sound
    (hvalue : ∀ cs v rest, value cs = .ok (v, rest) → Begins (k := .value) depth v cs rest)
    {name : List Nat} {item : Value} (h : readField value cs = .ok ((name, item), rest)) :
    ∃ pieces u v, StringText pieces u ∧ textOf pieces = name ∧ Structural ':' v ∧
      ∃ mid, skip cs = u ++ (v ++ mid) ∧ Begins (k := .value) depth item mid rest := by
  obtain ⟨left, tail, hname, hcolon, hitem⟩ := readField_eq_ok.mp h
  obtain ⟨pieces, u, hu, rfl, hskip⟩ := exists_of_readString hname
  obtain ⟨v, hv, hleft⟩ := Structural.of_skip hcolon
  obtain ⟨w, hw, htail⟩ := exists_space tail
  refine ⟨pieces, u, v ++ w, hu, rfl, hv.append_space hw, skip tail, ?_, hvalue _ _ _ hitem⟩
  rw [hskip, hleft, List.append_assoc, ← htail]

/-- Fields that are read are members that are derived, entered in their order. -/
theorem readFields_sound
    (hvalue : ∀ cs v rest, value cs = .ok (v, rest) → Begins (k := .value) depth v cs rest) :
    ∀ (n : Nat) {before fields : List (List Nat × Value)} {cs rest : List Char},
      readFields value n before cs = .ok (fields, rest) →
        ∃ members, insertAll before members = fields ∧
          BeginsClosed (k := .members) '\x7d' depth members cs rest
  | 0, _, _, _, _, h => by cases h
  | n + 1, before, fields, cs, rest, h => by
      obtain ⟨w, hw, hcs⟩ := exists_space cs
      obtain ⟨name, item, left, hfield, hnext⟩ := readFields_eq_ok.mp h
      -- the field that was read is a member; what follows it is a comma and more members, or the
      -- end
      obtain ⟨pieces, u, v, hu, rfl, hv, mid, hskip, t, y, ht, rfl, hdepth, hfits, rfl⟩ :=
        readField_sound hvalue hfield
      rcases hnext with ⟨tail, hcomma, hmore⟩ | ⟨hclose, rfl⟩
      · obtain ⟨z, hz, hleft⟩ := Structural.of_skip hcomma
        obtain ⟨_, rfl, w', x, hw', hx, mid, rfl, ts, u', hts, rfl, hdepths, hfitss, rfl⟩ :=
          readFields_sound hvalue n hmore
        refine ⟨(textOf pieces, t.meaning) :: ts.meaning, rfl, w, x, hw, hx, skip cs, hcs,
          .member pieces t ts, _, .member hu hv ht (hz.append_space hw') hts, rfl,
          Nat.max_le.mpr ⟨hdepth, hdepths⟩, ⟨hfits, hfitss⟩, ?_⟩
        rw [hskip, hleft]
        simp only [List.append_assoc]
      · obtain ⟨x, hx, hleft⟩ := Structural.of_skip hclose
        refine ⟨[(textOf pieces, t.meaning)], rfl, w, x, hw, hx, skip cs, hcs,
          .member pieces t .noMembers, _, .lastMember hu hv ht, rfl,
          Nat.max_le.mpr ⟨hdepth, Nat.zero_le _⟩, ⟨hfits, trivial⟩, ?_⟩
        rw [hskip, hleft]
        simp only [List.append_assoc]

/-- An array that is read is derived, one level deeper than its items. -/
theorem readArray_sound
    (hvalue : ∀ cs v rest, value cs = .ok (v, rest) → Begins (k := .value) depth v cs rest)
    {items : List Value} (h : readArray value cs = .ok (items, rest)) :
    Begins (k := .value) (depth + 1) (.array items) ('[' :: cs) rest := by
  obtain ⟨w, hw, hcs⟩ := exists_space cs
  rcases readArray_eq_ok.mp h with ⟨hclose, rfl⟩ | ⟨-, hitems⟩
  · obtain ⟨x, hx, hleft⟩ := Structural.of_skip hclose
    refine ⟨.array .noItems, _, .emptyArray (.opening (w := []) nofun) hx, rfl,
      Nat.succ_le_succ (Nat.zero_le _), trivial, ?_⟩
    rw [hleft]
    simp
  · obtain ⟨w', x, hw', hx, mid, hskip, t, u, ht, rfl, hdepth, hfits, rfl⟩ :=
      readItems_sound hvalue _ hitems
    refine ⟨.array t, _, .array (.opening (hw.append hw')) ht hx, rfl,
      Nat.succ_le_succ hdepth, hfits, ?_⟩
    rw [hcs, hskip]
    simp

/-- An object that is read is derived, one level deeper than its members. -/
theorem readObject_sound
    (hvalue : ∀ cs v rest, value cs = .ok (v, rest) → Begins (k := .value) depth v cs rest)
    {fields : List (List Nat × Value)} (h : readObject value cs = .ok (fields, rest)) :
    Begins (k := .value) (depth + 1) (.object fields) ('\x7b' :: cs) rest := by
  obtain ⟨w, hw, hcs⟩ := exists_space cs
  rcases readObject_eq_ok.mp h with ⟨hclose, rfl⟩ | ⟨-, hfields⟩
  · obtain ⟨x, hx, hleft⟩ := Structural.of_skip hclose
    refine ⟨.object .noMembers, _, .emptyObject (.opening (w := []) nofun) hx, rfl,
      Nat.succ_le_succ (Nat.zero_le _), trivial, ?_⟩
    rw [hleft]
    simp
  · obtain ⟨_, rfl, w', x, hw', hx, mid, hskip, t, u, ht, rfl, hdepth, hfits, rfl⟩ :=
      readFields_sound hvalue _ hfields
    refine ⟨.object t, _, .object (.opening (hw.append hw')) ht hx,
      congrArg Value.object (insertAll_nil _).symm, Nat.succ_le_succ hdepth, hfits, ?_⟩
    rw [hcs, hskip]
    simp

/-- Whatever is read as a value is derived, and keeps to the limits. -/
theorem readValue_sound : ∀ (depth : Nat) (cs : List Char) (v : Value) (rest : List Char),
    readValue depth cs = .ok (v, rest) → Begins (k := .value) depth v cs rest
  | 0, _, _, _, h => by cases h
  | depth + 1, cs, v, rest, h => by
      have hdepth : 1 ≤ depth + 1 := Nat.succ_le_succ (Nat.zero_le _)
      rcases readValue_eq_ok.1 h with hword | ⟨n, hnumeral, hfits, rfl⟩ |
        ⟨tail, items, rfl, hitems, rfl⟩ | ⟨tail, fields, rfl, hfields, rfl⟩ | ⟨codes, hstring, rfl⟩
      · rcases word_eq_some.mp hword with ⟨rfl, rfl⟩ | ⟨rfl, rfl⟩ | ⟨rfl, rfl⟩
        · exact ⟨.null, _, .null, rfl, hdepth, trivial, rfl⟩
        · exact ⟨.bool false, _, .false, rfl, hdepth, trivial, rfl⟩
        · exact ⟨.bool true, _, .true, rfl, hdepth, trivial, rfl⟩
      · obtain ⟨u, hu, rfl⟩ := exists_of_numeral? hnumeral
        exact ⟨.number n, u, .number hu, rfl, hdepth, hfits, rfl⟩
      · exact readArray_sound (readValue_sound depth) hitems
      · exact readObject_sound (readValue_sound depth) hfields
      · obtain ⟨pieces, u, hu, rfl, rfl⟩ := exists_of_readString hstring
        exact ⟨.string pieces, u, .string hu, rfl, hdepth, trivial, rfl⟩

/-! ## Texts -/

/-- What is skipped to its end is white space. -/
theorem skip_eq_nil_iff : skip cs = [] ↔ Space cs := by
  constructor
  · intro h
    obtain ⟨w, hw, hcs⟩ := exists_space cs
    rwa [hcs, h, List.append_nil]
  · intro h
    have : skip (cs ++ []) = skip [] := skip_append h
    rwa [List.append_nil] at this

/-- A text is a value with white space around it. -/
theorem readText_eq_ok [Interpreter] {text : List Char} {v : Value} : readText text = .ok v ↔
    ∃ rest, readValue depthLimit (skip text) = .ok (v, rest) ∧ Space rest := by
  rw [readText, Except.bind_eq_ok]
  constructor
  · rintro ⟨⟨value, rest⟩, hvalue, h⟩
    simp only at h
    split at h
    · rename_i hempty
      cases h
      exact ⟨rest, hvalue, skip_eq_nil_iff.mp (List.isEmpty_iff.mp hempty)⟩
    · cases h
  · rintro ⟨rest, hvalue, hrest⟩
    refine ⟨_, hvalue, ?_⟩
    simp only [skip_eq_nil_iff.mpr hrest]
    rfl

/-- A text is read as a value exactly if it is a text of the notation that means it. -/
theorem parse_eq_ok_iff [Interpreter] {text : List Char} {v : Value} : parse text = .ok v ↔
    ∃ t, JsonText t text ∧ t.WithinLimits ∧ t.meaning = v := by
  rw [parse, Except.mapError_eq_ok, readText_eq_ok]
  constructor
  · rintro ⟨rest, hread, hrest⟩
    obtain ⟨w, hw, htext⟩ := exists_space text
    obtain ⟨t, u, ht, hmeaning, hdepth, hfits, hskip⟩ := readValue_sound _ _ _ _ hread
    refine ⟨t, ?_, ⟨hdepth, hfits⟩, hmeaning⟩
    rw [htext, hskip]
    exact .mk hw ht hrest
  · rintro ⟨t, htext, ⟨hdepth, hfits⟩, rfl⟩
    obtain @⟨v, u, w, hv, ht, hw⟩ := htext
    -- behind the value there is only white space, which no number goes on with
    have hfollows : Follows w := by
      intro c hc
      have := hw c (List.mem_of_head? hc)
      simp only [List.mem_cons, List.not_mem_nil, or_false] at this ⊢
      rcases this with rfl | rfl | rfl | rfl <;> simp
    obtain ⟨left, hread, hleft⟩ := ht.readsAs depthLimit hdepth hfits hfollows (skip_append hv)
    exact ⟨left, hread, skip_eq_nil_iff.mp (hleft.trans (skip_eq_nil_iff.mpr hw))⟩

/--
A text of the notation that keeps to the limits is read as the value that it means, and every other
text is refused.
-/
theorem parse_decides [Interpreter] (text : List Char) :
    (∀ t, JsonText t text → t.WithinLimits → parse text = .ok t.meaning) ∧
      ((∀ t, JsonText t text → ¬ t.WithinLimits) → ∃ e, parse text = .error e) := by
  refine ⟨fun t ht hlimits => parse_eq_ok_iff.mpr ⟨t, ht, hlimits, rfl⟩, fun hnone => ?_⟩
  cases hparse : parse text with
  | error e => exact ⟨e, rfl⟩
  | ok v =>
    obtain ⟨t, ht, hlimits, -⟩ := parse_eq_ok_iff.mp hparse
    exact absurd hlimits (hnone t ht)

end Abnf.Json
