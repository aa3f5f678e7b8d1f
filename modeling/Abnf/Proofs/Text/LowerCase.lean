import Abnf.Grammar.Token
import Abnf.Proofs.Text.Margin
import Abnf.Text.Location

/-!
# Texts in lower case

Putting the letters `A` to `Z` of a text in lower case moves no other character and turns none into
one of another kind: what is no such letter stays, and letters stay letters. So a text in lower case
has the same white space, the same lines and the same margin.
-/

namespace Abnf.Text

open Grammar.Token

variable {c x : Char} {s t : List Char} {p : Char → Bool}

/-! ## Characters -/

/--
What holds of any character beside itself, and of each capital beside its small letter, holds of
every character beside its lower case.
-/
theorem asciiLower_rec {motive : Char → Char → Prop} (self : ∀ c, motive c c)
    (capital : ∀ n < 26, motive (Char.ofNat (n + 65)) (Char.ofNat (n + 97))) (c : Char) :
    motive c (asciiLower c) := by
  unfold asciiLower
  split
  · rename_i h
    have hbounds : 65 ≤ c.toNat ∧ c.toNat ≤ 90 := h
    have hcapital := capital (c.toNat - 65) (by omega)
    rwa [Nat.sub_add_cancel hbounds.1, Char.ofNat_toNat,
      show c.toNat - 65 + 97 = c.toNat + 32 by omega] at hcapital
  · exact self c

theorem apply_asciiLower {α : Type} {f : Char → α}
    (h : ∀ n < 26, f (Char.ofNat (n + 97)) = f (Char.ofNat (n + 65))) (c : Char) :
    f (asciiLower c) = f c :=
  asciiLower_rec (motive := fun c d => f d = f c) (fun _ => rfl) h c

theorem asciiLower_asciiLower (c : Char) : asciiLower (asciiLower c) = asciiLower c :=
  apply_asciiLower (by decide) c

/-- A kind of characters that holds a letter in both cases or in neither. -/
def Caseless (p : Char → Bool) : Prop := ∀ c, p (asciiLower c) = p c

theorem caseless (h : ∀ n < 26, p (Char.ofNat (n + 97)) = p (Char.ofNat (n + 65))) : Caseless p :=
  apply_asciiLower h

theorem asciiLower_eq_iff (hx : ¬ isLetter x) : asciiLower c = x ↔ c = x := by
  have hletter : ∀ n < 26, isLetter (Char.ofNat (n + 97)) ∧ isLetter (Char.ofNat (n + 65)) := by
    decide
  refine asciiLower_rec (motive := fun c d => d = x ↔ c = x) (fun _ => Iff.rfl) (fun n hn => ?_) c
  refine iff_of_false ?_ ?_
  · rintro rfl
    exact hx (hletter n hn).1
  · rintro rfl
    exact hx (hletter n hn).2

theorem asciiLower_eq_self (h : ¬ isLetter c) : asciiLower c = c := (asciiLower_eq_iff h).mpr rfl

/-! ## Texts -/

/-- A text in lower case. -/
def lowerCase (s : List Char) : List Char := s.map asciiLower

@[simp] theorem lowerCase_nil : lowerCase [] = [] := rfl

@[simp] theorem lowerCase_cons (c : Char) (s : List Char) :
    lowerCase (c :: s) = asciiLower c :: lowerCase s := rfl

@[simp] theorem lowerCase_append (s t : List Char) :
    lowerCase (s ++ t) = lowerCase s ++ lowerCase t := List.map_append

@[simp] theorem length_lowerCase (s : List Char) : (lowerCase s).length = s.length :=
  List.length_map _

theorem lowerCase_lowerCase (s : List Char) : lowerCase (lowerCase s) = lowerCase s := by
  simp only [lowerCase, List.map_map, Function.comp_def, asciiLower_asciiLower]

theorem lowerCase_eq_self (h : ∀ c ∈ s, ¬ isLetter c) : lowerCase s = s :=
  (List.map_congr_left fun c hc => asciiLower_eq_self (h c hc)).trans (List.map_id' s)

/-- Where a text in lower case starts with what is no letter, so did the text. -/
theorem exists_of_lowerCase_eq_cons (hx : ¬ isLetter x) (h : lowerCase s = x :: t) :
    ∃ u, s = x :: u ∧ lowerCase u = t := by
  obtain ⟨c, u, rfl, hc, hu⟩ := List.map_eq_cons_iff.mp h
  exact ⟨u, by rw [(asciiLower_eq_iff hx).mp hc], hu⟩

theorem lowerCase_ne_cons (hx : ¬ isLetter x) (h : ∀ u, s ≠ x :: u) (t : List Char) :
    lowerCase s ≠ x :: t := fun hs => by
  obtain ⟨u, rfl, -⟩ := exists_of_lowerCase_eq_cons hx hs
  exact h u rfl

theorem takeWhile_lowerCase (hp : Caseless p) (s : List Char) :
    (lowerCase s).takeWhile p = lowerCase (s.takeWhile p) := by
  rw [lowerCase, List.takeWhile_map, show p ∘ asciiLower = p from funext hp]
  rfl

theorem dropWhile_lowerCase (hp : Caseless p) (s : List Char) :
    (lowerCase s).dropWhile p = lowerCase (s.dropWhile p) := by
  rw [lowerCase, List.dropWhile_map, show p ∘ asciiLower = p from funext hp]
  rfl

theorem all_lowerCase (hp : Caseless p) (s : List Char) : (lowerCase s).all p = s.all p := by
  rw [lowerCase, List.all_map, show p ∘ asciiLower = p from funext hp]

/-! ## Margins -/

theorem caseless_isSpace : Caseless isSpace := caseless (by decide)

theorem caseless_isIndent : Caseless isIndent := caseless (by decide)

theorem strip_lowerCase (s : List Char) : strip (lowerCase s) = lowerCase (strip s) := by
  have hreverse (s : List Char) : (lowerCase s).reverse = lowerCase s.reverse :=
    List.map_reverse.symm
  unfold strip
  simp only [dropWhile_lowerCase caseless_isSpace, hreverse]

theorem splitLines_lowerCase (s : List Char) :
    splitLines (lowerCase s) = (splitLines s).map lowerCase := by
  induction s with
  | nil => rfl
  | cons c s ih =>
    have hnewline : asciiLower c = '\n' ↔ c = '\n' := asciiLower_eq_iff (by decide)
    simp only [lowerCase_cons, splitLines, hnewline, ih]
    split
    · rfl
    · cases splitLines s <;> rfl

theorem joinLines_lowerCase (lines : List (List Char)) :
    joinLines (lines.map lowerCase) = lowerCase (joinLines lines) := by
  fun_induction joinLines lines with
  | case1 => rfl
  | case2 => rfl
  | case3 line lines hne ih =>
    rw [List.map_cons, joinLines_cons _ (by simpa using hne), ih, lowerCase_append]
    rfl

/-- Indentation holds no letters. -/
theorem takeWhile_isIndent_lowerCase (s : List Char) :
    (lowerCase s).takeWhile isIndent = s.takeWhile isIndent := by
  rw [takeWhile_lowerCase caseless_isIndent, lowerCase_eq_self]
  intro c hc
  have hindent := List.all_eq_true.mp List.all_takeWhile c hc
  simp only [isIndent, Bool.or_eq_true, decide_eq_true_eq] at hindent
  rcases hindent with rfl | rfl <;> decide

theorem margin_lowerCase (lines : List (List Char)) :
    margin (lines.map lowerCase) = margin lines := by
  unfold margin
  simp only [List.filter_map, List.map_map, Function.comp_def, all_lowerCase caseless_isIndent,
    takeWhile_isIndent_lowerCase]

theorem dedent_lowerCase (s : List Char) : dedent (lowerCase s) = lowerCase (dedent s) := by
  have hline (width : Nat) (line : List Char) :
      dedentLine width (lowerCase line) = lowerCase (dedentLine width line) := by
    unfold dedentLine
    rw [all_lowerCase caseless_isIndent]
    split
    · rfl
    · exact List.map_drop.symm
  rw [dedent_eq, dedent_eq, splitLines_lowerCase, margin_lowerCase, ← joinLines_lowerCase,
    List.map_map, List.map_map]
  simp only [Function.comp_def, hline]

/-! ## Locations -/

theorem Location.ofPosition_lowerCase (s : List Char) (position : Nat) :
    ofPosition (lowerCase s) position = ofPosition s position := by
  have hafter (here : Location) (c : Char) : here.after (asciiLower c) = here.after c := by
    unfold after
    simp only [asciiLower_eq_iff (c := c) (x := '\n') (by decide)]
  rw [ofPosition, ofPosition, lowerCase, ← List.map_take, List.foldl_map]
  simp only [hafter]

end Abnf.Text
