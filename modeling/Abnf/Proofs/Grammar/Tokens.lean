import Abnf.Proofs.Grammar.Blanks

/-!
# Reading tokens

The scanners for names, repeats, strings and numbers against their grammar. A scanner takes as much
as it can, the grammar anything that fits; the two agree where the character behind a token is one
that no token goes on with. In a derivation it always is: behind an element stands white space, a
slash, something that closes a group, or nothing.
-/

namespace Abnf.Grammar

open Token

variable {p : Char → Bool} {u cs rest : List Char}

/-! ## Where a token ends -/

/-- A character that may stand behind an element. -/
def endsElement (c : Char) : Bool := [' ', '\t', ';', '\n', '\r', '/', ')', ']'].contains c

/-- What may stand behind an element. -/
def Boundary (rest : List Char) : Prop := ∀ c ∈ rest.head?, endsElement c

theorem endsElement_iff {c : Char} : endsElement c ↔
    c = ' ' ∨ c = '\t' ∨ c = ';' ∨ c = '\n' ∨ c = '\r' ∨ c = '/' ∨ c = ')' ∨ c = ']' := by
  simp [endsElement]

/-- No token goes on with a character that may stand behind an element. -/
theorem Boundary.not_head {p : Char → Bool} (h : Boundary rest)
    (hp : [' ', '\t', ';', '\n', '\r', '/', ')', ']'].all fun c => !p c) :
    ∀ c ∈ rest.head?, ¬ p c := by
  intro c hc
  have hmem := h c hc
  rw [endsElement, List.contains_iff_mem] at hmem
  simpa using List.all_eq_true.mp hp c hmem

theorem Boundary.nil : Boundary [] := by simp [Boundary]

theorem Boundary.cons {c : Char} (h : endsElement c) : Boundary (c :: rest) := by
  simpa [Boundary] using h

theorem endsElement_of_isBlank {c : Char} (h : isBlank c) : endsElement c := by
  rcases eq_of_isBlank h with rfl | rfl <;> decide

theorem LineEnd.boundary {nl : List Char} (h : LineEnd nl) : Boundary (nl ++ rest) := by
  obtain ⟨c, tail, rfl, rfl | rfl | rfl⟩ := h.cases_head <;> exact .cons (by decide)

theorem Blank.boundary {b : List Char} (h : Blank b) : Boundary (b ++ rest) := by
  cases h with
  | blank hc => exact .cons (endsElement_of_isBlank hc)
  | folded hnl hc => rw [List.append_assoc]; exact hnl.boundary

/-- White space before what may stand behind an element may stand there itself. -/
theorem Blanks.boundary {w : List Char} (h : Blanks w) (hrest : Boundary rest) :
    Boundary (w ++ rest) := by
  cases h with
  | nil => exact hrest
  | cons hb _ => rw [List.append_assoc]; exact hb.boundary

/-! ## Runs -/

theorem run_append (hu : ∀ c ∈ u, p c) (hrest : ∀ c ∈ rest.head?, ¬ p c) :
    run p (u ++ rest) = (u, rest) := by
  rw [run, List.takeWhile_append_of_pos hu, List.dropWhile_append_of_pos hu]
  cases rest with
  | nil => simp
  | cons c rest => simp [hrest c rfl]

theorem exists_run (p : Char → Bool) (cs : List Char) :
    ∃ u rest, run p cs = (u, rest) ∧ cs = u ++ rest ∧ ∀ c ∈ u, p c :=
  ⟨_, _, rfl, List.takeWhile_append_dropWhile.symm, List.all_eq_true.mp List.all_takeWhile⟩

theorem run?_append (hne : u ≠ []) (hu : ∀ c ∈ u, p c) (hrest : ∀ c ∈ rest.head?, ¬ p c) :
    run? p (u ++ rest) = some (u, rest) := by
  rw [run?, run_append hu hrest]
  cases u with
  | nil => exact absurd rfl hne
  | cons => rfl

theorem exists_of_run? (h : run? p cs = some (u, rest)) :
    cs = u ++ rest ∧ u ≠ [] ∧ ∀ c ∈ u, p c := by
  obtain ⟨v, tail, hrun, hcs, hv⟩ := exists_run p cs
  rw [run?, hrun] at h
  cases v with
  | nil => cases h
  | cons c v => cases h; exact ⟨hcs, by simp, hv⟩

/-! ## Names -/

theorem RuleName.name?_append (h : RuleName u) (hrest : ∀ c ∈ rest.head?, ¬ isNameChar c) :
    name? (u ++ rest) = some (u.map Text.asciiLower, rest) := by
  obtain ⟨hc, hmore⟩ := h
  rw [List.cons_append, name?, if_pos hc, run_append hmore hrest]

theorem exists_of_name? {name : Name} (h : name? cs = some (name, rest)) :
    ∃ u, RuleName u ∧ cs = u ++ rest ∧ name = u.map Text.asciiLower := by
  cases cs with
  | nil => cases h
  | cons c cs =>
    rw [name?] at h
    split at h
    · rename_i hc
      obtain ⟨more, tail, hrun, hcs, hmore⟩ := exists_run isNameChar cs
      rw [hrun] at h
      cases h
      exact ⟨c :: more, .mk hc hmore, by rw [hcs]; rfl, rfl⟩
    · cases h

/-! ## Text up to a closing character -/

theorem upTo?_append {closing : Char} (hu : ∀ c ∈ u, p c) (hclosing : ¬ p closing) :
    upTo? p closing (u ++ closing :: rest) = some (u, rest) := by
  rw [upTo?, run_append hu (by simpa using hclosing)]
  simp

theorem exists_of_upTo? {closing : Char} (h : upTo? p closing cs = some (u, rest)) :
    cs = u ++ closing :: rest ∧ ∀ c ∈ u, p c := by
  obtain ⟨v, tail, hrun, hcs, hv⟩ := exists_run p cs
  rw [upTo?, hrun] at h
  cases tail with
  | nil => cases h
  | cons c tail =>
    simp only at h
    split at h
    · rename_i hc
      cases h
      exact ⟨by rw [hcs, hc], hv⟩
    · cases h

/-! ## Repeats -/

theorem RepeatText.bounds?_append {bounds : Bounds} (h : RepeatText bounds u)
    (hrest : ∀ c ∈ rest.head?, ¬ Text.isAsciiDigit c) (hstar : rest.head? ≠ some '*') :
    bounds? (u ++ rest) = some (bounds, rest) := by
  cases h with
  | exact hcount =>
    obtain ⟨hne, hall⟩ := hcount
    rw [bounds?, run_append (p := Text.isAsciiDigit) hall hrest]
    cases u with
    | nil => exact absurd rfl hne
    | cons c u =>
      cases rest with
      | nil => rfl
      | cons d rest =>
        have hd : d ≠ '*' := fun hd => hstar (by rw [hd]; rfl)
        simp [hd]
  | @range least most hleast hmost =>
    have hsign : ∀ c ∈ ('*' :: (most ++ rest)).head?, ¬ Text.isAsciiDigit c := by
      simp only [List.head?_cons, Option.mem_some_iff, forall_eq']
      decide
    rw [bounds?, List.append_assoc, List.cons_append,
      run_append (p := Text.isAsciiDigit) hleast hsign]
    simp only
    rw [run_append (p := Text.isAsciiDigit) hmost hrest]

theorem exists_of_bounds? {bounds : Bounds} (h : bounds? cs = some (bounds, rest)) :
    ∃ u, RepeatText bounds u ∧ cs = u ++ rest := by
  obtain ⟨least, tail, hrun, hcs, hleast⟩ := exists_run Text.isAsciiDigit cs
  rw [bounds?, hrun] at h
  split at h
  · rename_i heq
    obtain ⟨rfl, rfl⟩ := Prod.mk.inj heq
    rename_i after
    obtain ⟨most, rest', hrun', hafter, hmost⟩ := exists_run Text.isAsciiDigit after
    rw [hrun'] at h
    cases h
    exact ⟨_, .range hleast hmost, by rw [hcs, hafter, List.append_assoc]; rfl⟩
  · cases h
  · rename_i hne heq
    obtain ⟨rfl, rfl⟩ := Prod.mk.inj heq
    cases h
    exact ⟨_, .exact ⟨hne, hleast⟩, hcs⟩

/-! ## Numbers -/

theorem isHexDigit_of_isDigit {base : Base} {c : Char} (h : base.isDigit c) :
    Text.isHexDigit c := by
  cases base with
  | binary =>
    simp only [Base.isDigit, Bool.or_eq_true, decide_eq_true_eq] at h
    rcases h with rfl | rfl <;> decide
  | decimal =>
    simp only [Base.isDigit, Text.isAsciiDigit] at h
    simp only [Text.isHexDigit, h, Bool.true_or]
  | hexadecimal => exact h

/-- The digits of no base can stand behind an element, nor what joins numerals. -/
theorem Boundary.not_digit (h : Boundary rest) (base : Base) :
    ∀ c ∈ rest.head?, ¬ base.isDigit c := by
  cases base <;> exact h.not_head (by decide)

theorem not_isDigit_point (base : Base) : ¬ base.isDigit '.' := by cases base <;> decide

theorem not_isDigit_hyphen (base : Base) : ¬ base.isDigit '-' := by cases base <;> decide

/-- The numerals of a row are taken one by one, up to what may stand behind an element. -/
theorem row_append {base : Base} (hrest : Boundary rest) :
    ∀ (more : List (List Char)) (n : Nat), (∀ digits ∈ more, Digits base digits) →
      more.length ≤ n → row base n (more.flatMap ('.' :: ·) ++ rest) = (more, rest)
  | [], n, _, _ => by
      cases n with
      | zero => rfl
      | succ n =>
        cases rest with
        | nil => rfl
        | cons c rest =>
          have hc : c ≠ '.' := by
            simpa using hrest.not_head (p := (· = '.')) (by decide) c rfl
          simp [row, hc]
  | digits :: more, 0, _, hn => by simp at hn
  | digits :: more, n + 1, hmore, hn => by
      obtain ⟨hne, hall⟩ := hmore digits (List.mem_cons_self ..)
      have hnext : ∀ c ∈ (more.flatMap ('.' :: ·) ++ rest).head?, ¬ base.isDigit c := by
        cases more with
        | nil => exact hrest.not_digit base
        | cons => simpa using not_isDigit_point base
      rw [List.flatMap_cons, List.append_assoc, List.cons_append, row, run?_append hne hall hnext]
      simp only
      rw [row_append hrest more n (fun d hd => hmore d (List.mem_cons_of_mem _ hd))
        (Nat.le_of_succ_le_succ hn)]

theorem row_sound (base : Base) (n : Nat) (cs : List Char) :
    cs = (row base n cs).1.flatMap ('.' :: ·) ++ (row base n cs).2 ∧
      ∀ digits ∈ (row base n cs).1, Digits base digits := by
  fun_induction row base n cs with
  | case1 n cs digits rest hrun more tail hrow ih =>
    obtain ⟨hcs, hne, hall⟩ := exists_of_run? hrun
    rw [hrow] at ih
    refine ⟨by rw [hcs, ih.1]; simp, ?_⟩
    intro d hd
    rcases List.mem_cons.mp hd with rfl | hd
    · exact ⟨hne, hall⟩
    · exact ih.2 d hd
  | case2 => simp
  | case3 => simp

theorem NumbersText.numbers?_append {numbers : Numbers} (h : NumbersText numbers u)
    (hrest : Boundary rest) : numbers? (u ++ rest) = some (numbers, rest) := by
  have hpoint : ∀ c ∈ rest.head?, c ≠ '.' ∧ c ≠ '-' := by
    simpa using hrest.not_head (p := fun c => c = '.' || c = '-') (by decide)
  cases h with
  | @row base letter first more hletter hfirst hmore =>
    have hnext : ∀ c ∈ (more.flatMap ('.' :: ·) ++ rest).head?, ¬ base.isDigit c := by
      cases more with
      | nil => exact hrest.not_digit base
      | cons => simpa using not_isDigit_point base
    rw [List.cons_append, List.append_assoc, numbers?]
    simp only [hletter, run?_append hfirst.1 hfirst.2 hnext, Option.map_some]
    have hlength : more.length ≤ (more.flatMap ('.' :: ·) ++ rest).length := by
      clear hnext hmore
      induction more with
      | nil => simp
      | cons digits more ih => simp at ih ⊢; omega
    have hrow := row_append hrest more _ hmore hlength
    congr 1
    unfold numbersFrom
    split
    · rename_i tail heq
      cases more with
      | nil =>
        obtain rfl : rest = '-' :: tail := heq
        exact absurd rfl (hpoint '-' rfl).2
      | cons => simp at heq
    · rw [hrow]
  | @range base letter first last hletter hfirst hlast =>
    have hnext : ∀ c ∈ ('-' :: (last ++ rest)).head?, ¬ base.isDigit c := by
      simpa using not_isDigit_hyphen base
    rw [List.cons_append, List.append_assoc, List.cons_append, numbers?]
    simp only [hletter, run?_append hfirst.1 hfirst.2 hnext, Option.map_some]
    rw [numbersFrom, run?_append hlast.1 hlast.2 (hrest.not_digit base)]

theorem exists_of_numbers? {numbers : Numbers} (h : numbers? cs = some (numbers, rest)) :
    ∃ u, NumbersText numbers u ∧ cs = u ++ rest := by
  unfold numbers? at h
  split at h
  · cases h
  · rename_i letter cs
    split at h
    · cases h
    · rename_i base hletter
      rw [Option.map_eq_some_iff] at h
      obtain ⟨⟨first, mid⟩, hrun, h⟩ := h
      obtain ⟨hcs, hfirst⟩ := exists_of_run? hrun
      simp only [numbersFrom] at h
      split at h
      · split at h
        · rename_i hrun'
          obtain ⟨hmid, hlast⟩ := exists_of_run? hrun'
          cases h
          exact ⟨_, .range hletter hfirst hlast, by rw [hcs, hmid]; simp⟩
        · cases h
          exact ⟨_, .row hletter hfirst (List.forall_mem_nil _), by rw [hcs]; simp⟩
      · have hrow := row_sound base mid.length mid
        generalize row base mid.length mid = taken at h hrow
        cases h
        exact ⟨_, .row hletter hfirst hrow.2, by rw [hcs, hrow.1]; simp⟩

end Abnf.Grammar
