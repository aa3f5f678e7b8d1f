import Abnf.Text.Utf16

/-!
# Halves that are joined

What is left when the halves of characters have been joined: a text that is spelled by the same
sixteen-bit numbers (`flatMap_units_joinPairs`) and in which no two halves are left to be joined
(`unpaired_joinPairs`). There is only one such text (`eq_joinPairs`).

A number that no other goes with stands for itself in every text that is spelled so, and divides the
text where it divides the numbers (`exists_of_alone`).
-/

namespace Abnf.Text

/-- No high half is followed by a low half. -/
def Unpaired : List Nat → Prop
  | high :: low :: rest => ¬ (isHighHalf high ∧ isLowHalf low) ∧ Unpaired (low :: rest)
  | _ => True

theorem units_of_half {code : Nat} (h : isHighHalf code ∨ isLowHalf code) :
    units code = [code] := by
  simp only [isHighHalf, isLowHalf, Bool.and_eq_true, decide_eq_true_eq] at h
  exact if_pos (by omega)

theorem units_ne_nil (code : Nat) : units code ≠ [] := by
  unfold units
  split <;> exact List.cons_ne_nil _ _

theorem joinHalves_bounds {high low : Nat} (hhigh : isHighHalf high) (hlow : isLowHalf low) :
    0x10000 ≤ joinHalves high low ∧ joinHalves high low ≤ 0x10FFFF := by
  simp only [isHighHalf, isLowHalf, Bool.and_eq_true, decide_eq_true_eq] at hhigh hlow
  unfold joinHalves
  omega

theorem units_joinHalves {high low : Nat} (hhigh : isHighHalf high) (hlow : isLowHalf low) :
    units (joinHalves high low) = [high, low] := by
  have hbounds := joinHalves_bounds hhigh hlow
  simp only [isHighHalf, isLowHalf, Bool.and_eq_true, decide_eq_true_eq] at hhigh hlow
  have hfirst : 0xD800 + (joinHalves high low - 0x10000) / 0x400 = high := by
    unfold joinHalves
    omega
  have hsecond : 0xDC00 + (joinHalves high low - 0x10000) % 0x400 = low := by
    unfold joinHalves
    omega
  rw [units, if_neg (by omega), hfirst, hsecond]

/-- Joined or not, a text is spelled by the same sixteen-bit numbers. -/
theorem flatMap_units_joinPairs (codes : List Nat) :
    (joinPairs codes).flatMap units = codes.flatMap units := by
  fun_induction joinPairs codes with
  | case1 high low rest h ih =>
    obtain ⟨hhigh, hlow⟩ := Bool.and_eq_true_iff.mp h
    rw [List.flatMap_cons, ih, units_joinHalves hhigh hlow, List.flatMap_cons, List.flatMap_cons,
      units_of_half (.inl hhigh), units_of_half (.inr hlow)]
    rfl
  | case2 high low rest h ih => rw [List.flatMap_cons, ih, ← List.flatMap_cons]
  | case3 codes => rfl

/-- A low half in front has been there before. -/
theorem eq_of_head?_joinPairs {code first : Nat} {codes : List Nat}
    (h : (joinPairs (code :: codes)).head? = some first) (hlow : isLowHalf first) :
    first = code := by
  cases codes with
  | nil => exact (Option.some.inj h).symm
  | cons next codes =>
    rw [joinPairs] at h
    split at h
    · rename_i hpair
      obtain rfl := Option.some.inj h
      obtain ⟨hhigh, hnext⟩ := Bool.and_eq_true_iff.mp hpair
      have hbounds := joinHalves_bounds hhigh hnext
      simp only [isLowHalf, Bool.and_eq_true, decide_eq_true_eq] at hlow
      omega
    · exact (Option.some.inj h).symm

theorem Unpaired.cons {code : Nat} {codes : List Nat} (h : Unpaired codes)
    (hhead : ∀ first ∈ codes.head?, ¬ (isHighHalf code ∧ isLowHalf first)) :
    Unpaired (code :: codes) := by
  cases codes with
  | nil => trivial
  | cons first codes => exact ⟨hhead first rfl, h⟩

/-- Once halves have been joined, none are left to be joined. -/
theorem unpaired_joinPairs (codes : List Nat) : Unpaired (joinPairs codes) := by
  fun_induction joinPairs codes with
  | case1 high low rest h ih =>
    obtain ⟨hhigh, hlow⟩ := Bool.and_eq_true_iff.mp h
    have hbounds := joinHalves_bounds hhigh hlow
    refine ih.cons fun first _ hpair => ?_
    have hjoined := hpair.1
    simp only [isHighHalf, Bool.and_eq_true, decide_eq_true_eq] at hjoined
    omega
  | case2 high low rest h ih =>
    refine ih.cons fun first hfirst hpair => h ?_
    obtain rfl := eq_of_head?_joinPairs hfirst hpair.2
    exact Bool.and_eq_true_iff.mpr hpair
  | case3 codes hshort =>
    match codes, hshort with
    | [], _ | [code], _ => trivial
    | high :: low :: rest, hshort => exact absurd rfl (hshort high low rest)

/-- Where nothing is left to be joined, joining changes nothing. -/
theorem joinPairs_of_unpaired {codes : List Nat} (h : Unpaired codes) :
    joinPairs codes = codes := by
  fun_induction joinPairs codes with
  | case1 high low rest hpair ih => exact absurd (Bool.and_eq_true_iff.mp hpair) h.1
  | case2 high low rest hpair ih => rw [ih h.2]
  | case3 codes => rfl

/-- A code point beyond sixteen bits is spelled by two halves. -/
theorem exists_halves {code : Nat} (hlarge : ¬ code < 0x10000) (hcode : code ≤ 0x10FFFF) :
    ∃ high low, units code = [high, low] ∧ isHighHalf high ∧ isLowHalf low ∧
      joinHalves high low = code := by
  refine ⟨_, _, if_neg hlarge, ?_, ?_, ?_⟩
  · simp only [isHighHalf, Bool.and_eq_true, decide_eq_true_eq]
    omega
  · simp only [isLowHalf, Bool.and_eq_true, decide_eq_true_eq]
    omega
  · unfold joinHalves
    omega

theorem joinPairs_halves {high low : Nat} (hhigh : isHighHalf high) (hlow : isLowHalf low)
    (rest : List Nat) :
    joinPairs (high :: low :: rest) = joinHalves high low :: joinPairs rest := by
  rw [joinPairs, if_pos (Bool.and_eq_true_iff.mpr ⟨hhigh, hlow⟩)]

theorem not_isLowHalf_of_isHighHalf {code : Nat} (h : isHighHalf code) : ¬ isLowHalf code := by
  simp only [isHighHalf, isLowHalf, Bool.and_eq_true, decide_eq_true_eq] at h ⊢
  omega

/-- How a code point is spelled makes no difference to the numbers behind it. -/
theorem joinPairs_cons_units {code next : Nat} {rest : List Nat} (hnext : next ≤ 0x10FFFF)
    (h : ¬ (isHighHalf code ∧ isLowHalf next)) :
    joinPairs (code :: (units next ++ rest)) = code :: joinPairs (units next ++ rest) := by
  by_cases hsmall : next < 0x10000
  · rw [units, if_pos hsmall, List.singleton_append, joinPairs,
      if_neg (mt Bool.and_eq_true_iff.mp h)]
  · obtain ⟨high, low, hunits, hhigh, -, -⟩ := exists_halves hsmall hnext
    have hnot : ¬ (isHighHalf code ∧ isLowHalf high) := fun hpair =>
      not_isLowHalf_of_isHighHalf hhigh hpair.2
    rw [hunits, List.cons_append, joinPairs, if_neg (mt Bool.and_eq_true_iff.mp hnot)]

/-- Joining depends on nothing but the sixteen-bit numbers. -/
theorem joinPairs_flatMap_units {codes : List Nat} (h : ∀ code ∈ codes, code ≤ 0x10FFFF) :
    joinPairs (codes.flatMap units) = joinPairs codes := by
  fun_induction joinPairs codes with
  | case1 high low rest hpair ih =>
    obtain ⟨hhigh, hlow⟩ := Bool.and_eq_true_iff.mp hpair
    rw [List.forall_mem_cons, List.forall_mem_cons] at h
    rw [List.flatMap_cons, List.flatMap_cons, units_of_half (.inl hhigh),
      units_of_half (.inr hlow), List.singleton_append, List.singleton_append,
      joinPairs_halves hhigh hlow, ih h.2.2]
  | case2 code next rest hpair ih =>
    rw [List.forall_mem_cons] at h
    have hih := ih h.2
    rw [List.flatMap_cons]
    by_cases hsmall : code < 0x10000
    · rw [units, if_pos hsmall, List.singleton_append, List.flatMap_cons,
        joinPairs_cons_units (h.2 next (List.mem_cons_self ..)) (mt Bool.and_eq_true_iff.mpr hpair),
        ← List.flatMap_cons, hih]
    · -- beyond sixteen bits, the two halves are joined again
      obtain ⟨high, low, hunits, hhigh, hlow, hjoin⟩ := exists_halves hsmall h.1
      rw [hunits, List.cons_append, List.singleton_append, joinPairs_halves hhigh hlow, hjoin, hih]
  | case3 codes hshort =>
    match codes, hshort with
    | [], _ => rfl
    | [code], _ =>
      by_cases hsmall : code < 0x10000
      · rw [List.flatMap_singleton, units, if_pos hsmall]
        rfl
      · obtain ⟨high, low, hunits, hhigh, hlow, hjoin⟩ :=
          exists_halves hsmall (h code (List.mem_singleton_self code))
        rw [List.flatMap_singleton, hunits, joinPairs_halves hhigh hlow, hjoin]
        rfl
    | high :: low :: rest, hshort => exact absurd rfl (hshort high low rest)

/-- A text in which nothing is left to be joined is known by how it is spelled. -/
theorem eq_joinPairs {text codes : List Nat} (htext : ∀ code ∈ text, code ≤ 0x10FFFF)
    (hcodes : ∀ code ∈ codes, code ≤ 0x10FFFF) (hunpaired : Unpaired text)
    (hunits : text.flatMap units = codes.flatMap units) : text = joinPairs codes := by
  rw [← joinPairs_flatMap_units hcodes, ← hunits, joinPairs_flatMap_units htext,
    joinPairs_of_unpaired hunpaired]

theorem forall_mem_joinPairs {codes : List Nat} (h : ∀ code ∈ codes, code ≤ 0x10FFFF) :
    ∀ code ∈ joinPairs codes, code ≤ 0x10FFFF := by
  fun_induction joinPairs codes with
  | case1 high low rest hpair ih =>
    obtain ⟨hhigh, hlow⟩ := Bool.and_eq_true_iff.mp hpair
    rw [List.forall_mem_cons, List.forall_mem_cons] at h
    exact List.forall_mem_cons.mpr ⟨(joinHalves_bounds hhigh hlow).2, ih h.2.2⟩
  | case2 high low rest hpair ih =>
    rw [List.forall_mem_cons] at h
    exact List.forall_mem_cons.mpr ⟨h.1, ih h.2⟩
  | case3 codes => exact h

/-! ## Numbers that stand alone -/

/-- A sixteen-bit number between others that is not one half of a pair with its neighbour. -/
structure Alone (before : List Nat) (unit : Nat) (after : List Nat) : Prop where
  high : isHighHalf unit → ∀ next ∈ after.head?, ¬ isLowHalf next
  low : isLowHalf unit → ∀ last ∈ before.getLast?, ¬ isHighHalf last

theorem Alone.of_not_half {before after : List Nat} {unit : Nat} (hhigh : ¬ isHighHalf unit)
    (hlow : ¬ isLowHalf unit) : Alone before unit after :=
  ⟨fun h => absurd h hhigh, fun h => absurd h hlow⟩

theorem Alone.of_append {first before after : List Nat} {unit : Nat}
    (h : Alone (first ++ before) unit after) : Alone before unit after := by
  refine ⟨h.high, fun hlow last hlast => h.low hlow last ?_⟩
  rw [List.getLast?_append, Option.mem_def.mp hlast]
  rfl

/-- What stands alone is a code point of its own, between the texts that the others spell. -/
theorem exists_of_alone {codes before after : List Nat} {unit : Nat}
    (hcodes : ∀ code ∈ codes, code ≤ 0x10FFFF) (h : codes.flatMap units = before ++ unit :: after)
    (halone : Alone before unit after) :
    ∃ u v, codes = u ++ unit :: v ∧ u.flatMap units = before ∧ v.flatMap units = after := by
  induction codes generalizing before with
  | nil => cases before <;> cases h
  | cons code codes ih =>
    rw [List.forall_mem_cons] at hcodes
    rw [List.flatMap_cons] at h
    -- in front of the number, the first code point is taken off and the others are split
    have hlater {rest : List Nat} (hbefore : before = units code ++ rest)
        (hrest : codes.flatMap units = rest ++ unit :: after) :
        ∃ u v, code :: codes = u ++ unit :: v ∧ u.flatMap units = before ∧
          v.flatMap units = after := by
      obtain ⟨u, v, rfl, rfl, hv⟩ := ih hcodes.2 hrest (hbefore ▸ halone).of_append
      exact ⟨code :: u, v, rfl, hbefore.symm, hv⟩
    by_cases hsmall : code < 0x10000
    · rw [units, if_pos hsmall, List.singleton_append] at h
      cases before with
      | nil =>
        obtain ⟨rfl, hafter⟩ := List.cons.inj h
        exact ⟨[], codes, rfl, rfl, hafter⟩
      | cons first rest =>
        obtain ⟨rfl, hrest⟩ := List.cons.inj h
        exact hlater (by rw [units, if_pos hsmall, List.singleton_append]) hrest
    · obtain ⟨high, low, hunits, hhigh, hlow, -⟩ := exists_halves hsmall hcodes.1
      rw [hunits] at h
      match before with
      | [] =>
        obtain ⟨rfl, hafter⟩ := List.cons.inj h
        exact absurd hlow (halone.high hhigh low (by rw [← hafter]; rfl))
      | [first] =>
        obtain ⟨rfl, htail⟩ := List.cons.inj h
        obtain ⟨rfl, -⟩ := List.cons.inj htail
        exact absurd hhigh (halone.low hlow _ rfl)
      | first :: second :: rest =>
        obtain ⟨rfl, htail⟩ := List.cons.inj h
        obtain ⟨rfl, hrest⟩ := List.cons.inj htail
        exact hlater (by rw [hunits]; rfl) hrest

end Abnf.Text
