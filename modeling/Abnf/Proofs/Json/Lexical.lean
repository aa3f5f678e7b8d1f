import Abnf.Proofs.Json.Numbers

/-!
# White space, strings and their rules

Besides numbers the reader of JSON scans two things by hand for which the grammar has a rule: white
space, and the characters of a string that stand for themselves. With the patterns of these rules a
cursor takes the same (`skip_eq_match?`, `isUnescaped_eq_match?`).
-/

namespace Abnf.Json

open Grammar Regex

variable {u cs : List Char} {c : Char} {wanted : Char → Bool}

/-! ## White space -/

/-- Of the runs of a kind of character, the longest in front of a text ends where the kind does. -/
theorem isLongest_takeWhile (wanted : Char → Bool) (cs : List Char) :
    IsLongest {u | ∀ c ∈ u, wanted c} cs (cs.takeWhile wanted) := by
  refine ⟨List.all_eq_true.mp List.all_takeWhile, List.takeWhile_prefix wanted, ?_⟩
  rintro u hu ⟨rest, rfl⟩
  rw [List.takeWhile_append_of_pos hu, List.length_append]
  exact Nat.le_add_right ..

theorem ofCodes_singleton (code : Nat) : ofCodes [code] = oneOf fun c => c.toNat = code := by
  rw [ofCodes_cons, ofCodes_nil, mul_one]

theorem oneOf_add (kind kind' : Char → Prop) :
    oneOf kind + oneOf kind' = oneOf fun c => kind c ∨ kind' c := by
  ext u
  rw [Language.mem_add]
  constructor
  · rintro (⟨c, rfl, hc⟩ | ⟨c, rfl, hc⟩)
    · exact ⟨c, rfl, .inl hc⟩
    · exact ⟨c, rfl, .inr hc⟩
  · rintro ⟨c, rfl, hc⟩
    exact hc.imp (fun hc => ⟨c, rfl, hc⟩) fun hc => ⟨c, rfl, hc⟩

theorem isSpace_iff_toNat : isSpace c ↔
    c.toNat = 0x20 ∨ c.toNat = 0x09 ∨ c.toNat = 0x0A ∨ c.toNat = 0x0D := by
  simp only [isSpace, Bool.or_eq_true, decide_eq_true_eq, ← Char.toNat_inj, or_assoc]
  rfl

theorem language_spaceExpr : spaceExpr.language = {u | ∀ c ∈ u, isSpace c} := by
  have hone : oneOf (fun c => c.toNat = 0x20 ∨ c.toNat = 0x09 ∨ c.toNat = 0x0A ∨ c.toNat = 0x0D) =
      oneOf fun c => isSpace c := by simp only [isSpace_iff_toNat]
  simp only [spaceExpr, Expr.language, ofCodes_singleton, oneOf_add, hone]
  ext u
  rw [mem_copies_oneOf]
  exact ⟨fun h => h.2.2, fun h => ⟨Nat.zero_le _, fun m hm => absurd hm (Option.not_mem_none m), h⟩⟩

/-- The rule of white space takes all of it, and leaves what the reader leaves. -/
theorem skip_eq_match? [Interpreter] : ∃ (patterns : List (Name × Pattern)) (pattern : Pattern),
    (do (← Bundled.rules .rfc8259).patterns {}) = .ok patterns ∧
    patterns.lookup "ws".toList = some pattern ∧
    ∀ c : Cursor, (c.match? pattern).map (·.2.after) = some (skip c.after) := by
  refine ⟨_, spaceExpr.pattern {}, patterns_rfc8259, rfl, fun c => ?_⟩
  have hmem : ("ws".toList, spaceExpr) ∈ lexicalRules := List.mem_cons_self
  have hcases := (predictive_lexicalRules _ hmem).match?_cases (proper_lexicalRules _ hmem) c
  rw [language_spaceExpr] at hcases
  rcases hcases with ⟨-, hnone⟩ | ⟨u, d, hmatch, hlongest, hadvances⟩
  · exact absurd List.nil_prefix (hnone [] (List.forall_mem_nil _))
  · -- what is left behind the longest run of white space is what the reader drops it from
    obtain rfl := hlongest.eq (isLongest_takeWhile isSpace c.after)
    have hafter : c.after.takeWhile isSpace ++ d.after = c.after.takeWhile isSpace ++
      skip c.after :=
      hadvances.after.symm.trans List.takeWhile_append_dropWhile.symm
    rw [hmatch, Option.map_some, List.append_cancel_left hafter]

/-! ## Characters of a string -/

theorem isUnescaped_iff_toNat : isUnescaped c ↔
    (0x20 ≤ c.toNat ∧ c.toNat ≤ 0x21) ∨ (0x23 ≤ c.toNat ∧ c.toNat ≤ 0x5B) ∨
      0x5D ≤ c.toNat ∧ c.toNat ≤ 0x10FFFF := by
  have hspace : ' ' ≤ c ↔ 0x20 ≤ c.toNat := Iff.rfl
  have hquote : c = '"' ↔ c.toNat = 0x22 := Char.toNat_inj.symm
  have hbackslash : c = '\\' ↔ c.toNat = 0x5C := Char.toNat_inj.symm
  have hvalid : c.toNat < 0xD800 ∨ 0xDFFF < c.toNat ∧ c.toNat < 0x110000 := c.valid
  simp only [isUnescaped, Bool.and_eq_true, decide_eq_true_eq, ne_eq, hspace, hquote, hbackslash]
  omega

theorem language_unescapedExpr : unescapedExpr.language = oneOf fun c => isUnescaped c := by
  simp only [unescapedExpr, Expr.language, oneOf_add, isUnescaped_iff_toNat]

/-- The rule of unescaped characters takes one of them, if one comes next. -/
theorem isUnescaped_eq_match? [Interpreter] :
    ∃ (patterns : List (Name × Pattern)) (pattern : Pattern),
      (do (← Bundled.rules .rfc8259).patterns {}) = .ok patterns ∧
      patterns.lookup "unescaped".toList = some pattern ∧
      ∀ c : Cursor, (c.match? pattern).map (·.2.after) =
        match c.after with
        | [] => none
        | char :: rest => if isUnescaped char then some rest else none := by
  refine ⟨_, unescapedExpr.pattern {}, patterns_rfc8259, rfl, fun c => ?_⟩
  have hmem : ("unescaped".toList, unescapedExpr) ∈ lexicalRules := by decide
  -- the rule takes one character, so its longest match is that character or none
  have hcases := (predictive_lexicalRules _ hmem).match?_cases (proper_lexicalRules _ hmem) c
  rw [language_unescapedExpr] at hcases
  rcases hcases with ⟨hmatch, hnone⟩ | ⟨u, d, hmatch, hlongest, hadvances⟩
  · rw [hmatch]
    cases hafter : c.after with
    | nil => rfl
    | cons char rest =>
      have hnot : ¬ isUnescaped char := fun hchar =>
        hnone [char] ⟨char, rfl, hchar⟩ ⟨rest, hafter.symm⟩
      exact (if_neg hnot).symm
  · obtain ⟨char, rfl, hchar⟩ := hlongest.mem
    rw [hmatch, hadvances.after]
    exact (if_pos hchar).symm

end Abnf.Json
