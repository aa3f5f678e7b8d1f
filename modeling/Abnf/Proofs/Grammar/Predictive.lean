import Abnf.Proofs.Cursor.Runs
import Abnf.Proofs.Grammar.Increments
import Abnf.Proofs.Regex.Longest

/-!
# Expressions that are decided by the next character

A rule is matched by its first way, whatever longer text it may stand for as well. Some rules can do
without looking ahead: wherever there is a choice, to go on or to stop, or between alternatives, the
next character decides it. Of these `Expr.Predictive` says so, and it is computed from the
characters that an expression may start with (`Expr.starts`) and those that may come behind one of
its texts in a longer one (`Expr.continues`). Both sets may be too large, but nothing is missing
from them (`Expr.has_starts`, `Expr.Predictive.has_continues`).

A predictive rule takes the longest of its texts that comes next (`Expr.Predictive.match?_cases`).
-/

namespace Abnf

/-- No code point is in both. -/
def Text.Ranges.Apart (r s : Text.Ranges) : Prop := ∀ a ∈ r, ∀ b ∈ s, a.2 < b.1 ∨ b.2 < a.1

instance (r s : Text.Ranges) : Decidable (r.Apart s) :=
  inferInstanceAs (Decidable (∀ a ∈ r, ∀ b ∈ s, a.2 < b.1 ∨ b.2 < a.1))

theorem Text.Ranges.Apart.not_has {r s : Text.Ranges} {code : Nat} (h : r.Apart s)
    (hr : r.has code) : ¬ s.has code := by
  rw [has_iff] at hr ⊢
  rintro ⟨b, hb, hbounds⟩
  obtain ⟨a, ha, hbounds'⟩ := hr
  have := h a ha b hb
  omega

theorem Text.Ranges.has_append {r s : Text.Ranges} {code : Nat} :
    Text.Ranges.has (r ++ s) code ↔ r.has code ∨ s.has code := by
  simp [has]

namespace Grammar

open Regex Token

variable {expr : Expr} {bare : Bool} {c : Char} {L : Language Char} {p : Place}

/-! ## What an expression may start and go on with -/

/-- The characters that a core rule may start with. -/
def CoreRule.starts : CoreRule → Text.Ranges
  | alpha => [(0x41, 0x5A), (0x61, 0x7A)]
  | bit => [(0x30, 0x30), (0x31, 0x31)]
  | char => [(0x01, 0x7F)]
  | cr | crlf => [(0x0D, 0x0D)]
  | ctl => [(0x00, 0x1F), (0x7F, 0x7F)]
  | digit => [(0x30, 0x39)]
  | dquote => [(0x22, 0x22)]
  | hexdig => [(0x30, 0x39), (0x41, 0x46), (0x61, 0x66)]
  | htab => [(0x09, 0x09)]
  | lf => [(0x0A, 0x0A)]
  | lwsp => [(0x20, 0x20), (0x09, 0x09), (0x0D, 0x0D)]
  | octet => [(0x00, 0xFF)]
  | sp => [(0x20, 0x20)]
  | vchar => [(0x21, 0x7E)]
  | wsp => [(0x20, 0x20), (0x09, 0x09)]

/-- A character in either case. -/
def eitherCase (c : Char) : Text.Ranges :=
  if isLetter c then
    [((Text.asciiLower c).toNat, (Text.asciiLower c).toNat),
      ((Text.asciiLower c).toNat - 32, (Text.asciiLower c).toNat - 32)]
  else [(c.toNat, c.toNat)]

namespace Expr

/-- Whether the empty text is one of an expression. -/
def nullable : Expr → Bool
  | literal text => text.isEmpty
  | codes cs => cs.isEmpty
  | range _ _ | foreign _ => false
  | core rule => rule = .lwsp
  | seq a b => a.nullable && b.nullable
  | alt a b => a.nullable || b.nullable
  | grouped body => body.nullable
  | optional _ => true
  | repeated times body => times.least = 0 || body.nullable

/-- The characters that an expression may start with. -/
def starts : Expr → Text.Ranges
  | literal text => text.head?.elim [] eitherCase
  | codes cs => cs.head?.elim [] fun code => [(code, code)]
  | range first last => [(first, last)]
  | core rule => rule.starts
  | foreign _ => []
  | seq a b => a.starts ++ if a.nullable then b.starts else []
  | alt a b => a.starts ++ b.starts
  | grouped body | optional body | repeated _ body => body.starts

/-- The characters that may come behind a text of a predictive expression in a longer one. -/
def continues : Expr → Text.Ranges
  | literal _ | codes _ | range _ _ | core _ | foreign _ => []
  | seq a b => b.continues ++ if b.nullable then a.continues else []
  | alt a b => a.continues ++ (b.continues ++ if b.nullable then a.starts else [])
  | grouped body => body.continues
  | optional body | repeated _ body => body.continues ++ body.starts

/--
Whether the next character decides every choice. What comes from outside is not known, and the core
rule that is a repeat itself is left out.
-/
def Predictive : Expr → Prop
  | literal _ | codes _ | range _ _ => True
  | core rule => rule ≠ .lwsp
  | foreign _ => False
  | seq a b => a.Predictive ∧ b.Predictive ∧ a.continues.Apart b.starts
  | alt a b => a.Predictive ∧ b.Predictive ∧ a.nullable = false ∧ a.starts.Apart b.starts
  | grouped body => body.Predictive
  | optional body => body.Predictive ∧ body.nullable = false
  | repeated _ body => body.Predictive ∧ body.nullable = false ∧ body.continues.Apart body.starts

instance decidablePredictive : (expr : Expr) → Decidable expr.Predictive
  | literal _ | codes _ | range _ _ => inferInstanceAs (Decidable True)
  | core rule => inferInstanceAs (Decidable (rule ≠ .lwsp))
  | foreign _ => inferInstanceAs (Decidable False)
  | seq a b =>
    haveI := decidablePredictive a
    haveI := decidablePredictive b
    inferInstanceAs (Decidable (_ ∧ _ ∧ a.continues.Apart b.starts))
  | alt a b =>
    haveI := decidablePredictive a
    haveI := decidablePredictive b
    inferInstanceAs (Decidable (_ ∧ _ ∧ a.nullable = false ∧ a.starts.Apart b.starts))
  | grouped body => decidablePredictive body
  | optional body =>
    haveI := decidablePredictive body
    inferInstanceAs (Decidable (_ ∧ body.nullable = false))
  | repeated _ body =>
    haveI := decidablePredictive body
    inferInstanceAs (Decidable (_ ∧ body.nullable = false ∧ body.continues.Apart body.starts))

end Expr

/-! ## Nothing is missing -/

theorem starts_within {ranges : Text.Ranges} (h : Starts (within ranges) c) :
    ranges.has c.toNat := by
  obtain ⟨w, d, hw, hd⟩ := h
  obtain ⟨rfl, -⟩ := List.cons.inj hw
  exact hd

theorem CoreRule.nil_notMem_language {rule : CoreRule} (h : rule ≠ .lwsp) : [] ∉ rule.language := by
  cases rule with
  | lwsp => exact absurd rfl h
  | crlf => exact nil_notMem_mul (nil_notMem_oneOf _)
  | _ => exact nil_notMem_oneOf _

theorem CoreRule.has_starts {rule : CoreRule} (h : Starts rule.language c) :
    rule.starts.has c.toNat := by
  have hfirst {ranges : Text.Ranges} {M : Language Char} (h : Starts (within ranges * M) c) :
      ranges.has c.toNat :=
    starts_within ((starts_mul h).resolve_right fun hnil => nil_notMem_oneOf _ hnil.1)
  cases rule with
  | crlf => exact hfirst h
  | lwsp =>
    rw [language, ← copies_zero_none, mul_assoc] at h
    refine (Text.Ranges.has_append (r := [(0x20, 0x20), (0x09, 0x09)])).mpr ?_
    exact (starts_add (starts_copies h)).imp starts_within hfirst
  | _ => exact starts_within h

theorem has_eitherCase {d : Char} (h : Text.asciiLower c = Text.asciiLower d) :
    (eitherCase d).has c.toNat := by
  unfold eitherCase
  split
  · rw [← Char.toNat_inj, toNat_asciiLower c] at h
    rw [Text.Ranges.has_iff]
    split at h
    · exact ⟨_, List.mem_cons_of_mem _ (List.mem_singleton_self _), by omega, by omega⟩
    · exact ⟨_, List.mem_cons_self, by omega, by omega⟩
  · rename_i hletter
    rw [asciiLower_eq_iff_of_not_isLetter hletter] at h
    rw [h, Text.Ranges.has_iff]
    exact ⟨_, List.mem_singleton_self _, Nat.le_refl _, Nat.le_refl _⟩

namespace Expr

theorem nullable_of_mem (h : [] ∈ expr.language) : expr.nullable := by
  -- the empty text is made of empty texts
  induction expr with
  | literal text => exact List.isEmpty_iff.mpr (List.map_eq_nil_iff.mp h.symm)
  | codes cs => exact List.isEmpty_iff.mpr h.symm
  | range first last => exact absurd h (nil_notMem_oneOf _)
  | core rule => exact decide_eq_true (by_contra fun hrule => rule.nil_notMem_language hrule h)
  | foreign source => exact absurd h (Language.notMem_zero [])
  | seq a b iha ihb =>
    obtain ⟨u, hu, v, hv, huv⟩ := Language.mem_mul.mp h
    obtain ⟨rfl, rfl⟩ := List.append_eq_nil_iff.mp huv
    exact Bool.and_eq_true_iff.mpr ⟨iha hu, ihb hv⟩
  | alt a b iha ihb => exact Bool.or_eq_true_iff.mpr (h.imp iha ihb)
  | grouped body ih => exact ih h
  | optional body _ => rfl
  | repeated times body ih =>
    obtain ⟨n, hleast, -, hn⟩ := h
    cases n with
    | zero =>
      have hzero : times.least = 0 := Nat.le_zero.mp hleast
      simp [nullable, hzero]
    | succ n =>
      have hbody : [] ∈ body.language := by
        by_contra hne
        rw [pow_succ'] at hn
        exact nil_notMem_mul hne hn
      simp [nullable, ih hbody]

theorem nil_notMem_language (h : expr.nullable = false) : [] ∉ expr.language := fun hnil =>
  Bool.false_ne_true (h.symm.trans (nullable_of_mem hnil))

theorem has_starts (h : Starts expr.language c) : expr.starts.has c.toNat := by
  -- a sequence also starts like its second part if the first can be empty
  induction expr with
  | literal text =>
    obtain ⟨w, hw⟩ := h
    cases text with
    | nil => cases hw
    | cons d text => exact has_eitherCase (List.cons.inj hw).1
  | codes cs =>
    obtain ⟨w, hw⟩ := h
    cases cs with
    | nil => cases hw
    | cons code cs =>
      rw [← (List.cons.inj hw).1]
      exact Text.Ranges.has_iff.mpr ⟨_, List.mem_singleton_self _, Nat.le_refl _, Nat.le_refl _⟩
  | range first last =>
    obtain ⟨w, d, hw, hd⟩ := h
    rw [(List.cons.inj hw).1]
    exact Text.Ranges.has_iff.mpr ⟨_, List.mem_singleton_self _, hd⟩
  | core rule => exact CoreRule.has_starts h
  | foreign source =>
    obtain ⟨w, hw⟩ := h
    exact absurd hw (Language.notMem_zero _)
  | seq a b iha ihb =>
    rw [starts, Text.Ranges.has_append]
    rcases starts_mul h with ha | ⟨hnil, hb⟩
    · exact .inl (iha ha)
    · rw [if_pos (nullable_of_mem hnil)]
      exact .inr (ihb hb)
  | alt a b iha ihb => exact Text.Ranges.has_append.mpr ((starts_add h).imp iha ihb)
  | grouped body ih => exact ih h
  | optional body ih | repeated times body ih => exact ih (starts_copies h)

theorem not_starts_of_apart {a b : Expr} (h : a.starts.Apart b.starts) (c : Char)
    (hc : Starts a.language c) : ¬ Starts b.language c := fun hc' =>
  h.not_has (has_starts hc) (has_starts hc')

theorem separate_of_apart {a b : Expr} (ha : ∀ c, Continues a.language c → a.continues.has c.toNat)
    (hapart : a.continues.Apart b.starts) : Separate a.language b.language := fun c hgoes hstarts =>
  hapart.not_has (ha c hgoes) (has_starts hstarts)

/-- The induction needs that the parts are apart, as the next character then tells them. -/
theorem Predictive.has_continues (h : expr.Predictive) (hc : Continues expr.language c) :
    expr.continues.has c.toNat := by
  induction expr generalizing c with
  | literal text =>
    have hlength : ∀ u ∈ inAnyCase text, u.length = text.length := by
      intro u hu
      simpa using congrArg List.length hu
    exact absurd hc (not_continues_of_length hlength c)
  | codes cs =>
    have hlength : ∀ u ∈ ofCodes cs, u.length = cs.length := by
      rintro u rfl
      exact (List.length_map Char.toNat).symm
    exact absurd hc (not_continues_of_length hlength c)
  | range first last => exact absurd hc (not_continues_of_length (length_of_oneOf _) c)
  | core rule =>
    cases rule with
    | lwsp => exact absurd rfl h
    | crlf =>
      have hlength : ∀ u ∈ CoreRule.crlf.language, u.length = 2 := by
        intro u hu
        obtain ⟨_, ⟨d, rfl, -⟩, _, ⟨e, rfl, -⟩, rfl⟩ := Language.mem_mul.mp hu
        rfl
      exact absurd hc (not_continues_of_length hlength c)
    | _ => exact absurd hc (not_continues_of_length (length_of_oneOf _) c)
  | foreign source => exact h.elim
  | seq a b iha ihb =>
    obtain ⟨ha, hb, hapart⟩ := h
    have hsep := separate_of_apart (fun c => iha ha) hapart
    rw [continues, Text.Ranges.has_append]
    rcases continues_mul hsep hc with hc | ⟨hnil, hc⟩
    · exact .inl (ihb hb hc)
    · -- the second part may be empty, and then the first one goes on
      rw [if_pos (nullable_of_mem hnil)]
      exact .inr (iha ha hc)
  | alt a b iha ihb =>
    obtain ⟨ha, hb, hnullable, hapart⟩ := h
    rw [continues, Text.Ranges.has_append, Text.Ranges.has_append]
    rcases continues_add (nil_notMem_language hnullable) (not_starts_of_apart hapart) hc with
      hc | hc | ⟨hnil, hc⟩
    · exact .inl (iha ha hc)
    · exact .inr (.inl (ihb hb hc))
    · rw [if_pos (nullable_of_mem hnil)]
      exact .inr (.inr (has_starts hc))
  | grouped body ih => exact ih h hc
  | optional body ih =>
    -- one body or nothing, where the body comes first
    rw [language, copies_zero_one, add_comm] at hc
    rw [continues, Text.Ranges.has_append]
    rcases continues_add (nil_notMem_language h.2) (fun d _ => not_starts_one d) hc with
      hc | ⟨u, w, -, hw⟩ | ⟨-, hc⟩
    · exact .inl (ih h.1 hc)
    · exact absurd ((Language.mem_one _).mp hw) (by simp)
    · exact .inr (has_starts hc)
  | repeated times body ih =>
    obtain ⟨hbody, -, hapart⟩ := h
    have hsep := separate_of_apart (fun c => ih hbody) hapart
    rw [continues, Text.Ranges.has_append]
    exact (continues_copies hsep hc).imp (ih hbody) has_starts

theorem Predictive.separate {a b : Expr} (h : a.Predictive) (hapart : a.continues.Apart b.starts) :
    Separate a.language b.language := separate_of_apart (fun _ => h.has_continues) hapart

/-! ## The first way is the longest -/

theorem Proper.ways_node (h : expr.Proper (fun _ => False) bare) :
    (expr.node .exact).ways = expr.ends {} := by
  rw [← h.ways_pattern]
  exact congrArg (fun e => (node .exact e).ways) expr.seen_false.symm

theorem Proper.leads_ends (h : expr.Proper (fun _ => False) bare) :
    Leads (expr.ends {}) expr.language := by
  rw [← h.ways_node]
  exact h.denotes

/-- Items that can end in one place each do so together. -/
theorem length_ways_sequence_le {items : List Item}
    (h : ∀ item ∈ items, ∀ p, (item.node.ways p).length ≤ 1) (p : Place) :
    ((Item.sequence items).ways p).length ≤ 1 := by
  induction items generalizing p with
  | nil => exact Nat.le_refl 1
  | cons item items ih =>
    rw [List.forall_mem_cons] at h
    have hways : (Item.sequence (item :: items)).ways p =
        (item.node.ways p).flatMap (Item.sequence items).ways := rfl
    rw [hways]
    match hfirst : item.node.ways p, h.1 p with
    | [], _ => exact Nat.zero_le 1
    | [q], _ =>
      rw [List.flatMap_singleton]
      exact ih h.2 q

theorem length_ways_charNode_le (rule : CaseRule) (c : Char) (p : Place) :
    ((charNode rule c).ways p).length ≤ 1 := by
  unfold charNode
  split <;> exact Option.length_toList_le

/-- A core rule that is no repeat can end in one place. -/
theorem length_ways_items_le {rule : CoreRule} (h : rule ≠ .lwsp) :
    ∀ item ∈ rule.items .exact, ∀ p, (item.node.ways p).length ≤ 1 := by
  cases rule with
  | lwsp => exact absurd rfl h
  | crlf =>
    refine List.forall_mem_cons.mpr ⟨fun p => Option.length_toList_le, ?_⟩
    exact List.forall_mem_singleton.mpr fun p => Option.length_toList_le
  | _ => exact List.forall_mem_singleton.mpr fun p => Option.length_toList_le

/-- **A predictive expression is tried from the longest way to the shortest.** -/
theorem Predictive.descends_ends (h : expr.Predictive) (hproper : expr.Proper (fun _ => False) bare)
    (p : Place) : Descends (expr.ends {} p) := by
  -- the ways of a sequence are those of its first part, longest first, and for each of them those
  -- of the second: since no way of the first goes on as the second starts, a longer first part wins
  induction expr generalizing bare p with
  | literal text =>
    refine descends_of_length_le (length_ways_sequence_le ?_ p)
    exact List.forall_mem_map.mpr fun c _ p => length_ways_charNode_le .exact c p
  | codes cs =>
    refine descends_of_length_le (length_ways_sequence_le ?_ p)
    exact List.forall_mem_map.mpr fun code _ p => Option.length_toList_le
  | range first last =>
    refine descends_of_length_le (length_ways_sequence_le ?_ p)
    exact List.forall_mem_singleton.mpr fun p => Option.length_toList_le
  | core rule =>
    rw [← hproper.ways_node]
    exact descends_of_length_le (length_ways_sequence_le (length_ways_items_le h) p)
  | foreign source => exact h.elim
  | seq a b iha ihb =>
    obtain ⟨ha, hb, hapart⟩ := h
    exact descends_flatMap (ha.separate hapart) (fun q => (hproper.1.leads_ends p q).mp)
      (fun q r => (hproper.2.leads_ends q r).mp) (iha ha hproper.1 p)
      fun q _ => ihb hb hproper.2 q
  | alt a b iha ihb =>
    obtain ⟨ha, hb, hnullable, hapart⟩ := h
    exact descends_append (nil_notMem_language hnullable) (not_starts_of_apart hapart)
      (fun q => (hproper.2.1.leads_ends p q).mp) (fun q => (hproper.2.2.leads_ends p q).mp)
      (iha ha hproper.2.1 p) (ihb hb hproper.2.2 p)
  | grouped body ih => exact ih h hproper p
  | optional body ih =>
    have hbody : body.Proper (fun _ => False) true := hproper
    rw [ends, roundsWays_zero_one]
    exact descends_append_self (nil_notMem_language h.2) (fun q => (hbody.leads_ends p q).mp)
      (ih h.1 hbody p)
  | repeated times body ih =>
    obtain ⟨hbody, hnullable, hapart⟩ := h
    exact descends_roundsWays hproper.2.leads_ends (ih hbody hproper.2) (hbody.separate hapart)
      (nil_notMem_language hnullable) times.least times.most p

/--
A predictive rule takes the longest of its texts that comes next, or nothing if none comes next.
-/
theorem Predictive.match?_cases (h : expr.Predictive) (hproper : expr.Proper (fun _ => False) bare)
    (cursor : Cursor) :
    (cursor.match? (expr.pattern {}) = none ∧ ∀ u ∈ expr.language, ¬ u <+: cursor.after) ∨
      ∃ u later, cursor.match? (expr.pattern {}) = some (⟨u, [], []⟩, later) ∧
        IsLongest expr.language cursor.after u ∧ Cursor.Advances u cursor later := by
  have hleads := hproper.leads_ends
  have hdenotes : Denotes (expr.pattern {}).node expr.language := by
    rw [Denotes, hproper.ways_pattern]
    exact hleads
  rcases Cursor.match?_cases hdenotes cursor with hnone | ⟨found, later, hmatch, -, hadvances⟩
  · exact .inl hnone
  · obtain ⟨q, hq, heq⟩ := Option.map_eq_some_iff.mp hmatch
    -- what is found is the first way, and the ways come with the longest first
    have hfirst : (expr.ends {} cursor.place).head? = some q := by
      rwa [Pattern.end?, Node.attempt_eq, findSome?_some, hproper.ways_pattern] at hq
    obtain ⟨u, hmoves, hlongest⟩ := hleads.isLongest (h.descends_ends hproper _) hfirst
    have hfound : found = ⟨u, [], []⟩ := by
      rw [← (Prod.mk.inj heq).1, ← hmoves.upTo_eq]
      rfl
    rw [hfound] at hmatch hadvances
    exact .inr ⟨u, later, hmatch, hlongest, hadvances⟩

end Expr

end Grammar

end Abnf
