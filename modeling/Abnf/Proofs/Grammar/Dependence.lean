import Abnf.Proofs.Grammar.Resolution
import Mathlib.Data.List.Forall2

/-!
# What a phrase depends on

Of the rules defined so far a phrase sees those that it refers to, and of the limit on nesting only
whether its own groups keep to it. And what it stands for is put together from what they stand for,
so that alike parts give alike wholes. `Phrase.resolve_rel` says both at once, for any notion of
being alike that putting together respects (`Congruence`); being equal is one of them
(`Phrase.resolve_congr`). `Scope.addAll?_rel` goes on with rules in order.
-/

namespace Option

variable {α α' β β' : Type} {R : α → β → Prop} {S : α' → β' → Prop} {x : Option α} {y : Option β}

theorem Rel.map {f : α → α'} {g : β → β'} (h : Rel R x y) (hS : ∀ a b, R a b → S (f a) (g b)) :
    Rel S (x.map f) (y.map g) := by
  cases h with
  | none => exact .none
  | some h => exact .some (hS _ _ h)

theorem Rel.bind {f : α → Option α'} {g : β → Option β'} (h : Rel R x y)
    (hS : ∀ a b, R a b → Rel S (f a) (g b)) : Rel S (x.bind f) (y.bind g) := by
  cases h with
  | none => exact .none
  | some h => exact hS _ _ h

end Option

namespace Abnf.Grammar

open Token

variable {R : Expr → Expr → Prop} {scope scope' : Scope} {p : Phrase} {depth depth' : Nat}
  {rules rules' : Rules} {a b : Expr} {name : Name} {d : Definition} {ds : List Definition}

/-! ## Phrases -/

/-- The names that a phrase refers to. -/
def Phrase.mentioned : Phrase → List Name
  | reference name => [keyOf name]
  | quoted _ | prose _ | codes _ => []
  | group body | option body | times _ body => body.mentioned
  | seq a b | alt a b => a.mentioned ++ b.mentioned

/-- A relation that every way of putting expressions together respects. -/
structure Congruence (R : Expr → Expr → Prop) : Prop where
  refl (e : Expr) : R e e
  seq {a a' b b' : Expr} : R a a' → R b b' → R (.seq a b) (.seq a' b')
  optional {a a' : Expr} : R a a' → R (.optional a) (.optional a')
  repeated {times : Repeat} {a a' : Expr} : R a a' → R (.repeated times a) (.repeated times a')
  anyOf {a a' : Expr} {more more' : List Expr} :
    R a a' → List.Forall₂ R more more' → R (.anyOf a more) (.anyOf a' more')

theorem congruence_eq : Congruence Eq where
  refl _ := rfl
  seq := by rintro _ _ _ _ rfl rfl; rfl
  optional := by rintro _ _ rfl; rfl
  repeated := by rintro _ _ _ rfl; rfl
  anyOf := by
    rintro _ _ _ _ rfl hmore
    rw [List.forall₂_eq_eq_eq] at hmore
    rw [hmore]

/-- What two phrases stand for, alternative by alternative. -/
def AlikeChoices (R : Expr → Expr → Prop) (r s : Expr × List Expr) : Prop :=
  R r.1 s.1 ∧ List.Forall₂ R r.2 s.2

theorem AlikeChoices.anyOf {r s : Expr × List Expr} (hR : Congruence R) (h : AlikeChoices R r s) :
    R (.anyOf r.1 r.2) (.anyOf s.1 s.2) :=
  hR.anyOf h.1 h.2

theorem AlikeChoices.single (h : R a b) : AlikeChoices R (a, []) (b, []) := ⟨h, .nil⟩

/-- A phrase depends on what it refers to, if there is room for its groups. -/
theorem Phrase.resolve_rel (hR : Congruence R)
    (hfind : ∀ name ∈ p.mentioned, Option.Rel R (scope.find? name) (scope'.find? name))
    (hdepth : p.nesting ≤ depth) (hdepth' : p.nesting ≤ depth') :
    Option.Rel (AlikeChoices R) (p.resolve scope depth) (p.resolve scope' depth') := by
  induction p generalizing depth depth' with
  | reference name => exact (hfind _ List.mem_cons_self).map fun _ _ => .single
  | quoted text | prose text => exact .some (.single (hR.refl _))
  | codes numbers =>
    rw [resolve, resolve]
    split
    · exact .some (.single (hR.refl _))
    · exact .none
  | group body ih =>
    -- both limits on nesting allow to go in
    obtain ⟨n, rfl⟩ := Nat.exists_eq_add_of_le' (Nat.le_of_add_left_le hdepth)
    obtain ⟨n', rfl⟩ := Nat.exists_eq_add_of_le' (Nat.le_of_add_left_le hdepth')
    have hbody := ih hfind (Nat.le_of_succ_le_succ hdepth) (Nat.le_of_succ_le_succ hdepth')
    exact hbody.map fun _ _ h => .single (h.anyOf hR)
  | option body ih =>
    obtain ⟨n, rfl⟩ := Nat.exists_eq_add_of_le' (Nat.le_of_add_left_le hdepth)
    obtain ⟨n', rfl⟩ := Nat.exists_eq_add_of_le' (Nat.le_of_add_left_le hdepth')
    have hbody := ih hfind (Nat.le_of_succ_le_succ hdepth) (Nat.le_of_succ_le_succ hdepth')
    exact hbody.map fun _ _ h => .single (hR.optional (h.anyOf hR))
  | times bounds body ih =>
    rw [resolve, resolve]
    split
    · exact (ih hfind hdepth hdepth').map fun _ _ h => .single (hR.repeated (h.anyOf hR))
    · exact .none
  | seq a b iha ihb =>
    obtain ⟨ha, hb⟩ := Nat.max_le.mp hdepth
    obtain ⟨ha', hb'⟩ := Nat.max_le.mp hdepth'
    have hfirst := iha (fun name h => hfind name (List.mem_append_left _ h)) ha ha'
    have hsecond := ihb (fun name h => hfind name (List.mem_append_right _ h)) hb hb'
    exact hfirst.bind fun _ _ h => hsecond.map fun _ _ h' =>
      .single (hR.seq (h.anyOf hR) (h'.anyOf hR))
  | alt a b iha ihb =>
    obtain ⟨ha, hb⟩ := Nat.max_le.mp hdepth
    obtain ⟨ha', hb'⟩ := Nat.max_le.mp hdepth'
    have hfirst := iha (fun name h => hfind name (List.mem_append_left _ h)) ha ha'
    have hsecond := ihb (fun name h => hfind name (List.mem_append_right _ h)) hb hb'
    exact hfirst.bind fun _ _ h => hsecond.map fun _ _ h' => ⟨h.anyOf hR, .cons h'.1 h'.2⟩

theorem Phrase.expr?_rel (hR : Congruence R)
    (hfind : ∀ name ∈ p.mentioned, Option.Rel R (scope.find? name) (scope'.find? name))
    (hdepth : p.nesting ≤ depth) (hdepth' : p.nesting ≤ depth') :
    Option.Rel R (p.expr? scope depth) (p.expr? scope' depth') :=
  (resolve_rel hR hfind hdepth hdepth').map fun _ _ h => h.anyOf hR

/-- Where there is no room for the groups of a phrase, it stands for nothing on either side. -/
theorem Phrase.expr?_rel_same (hR : Congruence R)
    (hfind : ∀ name ∈ p.mentioned, Option.Rel R (scope.find? name) (scope'.find? name)) :
    Option.Rel R (p.expr? scope depth) (p.expr? scope' depth) := by
  by_cases hdepth : p.nesting ≤ depth
  · exact expr?_rel hR hfind hdepth hdepth
  · -- whether there is room is no matter of the scope
    have hnone (scope : Scope) : p.expr? scope depth = none := by
      rw [← Option.not_isSome_iff_eq_none, expr?_isSome_iff]
      exact fun h => hdepth h.1
    rw [hnone, hnone]
    exact .none

theorem rel_eq {x y : Option Expr} : Option.Rel Eq x y ↔ x = y := by
  constructor
  · intro h
    cases h with
    | none => rfl
    | some h => exact congrArg some h
  · rintro rfl
    cases x with
    | none => exact .none
    | some e => exact .some rfl

/-- Where the names that it mentions stand for the same, a phrase does. -/
theorem Phrase.expr?_congr (hfind : ∀ name ∈ p.mentioned, scope.find? name = scope'.find? name)
    (hdepth : p.nesting ≤ depth) (hdepth' : p.nesting ≤ depth') :
    p.expr? scope depth = p.expr? scope' depth' :=
  rel_eq.mp (expr?_rel congruence_eq (fun name h => rel_eq.mpr (hfind name h)) hdepth hdepth')

/-! ## Rules in order -/

/-- The same names in order, for expressions that are alike. -/
def AlikeRules (R : Expr → Expr → Prop) : Rules → Rules → Prop :=
  List.Forall₂ fun rule rule' => rule.1 = rule'.1 ∧ R rule.2 rule'.2

/-- The same names, given and defined, for expressions that are alike. -/
structure Scope.Alike (R : Expr → Expr → Prop) (scope scope' : Scope) : Prop where
  given : scope.given = scope'.given
  defined : AlikeRules R scope.defined scope'.defined

theorem AlikeRules.find? (h : AlikeRules R rules rules') (name : Name) :
    Option.Rel R (rules.find? name) (rules'.find? name) := by
  induction h with
  | nil => exact .none
  | @cons rule rule' _ _ hrule _ ih =>
    rw [Rules.find?_cons, Rules.find?_cons, ← hrule.1]
    split
    · exact .some hrule.2
    · exact ih

theorem AlikeRules.define (h : AlikeRules R rules rules') (name : Name) (hab : R a b) :
    AlikeRules R (rules.define name a) (rules'.define name b) := by
  induction h with
  | nil => exact .cons ⟨rfl, hab⟩ .nil
  | @cons rule rule' _ _ hrule hrest ih =>
    rw [Rules.define, Rules.define, ← hrule.1]
    split
    · exact .cons ⟨rfl, hab⟩ hrest
    · exact .cons hrule ih

namespace Scope.Alike

theorem refl (hR : Congruence R) (scope : Scope) : scope.Alike R scope :=
  ⟨rfl, List.forall₂_same.mpr fun rule _ => ⟨rfl, hR.refl rule.2⟩⟩

theorem isReserved (h : scope.Alike R scope') (name : Name) :
    scope.isReserved name = scope'.isReserved name := by
  rw [Scope.isReserved, Scope.isReserved, h.given]

theorem find? (hR : Congruence R) (h : scope.Alike R scope') (name : Name) :
    Option.Rel R (scope.find? name) (scope'.find? name) := by
  unfold Scope.find?
  rw [h.given]
  cases CoreRule.ofName? name with
  | some rule => exact .some (hR.refl _)
  | none =>
    cases scope'.given.find? name with
    | some expr => exact .some (hR.refl _)
    | none => exact h.defined.find? name

theorem define (h : scope.Alike R scope') (name : Name) (hab : R a b) :
    (scope.define name a).Alike R (scope'.define name b) :=
  ⟨h.given, h.defined.define name hab⟩

/-- One more rule on both sides. -/
theorem add? [Interpreter] (hR : Congruence R) (h : scope.Alike R scope') (d : Definition) :
    Option.Rel (Alike R) (scope.add? d) (scope'.add? d) := by
  have hbody : Option.Rel R (d.body.expr? scope (depthLimit - 1))
      (d.body.expr? scope' (depthLimit - 1)) :=
    Phrase.expr?_rel_same hR fun name _ => h.find? hR name
  unfold Scope.add?
  rw [h.isReserved]
  split
  · exact .none
  · split
    · -- a rule that adds joins what it finds and what it says, both alike
      refine (h.defined.find? d.key).bind fun old old' hold => hbody.map fun new new' hnew => ?_
      exact h.define d.key (hR.anyOf hold (.cons hnew .nil))
    · exact hbody.map fun _ _ => h.define d.key

/-- Rules in order keep scopes alike, and are refused by both or by neither. -/
theorem addAll? [Interpreter] (hR : Congruence R) (h : scope.Alike R scope')
    (ds : List Definition) :
    Option.Rel (Alike R) (scope.addAll? ds) (scope'.addAll? ds) := by
  induction ds generalizing scope scope' with
  | nil => exact .some h
  | cons d ds ih => exact (h.add? hR d).bind fun _ _ hmid => ih hmid

end Scope.Alike

end Abnf.Grammar
