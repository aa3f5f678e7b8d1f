import Abnf.Grammar.Reader
import Abnf.Proofs.Grammar.Phrase

/-!
# What phrases stand for, and which stand for something

The reader resolves references, bounds and numbers on the way. Here the same is done to a phrase
that has been read already, so that reading can be split in two: which phrase a text says, and what
that phrase stands for among the rules defined so far.

A phrase may stand for nothing. `Legal` is what the notation itself asks: rules defined before they
are referred to, bounds and ranges the right way around, numbers that are code points. `Fits` and
`nesting` are about the two limits of the implementation. `Phrase.resolve_isSome_iff` says that a
phrase stands for something exactly if it is legal and within the limits, and
`Scope.addAll?_isSome_iff` says so of rules in order.
-/

namespace Abnf.Grammar

open Token

/-! ## Numerals -/

namespace Token

/-- The number that the digits of a base count in. -/
def Base.radix : Base → Nat
  | binary => 2
  | decimal => 10
  | hexadecimal => 16

/-- The number that digits spell. -/
def Base.number (base : Base) (digits : List Char) : Nat := Text.numeralValue base.radix digits

/-- Only decimal numerals have a limit to their length. -/
def Base.Fits (base : Base) (digits : List Char) : Prop :=
  base = decimal → digits.length ≤ Text.decimalLimit

instance (base : Base) (digits : List Char) : Decidable (base.Fits digits) :=
  inferInstanceAs (Decidable (_ → _))

namespace Bounds

/-- If both bounds are given, the lower one is no greater than the upper one. -/
def Legal : Bounds → Prop
  | exact _ => True
  | range least most =>
    least ≠ [] → most ≠ [] → Base.decimal.number least ≤ Base.decimal.number most

/-- No numeral is too long. -/
def Fits : Bounds → Prop
  | exact count => Base.decimal.Fits count
  | range least most => Base.decimal.Fits least ∧ Base.decimal.Fits most

instance : (bounds : Bounds) → Decidable bounds.Legal
  | exact _ => .isTrue trivial
  | range _ _ => inferInstanceAs (Decidable (_ → _ → _))

instance : (bounds : Bounds) → Decidable bounds.Fits
  | exact _ => inferInstanceAs (Decidable (Base.Fits _ _))
  | range _ _ => inferInstanceAs (Decidable (_ ∧ _))

/-- The repeat that bounds ask for. -/
def times : Bounds → Repeat
  | exact count => .exactly (Base.decimal.number count)
  | range [] [] => .any
  | range least [] => .atLeast (Base.decimal.number least)
  | range [] most => .atMost (Base.decimal.number most)
  | range least most => .between (Base.decimal.number least) (Base.decimal.number most)

end Bounds

namespace Numbers

/-- The ends of a range are in order, and every number is a code point. -/
def Legal : Numbers → Prop
  | row base first more => ∀ digits ∈ first :: more, base.number digits ≤ highestCode
  | range base first last =>
    base.number first < base.number last ∧ base.number first ≤ highestCode ∧
      base.number last ≤ highestCode

/-- No numeral is too long. -/
def Fits : Numbers → Prop
  | row base first more => ∀ digits ∈ first :: more, base.Fits digits
  | range base first last => base.Fits first ∧ base.Fits last

instance : (numbers : Numbers) → Decidable numbers.Legal
  | row _ _ _ => inferInstanceAs (Decidable (∀ _ ∈ _, _))
  | range _ _ _ => inferInstanceAs (Decidable (_ ∧ _ ∧ _))

instance : (numbers : Numbers) → Decidable numbers.Fits
  | row _ _ _ => inferInstanceAs (Decidable (∀ _ ∈ _, Base.Fits _ _))
  | range _ _ _ => inferInstanceAs (Decidable (_ ∧ _))

/-- The characters that numbers ask for. -/
def expr : Numbers → Expr
  | row base first more => .codes ((first :: more).map base.number)
  | range base first last => .range (base.number first) (base.number last)

end Numbers

end Token

/-! ## Phrases -/

/-- A name as it is looked up. -/
def keyOf (name : List Char) : Name := name.map Text.asciiLower

namespace Phrase

/-- What the notation asks of a phrase, where some names are defined. -/
def Legal (defined : Name → Prop) : Phrase → Prop
  | reference name => defined (keyOf name)
  | quoted _ | prose _ => True
  | codes numbers => numbers.Legal
  | group body | option body => body.Legal defined
  | times bounds body => bounds.Legal ∧ body.Legal defined
  | seq a b | alt a b => a.Legal defined ∧ b.Legal defined

/-- No decimal numeral is too long. -/
def Fits : Phrase → Prop
  | reference _ | quoted _ | prose _ => True
  | codes numbers => numbers.Fits
  | group body | option body => body.Fits
  | times bounds body => bounds.Fits ∧ body.Fits
  | seq a b | alt a b => a.Fits ∧ b.Fits

/-- How deeply groups nest. -/
def nesting : Phrase → Nat
  | reference _ | quoted _ | prose _ | codes _ => 0
  | group body | option body => body.nesting + 1
  | times _ body => body.nesting
  | seq a b | alt a b => max a.nesting b.nesting

/--
What a phrase stands for: the first alternative and the others. Groups nest at most so deeply.
-/
def resolve (scope : Scope) : Phrase → (depth : Nat) → Option (Expr × List Expr)
  | reference name, _ => (scope.find? (keyOf name)).map (·, [])
  | quoted text, _ | prose text, _ => some (.literal text, [])
  | codes numbers, _ => if numbers.Legal ∧ numbers.Fits then some (numbers.expr, []) else none
  | group _, 0 | option _, 0 => none
  | group body, depth + 1 => (body.resolve scope depth).map fun r => (.anyOf r.1 r.2, [])
  | option body, depth + 1 =>
    (body.resolve scope depth).map fun r => (.optional (.anyOf r.1 r.2), [])
  | times bounds body, depth =>
    if bounds.Legal ∧ bounds.Fits then
      (body.resolve scope depth).map fun r => (.repeated bounds.times (.anyOf r.1 r.2), [])
    else none
  | seq a b, depth =>
    (a.resolve scope depth).bind fun r =>
      (b.resolve scope depth).map fun s => (.seq (.anyOf r.1 r.2) (.anyOf s.1 s.2), [])
  | alt a b, depth =>
    (a.resolve scope depth).bind fun r =>
      (b.resolve scope depth).map fun s => (.anyOf r.1 r.2, s.1 :: s.2)

/-- What a phrase stands for as one expression. -/
def expr? (scope : Scope) (depth : Nat) (p : Phrase) : Option Expr :=
  (p.resolve scope depth).map fun r => .anyOf r.1 r.2

theorem expr?_group_succ {scope : Scope} {depth : Nat} {body : Phrase} :
    (group body).expr? scope (depth + 1) = body.expr? scope depth := by
  simp [expr?, resolve, Expr.anyOf, Function.comp_def]

theorem isSome_bind_map {α β γ : Type} {x : Option α} {y : Option β} {f : α → β → γ} :
    (x.bind fun a => y.map (f a)).isSome ↔ x.isSome ∧ y.isSome := by
  cases x <;> cases y <;> simp

/-- A phrase stands for something exactly if it is legal and within the limits. -/
theorem resolve_isSome_iff {scope : Scope} {p : Phrase} {depth : Nat} :
    (p.resolve scope depth).isSome ↔
      p.nesting ≤ depth ∧ p.Fits ∧ p.Legal fun name => (scope.find? name).isSome := by
  induction p generalizing depth with
  | reference name => simp [resolve, nesting, Fits, Legal]
  | quoted text => simp [resolve, nesting, Fits, Legal]
  | prose text => simp [resolve, nesting, Fits, Legal]
  | codes numbers =>
    simp only [resolve, nesting, Fits, Legal]
    split <;> simp_all [and_comm]
  -- parentheses and brackets go one level down, and at depth zero there is none
  | group body ih => cases depth <;> simp [resolve, nesting, Fits, Legal, ih]
  | option body ih => cases depth <;> simp [resolve, nesting, Fits, Legal, ih]
  -- both sides ask the bounds first
  | times bounds body ih =>
    simp only [resolve, nesting, Fits, Legal]
    split
    · rename_i h
      simp [ih, h]
    · rename_i h
      simp only [Option.isSome_none, Bool.false_eq_true, false_iff]
      exact fun ⟨_, ⟨hfits, _⟩, hlegal, _⟩ => h ⟨hlegal, hfits⟩
  | seq a b iha ihb =>
    rw [resolve, isSome_bind_map, iha, ihb]
    simp only [nesting, Fits, Legal, Nat.max_le]
    grind
  | alt a b iha ihb =>
    rw [resolve, isSome_bind_map, iha, ihb]
    simp only [nesting, Fits, Legal, Nat.max_le]
    grind

/-- The same of a phrase as one expression: putting its alternatives together cannot fail. -/
theorem expr?_isSome_iff {scope : Scope} {p : Phrase} {depth : Nat} :
    (p.expr? scope depth).isSome ↔
      p.nesting ≤ depth ∧ p.Fits ∧ p.Legal fun name => (scope.find? name).isSome := by
  rw [expr?, Option.isSome_map, resolve_isSome_iff]

/-- Legality depends on the names that are defined and nothing else. -/
theorem legal_congr {defined defined' : Name → Prop} (h : ∀ name, defined name ↔ defined' name)
    (p : Phrase) : p.Legal defined ↔ p.Legal defined' := by
  rw [show defined = defined' from funext fun name => propext (h name)]

end Phrase

/-! ## Rules and what they define -/

/-- The first rule with a name is the one that is found. -/
theorem Rules.find?_cons (rule : Name × Expr) (rest : Rules) (name : Name) :
    Rules.find? (rule :: rest) name = if name = rule.1 then some rule.2 else rest.find? name := by
  unfold Rules.find?
  rw [List.lookup_cons]
  by_cases h : name = rule.1
  · rw [beq_iff_eq.mpr h, if_pos h]
  · rw [beq_eq_false_iff_ne.mpr h, if_neg h]

/-- A rule that is defined is found under its name, and the others are found as before. -/
theorem Rules.find?_define (rules : Rules) (name other : Name) (expr : Expr) :
    (rules.define name expr).find? other =
      if other = name then some expr else rules.find? other := by
  induction rules with
  | nil => rw [Rules.define, Rules.find?_cons]
  | cons rule rest ih =>
    rw [Rules.define, Rules.find?_cons]
    -- either this is the rule that is replaced, or the definition goes on behind it
    split
    · rename_i hfirst
      rw [Rules.find?_cons, hfirst]
      split <;> rfl
    · rename_i hfirst
      rw [Rules.find?_cons, ih]
      grind

/-- A name that may be defined is looked up among what is defined. -/
theorem Scope.find?_of_not_reserved {scope : Scope} {name : Name}
    (h : scope.isReserved name = false) : scope.find? name = scope.defined.find? name := by
  simp only [isReserved, Bool.or_eq_false_iff, Option.isSome_eq_false_iff,
    Option.isNone_iff_eq_none]
    at h
  simp [find?, h.1, h.2]

/-- No rule that is given has the name of one that is defined, and no core rule either. -/
theorem Scope.find?_define {scope : Scope} {name : Name} (h : scope.isReserved name = false)
    (other : Name) (expr : Expr) :
    (scope.define name expr).find? other =
      if other = name then some expr else scope.find? other := by
  simp only [isReserved, Bool.or_eq_false_iff, Option.isSome_eq_false_iff,
    Option.isNone_iff_eq_none]
    at h
  unfold Scope.find? Scope.define
  by_cases hother : other = name
  · subst hother
    simp [h.1, h.2, Rules.find?_define]
  · simp [Rules.find?_define, hother]

/-! ## Rules in order -/

/-- The name that a rule is kept under. -/
def Definition.key (d : Definition) : Name := keyOf d.name

section

variable [Interpreter]

/-- The scope with one more rule read. -/
def Scope.add? (scope : Scope) (d : Definition) : Option Scope :=
  if scope.isReserved d.key then none
  else if d.adds then
    (scope.defined.find? d.key).bind fun old =>
      (d.body.expr? scope (depthLimit - 1)).map fun expr =>
        scope.define d.key (.grouped (.alt old expr))
  else (d.body.expr? scope (depthLimit - 1)).map (scope.define d.key)

/-- The scope with rules read in order. -/
def Scope.addAll? (scope : Scope) : List Definition → Option Scope
  | [] => some scope
  | d :: ds => (scope.add? d).bind (·.addAll? ds)

/--
What the notation asks of rules that are read in order, where some names are defined already: no
core rule is defined, a rule is there before it is added to, and every body is legal where it
stands.
-/
def LegalRules : (defined : List Name) → List Definition → Prop
  | _, [] => True
  | defined, d :: ds =>
    CoreRule.ofName? d.key = none ∧ (d.adds → d.key ∈ defined) ∧
      d.body.Legal (fun name => (CoreRule.ofName? name).isSome ∨ name ∈ defined) ∧
      LegalRules (d.key :: defined) ds

/--
What one more rule does to a scope: its name is defined, as what its body stands for, or as that
beside what there was.
-/
theorem Scope.exists_of_add? {scope scope' : Scope} {d : Definition}
    (h : scope.add? d = some scope') :
    scope.isReserved d.key = false ∧ ∃ body, d.body.expr? scope (depthLimit - 1) = some body ∧
      ((d.adds = false ∧ scope' = scope.define d.key body) ∨
        (d.adds = true ∧ ∃ old, scope.find? d.key = some old ∧
          scope' = scope.define d.key (.grouped (.alt old body)))) := by
  unfold Scope.add? at h
  split at h
  · cases h
  · rename_i hreserved
    rw [Bool.not_eq_true] at hreserved
    refine ⟨hreserved, ?_⟩
    split at h
    · rename_i hadds
      obtain ⟨old, hold, h⟩ := Option.bind_eq_some_iff.mp h
      obtain ⟨body, hbody, rfl⟩ := Option.map_eq_some_iff.mp h
      -- what is added to was defined, and not given
      rw [← Scope.find?_of_not_reserved hreserved] at hold
      exact ⟨body, hbody, .inr ⟨hadds, old, hold, rfl⟩⟩
    · rename_i hadds
      obtain ⟨body, hbody, rfl⟩ := Option.map_eq_some_iff.mp h
      exact ⟨body, hbody, .inl ⟨by simpa using hadds, rfl⟩⟩

/-- One more rule defines its own name and no other. -/
theorem Scope.exists_define_of_add? {scope scope' : Scope} {d : Definition}
    (h : scope.add? d = some scope') : ∃ expr, scope' = scope.define d.key expr := by
  obtain ⟨-, body, -, ⟨-, rfl⟩ | ⟨-, old, -, rfl⟩⟩ := Scope.exists_of_add? h
  · exact ⟨_, rfl⟩
  · exact ⟨_, rfl⟩

/--
A rule can be read if its name is free, what it adds to is there and its body stands for something.
-/
theorem Scope.add?_isSome_iff {scope : Scope} {d : Definition} :
    (scope.add? d).isSome ↔
      scope.isReserved d.key = false ∧ (d.adds → (scope.defined.find? d.key).isSome) ∧
        (d.body.expr? scope (depthLimit - 1)).isSome := by
  unfold Scope.add?
  split
  · rename_i hreserved
    simp [hreserved]
  · rename_i hreserved
    split
    · rename_i hadds
      rw [Phrase.isSome_bind_map]
      simp [hreserved, hadds]
    · rename_i hadds
      simp [hreserved, hadds]

/--
Where nothing is given, rules in order stand for something exactly if they are legal and within the
limits.
-/
theorem Scope.addAll?_isSome_iff {scope : Scope} {defined : List Name} (hgiven : scope.given = [])
    (hdefined : ∀ name, (scope.defined.find? name).isSome ↔ name ∈ defined) (ds : List Definition) :
    (scope.addAll? ds).isSome ↔
      LegalRules defined ds ∧ ∀ d ∈ ds, d.body.nesting < depthLimit ∧ d.body.Fits := by
  induction ds generalizing scope defined with
  | nil => simp [Scope.addAll?, LegalRules]
  | cons d ds ih =>
    -- what `find?`, `isReserved` and `expr?` ask, said with the names that are defined
    have hfind (name : Name) :
        (scope.find? name).isSome ↔ (CoreRule.ofName? name).isSome ∨ name ∈ defined := by
      unfold Scope.find?
      rw [hgiven, ← hdefined]
      cases CoreRule.ofName? name <;> simp [Rules.find?]
    have hreserved : scope.isReserved d.key = false ↔ CoreRule.ofName? d.key = none := by
      simp [Scope.isReserved, hgiven, Rules.find?]
    have hbody : (d.body.expr? scope (depthLimit - 1)).isSome ↔ d.body.nesting < depthLimit ∧
        d.body.Fits ∧ d.body.Legal fun name => (CoreRule.ofName? name).isSome ∨ name ∈ defined := by
      rw [Phrase.expr?_isSome_iff, Phrase.legal_congr hfind, Nat.lt_iff_le_pred depthLimit_pos]
    have hadd : (scope.add? d).isSome ↔ CoreRule.ofName? d.key = none ∧ (d.adds → d.key ∈ defined) ∧
        d.body.nesting < depthLimit ∧ d.body.Fits ∧
        d.body.Legal fun name => (CoreRule.ofName? name).isSome ∨ name ∈ defined := by
      rw [Scope.add?_isSome_iff, hreserved, hdefined, hbody]
    rw [Scope.addAll?]
    -- if the first rule cannot be read, neither side holds; else the others are read with one name
    -- more
    cases hscope : scope.add? d with
    | none =>
      have hnot := mt hadd.mpr (by simp [hscope])
      simp only [Option.bind_none, Option.isSome_none, LegalRules]
      grind
    | some scope' =>
      have hyes := hadd.mp (by simp [hscope])
      obtain ⟨expr, rfl⟩ := Scope.exists_define_of_add? hscope
      have hnames (name : Name) : ((scope.define d.key expr).defined.find? name).isSome ↔
          name ∈ d.key :: defined := by
        rw [Scope.define, Rules.find?_define, List.mem_cons, ← hdefined]
        split <;> simp_all
      rw [Option.bind_some, @ih (scope.define d.key expr) _ hgiven hnames]
      simp only [LegalRules]
      grind

end

/-! ## What is found is what is kept -/

section

variable {scope scope' : Scope} {expr : Expr} {ds : List Definition}

/-- A name that is defined again stays where it is, and a new one comes last. -/
theorem Rules.names_define (rules : Rules) (name : Name) (expr : Expr) :
    (rules.define name expr).names =
      if name ∈ rules.names then rules.names else rules.names ++ [name] := by
  induction rules with
  | nil => rfl
  | cons rule rest ih =>
    rw [define]
    split
    · rename_i hname
      simp [names, hname]
    · rename_i hname
      have hcons : names (rule :: define rest name expr) =
          rule.1 :: (define rest name expr).names := rfl
      rw [hcons, ih]
      split <;> simp_all [names, Ne.symm]

/-- However often names are defined, each is there once. -/
theorem Rules.nodup_names_define {rules : Rules} (h : rules.names.Nodup) (name : Name)
    (expr : Expr) : (rules.define name expr).names.Nodup := by
  rw [names_define]
  split
  · exact h
  · rename_i hname
    refine List.nodup_append.mpr ⟨h, List.pairwise_singleton _ _, fun other hother _ hname' => ?_⟩
    obtain rfl := List.mem_singleton.mp hname'
    exact ne_of_mem_of_not_mem hother hname

/-- What is found under a name is a rule of that name. -/
theorem Rules.mem_of_find? {rules : Rules} {name : Name} (h : rules.find? name = some expr) :
    (name, expr) ∈ rules := by
  induction rules with
  | nil => cases h
  | cons rule rest ih =>
    rw [Rules.find?_cons] at h
    split at h
    · rename_i hname
      cases h
      rw [hname]
      exact List.mem_cons_self
    · exact List.mem_cons_of_mem _ (ih h)

/-- Where names are distinct, each rule is found under its name. -/
theorem Rules.find?_of_mem {rules : Rules} (h : rules.names.Nodup) {name : Name}
    (hmem : (name, expr) ∈ rules) : rules.find? name = some expr := by
  induction rules with
  | nil => cases hmem
  | cons rule rest ih =>
    obtain ⟨hrule, hrest⟩ := List.nodup_cons.mp h
    rw [Rules.find?_cons]
    rcases List.mem_cons.mp hmem with rfl | hmem
    · exact if_pos rfl
    · have hne : name ≠ rule.1 := by
        rintro rfl
        exact hrule (List.mem_map_of_mem (f := (·.1)) hmem)
      rw [if_neg hne, ih hrest hmem]

/-- What has been defined has distinct names, and what is found under them. -/
structure Scope.Distinct (scope : Scope) : Prop where
  nodup : scope.defined.names.Nodup
  free : ∀ name ∈ scope.defined.names, scope.isReserved name = false

/-- Where nothing is defined yet, names are distinct. -/
theorem Scope.distinct_start {given : Rules} : Scope.Distinct { given := given } :=
  ⟨List.nodup_nil, nofun⟩

/-- What has been defined is found, since neither a core rule nor a given one stands before it. -/
theorem Scope.Distinct.find?_of_mem (h : scope.Distinct) {name : Name}
    (hmem : (name, expr) ∈ scope.defined) : scope.find? name = some expr := by
  rw [Scope.find?_of_not_reserved (h.free name (List.mem_map_of_mem (f := (·.1)) hmem))]
  exact Rules.find?_of_mem h.nodup hmem

/-- One more definition keeps names distinct. -/
theorem Scope.Distinct.define (h : scope.Distinct) {name : Name}
    (hreserved : scope.isReserved name = false) (expr : Expr) :
    (scope.define name expr).Distinct := by
  refine ⟨Rules.nodup_names_define h.nodup name expr, fun other hother => ?_⟩
  rw [Scope.define, Rules.names_define] at hother
  split at hother
  · exact h.free other hother
  · rcases List.mem_append.mp hother with hother | hother
    · exact h.free other hother
    · obtain rfl := List.mem_singleton.mp hother
      exact hreserved

/-- So does any number of rules, read in order. -/
theorem Scope.Distinct.addAll? [Interpreter] (h : scope.Distinct)
    (hadd : scope.addAll? ds = some scope') :
    scope'.Distinct := by
  induction ds generalizing scope with
  | nil =>
    cases hadd
    exact h
  | cons d ds ih =>
    obtain ⟨mid, hmid, hadd⟩ := Option.bind_eq_some_iff.mp hadd
    refine ih ?_ hadd
    obtain ⟨hreserved, body, -, ⟨-, rfl⟩ | ⟨-, old, -, rfl⟩⟩ := Scope.exists_of_add? hmid
    · exact h.define hreserved body
    · exact h.define hreserved _

end

/-! ## More rules in order -/

/-- A name behind the others, unless it is one of them. -/
def addName (names : List Name) (name : Name) : List Name :=
  if name ∈ names then names else names ++ [name]

/-- Names that are there stay in front. -/
theorem prefix_foldl_addName (names more : List Name) : names <+: more.foldl addName names := by
  induction more generalizing names with
  | nil => exact List.prefix_rfl
  | cons name more ih =>
    refine List.IsPrefix.trans ?_ (ih (addName names name))
    rw [addName]
    split
    · exact List.prefix_rfl
    · exact List.prefix_append _ _

variable [Interpreter]

/-- Rules can be read in two goes. -/
theorem Scope.addAll?_append (scope : Scope) (ds es : List Definition) :
    scope.addAll? (ds ++ es) = (scope.addAll? ds).bind (·.addAll? es) := by
  induction ds generalizing scope with
  | nil => rfl
  | cons d ds ih =>
    rw [List.cons_append, addAll?, addAll?, Option.bind_assoc]
    exact congrArg _ (funext ih)

/--
The names of rules in order are there once each, in the order in which they are first defined.
-/
theorem Scope.names_addAll? {scope scope' : Scope} {ds : List Definition}
    (h : scope.addAll? ds = some scope') :
    scope'.defined.names = (ds.map Definition.key).foldl addName scope.defined.names := by
  induction ds generalizing scope with
  | nil =>
    cases h
    rfl
  | cons d ds ih =>
    obtain ⟨mid, hmid, h⟩ := Option.bind_eq_some_iff.mp h
    obtain ⟨expr, rfl⟩ := Scope.exists_define_of_add? hmid
    rw [ih h, Scope.define, Rules.names_define]
    rfl

/-- A rule stays what it is as long as it is not defined again. -/
theorem Scope.find?_addAll? {scope scope' : Scope} {ds : List Definition} {name : Name}
    (h : scope.addAll? ds = some scope') (hname : ∀ d ∈ ds, d.key ≠ name) :
    scope'.defined.find? name = scope.defined.find? name := by
  induction ds generalizing scope with
  | nil =>
    cases h
    rfl
  | cons d ds ih =>
    rw [List.forall_mem_cons] at hname
    obtain ⟨mid, hmid, h⟩ := Option.bind_eq_some_iff.mp h
    obtain ⟨expr, rfl⟩ := Scope.exists_define_of_add? hmid
    rw [ih h hname.2, Scope.define, Rules.find?_define, if_neg (Ne.symm hname.1)]

end Abnf.Grammar
