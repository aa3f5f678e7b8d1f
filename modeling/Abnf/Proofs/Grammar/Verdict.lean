import Abnf.Proofs.Outcome
import Abnf.Proofs.Grammar.Resolution

/-!
# Why a phrase stands for nothing

A reading that fails names a cause and a place in the text. The place depends on how the text is
laid out, the cause does not: it is the first that the phrase has, from the left, and inside out at
a group only where the limit on nesting allows to go in. The verdict on a phrase is that cause, or
else what the phrase stands for, and so for rules in order. Nothing in it knows of a text.
-/

namespace Abnf.Grammar

open Token

variable {α β : Type} {scope scope' : Scope} {p : Phrase} {depth : Nat} {left : List Char}
  {d : Definition} {ds : List Definition}

/-! ## Numerals, bounds and numbers -/

theorem decimalAt_eq_ok {digits : List Char} {n : Nat} :
    decimalAt digits left = .ok n ↔ Base.decimal.Fits digits ∧ n = Base.decimal.number digits := by
  unfold decimalAt Text.decimalValue Base.Fits Base.number Base.radix
  by_cases h : digits.length ≤ Text.decimalLimit
  · simp [h, eq_comm]
  · simp [h, refuse]

theorem resolveBounds_eq_ok {bounds : Bounds} {times : Repeat} :
    resolveBounds bounds left = .ok times ↔
      (bounds.Legal ∧ bounds.Fits) ∧ times = bounds.times := by
  match bounds with
  | .exact count =>
    simp only [resolveBounds, Except.bind_eq_ok, decimalAt_eq_ok, Except.pure_eq_ok, Bounds.Legal,
      Bounds.Fits, Bounds.times]
    grind
  | .range [] [] =>
    simp only [resolveBounds, Except.pure_eq_ok, Bounds.Legal, Bounds.Fits, Bounds.times]
    grind [Base.Fits]
  | .range (c :: least) [] =>
    simp only [resolveBounds, Except.bind_eq_ok, decimalAt_eq_ok, Except.pure_eq_ok, Bounds.Legal,
      Bounds.Fits, Bounds.times]
    grind [Base.Fits]
  | .range [] (d :: most) =>
    simp only [resolveBounds, Except.bind_eq_ok, decimalAt_eq_ok, Except.pure_eq_ok, Bounds.Legal,
      Bounds.Fits, Bounds.times]
    grind [Base.Fits]
  | .range (c :: least) (d :: most) =>
    simp only [resolveBounds, Except.bind_eq_ok, decimalAt_eq_ok, Bounds.Legal, Bounds.Fits,
      Bounds.times]
    constructor
    · rintro ⟨n, ⟨hn, rfl⟩, m, ⟨hm, rfl⟩, h⟩
      split at h
      · cases h
      · rename_i hle
        cases h
        exact ⟨⟨fun _ _ => Nat.le_of_not_lt hle, hn, hm⟩, rfl⟩
    · rintro ⟨⟨hle, hn, hm⟩, rfl⟩
      exact ⟨_, ⟨hn, rfl⟩, _, ⟨hm, rfl⟩, if_neg (Nat.not_lt.mpr (hle (by simp) (by simp)))⟩

theorem valueAt_eq_ok {base : Base} {digits : List Char} {n : Nat} :
    valueAt base digits left = .ok n ↔ base.Fits digits ∧ n = base.number digits := by
  cases base with
  | binary => simp [valueAt, Base.value, Base.Fits, Base.number, Base.radix, eq_comm]
  | hexadecimal => simp [valueAt, Base.value, Base.Fits, Base.number, Base.radix, eq_comm]
  | decimal => exact decimalAt_eq_ok

theorem checkCode_eq_ok {code n : Nat} :
    checkCode code left = .ok n ↔ code ≤ highestCode ∧ n = code := by
  unfold checkCode
  split
  · simp [refuse]; omega
  · simp [eq_comm]; omega

theorem codesAt_eq_ok {base : Base} {numerals : List (List Char)} {codes : List Nat} :
    codesAt base left numerals = .ok codes ↔
      (∀ digits ∈ numerals, base.number digits ≤ highestCode) ∧
      (∀ digits ∈ numerals, base.Fits digits) ∧ codes = numerals.map base.number := by
  induction numerals generalizing codes with
  | nil => simp [codesAt, eq_comm]
  | cons digits more ih =>
    simp only [codesAt, Except.bind_eq_ok, valueAt_eq_ok, checkCode_eq_ok, ih, Except.pure_eq_ok]
    simp only [List.forall_mem_cons, List.map_cons]
    grind

theorem resolveNumbers_eq_ok {numbers : Numbers} {expr : Expr} :
    resolveNumbers numbers left = .ok expr ↔
      (numbers.Legal ∧ numbers.Fits) ∧ expr = numbers.expr := by
  -- in a row every number is checked when it is read; in a range both are read first and compared,
  -- and then checked
  cases numbers with
  | row base first more =>
    simp only [resolveNumbers, Except.bind_eq_ok, codesAt_eq_ok, Except.pure_eq_ok, Numbers.Legal,
      Numbers.Fits, Numbers.expr]
    constructor
    · rintro ⟨codes, ⟨hle, hfits, rfl⟩, rfl⟩
      exact ⟨⟨hle, hfits⟩, rfl⟩
    · rintro ⟨⟨hle, hfits⟩, rfl⟩
      exact ⟨_, ⟨hle, hfits, rfl⟩, rfl⟩
  | range base first last =>
    simp only [resolveNumbers, Except.bind_eq_ok, valueAt_eq_ok, Numbers.Legal, Numbers.Fits,
      Numbers.expr]
    constructor
    · rintro ⟨n, ⟨hn, rfl⟩, m, ⟨hm, rfl⟩, h⟩
      split at h
      · cases h
      · rename_i hlt
        simp only [Except.bind_eq_ok, checkCode_eq_ok, Except.pure_eq_ok] at h
        obtain ⟨_, ⟨hfirst, rfl⟩, _, ⟨hlast, rfl⟩, rfl⟩ := h
        exact ⟨⟨⟨Nat.lt_of_not_le hlt, hfirst, hlast⟩, hn, hm⟩, rfl⟩
    · rintro ⟨⟨⟨hlt, hfirst, hlast⟩, hn, hm⟩, rfl⟩
      refine ⟨_, ⟨hn, rfl⟩, _, ⟨hm, rfl⟩, ?_⟩
      rw [if_neg (Nat.not_le.mpr hlt)]
      simp only [Except.bind_eq_ok, checkCode_eq_ok, Except.pure_eq_ok]
      exact ⟨_, ⟨hfirst, rfl⟩, _, ⟨hlast, rfl⟩, rfl⟩

theorem resolveName_eq_ok {name : Name} {expr : Expr} :
    resolveName scope name left = .ok expr ↔ scope.find? name = some expr := by
  unfold resolveName
  split
  · rename_i h
    simp [h]
  · rename_i h
    simp [h, refuse]

/-! ## Readings without places -/

/-- What a reading gives, or the cause that ends it, wherever in the text that is. -/
def outcome (x : Except Fault α) : Except Cause α := x.mapError Fault.cause

theorem outcome_pure (a : α) : outcome (pure a) = pure a := rfl

theorem outcome_refuse (cause : Cause) (left : List Char) :
    outcome (refuse cause left : Except Fault α) = .error cause := rfl

theorem outcome_bind (x : Except Fault α) (f : α → Except Fault β) :
    outcome (x >>= f) = outcome x >>= fun a => outcome (f a) := by
  cases x <;> rfl

theorem outcome_eq_ok {x : Except Fault α} {a : α} : outcome x = .ok a ↔ x = .ok a :=
  Except.mapError_eq_ok

/-- Where a name ends makes no difference to what it stands for. -/
theorem outcome_resolveName (name : Name) (left : List Char) :
    outcome (resolveName scope name left) = outcome (resolveName scope name []) := by
  unfold resolveName
  cases scope.find? name <;> rfl

theorem outcome_decimalAt (digits left : List Char) :
    outcome (decimalAt digits left) = outcome (decimalAt digits []) := by
  unfold decimalAt
  cases Text.decimalValue digits <;> rfl

theorem outcome_resolveBounds (bounds : Bounds) (left : List Char) :
    outcome (resolveBounds bounds left) = outcome (resolveBounds bounds []) := by
  match bounds with
  | .range [] [] => rfl
  | .exact _ | .range (_ :: _) [] | .range [] (_ :: _) =>
    simp only [resolveBounds, outcome_bind, outcome_decimalAt _ left, outcome_pure]
  | .range (_ :: _) (_ :: _) =>
    simp only [resolveBounds, outcome_bind, outcome_decimalAt _ left, apply_ite outcome,
      outcome_refuse, outcome_pure]

theorem outcome_valueAt (base : Base) (digits left : List Char) :
    outcome (valueAt base digits left) = outcome (valueAt base digits []) := by
  unfold valueAt
  cases base.value digits <;> rfl

theorem outcome_checkCode (code : Nat) (left : List Char) :
    outcome (checkCode code left) = outcome (checkCode code []) := by
  unfold checkCode
  split <;> rfl

theorem outcome_codesAt (base : Base) (left : List Char) (numerals : List (List Char)) :
    outcome (codesAt base left numerals) = outcome (codesAt base [] numerals) := by
  induction numerals with
  | nil => rfl
  | cons digits more ih =>
    simp only [codesAt, outcome_bind, outcome_valueAt _ _ left, outcome_checkCode _ left, ih,
      outcome_pure]

theorem outcome_resolveNumbers (numbers : Numbers) (left : List Char) :
    outcome (resolveNumbers numbers left) = outcome (resolveNumbers numbers []) := by
  cases numbers with
  | row base first more =>
    simp only [resolveNumbers, outcome_bind, outcome_codesAt _ left, outcome_pure]
  | range base first last =>
    simp only [resolveNumbers, outcome_bind, outcome_valueAt _ _ left, apply_ite outcome,
      outcome_checkCode _ left, outcome_refuse, outcome_pure]

/-! ## Verdicts -/

/--
What a phrase stands for, as `Phrase.resolve` has it, or the first cause why it stands for nothing.
-/
def Phrase.verdict (scope : Scope) : Phrase → (depth : Nat) → Except Cause (Expr × List Expr)
  | reference name, _ => do
    let expr ← outcome (resolveName scope (keyOf name) [])
    return (expr, [])
  | quoted text, _ | prose text, _ => return (.literal text, [])
  | codes numbers, _ => do
    let expr ← outcome (resolveNumbers numbers [])
    return (expr, [])
  | group _, 0 | option _, 0 => .error .nestedTooDeeply
  | group body, depth + 1 => do
    let r ← body.verdict scope depth
    return (.anyOf r.1 r.2, [])
  | option body, depth + 1 => do
    let r ← body.verdict scope depth
    return (.optional (.anyOf r.1 r.2), [])
  | times bounds body, depth => do
    let times ← outcome (resolveBounds bounds [])
    let r ← body.verdict scope depth
    return (.repeated times (.anyOf r.1 r.2), [])
  | seq a b, depth => do
    let r ← a.verdict scope depth
    let s ← b.verdict scope depth
    return (.seq (.anyOf r.1 r.2) (.anyOf s.1 s.2), [])
  | alt a b, depth => do
    let r ← a.verdict scope depth
    let s ← b.verdict scope depth
    return (.anyOf r.1 r.2, s.1 :: s.2)

/-- The verdict on a phrase as one expression. -/
def Phrase.verdictOne (scope : Scope) (depth : Nat) (p : Phrase) : Except Cause Expr := do
  let r ← p.verdict scope depth
  return .anyOf r.1 r.2

section

variable {body a b : Phrase}

theorem Phrase.verdictOne_reference {name : List Char} : (reference name).verdictOne scope depth =
    outcome (resolveName scope (keyOf name) []) := by
  simp only [verdictOne, verdict, bind_assoc, pure_bind, Expr.anyOf, bind_pure]

theorem Phrase.verdictOne_codes {numbers : Numbers} : (codes numbers).verdictOne scope depth =
    outcome (resolveNumbers numbers []) := by
  simp only [verdictOne, verdict, bind_assoc, pure_bind, Expr.anyOf, bind_pure]

theorem Phrase.verdictOne_group_succ :
    (group body).verdictOne scope (depth + 1) = body.verdictOne scope depth := by
  simp only [verdictOne, verdict, bind_assoc, pure_bind, Expr.anyOf]

theorem Phrase.verdictOne_option : (option body).verdictOne scope depth = do
    let expr ← (group body).verdictOne scope depth
    return .optional expr := by
  cases depth with
  | zero => rfl
  | succ depth => simp only [verdictOne, verdict, bind_assoc, pure_bind, Expr.anyOf]

theorem Phrase.verdictOne_times {bounds : Bounds} : (times bounds body).verdictOne scope depth = do
    let times ← outcome (resolveBounds bounds [])
    let expr ← body.verdictOne scope depth
    return .repeated times expr := by
  simp only [verdictOne, verdict, bind_assoc, pure_bind, Expr.anyOf]

theorem Phrase.verdictOne_seq : (seq a b).verdictOne scope depth = do
    let first ← a.verdictOne scope depth
    let second ← b.verdictOne scope depth
    return .seq first second := by
  simp only [verdictOne, verdict, bind_assoc, pure_bind, Expr.anyOf]

end

/-- The verdict is what the phrase stands for, if it stands for something. -/
theorem Phrase.verdict_eq_ok {r : Expr × List Expr} :
    p.verdict scope depth = .ok r ↔ p.resolve scope depth = some r := by
  induction p generalizing depth r with
  | reference name =>
    simp only [verdict, resolve, Except.bind_eq_ok, outcome_eq_ok, resolveName_eq_ok,
      Except.pure_eq_ok, Option.map_eq_some_iff]
  | quoted text | prose text =>
    simp only [verdict, resolve, Except.pure_eq_ok, Option.some.injEq]
  | codes numbers =>
    simp only [verdict, resolve, Except.bind_eq_ok, outcome_eq_ok, resolveNumbers_eq_ok,
      Except.pure_eq_ok]
    split <;> simp_all
  | group body ih | option body ih =>
    cases depth with
    | zero => exact iff_of_false (fun h => by cases h) (fun h => by cases h)
    | succ depth =>
      simp only [verdict, resolve, Except.bind_eq_ok, ih, Except.pure_eq_ok, Option.map_eq_some_iff]
  | times bounds body ih =>
    simp only [verdict, resolve, Except.bind_eq_ok, outcome_eq_ok, resolveBounds_eq_ok, ih,
      Except.pure_eq_ok]
    split <;> simp_all
  | seq a b iha ihb | alt a b iha ihb =>
    simp only [verdict, resolve, Except.bind_eq_ok, iha, ihb, Except.pure_eq_ok,
      Option.bind_eq_some_iff, Option.map_eq_some_iff]

theorem Phrase.verdictOne_eq_ok {expr : Expr} :
    p.verdictOne scope depth = .ok expr ↔ p.expr? scope depth = some expr := by
  simp only [verdictOne, expr?, Except.bind_eq_ok, verdict_eq_ok, Except.pure_eq_ok,
    Option.map_eq_some_iff]

/-! ## Rules -/

variable [Interpreter]

/--
The scope with one more rule read, as `Scope.add?` has it, or the first cause why it cannot be.
-/
def Scope.verdict (scope : Scope) (d : Definition) : Except Cause Scope :=
  if scope.isReserved d.key then .error (.reservedName d.key)
  else if d.adds then
    match scope.defined.find? d.key with
    | none => .error (.undefinedExtension d.key)
    | some old => do
      let expr ← d.body.verdictOne scope (depthLimit - 1)
      return scope.define d.key (.grouped (.alt old expr))
  else do
    let expr ← d.body.verdictOne scope (depthLimit - 1)
    return scope.define d.key expr

/-- The scope with rules read in order, or the first cause why they cannot be. -/
def Scope.verdictAll (scope : Scope) : List Definition → Except Cause Scope
  | [] => .ok scope
  | d :: ds => do (← scope.verdict d).verdictAll ds

theorem Scope.verdict_eq_ok : scope.verdict d = .ok scope' ↔ scope.add? d = some scope' := by
  unfold verdict add?
  split
  · exact iff_of_false (fun h => by cases h) (fun h => by cases h)
  · split
    · cases scope.defined.find? d.key with
      | none => exact iff_of_false (fun h => by cases h) (fun h => by cases h)
      | some old =>
        simp only [Except.bind_eq_ok, Phrase.verdictOne_eq_ok, Except.pure_eq_ok, Option.bind_some,
          Option.map_eq_some_iff]
    · simp only [Except.bind_eq_ok, Phrase.verdictOne_eq_ok, Except.pure_eq_ok,
        Option.map_eq_some_iff]

theorem Scope.verdictAll_eq_ok :
    scope.verdictAll ds = .ok scope' ↔ scope.addAll? ds = some scope' := by
  induction ds generalizing scope with
  | nil => simp [verdictAll, addAll?]
  | cons d ds ih =>
    simp only [verdictAll, addAll?, Except.bind_eq_ok, verdict_eq_ok, ih, Option.bind_eq_some_iff]

end Abnf.Grammar
