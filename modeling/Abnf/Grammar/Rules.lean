import Abnf.Grammar.Expr

/-!
# Rules in order of definition

The rules a grammar has defined so far, each name once. A name keeps the place of its first
definition when it is defined again.
-/

namespace Abnf.Grammar

/-- The name of a rule, in lower case. -/
abbrev Name := List Char

/-- Rules in order of their first definition. -/
abbrev Rules := List (Name × Expr)

namespace Rules

/-- What a name stands for. -/
def find? (rules : Rules) (name : Name) : Option Expr := rules.lookup name

/-- The rules with a name defined, in its old place if it has one. -/
def define (rules : Rules) (name : Name) (expr : Expr) : Rules :=
  match rules with
  | [] => [(name, expr)]
  | rule :: rest => if rule.1 = name then (name, expr) :: rest else rule :: define rest name expr

/-- The names in order. -/
def names (rules : Rules) : List Name := rules.map (·.1)

end Rules

/-- What a definition may refer to. -/
structure Scope where
  /-- Names that are given to the grammar and may not be defined in it. -/
  given : Rules := []
  /-- The rules defined so far. -/
  defined : Rules := []

namespace Scope

/-- What a name stands for: a core rule, something given, or the rule as it is defined so far. -/
def find? (scope : Scope) (name : Name) : Option Expr :=
  match CoreRule.ofName? name with
  | some rule => some (.core rule)
  | none => (scope.given.find? name).or (scope.defined.find? name)

/-- Whether a name may not be defined. -/
def isReserved (scope : Scope) (name : Name) : Bool :=
  (CoreRule.ofName? name).isSome || (scope.given.find? name).isSome

/-- The scope with a rule defined. -/
def define (scope : Scope) (name : Name) (expr : Expr) : Scope :=
  { scope with defined := scope.defined.define name expr }

end Scope

end Abnf.Grammar
