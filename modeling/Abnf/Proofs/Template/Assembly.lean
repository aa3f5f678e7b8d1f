import Abnf.Proofs.Grammar.Correctness
import Abnf.Proofs.Regex.Parts
import Abnf.Proofs.Template.Filling
import Abnf.Proofs.Template.Inlining

/-!
# Rules with patterns in them

The source of a rule holds the patterns that it refers to, directly or through other rules, as text.
Each of them has been tried alone, when it was given its name. `compilePatterns_of_compile` says
that the rules can be read all the same, whatever stands around the patterns and however often they
are used, unless their groups get in each other's way.

They do if two of them give one name to a group, or if a number in one counts the groups of another
and so goes to a group that is still open, or to one that takes more or less where a look behind has
to know how much (`clash_names_and_numbers`). Numbers that count the groups of another pattern and
come to no such group are read, whatever they mean then.
-/

namespace Abnf

open Grammar Regex Template

variable {source wrapped cs : List Char} {values : List Datum} {rules : Rules}
  {expr : Expr} {r next : Rendered} {groups : List Group}

section

variable [Interpreter]

/-! ## Patterns as parts -/

/-- The names of the groups of a text that is an expression. -/
def Regex.Pattern.groupsOf (source : List Char) : List (Option (List Char)) :=
  match compile source with
  | .ok p => p.groups
  | .error _ => []

/-- A text is a pattern in parentheses, as it is put into a grammar. -/
def Wraps (wrapped : List Char) : Prop :=
  ∃ pattern flags, Pattern.compile pattern.source flags = .ok pattern ∧
    Template.inline pattern = .ok wrapped

/--
A pattern in parentheses is one item between others, with its groups behind those that there are, or
else it comes to a clash.
-/
theorem Wraps.readAll (h : Wraps wrapped) (groups : List Group) :
    (∃ done, ∀ s : State, s.Open → s.mode = .plain → s.groups = groups →
      s.readAll wrapped = .ok (s.after done) ∧ (s.after done).Answered) ∨
      ∃ fault : Regex.Fault, fault.cause.isClash = true ∧
        ∀ s : State, s.Open → s.mode = .plain → s.groups = groups →
          s.readAll wrapped = .error fault := by
  obtain ⟨pattern, flags, hcompile, hinline⟩ := h
  obtain ⟨fs, last, done, hp⟩ := exists_inlined hcompile hinline
  obtain rfl := (compile_of_inline hinline).1
  -- a text is read behind other groups as it is alone, or comes to a clash
  rcases hp.reads.behind groups with ⟨last', done', hread, hlast⟩ | ⟨fault, hclash⟩
  · refine .inl ⟨done', fun s hs hmode hgroups => ?_⟩
    subst hgroups
    exact ⟨hp.readAll_wrap hread hlast hs.plain hmode hs.levelFlags,
      hread.answered_after hs.answered⟩
  · refine .inr ⟨fault, hclash.clash, fun s hs hmode hgroups => ?_⟩
    subst hgroups
    exact hp.readAll_wrap_error hclash hs.plain hmode hs.levelFlags

theorem Wraps.head (h : Wraps wrapped) : ∃ rest, wrapped = '(' :: rest := by
  obtain ⟨pattern, _, _, hinline⟩ := h
  obtain rfl := (compile_of_inline hinline).1
  exact ⟨_, wrap_eq pattern⟩

/-- A part takes no name of a group before it, and counts none of them. -/
structure ApartFrom (names : List (Option (List Char))) (part : List Char) : Prop where
  unshared : ∀ name, some name ∈ Pattern.groupsOf part → some name ∉ names
  uncounted : names = [] ∨ Pattern.refersByNumber part {} = false

/-- Parts that keep apart from groups, and from those of the parts before. -/
def AllApart (names : List (Option (List Char))) : (parts : List (List Char)) → Prop
  | [] => True
  | part :: parts => ApartFrom names part ∧ AllApart (names ++ Pattern.groupsOf part) parts

/-- Parts without group names and numbers keep apart, however often they are used. -/
theorem allApart_of_unnamed {parts : List (List Char)} {names : List (Option (List Char))}
    (h : ∀ part ∈ parts, (∀ name, some name ∉ Pattern.groupsOf part) ∧
      Pattern.refersByNumber part {} = false) : AllApart names parts := by
  induction parts generalizing names with
  | nil => trivial
  | cons part parts ih =>
    rw [List.forall_mem_cons] at h
    exact ⟨⟨fun name hname => absurd hname (h.1.1 name), .inr h.1.2⟩, ih h.2⟩

/-- The texts from outside in an expression, from left to right. -/
def Grammar.Expr.parts : Expr → List (List Char)
  | literal _ | codes _ | range _ _ | core _ => []
  | foreign source => [source]
  | seq a b | alt a b => a.parts ++ b.parts
  | grouped body | optional body | repeated _ body => body.parts

/-- If a datum is a pattern, then it is what its text reads as. -/
def Datum.PatternRead (datum : Datum) : Prop :=
  ∀ p, Value.ofDatum datum = .ok (.pattern p) →
    ∃ flags, Pattern.compile p.pattern.source flags = .ok p.pattern

namespace Template.Rendered

/-- Every name that has been given stands for a pattern in parentheses. -/
def Wrapped (r : Rendered) : Prop := ∀ placeholder ∈ r.placeholders, Wraps placeholder.source

theorem Wrapped.fill {datum : Datum} {after : List Char} (h : r.Wrapped)
    (hread : datum.PatternRead) (hfill : r.fill datum after = .ok next) : next.Wrapped := by
  obtain ⟨value, hvalue, hfill⟩ := Except.bind_eq_ok.mp hfill
  obtain ⟨⟨inserted, mid⟩, hsplice, hfill⟩ := Except.bind_eq_ok.mp hfill
  cases hfill
  cases value with
  | text s | choices texts =>
    cases hsplice
    exact h
  | pattern p =>
    rw [splice, nameOf] at hsplice
    split at hsplice
    · cases hsplice
      exact h
    · -- only a pattern without a name is tried and kept
      obtain ⟨wrapped, hinline, hsplice⟩ := Except.bind_eq_ok.mp hsplice
      cases hsplice
      obtain ⟨flags, hcompile⟩ := hread p hvalue
      exact List.forall_mem_append.mpr
        ⟨h, List.forall_mem_singleton.mpr ⟨p.pattern, flags, hcompile, hinline⟩⟩

theorem Wrapped.fillAll {pairs : List (Datum × List Char)} (h : r.Wrapped)
    (hread : ∀ pair ∈ pairs, pair.1.PatternRead) (hfill : r.fillAll pairs = .ok next) :
    next.Wrapped := by
  induction pairs generalizing r with
  | nil =>
    cases hfill
    exact h
  | cons pair pairs ih =>
    obtain ⟨datum, after⟩ := pair
    rw [List.forall_mem_cons] at hread
    obtain ⟨mid, hmid, hfill⟩ := Except.bind_eq_ok.mp hfill
    exact ih (h.fill hread.1 hmid) hread.2 hfill

/-- What is given for the names is proper. -/
theorem Wrapped.proper (h : r.Wrapped) : Scope.Proper Wraps
    { given := r.named.map fun (name, source) => (name, .foreign source) } := by
  refine Scope.proper_given fun name expr hfind => ?_
  obtain ⟨⟨_, source⟩, hnamed, hpair⟩ := List.mem_map.mp (Rules.mem_of_find? hfind)
  cases hpair
  obtain ⟨i, hi, hplaceholder⟩ := List.mem_mapIdx.mp hnamed
  cases hplaceholder
  exact h _ (List.getElem_mem hi)

end Template.Rendered

end

end Abnf
