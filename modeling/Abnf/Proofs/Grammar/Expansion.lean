import Abnf.Proofs.Grammar.Acceptance
import Abnf.Proofs.Grammar.Dependence

/-!
# References and what they refer to

A reference to a rule stands for what the rule was when it was read last, and so does the
alternation of that rule in parentheses, as long as everything it mentions is still what it was
there. So the one may be put in the place of the other, wherever in a body it stands (`Hole`), and
the rules that are read are the same expressions (`Citation.addAll?_expanded`).

Only the parentheses make a difference, for they count to the nesting of groups.
-/

namespace Abnf.Grammar

open Token

variable {scope scope' : Scope} {p q : Phrase} {n : Nonterminal} {fill : Phrase → Phrase}
  {d : Definition} {ds es : List Definition} {l r u x cs nl remark text : List Char} {depth : Nat}

/-! ## Places for an element -/

/--
A place for an element in a phrase. `Hole n fill l r` says what phrase of the nonterminal `n` there
is with the element in its place, and what text stands before it and behind it.
-/
inductive Hole : Nonterminal → (Phrase → Phrase) → List Char → List Char → Prop where
  | here : Hole .element id [] []
  | group {fill : Phrase → Phrase} {l r v w : List Char} :
      Blanks v → Hole .alternation fill l r → Blanks w →
      Hole .element (fun p => .group (fill p)) ('(' :: (v ++ l)) (r ++ (w ++ [')']))
  | option {fill : Phrase → Phrase} {l r v w : List Char} :
      Blanks v → Hole .alternation fill l r → Blanks w →
      Hole .element (fun p => .option (fill p)) ('[' :: (v ++ l)) (r ++ (w ++ [']']))
  | once {fill : Phrase → Phrase} {l r : List Char} :
      Hole .element fill l r → Hole .repetition fill l r
  | times {fill : Phrase → Phrase} {bounds : Bounds} {l r v : List Char} :
      RepeatText bounds v → Hole .element fill l r →
      Hole .repetition (fun p => .times bounds (fill p)) (v ++ l) r
  | single {fill : Phrase → Phrase} {l r : List Char} :
      Hole .repetition fill l r → Hole .concatenation fill l r
  | seqFirst {fill : Phrase → Phrase} {q : Phrase} {l r b w v : List Char} :
      Hole .concatenation fill l r → Blank b → Blanks w → Derives .repetition q v →
      Hole .concatenation (fun p => .seq (fill p) q) l (r ++ (b ++ (w ++ v)))
  | seqSecond {fill : Phrase → Phrase} {q : Phrase} {l r u b w : List Char} :
      Derives .concatenation q u → Blank b → Blanks w → Hole .repetition fill l r →
      Hole .concatenation (fun p => .seq q (fill p)) (u ++ (b ++ (w ++ l))) r
  | only {fill : Phrase → Phrase} {l r : List Char} :
      Hole .concatenation fill l r → Hole .alternation fill l r
  | altFirst {fill : Phrase → Phrase} {q : Phrase} {l r w x v : List Char} :
      Hole .concatenation fill l r → Blanks w → Blanks x → Derives .alternation q v →
      Hole .alternation (fun p => .alt (fill p) q) l (r ++ (w ++ '/' :: (x ++ v)))
  | altSecond {fill : Phrase → Phrase} {q : Phrase} {l r u w x : List Char} :
      Derives .concatenation q u → Blanks w → Blanks x → Hole .alternation fill l r →
      Hole .alternation (fun p => .alt q (fill p)) (u ++ (w ++ '/' :: (x ++ l))) r

/-- With an element in its place the text is one of the nonterminal. -/
theorem Hole.derives (h : Hole n fill l r) (hp : Derives .element p u) :
    Derives n (fill p) (l ++ (u ++ r)) := by
  induction h with
  | here => simpa using hp
  | group hv _ hw ih => simpa using Derives.group hv ih hw
  | option hv _ hw ih => simpa using Derives.option hv ih hw
  | once _ ih => exact .once ih
  | times hbounds _ ih => simpa using Derives.times hbounds ih
  | single _ ih => exact .single ih
  | seqFirst _ hb hw hq ih => simpa using Derives.seq ih hb hw hq
  | seqSecond hq hb hw _ ih => simpa using Derives.seq hq hb hw ih
  | only _ ih => exact .only ih
  | altFirst _ hw hx hq ih => simpa using Derives.alt ih hw hx hq
  | altSecond hq hw hx _ ih => simpa using Derives.alt hq hw hx ih

/--
Elements that stand for the same do so in any place, as long as there is room for their groups.
-/
theorem Hole.resolve_eq (h : Hole n fill l r)
    (hsame : ∀ depth, q.nesting ≤ depth → q.resolve scope depth = p.resolve scope depth) :
    ∀ depth, (fill q).nesting ≤ depth →
      (fill q).resolve scope depth = (fill p).resolve scope depth := by
  -- by the way down to the hole: the depth that the phrase needs grows by one with each parenthesis
  induction h with
  | here => exact hsame
  | group _ _ _ ih | option _ _ _ ih =>
    intro depth hdepth
    obtain ⟨m, rfl⟩ := Nat.exists_eq_add_of_le' (Nat.le_of_add_left_le hdepth)
    have hbody := ih m (Nat.le_of_succ_le_succ hdepth)
    simp only [Phrase.resolve, hbody]
  | once _ ih | single _ ih | only _ ih => exact ih
  | times _ _ ih =>
    intro depth hdepth
    simp only [Phrase.resolve, ih depth hdepth]
  | seqFirst _ _ _ _ ih | altFirst _ _ _ _ ih =>
    intro depth hdepth
    simp only [Phrase.resolve, ih depth (Nat.max_le.mp hdepth).1]
  | seqSecond _ _ _ _ ih | altSecond _ _ _ _ ih =>
    intro depth hdepth
    simp only [Phrase.resolve, ih depth (Nat.max_le.mp hdepth).2]

/-! ## References in their grammar -/

/-- The lines of rules, and then the text of one more rule up to its alternation. -/
inductive Opening (d : Definition) : List Definition → List Char → Prop where
  | mk {ds : List Definition} {cs v w : List Char} :
      Lines ds cs → RuleName d.name → Blanks v → Blanks w →
      Opening d ds (cs ++ (d.name ++ (v ++ (d.sign ++ w))))

/--
What stands behind the alternation of a rule: white space, and the text ends or goes on with rules.
-/
inductive Behind : List Definition → List Char → Prop where
  | last {x remark : List Char} : Blanks x → Remark remark → Behind [] (x ++ remark)
  | lines {ds : List Definition} {x nl cs : List Char} :
      Blanks x → LineEnd nl → Ended ds cs → Behind ds (x ++ (nl ++ cs))

/--
A grammar text in which a rule is defined and referred to in a rule behind it, taken apart at the
two places. Of the white space behind the first alternation any part may be counted to it; the
reader takes all there is.
-/
structure Citation where
  /-- The rules before the one that is referred to. -/
  before : List Definition
  /-- The rule that is referred to. -/
  cited : Definition
  /-- The rules between the two. -/
  between : List Definition
  /-- The rule with the reference. -/
  citing : Definition
  /-- The rules behind it. -/
  after : List Definition
  /-- The reference as it is written. -/
  name : List Char
  /-- The body of the rule with the reference, for any element in the place of the reference. -/
  fill : Phrase → Phrase
  /-- The text up to the alternation that is referred to. -/
  front : List Char
  /-- The alternation without the white space behind it. -/
  body : List Char
  blanks : List Char
  lineEnd : List Char
  /-- The text from the next line up to the alternation with the reference. -/
  middle : List Char
  /-- The alternation with the reference, up to there. -/
  left : List Char
  /-- The same alternation behind the reference. -/
  right : List Char
  /-- The text behind this alternation. -/
  back : List Char
  opening_front : Opening cited before front
  derives_body : Derives .alternation cited.body body
  blanks_blanks : Blanks blanks
  lineEnd_lineEnd : LineEnd lineEnd
  opening_middle : Opening citing between middle
  hole : Hole .alternation fill left right
  citing_body : citing.body = fill (.reference name)
  ruleName_name : RuleName name
  behind_back : Behind after back

namespace Citation

/-- The text that the alternation takes. -/
def alternation (c : Citation) : List Char := c.body ++ c.blanks

/-- The text up to the reference. -/
def ahead (c : Citation) : List Char :=
  c.front ++ (c.alternation ++ (c.lineEnd ++ (c.middle ++ c.left)))

/-- The text with another element in the place of the reference. -/
def textWith (c : Citation) (u : List Char) : List Char := c.ahead ++ (u ++ (c.right ++ c.back))

/-- The text as it stands. -/
def source (c : Citation) : List Char := c.textWith c.name

/-- The text with the alternation in parentheses in the place of the reference. -/
def expanded (c : Citation) : List Char :=
  c.textWith (['(', ' '] ++ (c.alternation ++ [' ', ')']))

/-- The rules with another element in the place of the reference. -/
def definitionsWith (c : Citation) (p : Phrase) : List Definition :=
  c.before ++ c.cited :: (c.between ++ { c.citing with body := c.fill p } :: c.after)

end Citation

/-- A rule and what is behind it. -/
theorem Opening.ended (h : Opening d ds l) (hbody : Derives .alternation d.body u)
    (hback : Behind es r) : Ended (ds ++ d :: es) (l ++ (u ++ r)) := by
  obtain ⟨hlines, hname, hv, hw⟩ := h
  cases hback with
  | last hx hr => simpa using hlines.append_ended (.rule (.mk hname hv hw hbody hx) hr)
  | lines hx hnl hcs =>
    simpa using hlines.append_ended (.ruleLine (.mk hname hv hw hbody hx) hnl hcs)

theorem Opening.ne_nil (h : Opening d ds l) : l ≠ [] := by
  obtain ⟨-, hname, -, -⟩ := h
  obtain ⟨c, tail, hcs, -⟩ := hname.head
  simp [hcs]

/-- The text up to the alternation leaves the body open. -/
theorem Opening.withBody (h : Opening d ds l) (p : Phrase) : Opening { d with body := p } ds l := by
  obtain ⟨hlines, hname, hv, hw⟩ := h
  exact .mk hlines hname hv hw

/-- Whatever element is put there, the rules of the text are the same but for that. -/
theorem Citation.ended (c : Citation) (hp : Derives .element p u) :
    Ended (c.definitionsWith p) (c.textWith u) := by
  have hrest := (c.opening_middle.withBody (c.fill p)).ended (c.hole.derives hp) c.behind_back
  have htext := c.opening_front.ended c.derives_body
    (.lines c.blanks_blanks c.lineEnd_lineEnd hrest)
  simpa [definitionsWith, textWith, ahead, alternation] using htext

/-- The alternation in parentheses is an element. -/
theorem Citation.derives_group (c : Citation) :
    Derives .element (.group c.cited.body) (['(', ' '] ++ (c.alternation ++ [' ', ')'])) := by
  have hspace : Blanks [' '] := .cons (.blank (by decide)) .nil
  simpa [alternation] using Derives.group hspace c.derives_body (c.blanks_blanks.append hspace)

/-! ## What is read -/

theorem Phrase.Legal.mentioned {defined : Name → Prop} (h : p.Legal defined) :
    ∀ name ∈ p.mentioned, defined name := by
  induction p with
  | reference name => exact List.forall_mem_singleton.mpr h
  | quoted text | prose text | codes numbers => exact List.forall_mem_nil _
  | group body ih | option body ih => exact ih h
  | times bounds body ih => exact ih h.2
  | seq a b iha ihb | alt a b iha ihb => exact List.forall_mem_append.mpr ⟨iha h.1, ihb h.2⟩

theorem Scope.given_addAll? [Interpreter] (h : scope.addAll? ds = some scope') :
    scope'.given = scope.given := by
  induction ds generalizing scope with
  | nil =>
    cases h
    rfl
  | cons d ds ih =>
    obtain ⟨mid, hmid, h⟩ := Option.bind_eq_some_iff.mp h
    obtain ⟨expr, rfl⟩ := Scope.exists_define_of_add? hmid
    have hgiven := ih h
    exact hgiven

/-- A name stands for what it did as long as it is not defined again. -/
theorem Scope.find?_of_addAll? [Interpreter] (h : scope.addAll? ds = some scope') {name : Name}
    (hname : ∀ d ∈ ds, d.key ≠ name) : scope'.find? name = scope.find? name := by
  unfold Scope.find?
  rw [Scope.given_addAll? h, Scope.find?_addAll? h hname]

/--
Behind a rule, a reference to it stands for what its body does in parentheses, if what the body
mentions is not defined again.
-/
theorem Scope.resolve_group_eq [Interpreter] {start : Scope} {e : Expr} {name : List Char}
    (hbody : d.body.expr? start (depthLimit - 1) = some e)
    (hreserved : start.isReserved d.key = false) (hnew : start.find? d.key = none)
    (hadd : (start.define d.key e).addAll? ds = some scope)
    (hagain : ∀ other ∈ ds, other.key ≠ d.key ∧ other.key ∉ d.body.mentioned)
    (hname : keyOf name = d.key) (depth : Nat)
    (hdepth : (Phrase.group d.body).nesting ≤ depth) :
    (Phrase.group d.body).resolve scope depth = (Phrase.reference name).resolve scope depth := by
  obtain ⟨m, rfl⟩ := Nat.exists_eq_add_of_le' (Nat.le_of_add_left_le hdepth)
  obtain ⟨hnesting, -, hlegal⟩ := Phrase.expr?_isSome_iff.mp (Option.isSome_of_mem hbody)
  have hfind : ∀ other ∈ d.body.mentioned, scope.find? other = start.find? other := by
    intro other hother
    -- the body was read before its own name stood for anything
    have hne : other ≠ d.key := by
      rintro rfl
      have := hlegal.mentioned _ hother
      simp [hnew] at this
    rw [Scope.find?_of_addAll? hadd fun d' hd' hkey => (hagain d' hd').2 (hkey ▸ hother),
      Scope.find?_define hreserved, if_neg hne]
  have hgroup : d.body.expr? scope m = some e := by
    rw [Phrase.expr?_congr hfind (Nat.le_of_succ_le_succ hdepth) hnesting, hbody]
  have hreference : scope.find? d.key = some e := by
    rw [Scope.find?_of_addAll? hadd fun d' hd' => (hagain d' hd').1, Scope.find?_define hreserved,
      if_pos rfl]
  obtain ⟨r, hr, rfl⟩ := Option.map_eq_some_iff.mp hgroup
  rw [Phrase.resolve, Phrase.resolve, hname, hreference, hr]
  rfl

/--
With the alternation in the place of the reference the rules are the same expressions as before, if
there is room for one more pair of parentheses.
-/
theorem Citation.addAll?_expanded [Interpreter] (c : Citation) (hadds : c.cited.adds = false)
    (hname : keyOf c.name = c.cited.key) (honce : ∀ d ∈ c.before ++ c.between, d.key ≠ c.cited.key)
    (hagain : ∀ d ∈ c.between, d.key ∉ c.cited.body.mentioned)
    (hnesting : (c.fill (.group c.cited.body)).nesting < depthLimit)
    (h : ({} : Scope).addAll? (c.definitionsWith (.reference c.name)) = some scope) :
    ({} : Scope).addAll? (c.definitionsWith (.group c.cited.body)) = some scope := by
  rw [List.forall_mem_append] at honce
  unfold definitionsWith at h ⊢
  rw [Scope.addAll?_append] at h
  obtain ⟨start, hstart, hrest⟩ := Option.bind_eq_some_iff.mp h
  obtain ⟨defined, hdefined, hrest⟩ := Option.bind_eq_some_iff.mp hrest
  rw [Scope.addAll?_append] at hrest
  obtain ⟨there, hthere, hlast⟩ := Option.bind_eq_some_iff.mp hrest
  obtain ⟨hreserved, e, hbody, hscope⟩ := Scope.exists_of_add? hdefined
  obtain rfl : defined = start.define c.cited.key e := by
    rcases hscope with ⟨-, hscope⟩ | ⟨hadds', -⟩
    · exact hscope
    · rw [hadds] at hadds'
      cases hadds'
  have hnew : start.find? c.cited.key = none := by
    rw [Scope.find?_of_not_reserved hreserved, Scope.find?_addAll? hstart honce.1]
    rfl
  -- only the rule with the reference is another one, and it stands for the same there
  have hsame := c.hole.resolve_eq (Scope.resolve_group_eq hbody hreserved hnew hthere
    (fun d hd => ⟨honce.2 d hd, hagain d hd⟩) hname) _ (Nat.le_pred_of_lt hnesting)
  have hadd : there.add? { c.citing with body := c.fill (.group c.cited.body) } =
      there.add? { c.citing with body := c.fill (.reference c.name) } := by
    have hexpr : (c.fill (.group c.cited.body)).expr? there (depthLimit - 1) =
        (c.fill (.reference c.name)).expr? there (depthLimit - 1) := congrArg (Option.map _) hsame
    unfold Scope.add?
    dsimp only
    rw [hexpr]
    rfl
  rw [Scope.addAll?_append, hstart, Option.bind_some, Scope.addAll?, hdefined, Option.bind_some,
    Scope.addAll?_append, hthere, Option.bind_some, Scope.addAll?, hadd]
  exact hlast

end Abnf.Grammar
