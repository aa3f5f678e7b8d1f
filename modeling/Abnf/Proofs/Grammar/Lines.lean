import Abnf.Proofs.Grammar.Derivation

/-!
# Reading lines

A grammar is a list of lines, and a line end is white space if the next line starts with a blank.
So the text of two lines may be one rule and a blank line, or a rule that goes on over a blank line,
and a text has derivations of either kind. The reader always takes the longer piece.

`Ended` is the notation for a text whose last line has no line end, which is how the reader sees it.
Its lemma `Ended.after_line` carries the argument: if a line end turns out to be white space, the
line after it was blank, and what is left after that are still the lines of the same rules. From it
follows `outcome_readLines`, for every derivation of the lines, and with the derivation that a
reading leaves behind line by line (`exists_piece`), `read_eq_ok`.
-/

namespace Abnf.Grammar

open Token

variable {scope scope' : Scope} {d : Definition} {ds : List Definition} {p : Phrase}
  {u v w nl remark cs rest text : List Char} {depth : Nat}

/-! ## A text without its last line end -/

/-- The lines of rules, of which the last one has no line end. -/
inductive Ended : List Definition → List Char → Prop where
  | blank {w remark : List Char} : Blanks w → Remark remark → Ended [] (w ++ remark)
  | rule {d : Definition} {u remark : List Char} :
      RuleText d u → Remark remark → Ended [d] (u ++ remark)
  | blankLine {ds : List Definition} {w nl cs : List Char} :
      Blanks w → LineEnd nl → Ended ds cs → Ended ds (w ++ (nl ++ cs))
  | ruleLine {d : Definition} {ds : List Definition} {u nl cs : List Char} :
      RuleText d u → LineEnd nl → Ended ds cs → Ended (d :: ds) (u ++ (nl ++ cs))

theorem Remark.lineEnd (h : Remark remark) : LineEnd (remark ++ ['\n']) := .mk h .lf

/-- With a newline behind it the last line is like the others. -/
theorem Ended.lines (h : Ended ds text) : Lines ds (text ++ ['\n']) := by
  induction h with
  | blank hw hr => simpa using Lines.blank hw hr.lineEnd .nil
  | rule hu hr => simpa using Lines.rule hu hr.lineEnd .nil
  | blankLine hw hnl _ ih => simpa using Lines.blank hw hnl ih
  | ruleLine hu hnl _ ih => simpa using Lines.rule hu hnl ih

theorem LineEnd.ne_nil (h : LineEnd nl) : nl ≠ [] := by
  obtain ⟨c, tail, rfl, -⟩ := h.cases_head
  exact nofun

theorem Lines.eq_nil (h : Lines ds cs) (hcs : cs = []) : ds = [] := by
  cases h with
  | nil => rfl
  | rule _ hnl _ | blank _ hnl _ => simp [hnl.ne_nil] at hcs

/-- A last line, whose line end is a newline and has no carriage return before it. -/
theorem LineEnd.exists_remark (h : LineEnd nl) (hnl : u ++ nl = text ++ ['\n'])
    (htext : text.getLast? ≠ some '\r') : ∃ remark, Remark remark ∧ text = u ++ remark := by
  obtain ⟨hr, hb⟩ := h
  rename_i remark nl
  cases hb with
  | lf => exact ⟨remark, hr, List.append_cancel_right (hnl.symm.trans (List.append_assoc ..).symm)⟩
  | crlf =>
    have htail : text = u ++ remark ++ ['\r'] :=
      List.append_cancel_right (hnl.symm.trans (by simp : _ = u ++ remark ++ ['\r'] ++ ['\n']))
    simp [htail] at htext

/-- Behind a line stands nothing, or lines that end as the whole text does. -/
theorem exists_tail (h : u ++ (nl ++ cs) = text ++ ['\n']) (htext : text.getLast? ≠ some '\r') :
    cs = [] ∨ ∃ tail, cs = tail ++ ['\n'] ∧ text = u ++ (nl ++ tail) ∧
      tail.getLast? ≠ some '\r' := by
  rcases List.eq_nil_or_concat cs with rfl | ⟨tail, c, rfl⟩
  · exact .inl rfl
  · have hsplit : (u ++ (nl ++ tail)) ++ [c] = text ++ ['\n'] := by simpa using h
    obtain ⟨rfl, hc⟩ := List.append_inj' hsplit rfl
    refine .inr ⟨tail, by simpa using hc, rfl, fun htail => htext ?_⟩
    simp [List.getLast?_append, htail]

theorem Lines.ended (h : Lines ds cs) (hcs : cs = text ++ ['\n'])
    (htext : text.getLast? ≠ some '\r') : Ended ds text := by
  induction h generalizing text with
  | nil => simp at hcs
  | rule hu hnl hlines ih =>
    rcases exists_tail hcs htext with rfl | ⟨tail, htail, rfl, hlast⟩
    · obtain ⟨remark, hr, rfl⟩ := hnl.exists_remark (by simpa using hcs) htext
      obtain rfl := hlines.eq_nil rfl
      exact .rule hu hr
    · exact .ruleLine hu hnl (ih htail hlast)
  | blank hw hnl hlines ih =>
    rcases exists_tail hcs htext with rfl | ⟨tail, htail, rfl, hlast⟩
    · obtain ⟨remark, hr, rfl⟩ := hnl.exists_remark (by simpa using hcs) htext
      obtain rfl := hlines.eq_nil rfl
      exact .blank hw hr
    · exact .blankLine hw hnl (ih htail hlast)

/-- Lines with more of a text behind them. -/
theorem Lines.append_ended {es : List Definition} (h : Lines ds cs) (htext : Ended es text) :
    Ended (ds ++ es) (cs ++ text) := by
  induction h with
  | nil => exact htext
  | rule hu hnl _ ih => simpa using Ended.ruleLine hu hnl ih
  | blank hw hnl _ ih => simpa using Ended.blankLine hw hnl ih

/-! ## White space over line ends -/

/-- What is left where a line ends: nothing, or a line end and then the lines of rules. -/
def AtLineEnd (ds : List Definition) (n : Nat) (rest : List Char) : Prop :=
  (ds = [] ∧ rest = []) ∨ ∃ cs, lineEnd? rest = some cs ∧ Ended ds cs ∧ cs.length < n

theorem AtLineEnd.mono {n m : Nat} (h : AtLineEnd ds n rest) (hnm : n ≤ m) :
    AtLineEnd ds m rest := by
  rcases h with hend | ⟨cs, hcs, hended, hlt⟩
  · exact .inl hend
  · exact .inr ⟨cs, hcs, hended, Nat.lt_of_lt_of_le hlt hnm⟩

/-- White space that starts with a blank is that blank and more white space. -/
theorem Blanks.tail_of_isBlank {c : Char} (h : Blanks (c :: w)) (hc : isBlank c) : Blanks w := by
  generalize hcs : c :: w = cs at h
  cases h with
  | nil => cases hcs
  | cons hb hw =>
    cases hb with
    | blank hd =>
      obtain ⟨-, rfl⟩ := List.cons.inj hcs
      exact hw
    | folded hnl hd =>
      obtain ⟨e, tail, rfl, he⟩ := hnl.not_isBlank_head
      obtain ⟨rfl, -⟩ := List.cons.inj hcs
      exact absurd hc he

theorem LineEnd.skip_append (h : LineEnd nl) (hcs : ∀ c ∈ cs.head?, ¬ isBlank c) :
    skip (nl ++ cs) = nl ++ cs := by
  refine skip_of_blank?_eq_none ?_
  rw [h.blank?_append]
  cases cs with
  | nil => rfl
  | cons c cs => simp [hcs c rfl]

/-- White space behind a line end joins it, or starts with no blank. -/
theorem Blanks.joins (hw : Blanks w) (hrest : ∀ c ∈ rest.head?, ¬ isBlank c) (hnl : LineEnd nl) :
    skip (nl ++ (w ++ rest)) = skip rest ∨ ∀ c ∈ (w ++ rest).head?, ¬ isBlank c := by
  cases w with
  | nil => exact .inr hrest
  | cons c w =>
    by_cases hc : isBlank c
    · have hblanks : Blanks ((nl ++ [c]) ++ w) := .cons (.folded hnl hc) (hw.tail_of_isBlank hc)
      left
      have hskip := @Blanks.skip_append _ rest hblanks
      rw [← hskip]
      simp
    · exact .inr (by simpa using hc)

theorem Remark.not_isBlank_head (h : Remark remark) : ∀ c ∈ remark.head?, ¬ isBlank c := by
  cases h with
  | nothing => simp
  | comment => simp [isBlank]

theorem Remark.boundary (h : Remark remark) : Boundary remark := by
  cases h with
  | nothing => exact .nil
  | comment => exact .cons (by decide)

/-- A comment that no line end follows is no white space. -/
theorem Remark.skip (h : Remark remark) : skip remark = remark := by
  refine skip_of_blank?_eq_none ?_
  have hdrop := h.dropComment
  cases h with
  | nothing => rfl
  | comment =>
    unfold blank?
    rw [hdrop]
    rfl

theorem Derives.not_isBlank_head {n : Nonterminal} (h : Derives n p u) :
    ∀ c ∈ (u ++ rest).head?, ¬ isBlank c := by
  obtain ⟨c, tail, rfl, hc⟩ := h.startsPhrase_head
  have hblank := @blank?_of_startsPhrase (tail ++ rest) _ hc
  intro d hd hd'
  obtain rfl : c = d := by simpa using hd
  simp [blank?, hd'] at hblank

theorem RuleName.head (h : RuleName u) : ∃ c tail, u = c :: tail ∧ isLetter c := by
  obtain ⟨hc, -⟩ := h
  exact ⟨_, _, rfl, hc⟩

theorem RuleText.not_isBlank_head (h : RuleText d u) : ∀ c ∈ (u ++ rest).head?, ¬ isBlank c := by
  obtain ⟨hname, -, -, -, -⟩ := h
  rw [List.append_assoc]
  exact (Derives.reference hname).not_isBlank_head

/-- A line end that no blank follows is where the line ends. -/
theorem Ended.atLineEnd (h : Ended ds cs) (hnl : LineEnd nl)
    (hcs : ∀ c ∈ cs.head?, ¬ isBlank c) :
    AtLineEnd ds (nl ++ cs).length (dropComment (skip (nl ++ cs))) := by
  have hpos := List.length_pos_iff.mpr hnl.ne_nil
  rw [hnl.skip_append hcs]
  exact .inr ⟨cs, hnl.lineEnd?, h, by simp; omega⟩

/--
Behind a line end that is white space stands a blank line; and what is left after the white space is
the end of that line, or of one after it.
-/
theorem Ended.after_line (h : Ended ds cs) (hnl : LineEnd nl) :
    AtLineEnd ds (nl ++ cs).length (dropComment (skip (nl ++ cs))) := by
  -- a blank line may be taken together with the end of the line before, when what follows is an
  -- indented line, and then the line after it is what comes next
  induction h generalizing nl with
  | blank hw hr =>
    rcases hw.joins hr.not_isBlank_head hnl with hskip | hhead
    · rw [hskip, hr.skip, hr.dropComment]
      exact .inl ⟨rfl, rfl⟩
    · exact (Ended.blank hw hr).atLineEnd hnl hhead
  | rule hu hr => exact (Ended.rule hu hr).atLineEnd hnl hu.not_isBlank_head
  | @blankLine ds w nl' cs hw hnl' hcs ih =>
    have hhead' : ∀ c ∈ (nl' ++ cs).head?, ¬ isBlank c := by
      obtain ⟨c, tail, rfl, hc⟩ := hnl'.not_isBlank_head
      simpa using hc
    rcases hw.joins hhead' hnl with hskip | hhead
    · rw [hskip]
      exact (ih hnl').mono (by simp; omega)
    · exact (Ended.blankLine hw hnl' hcs).atLineEnd hnl hhead
  | ruleLine hu hnl' hcs _ => exact (Ended.ruleLine hu hnl' hcs).atLineEnd hnl hu.not_isBlank_head

/-! ## Rules and lines -/

theorem AtLineEnd.closed {n : Nat} (h : AtLineEnd ds n (dropComment (skip rest))) :
    Closed rest := by
  -- behind the white space there is a comment, an end of a line, or nothing
  have hhead : ∀ c ∈ (skip rest).head?, c = ';' ∨ c = '\n' ∨ c = '\r' := by
    obtain ⟨remark, hr, hskip⟩ := exists_remark (skip rest)
    rw [hskip]
    cases hr with
    | comment => simp
    | nothing =>
      rcases h with ⟨-, hnil⟩ | ⟨cs, hend, -, -⟩
      · simp [hnil]
      · obtain ⟨nl, hb, hcs⟩ := exists_of_lineEnd? hend
        obtain ⟨c, tail, rfl, hc⟩ := hb.cases_head
        rw [hcs]
        rcases hc with rfl | rfl <;> simp
  refine ⟨fun c hc => ?_, fun hslash => ?_⟩
  · rcases hhead c hc with rfl | rfl | rfl <;> decide
  · have := hhead '/' hslash
    revert this
    decide

theorem Blank.head_ne_slash {b : List Char} (h : Blank b) : ∃ c tail, b = c :: tail ∧ c ≠ '/' := by
  cases h with
  | blank hc => exact ⟨_, _, rfl, by rintro rfl; exact absurd hc (by decide)⟩
  | folded hnl _ =>
    obtain ⟨c, tail, rfl, rfl | rfl | rfl⟩ := hnl.cases_head <;> exact ⟨_, _, rfl, by decide⟩

/-- What stands behind the sign of a rule does not start with a slash. -/
theorem definedAs?_append (hw : Blanks w) (hp : Derives .alternation p u) :
    definedAs? (d.sign ++ (w ++ (u ++ rest))) = some (d.adds, w ++ (u ++ rest)) := by
  obtain ⟨c, tail, hcs, hc⟩ : ∃ c tail, w ++ (u ++ rest) = c :: tail ∧ c ≠ '/' := by
    cases hw with
    | nil =>
      obtain ⟨c, tail, rfl, hc⟩ := hp.startsPhrase_head
      exact ⟨c, _, rfl, by rintro rfl; exact absurd hc (by decide)⟩
    | cons hb _ =>
      obtain ⟨c, tail, rfl, hc⟩ := hb.head_ne_slash
      exact ⟨c, _, rfl, hc⟩
  unfold Definition.sign
  rw [hcs]
  cases d.adds with
  | true => rfl
  | false => simp [definedAs?, hc]

/-- A name ends before the sign of its rule. -/
theorem not_isNameChar_head (hv : Blanks v) :
    ∀ c ∈ (v ++ (d.sign ++ cs)).head?, ¬ isNameChar c := by
  cases hv with
  | nil =>
    unfold Definition.sign
    split <;> simp <;> decide
  | cons hb _ =>
    rw [List.append_assoc]
    exact hb.boundary.not_head (by decide)

theorem not_isLetter_of_endsElement {c : Char} (h : endsElement c) : ¬ isLetter c := by
  rcases endsElement_iff.mp h with rfl | rfl | rfl | rfl | rfl | rfl | rfl | rfl <;> decide

/-- The first line of a text, with a rule on it or without. -/
theorem Ended.first_line (h : Ended ds text) :
    (∃ w rest, Blanks w ∧ Boundary rest ∧ text = w ++ rest ∧
        AtLineEnd ds text.length (dropComment (skip rest))) ∨
      ∃ d tail u rest, ds = d :: tail ∧ RuleText d u ∧ text = u ++ rest ∧
        AtLineEnd tail text.length (dropComment (skip rest)) := by
  cases h with
  | @blank w remark hw hr =>
    exact .inl ⟨w, remark, hw, hr.boundary, rfl, .inl ⟨rfl, by rw [hr.skip, hr.dropComment]⟩⟩
  | @blankLine _ w nl cs hw hnl hcs =>
    exact .inl ⟨w, nl ++ cs, hw, hnl.boundary, rfl, (hcs.after_line hnl).mono (by simp)⟩
  | @rule d u remark hu hr =>
    exact .inr ⟨d, [], u, remark, rfl, hu, rfl, .inl ⟨rfl, by rw [hr.skip, hr.dropComment]⟩⟩
  | @ruleLine d tail u nl cs hu hnl hcs =>
    exact .inr ⟨d, tail, u, nl ++ cs, rfl, hu, rfl, (hcs.after_line hnl).mono (by simp)⟩

theorem exists_of_definedAs? {adds : Bool} (h : definedAs? cs = some (adds, rest)) :
    cs = (if adds then ['=', '/'] else ['=']) ++ rest := by
  unfold definedAs? at h
  split at h
  · cases h
    rfl
  · cases h
    rfl
  · cases h

variable [Interpreter]

/-- A rule is read as what is added for it. -/
theorem outcome_readDefinition (hv : Blanks v) (hw : Blanks w)
    (hp : Derives .alternation d.body u) (hrest : Closed rest) :
    outcome (readDefinition scope d.key (v ++ (d.sign ++ (w ++ (u ++ rest))))) = do
      let scope' ← scope.verdict d
      return (scope', skip rest) := by
  have hsign : skip (v ++ (d.sign ++ (w ++ (u ++ rest)))) = d.sign ++ (w ++ (u ++ rest)) := by
    rw [hv.skip_append]
    refine skip_of_blank?_eq_none ?_
    unfold Definition.sign
    split <;> rfl
  have hbody : skip (w ++ (u ++ rest)) = u ++ rest := by rw [hw.skip_append, hp.skip_append]
  have hread : outcome (readAlternation scope depthLimit (u ++ rest)) = do
      let expr ← d.body.verdictOne scope (depthLimit - 1)
      return (expr, skip rest) := by
    rw [← Nat.sub_add_cancel depthLimit_pos]
    exact outcome_readAlternation hp hrest
  unfold readDefinition Scope.verdict
  split
  · rfl
  · rw [hsign, definedAs?_append hw hp]
    cases d.adds with
    | false =>
      simp only [hbody, outcome_bind, outcome_pure, hread, bind_assoc, pure_bind, skip_skip,
        Bool.false_eq_true, if_false]
    | true =>
      cases scope.defined.find? d.key with
      | none => rfl
      | some old =>
        simp only [hbody, outcome_bind, outcome_pure, hread, bind_assoc, pure_bind, skip_skip,
          if_true]

/-- A line with a rule on it is read as what is added for the rule. -/
theorem outcome_readLine (h : RuleText d u) (hrest : Closed rest) :
    outcome (readLine scope (u ++ rest)) = do
      let scope' ← scope.verdict d
      return ((scope', true), dropComment (skip rest)) := by
  obtain ⟨hname, hv, hw, hp, hx⟩ := h
  rename_i u v w y
  have hclosed : Closed (y ++ rest) := by
    unfold Closed Stops at hrest ⊢
    rwa [hx.skip_append]
  have hread := @outcome_readDefinition scope _ _ _ _ _ _ hv hw hp hclosed
  unfold Definition.key keyOf at hread
  unfold readLine
  simp only [List.append_assoc, hname.name?_append (not_isNameChar_head hv), outcome_bind,
    outcome_pure, hread, bind_assoc, pure_bind, hx.skip_append]

/-- A line without a rule changes nothing. -/
theorem readLine_blank (hw : Blanks w) (hrest : Boundary rest) :
    readLine scope (w ++ rest) = .ok ((scope, false), dropComment (skip rest)) := by
  have hname : name? (w ++ rest) = none := by
    have hhead := hw.boundary hrest
    unfold Boundary at hhead
    generalize w ++ rest = cs at hhead
    cases cs with
    | nil => rfl
    | cons c cs => simp [name?, not_isLetter_of_endsElement (hhead c rfl)]
  unfold readLine
  rw [hname]
  simp only [hw.skip_append]
  rfl

/-- Behind a line the reading ends, or goes on with the lines left. -/
theorem outcome_readLines_succ {n : Nat} {next : Except Cause (Scope × Bool)}
    (hread : outcome (readLine scope text) = do
      let added ← next
      return (added, rest))
    (hend : AtLineEnd ds n rest) :
    (ds = [] ∧ outcome (readLines (n + 1) scope text) = do
      let added ← next
      return added.1) ∨
    ∃ cs, Ended ds cs ∧ cs.length < n ∧ outcome (readLines (n + 1) scope text) = (do
      let added ← next
      outcome (readLines n added.1 cs)) := by
  rw [readLines, outcome_bind, hread]
  simp only [bind_assoc, pure_bind]
  rcases hend with ⟨hds, rfl⟩ | ⟨cs, hcs, hended, hlt⟩
  · exact .inl ⟨hds, rfl⟩
  · refine .inr ⟨cs, hended, hlt, ?_⟩
    cases rest with
    | nil => cases hcs
    | cons c rest => simp only [List.isEmpty_cons, Bool.false_eq_true, if_false, hcs]

/-- However its lines are derived, a text is read as its rules in order. -/
theorem outcome_readLines : ∀ (n : Nat) {scope : Scope} {ds : List Definition}
    {text : List Char}, Ended ds text → text.length < n →
    outcome (readLines n scope text) = scope.verdictAll ds
  | 0, _, _, _, _, hn => absurd hn (Nat.not_lt_zero _)
  | n + 1, scope, ds, text, h, hn => by
      have hn := Nat.le_of_lt_succ hn
      -- the reader takes a blank line or a rule, and is then at the end of a line
      rcases h.first_line with ⟨w, rest, hw, hrest, rfl, hend⟩ |
        ⟨d, tail, u, rest, rfl, hu, rfl, hend⟩
      · have hblank : outcome (readLine scope (w ++ rest)) = do
            let added ← pure (scope, false)
            return (added, dropComment (skip rest)) := by
          rw [readLine_blank hw hrest]
          rfl
        rcases outcome_readLines_succ hblank (hend.mono hn) with
          ⟨rfl, hread⟩ | ⟨cs, hcs, hlt, hread⟩
        · exact hread
        · exact hread.trans (outcome_readLines n hcs hlt)
      · have hrule : outcome (readLine scope (u ++ rest)) = do
            let added ← (do
              let scope' ← scope.verdict d
              return (scope', true))
            return (added, dropComment (skip rest)) := by
          rw [outcome_readLine hu hend.closed, bind_assoc]
          rfl
        rw [Scope.verdictAll]
        rcases outcome_readLines_succ hrule (hend.mono hn) with
          ⟨rfl, hread⟩ | ⟨cs, hcs, hlt, hread⟩
        · rw [hread, bind_assoc]
          rfl
        · simp only [hread, bind_assoc, pure_bind, outcome_readLines n hcs hlt]

/-! ## What is read has lines -/

/-- What a rule takes behind its name, and what the rules are with it. -/
theorem readDefinition_sound {name : Name} (h : readDefinition scope name cs = .ok (scope', rest)) :
    ∃ (adds : Bool) (p : Phrase) (v w u x : List Char),
      Blanks v ∧ Blanks w ∧ Derives .alternation p u ∧ Blanks x ∧
      cs = v ++ ((if adds then ['=', '/'] else ['=']) ++ (w ++ (u ++ (x ++ rest)))) ∧
      ∀ d : Definition, d.key = name → d.adds = adds → d.body = p →
        scope.verdict d = .ok scope' := by
  obtain ⟨v, hv, hcs⟩ := exists_blanks_skip cs
  unfold readDefinition at h
  -- whichever sign it is, a body is derived behind it
  have hbody {adds : Bool} {left : List Char} {expr : Expr} {after : List Char}
      (hsign : definedAs? (skip cs) = some (adds, left))
      (hread : readAlternation scope depthLimit (skip left) = .ok (expr, after))
      (hrest : skip after = rest) : ∃ (p : Phrase) (v w u x : List Char),
        Blanks v ∧ Blanks w ∧ Derives .alternation p u ∧ Blanks x ∧
        cs = v ++ ((if adds then ['=', '/'] else ['=']) ++ (w ++ (u ++ (x ++ rest)))) ∧
        p.verdictOne scope (depthLimit - 1) = .ok expr := by
    obtain ⟨w, hw, hleft⟩ := exists_blanks_skip left
    obtain ⟨p, u, x, hp, hx, hafter, hstands⟩ := (readAlternation_stands _ _ _ _ hread).skip
    refine ⟨p, v, w, u, x, hv, hw, hp, hx, ?_, ?_⟩
    · rw [← hrest, ← hafter, ← hleft, ← exists_of_definedAs? hsign, ← hcs]
    · rw [← Nat.sub_add_cancel depthLimit_pos] at hstands
      exact Phrase.verdictOne_group_succ.symm.trans hstands
  split at h
  · cases h
  · rename_i hreserved
    split at h
    · cases h
    · rename_i hsign
      simp only [Except.bind_eq_ok, Except.pure_eq_ok] at h
      obtain ⟨⟨expr, after⟩, hread, heq⟩ := h
      cases heq
      obtain ⟨p, v, w, u, x, hv, hw, hp, hx, hcs, hstands⟩ := hbody hsign hread rfl
      refine ⟨false, p, v, w, u, x, hv, hw, hp, hx, hcs, ?_⟩
      rintro d rfl hadds rfl
      rw [Scope.verdict, if_neg hreserved, hadds, if_neg Bool.false_ne_true]
      exact Except.bind_eq_ok.mpr ⟨expr, hstands, rfl⟩
    · rename_i hsign
      split at h
      · cases h
      · rename_i old hold
        simp only [Except.bind_eq_ok, Except.pure_eq_ok] at h
        obtain ⟨⟨expr, after⟩, hread, heq⟩ := h
        cases heq
        obtain ⟨p, v, w, u, x, hv, hw, hp, hx, hcs, hstands⟩ := hbody hsign hread rfl
        refine ⟨true, p, v, w, u, x, hv, hw, hp, hx, hcs, ?_⟩
        rintro d rfl hadds rfl
        rw [Scope.verdict, if_neg hreserved, if_pos hadds, hold]
        exact Except.bind_eq_ok.mpr ⟨expr, hstands, rfl⟩

/-- What a line takes before its line end, and what the rules are behind it. -/
theorem readLine_sound {x : (Scope × Bool) × List Char} (h : readLine scope cs = .ok x) :
    ∃ remark, Remark remark ∧
      ((∃ w, Blanks w ∧ cs = w ++ (remark ++ x.2) ∧ x.1.1 = scope) ∨
        ∃ d u, RuleText d u ∧ cs = u ++ (remark ++ x.2) ∧ scope.verdict d = .ok x.1.1) := by
  -- a line without a name at its start is blank, or else it is a rule
  unfold readLine at h
  split at h
  · obtain ⟨w, hw, hcs⟩ := exists_blanks_skip cs
    obtain ⟨remark, hr, hskip⟩ := exists_remark (skip cs)
    cases h
    exact ⟨remark, hr, .inl ⟨w, hw, by rw [← hskip, ← hcs], rfl⟩⟩
  · rename_i hname
    obtain ⟨written, hwritten, rfl, rfl⟩ := exists_of_name? hname
    simp only [Except.bind_eq_ok, Except.pure_eq_ok] at h
    obtain ⟨⟨scope', after⟩, hread, rfl⟩ := h
    obtain ⟨adds, p, v, w, u, x, hv, hw, hp, hx, hcs, hverdict⟩ := readDefinition_sound hread
    obtain ⟨remark, hr, hafter⟩ := exists_remark after
    refine ⟨remark, hr, .inr ⟨⟨written, adds, p⟩, _, .mk hwritten hv hw hp hx, ?_,
      hverdict _ rfl rfl rfl⟩⟩
    rw [hcs]
    simp only [Definition.sign, List.append_assoc]
    rw [← hafter]

/-- The piece that a line is: a rule or none, which has been added, with a line end or without. -/
theorem exists_piece {defined : Bool} (h : readLine scope cs = .ok ((scope', defined), rest)) :
    ∃ ds u, Ended ds u ∧ (∀ nl, LineBreak nl → Lines ds (u ++ nl)) ∧ cs = u ++ rest ∧
      scope.addAll? ds = some scope' := by
  obtain ⟨remark, hr, ⟨w, hw, rfl, hsame⟩ | ⟨d, u, hu, rfl, hverdict⟩⟩ := readLine_sound h
  · obtain rfl : scope' = scope := hsame
    refine ⟨[], w ++ remark, .blank hw hr, fun nl hnl => ?_, (List.append_assoc ..).symm, rfl⟩
    simpa using Lines.blank hw (.mk hr hnl) .nil
  · refine ⟨[d], u ++ remark, .rule hu hr, fun nl hnl => ?_, (List.append_assoc ..).symm, ?_⟩
    · simpa using Lines.rule hu (.mk hr hnl) .nil
    · rw [Scope.addAll?, Scope.verdict_eq_ok.mp hverdict]
      rfl

/-- What is read to its end has lines. -/
theorem readLines_sound : ∀ (n : Nat) {scope scope' : Scope} {text : List Char},
    readLines n scope text = .ok scope' → ∃ ds, Ended ds text
  | 0, _, _, _, h => by cases h
  | n + 1, scope, scope', text, h => by
      rw [readLines, Except.bind_eq_ok] at h
      obtain ⟨⟨⟨added, defined⟩, rest⟩, hread, h⟩ := h
      obtain ⟨ds, u, hended, hlines, rfl, -⟩ := exists_piece hread
      simp only at h
      split at h
      · rename_i hempty
        obtain rfl := List.isEmpty_iff.mp hempty
        rw [List.append_nil]
        exact ⟨ds, hended⟩
      · split at h
        · rename_i left hend
          obtain ⟨nl, hnl, rfl⟩ := exists_of_lineEnd? hend
          obtain ⟨es, hes⟩ := readLines_sound n h
          rw [← List.append_assoc]
          exact ⟨ds ++ es, (hlines nl hnl).append_ended hes⟩
        · cases h

/--
However the lines of a text are derived, what is read is their rules in order, and if that fails,
the cause is the first that they have.
-/
theorem cause_read {given : Rules} (h : Ended ds text) :
    (read given text).mapError Error.cause = do
      let scope ← ({ given := given } : Scope).verdictAll ds
      return scope.defined := by
  have hlines : outcome (readLines (text.length + 1) { given := given } text) =
      ({ given := given } : Scope).verdictAll ds :=
    outcome_readLines _ h (Nat.lt_succ_self _)
  rw [← hlines]
  unfold read
  cases readLines (text.length + 1) { given := given } text <;> rfl

theorem read_eq_ok_iff_of_ended {given rules : Rules} (h : Ended ds text) :
    read given text = .ok rules ↔
      ∃ scope, ({ given := given } : Scope).addAll? ds = some scope ∧ scope.defined = rules := by
  rw [← Except.mapError_eq_ok, cause_read h]
  simp only [Except.bind_eq_ok, Scope.verdictAll_eq_ok, Except.pure_eq_ok]

/-- A text is read exactly if it has lines whose rules can be added, and then it is read so. -/
theorem read_eq_ok {given rules : Rules} : read given text = .ok rules ↔
    ∃ ds scope, Ended ds text ∧ ({ given := given } : Scope).addAll? ds = some scope ∧
      scope.defined = rules := by
  constructor
  · intro h
    obtain ⟨ds, hds⟩ : ∃ ds, Ended ds text := by
      unfold read at h
      split at h
      · rename_i hread
        exact readLines_sound _ hread
      · cases h
    obtain ⟨scope, hscope⟩ := (read_eq_ok_iff_of_ended hds).mp h
    exact ⟨ds, scope, hds, hscope⟩
  · rintro ⟨ds, scope, hds, hscope⟩
    exact (read_eq_ok_iff_of_ended hds).mpr ⟨scope, hscope⟩

end Abnf.Grammar
