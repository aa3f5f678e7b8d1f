import Abnf.Proofs.Grammar.Acceptance
import Abnf.Proofs.Grammar.LineEnds

/-!
# Other words for a quoted string

In a grammar the string `"x"` may be given in other words wherever a space stands before it: the
grammar stays one, with the same names in the same order (`exists_read_of_filled`). The other words
are a concatenation, and not an element as the string is; but behind a space no repeat can be meant
for it, and a concatenation may stand wherever an element without a repeat does.

Which places are meant is said by `Filled`, character by character, so a place may lie in a rule or
in a comment, and beside anything. What has to be seen is that no piece of a derivation ends within
a place: a string is followed by what may stand behind an element, and an `x` is not.
-/

namespace Abnf.Grammar

open Token

variable {space : Bool} {u u' v v' w t nl : List Char} {c : Char} {p q r : Phrase}
  {n : Nonterminal} {ds es : List Definition} {d : Definition}

/-! ## Phrases that ask no more than others -/

/--
The second phrase keeps within the limits if the first one does, and refers to core rules else.
-/
structure Phrase.AsksNoMore (p q : Phrase) : Prop where
  nesting : q.nesting ≤ p.nesting
  fits : p.Fits → q.Fits
  legal : ∀ {defined : Name → Prop}, (∀ name, (CoreRule.ofName? name).isSome → defined name) →
    p.Legal defined → q.Legal defined

namespace Phrase.AsksNoMore

/-- A phrase asks no more than itself. -/
theorem refl (p : Phrase) : AsksNoMore p p := ⟨Nat.le_refl _, id, fun _ => id⟩

theorem trans (h : AsksNoMore p q) (h' : AsksNoMore q r) : AsksNoMore p r :=
  ⟨Nat.le_trans h'.nesting h.nesting, h'.fits ∘ h.fits, fun hcore => h'.legal hcore ∘ h.legal hcore⟩

/-- Whatever a phrase is part of, it may be replaced by one that asks no more. -/
theorem group (h : AsksNoMore p q) : AsksNoMore (.group p) (.group q) :=
  ⟨Nat.succ_le_succ h.nesting, h.fits, h.legal⟩

theorem option (h : AsksNoMore p q) : AsksNoMore (.option p) (.option q) :=
  ⟨Nat.succ_le_succ h.nesting, h.fits, h.legal⟩

theorem times (h : AsksNoMore p q) (bounds : Bounds) :
    AsksNoMore (.times bounds p) (.times bounds q) :=
  ⟨h.nesting, And.imp_right h.fits, fun hcore => And.imp_right (h.legal hcore)⟩

theorem seq {p' q' : Phrase} (h : AsksNoMore p q) (h' : AsksNoMore p' q') :
    AsksNoMore (.seq p p') (.seq q q') :=
  ⟨max_le_max h.nesting h'.nesting, And.imp h.fits h'.fits,
    fun hcore => And.imp (h.legal hcore) (h'.legal hcore)⟩

theorem alt {p' q' : Phrase} (h : AsksNoMore p q) (h' : AsksNoMore p' q') :
    AsksNoMore (.alt p p') (.alt q q') :=
  ⟨max_le_max h.nesting h'.nesting, And.imp h.fits h'.fits,
    fun hcore => And.imp (h.legal hcore) (h'.legal hcore)⟩

/-- How phrases in a row are put together is no matter. -/
theorem assoc : AsksNoMore (.seq p (.seq q r)) (.seq (.seq p q) r) :=
  ⟨(Nat.max_assoc ..).le, and_assoc.mpr, fun _ => and_assoc.mpr⟩

end Phrase.AsksNoMore

/-- Concatenations behind one another are a concatenation. -/
theorem Derives.append_concatenation {b : List Char} (hp : Derives .concatenation p u)
    (hb : Blank b) (hw : Blanks w) (hq : Derives .concatenation q v) :
    ∃ r, Derives .concatenation r (u ++ (b ++ (w ++ v))) ∧ Phrase.AsksNoMore (.seq p q) r := by
  -- concatenations grow at their right end, so the second one is taken apart down to its first part
  generalize hn : Nonterminal.concatenation = n at hq
  induction hq with
  | single hq => exact ⟨_, .seq hp hb hw hq, .refl _⟩
  | @seq q₁ q₂ v₁ v₂ b' w' _ hb' hw' hq ih _ =>
    obtain ⟨r, hr, hasks⟩ := ih hn
    refine ⟨.seq r q₂, ?_, Phrase.AsksNoMore.assoc.trans (hasks.seq (.refl _))⟩
    simpa using Derives.seq hr hb' hw' hq
  | reference | group | option | quoted | codes | prose | once | times | only | alt => cases hn

/-! ## Places -/

/-- A concatenation that may stand in any grammar, and in a comment as well. -/
structure Insertable (u : List Char) : Prop where
  derives : ∃ p, Derives .concatenation p u ∧ ∀ text, Phrase.AsksNoMore (.quoted text) p
  printable : ∀ c ∈ u, isCommentChar c

/--
`Filled space u v`: the text `v` is the text `u`, in which there is no prose, with other words for
some of the strings `"x"` that a space stands before; `space` says whether one stands before `u`.

The space is what makes other words harmless. Right behind a repeat a concatenation would be read as
another one, `2"a" "b"` being two strings `a` and then `b`, but what stands behind a space is never
repeated.
-/
inductive Filled : Bool → List Char → List Char → Prop where
  | nil {space : Bool} : Filled space [] []
  | char {space : Bool} {c : Char} {u v : List Char} :
      c ≠ '<' → Filled (c = ' ') u v → Filled space (c :: u) (c :: v)
  | place {words u v : List Char} :
      Insertable words → Filled false u v → Filled true ('"' :: 'x' :: '"' :: u) (words ++ v)

/-- Whether a space stands behind a text, where one may stand before it. -/
def spaceAfter (space : Bool) (u : List Char) : Bool :=
  match u.getLast? with
  | none => space
  | some c => c = ' '

/-- Whether a text ends in a space goes by its last character. -/
theorem spaceAfter_cons (space : Bool) (c : Char) (u : List Char) :
    spaceAfter space (c :: u) = spaceAfter (c = ' ') u := by
  unfold spaceAfter
  rw [List.getLast?_cons]
  cases u.getLast? <;> rfl

theorem spaceAfter_append (space : Bool) (u v : List Char) :
    spaceAfter space (u ++ v) = spaceAfter (spaceAfter space u) v := by
  induction u generalizing space with
  | nil => rfl
  | cons c u ih => rw [List.cons_append, spaceAfter_cons, spaceAfter_cons, ih]

namespace Filled

/-- Filled texts beside each other. -/
theorem append (h : Filled space u v) (h' : Filled (spaceAfter space u) u' v') :
    Filled space (u ++ u') (v ++ v') := by
  induction h with
  | nil => exact h'
  | char hc _ ih =>
    rw [spaceAfter_cons] at h'
    exact .char hc (ih h')
  | @place words u v hwords _ ih =>
    rw [spaceAfter_cons, spaceAfter_cons, spaceAfter_cons] at h'
    rw [List.append_assoc]
    exact .place hwords (ih h')

/-- A text without prose is filled by itself. -/
theorem self (h : '<' ∉ u) : Filled space u u := by
  induction u generalizing space with
  | nil => exact .nil
  | cons c u ih =>
    rw [List.mem_cons, not_or] at h
    exact .char (Ne.symm h.1) (ih h.2)

/-- Nothing is filled with nothing. -/
theorem eq_nil (h : Filled space [] t) : t = [] := by
  cases h
  rfl

/-- A place starts with a double quote. -/
theorem of_cons (h : Filled space (c :: u) t) (hc : c ≠ '"') :
    ∃ v, t = c :: v ∧ Filled (c = ' ') u v := by
  cases h with
  | char _ h => exact ⟨_, rfl, h⟩
  | place => exact absurd rfl hc

/-- No place starts within a text without double quotes. -/
theorem of_append (h : Filled space (u ++ u') t) (hu : '"' ∉ u) :
    ∃ v', t = u ++ v' ∧ Filled (spaceAfter space u) u' v' := by
  induction u generalizing space t with
  | nil => exact ⟨t, rfl, h⟩
  | cons c u ih =>
    rw [List.mem_cons, not_or] at hu
    obtain ⟨t', rfl, htail⟩ := of_cons h (Ne.symm hu.1)
    obtain ⟨v', rfl, hv'⟩ := ih htail hu.2
    exact ⟨v', rfl, spaceAfter_cons .. ▸ hv'⟩

/-- Without a quote there is no place to fill. -/
theorem eq_of_not_mem (h : Filled space u t) (hu : '"' ∉ u) : t = u := by
  rw [← List.append_nil u] at h
  obtain ⟨v', rfl, hv'⟩ := of_append h hu
  rw [hv'.eq_nil, List.append_nil]

/-- No place lies across the end of a text, if what follows there may stand behind an element. -/
theorem split (h : Filled space (u ++ u') t) (hbound : Boundary u') :
    ∃ v v', t = v ++ v' ∧ Filled space u v ∧ Filled (spaceAfter space u) u' v' := by
  generalize htext : u ++ u' = text at h
  induction h generalizing u with
  | nil =>
    obtain ⟨rfl, rfl⟩ := List.append_eq_nil_iff.mp htext
    exact ⟨[], [], rfl, .nil, .nil⟩
  | @char space c text t hc h ih =>
    cases u with
    | nil =>
      obtain rfl := htext
      exact ⟨[], _, rfl, .nil, .char hc h⟩
    | cons d u =>
      obtain ⟨rfl, htail⟩ := List.cons.inj htext
      obtain ⟨v, v', rfl, hv, hv'⟩ := ih htail
      exact ⟨d :: v, v', rfl, .char hc hv, spaceAfter_cons .. ▸ hv'⟩
  | @place words text t hwords h ih =>
    -- a text that ends within a place is followed by `x` or by a quote, and no element is
    have hbound {c : Char} {rest : List Char} (hc : endsElement c = false) : u' ≠ c :: rest := by
      rintro rfl
      simpa [hc] using hbound c rfl
    match u, htext with
    | [], htext =>
      obtain rfl := htext
      exact ⟨[], _, rfl, .nil, .place hwords h⟩
    | [_], htext => exact absurd (List.cons.inj htext).2 (hbound (by decide))
    | [_, _], htext =>
      exact absurd (List.cons.inj (List.cons.inj htext).2).2 (hbound (by decide))
    | a :: b :: c :: u, htext =>
      simp only [List.cons_append, List.cons.injEq] at htext
      obtain ⟨rfl, rfl, rfl, htext⟩ := htext
      obtain ⟨v, v', rfl, hv, hv'⟩ := ih htext
      refine ⟨words ++ v, v', (List.append_assoc ..).symm, .place hwords hv, ?_⟩
      rw [spaceAfter_cons, spaceAfter_cons, spaceAfter_cons]
      exact hv'

/-! ## White space -/

/-- What is filled in may stand in a comment. -/
theorem isCommentChar (h : Filled space u t) (hu : ∀ c ∈ u, isCommentChar c) :
    ∀ c ∈ t, Token.isCommentChar c := by
  induction h with
  | nil => exact hu
  | char _ _ ih =>
    rw [List.forall_mem_cons] at hu ⊢
    exact ⟨hu.1, ih hu.2⟩
  | place hwords _ ih =>
    simp only [List.forall_mem_cons] at hu
    exact List.forall_mem_append.mpr ⟨hwords.printable, ih hu.2.2.2⟩

/-- A comment stays a comment, whatever is filled into it. -/
theorem remark (h : Filled space u t) (hu : Remark u) : Remark t := by
  cases hu with
  | nothing =>
    rw [h.eq_nil]
    exact .nothing
  | comment htext =>
    obtain ⟨text, rfl, hfilled⟩ := h.of_cons (by decide)
    exact .comment (hfilled.isCommentChar htext)

/-- A line end stays one, and what follows it is filled from there. -/
theorem lineEnd_append (h : Filled space (nl ++ u) t) (hnl : LineEnd nl) :
    ∃ nl' v, t = nl' ++ v ∧ LineEnd nl' ∧ Filled (spaceAfter space nl) u v := by
  obtain ⟨hr, hb⟩ := hnl
  rename_i remark nl
  have hbound : Boundary (nl ++ u) := LineEnd.boundary (.mk .nothing hb)
  rw [List.append_assoc] at h
  obtain ⟨remark', t', rfl, hremark, htail⟩ := h.split hbound
  obtain ⟨v, rfl, hv⟩ := htail.of_append (show '"' ∉ nl by cases hb <;> decide)
  refine ⟨remark' ++ nl, v, (List.append_assoc ..).symm, .mk (hremark.remark hr) hb, ?_⟩
  rwa [spaceAfter_append]

/-- So does a blank, perhaps with a comment in it. -/
theorem blank_append {b : List Char} (h : Filled space (b ++ u) t) (hb : Blank b) :
    ∃ b' v, t = b' ++ v ∧ Blank b' ∧ Filled (spaceAfter space b) u v := by
  have hplain {c : Char} (hc : isBlank c) : '"' ∉ [c] := by
    rcases eq_of_isBlank hc with rfl | rfl <;> decide
  cases hb with
  | blank hc =>
    obtain ⟨v, rfl, hv⟩ := h.of_append (hplain hc)
    exact ⟨_, v, rfl, .blank hc, hv⟩
  | @folded nl c hnl hc =>
    rw [List.append_assoc] at h
    obtain ⟨nl', t', rfl, hnl', htail⟩ := h.lineEnd_append hnl
    obtain ⟨v, rfl, hv⟩ := htail.of_append (hplain hc)
    refine ⟨nl' ++ [c], v, (List.append_assoc ..).symm, .folded hnl' hc, ?_⟩
    rwa [spaceAfter_append]

/-- So do any number of them. -/
theorem blanks_append (h : Filled space (w ++ u) t) (hw : Blanks w) :
    ∃ w' v, t = w' ++ v ∧ Blanks w' ∧ Filled (spaceAfter space w) u v := by
  induction hw generalizing space t with
  | nil => exact ⟨[], t, rfl, .nil, h⟩
  | cons hb _ ih =>
    rw [List.append_assoc] at h
    obtain ⟨b', t', rfl, hb', htail⟩ := h.blank_append hb
    obtain ⟨w', v, rfl, hw', hv⟩ := ih htail
    refine ⟨b' ++ w', v, (List.append_assoc ..).symm, .cons hb' hw', ?_⟩
    rwa [spaceAfter_append]

theorem blanks (h : Filled space w t) (hw : Blanks w) : Blanks t := by
  rw [← List.append_nil w] at h
  obtain ⟨w', v, rfl, hw', hv⟩ := h.blanks_append hw
  rwa [hv.eq_nil, List.append_nil]

end Filled

/-! ## Phrases -/

/-- What a phrase becomes that a space stands before: words for an element are a concatenation. -/
def Nonterminal.behind : Nonterminal → Bool → Nonterminal
  | element, true | repetition, true => concatenation
  | n, _ => n

/-- Only strings have quotes, and no other token is filled. -/
theorem RuleName.quote_not_mem (h : RuleName u) : '"' ∉ u := by
  obtain ⟨hc, hmore⟩ := h
  rw [List.mem_cons, not_or]
  refine ⟨?_, fun hmem => absurd (hmore _ hmem) (by decide)⟩
  rintro rfl
  exact absurd hc (by decide)

theorem NumbersText.quote_not_mem {numbers : Numbers} (h : NumbersText numbers u) : '"' ∉ u := by
  refine fun hmem => h.forall_mem (P := (· ≠ '"')) ?_ ?_ (by decide) (by decide) _ hmem rfl
  · rintro letter base hbase rfl
    cases hbase
  · rintro base c hdigit rfl
    cases base <;> exact absurd hdigit (by decide)

/-- No place starts within a repeat, and no space stands behind one. -/
theorem RepeatText.plain {bounds : Bounds} (h : RepeatText bounds u) :
    '"' ∉ u ∧ ∀ space, spaceAfter space u = false := by
  -- a repeat is digits and asterisks, among which there is neither a quote nor a space
  have hchars : ∀ c ∈ u, Text.isAsciiDigit c ∨ c = '*' := by
    cases h with
    | exact hcount => exact fun c hc => .inl (hcount.2 c hc)
    | range hleast hmost =>
      refine List.forall_mem_append.mpr ⟨fun c hc => .inl (hleast c hc), ?_⟩
      exact List.forall_mem_cons.mpr ⟨.inr rfl, fun c hc => .inl (hmost c hc)⟩
  refine ⟨fun hmem => absurd (hchars _ hmem) (by decide), fun space => ?_⟩
  obtain ⟨c, tail, rfl, -⟩ := h.head
  have hlast := hchars _ (List.getLast_mem (List.cons_ne_nil c tail))
  rw [spaceAfter, List.getLast?_eq_getLast_of_ne_nil (List.cons_ne_nil c tail)]
  generalize List.getLast _ _ = last at hlast
  rcases hlast with hlast | rfl
  · refine decide_eq_false ?_
    rintro rfl
    exact absurd hlast (by decide)
  · exact decide_eq_false (by decide)

/-- Other words in what stands between parentheses or brackets stay between them. -/
theorem Filled.enclosed {opening closing : Char} {x : List Char}
    (h : Filled space (opening :: (w ++ (u ++ (x ++ [closing])))) t) (hopening : opening ≠ '"')
    (hclosing : endsElement closing) (hw : Blanks w) (hx : Blanks x) :
    ∃ w' v x', t = opening :: (w' ++ (v ++ (x' ++ [closing]))) ∧ Blanks w' ∧ Blanks x' ∧
      Filled (spaceAfter (opening = ' ') w) u v := by
  have hquote : '"' ∉ [closing] := by
    rw [List.mem_singleton]
    rintro rfl
    exact absurd hclosing (by decide)
  obtain ⟨t₁, rfl, h₁⟩ := h.of_cons hopening
  obtain ⟨w', t₂, rfl, hw', h₂⟩ := h₁.blanks_append hw
  obtain ⟨v, t₃, rfl, hv, h₃⟩ := h₂.split (hx.boundary (.cons hclosing))
  obtain ⟨x', t₄, rfl, hx', h₄⟩ := h₃.blanks_append hx
  obtain rfl := h₄.eq_of_not_mem hquote
  exact ⟨w', v, x', rfl, hw', hx', hv⟩

/-- A string is what it was, or all of it is a place. -/
theorem Filled.quoted {text : List Char} (h : Filled space ('"' :: (text ++ ['"'])) t)
    (htext : '"' ∉ text) : t = '"' :: (text ++ ['"']) ∨ (space = true ∧ Insertable t) := by
  generalize hu : text ++ ['"'] = u at h
  cases h with
  | @char _ _ _ v _ h =>
    subst hu
    obtain ⟨v', rfl, hv'⟩ := h.of_append htext
    generalize spaceAfter _ _ = space' at hv'
    cases hv' with
    | char _ hnil =>
      rw [hnil.eq_nil]
      exact .inl rfl
  | @place words u v hwords h =>
    -- the string is no longer than the place, because it ends at the next quote
    have hnil : u = [] := by
      match text, hu with
      | [_], hu => simpa using (List.cons.inj (List.cons.inj hu).2).2.symm
      | _ :: c :: text, hu =>
        obtain ⟨-, hu⟩ := List.cons.inj hu
        obtain ⟨rfl, -⟩ := List.cons.inj hu
        simp at htext
    subst hnil
    rw [h.eq_nil, List.append_nil]
    exact .inr ⟨rfl, hwords⟩

/-- A phrase with other words in it is a phrase that asks no more. -/
theorem Derives.filled (h : Derives n p u) (hfilled : Filled space u t) :
    ∃ q, Derives (n.behind space) q t ∧ Phrase.AsksNoMore p q := by
  -- behind a space a repetition is a concatenation already, elsewhere it is one of a single part
  have hconcatenation {space : Bool} {q : Phrase} {t : List Char}
      (hq : Derives (Nonterminal.repetition.behind space) q t) : Derives .concatenation q t := by
    cases space with
    | false => exact .single hq
    | true => exact hq
  have helement {space : Bool} {q : Phrase} {t : List Char} (hq : Derives .element q t) :
      Derives (Nonterminal.element.behind space) q t := by
    cases space with
    | false => exact hq
    | true => exact .single (.once hq)
  -- only a string can be a place; every other token is kept, and the pieces around it are filled
  induction h generalizing space t with
  | reference hname =>
    rw [hfilled.eq_of_not_mem hname.quote_not_mem]
    exact ⟨_, helement (.reference hname), .refl _⟩
  | group hw _ hx ih =>
    obtain ⟨w', v, x', rfl, hw', hx', hv⟩ := hfilled.enclosed (by decide) (by decide) hw hx
    obtain ⟨q, hq, hasks⟩ := ih hv
    exact ⟨.group q, helement (.group hw' hq hx'), hasks.group⟩
  | option hw _ hx ih =>
    obtain ⟨w', v, x', rfl, hw', hx', hv⟩ := hfilled.enclosed (by decide) (by decide) hw hx
    obtain ⟨q, hq, hasks⟩ := ih hv
    exact ⟨.option q, helement (.option hw' hq hx'), hasks.option⟩
  | @quoted text htext =>
    have hquote : '"' ∉ text := fun hmem => absurd (htext _ hmem) (by decide)
    rcases hfilled.quoted hquote with rfl | ⟨rfl, hwords⟩
    · exact ⟨_, helement (.quoted htext), .refl _⟩
    · obtain ⟨q, hq, hasks⟩ := hwords.derives
      exact ⟨q, hq, hasks text⟩
  | codes hnumbers =>
    rw [hfilled.eq_of_not_mem (by simpa using hnumbers.quote_not_mem)]
    exact ⟨_, helement (.codes hnumbers), .refl _⟩
  | prose => cases hfilled; contradiction
  | once hp ih =>
    obtain ⟨q, hq, hasks⟩ := ih hfilled
    cases space with
    | false => exact ⟨q, .once hq, hasks⟩
    | true => exact ⟨q, hq, hasks⟩
  | times hbounds hp ih =>
    -- a repeat takes one element, and gets one: no space stands behind its bounds
    obtain ⟨hplain, hspace⟩ := hbounds.plain
    obtain ⟨v, rfl, hv⟩ := hfilled.of_append hplain
    obtain ⟨q, hq, hasks⟩ := ih hv
    rw [hspace] at hq
    have htimes := Derives.times hbounds hq
    cases space with
    | false => exact ⟨_, htimes, hasks.times _⟩
    | true => exact ⟨_, .single htimes, hasks.times _⟩
  | single hp ih =>
    obtain ⟨q, hq, hasks⟩ := ih hfilled
    exact ⟨q, hconcatenation hq, hasks⟩
  | @seq p q u v b w hp hb hw hq ihp ihq =>
    obtain ⟨u', t₁, rfl, hu, h₁⟩ := hfilled.split hb.boundary
    obtain ⟨b', t₂, rfl, hb', h₂⟩ := h₁.blank_append hb
    obtain ⟨w', v', rfl, hw', hv⟩ := h₂.blanks_append hw
    obtain ⟨p', hp', hasksp⟩ := ihp hu
    obtain ⟨q', hq', hasksq⟩ := ihq hv
    obtain ⟨r, hr, hasks⟩ := Derives.append_concatenation hp' hb' hw' (hconcatenation hq')
    exact ⟨r, hr, (hasksp.seq hasksq).trans hasks⟩
  | only _ ih =>
    obtain ⟨q, hq, hasks⟩ := ih hfilled
    exact ⟨q, .only hq, hasks⟩
  | @alt p q u v w x _ hw hx _ ihp ihq =>
    have hslash : Boundary (w ++ '/' :: (x ++ v)) := hw.boundary (.cons (by decide))
    obtain ⟨u', t₁, rfl, hu, h₁⟩ := hfilled.split hslash
    obtain ⟨w', t₂, rfl, hw', h₂⟩ := h₁.blanks_append hw
    obtain ⟨t₃, rfl, h₃⟩ := h₂.of_cons (by decide)
    obtain ⟨x', v', rfl, hx', hv⟩ := h₃.blanks_append hx
    obtain ⟨p', hp', hasksp⟩ := ihp hu
    obtain ⟨q', hq', hasksq⟩ := ihq hv
    exact ⟨_, .alt hp' hw' hx' hq', hasksp.alt hasksq⟩

/-! ## Rules -/

/-- Rules of the same names, with bodies that ask no more. -/
structure Definition.AsksNoMore (d e : Definition) : Prop where
  name : e.name = d.name
  adds : e.adds = d.adds
  body : Phrase.AsksNoMore d.body e.body

/-- A rule that is filled is a rule that asks no more. -/
theorem RuleText.filled (h : RuleText d u) (hfilled : Filled space u t) :
    ∃ e, RuleText e t ∧ Definition.AsksNoMore d e := by
  obtain ⟨hname, hv, hw, hp, hx⟩ := h
  have hsign : '"' ∉ d.sign := by
    unfold Definition.sign
    split <;> decide
  obtain ⟨t₁, rfl, h₁⟩ := hfilled.of_append hname.quote_not_mem
  obtain ⟨v', t₂, rfl, hv', h₂⟩ := h₁.blanks_append hv
  obtain ⟨t₃, rfl, h₃⟩ := h₂.of_append hsign
  obtain ⟨w', t₄, rfl, hw', h₄⟩ := h₃.blanks_append hw
  obtain ⟨u', x', rfl, hu, h₅⟩ := h₄.split (by simpa using hx.boundary .nil)
  obtain ⟨q, hq, hasks⟩ := hp.filled hu
  have hrule := @RuleText.mk ⟨d.name, d.adds, q⟩ _ _ _ _ hname hv' hw' hq (h₅.blanks hx)
  exact ⟨_, hrule, rfl, rfl, hasks⟩

/-- Lines with other words in them are lines of the same names, and ask no more. -/
theorem Ended.filled (h : Ended ds u) (hfilled : Filled space u t) :
    ∃ es, Ended es t ∧ List.Forall₂ Definition.AsksNoMore ds es := by
  -- line by line, each rule with its own end; what is cut off in front is filled on its own
  induction h generalizing space t with
  | @blank w remark hw hr =>
    obtain ⟨w', remark', rfl, hw', hremark⟩ := hfilled.blanks_append hw
    exact ⟨[], .blank hw' (hremark.remark hr), .nil⟩
  | rule hu hr =>
    obtain ⟨u', remark', rfl, hfirst, hremark⟩ := hfilled.split hr.boundary
    obtain ⟨e, he, hasks⟩ := hu.filled hfirst
    exact ⟨[e], .rule he (hremark.remark hr), .cons hasks .nil⟩
  | blankLine hw hnl _ ih =>
    obtain ⟨w', t₁, rfl, hw', h₁⟩ := hfilled.blanks_append hw
    obtain ⟨nl', cs', rfl, hnl', h₂⟩ := h₁.lineEnd_append hnl
    obtain ⟨es, hes, hasks⟩ := ih h₂
    exact ⟨es, .blankLine hw' hnl' hes, hasks⟩
  | ruleLine hu hnl _ ih =>
    obtain ⟨u', t₁, rfl, hfirst, h₁⟩ := hfilled.split hnl.boundary
    obtain ⟨nl', cs', rfl, hnl', h₂⟩ := h₁.lineEnd_append hnl
    obtain ⟨e, he, hask⟩ := hu.filled hfirst
    obtain ⟨es, hes, hasks⟩ := ih h₂
    exact ⟨e :: es, .ruleLine he hnl' hes, .cons hask hasks⟩

/-- Rules are legal if others are that ask no less. -/
theorem LegalRules.of_asksNoMore {defined : List Name} (h : LegalRules defined ds)
    (hasks : List.Forall₂ Definition.AsksNoMore ds es) : LegalRules defined es := by
  induction hasks generalizing defined with
  | nil => trivial
  | @cons d e ds es hask _ ih =>
    obtain ⟨hreserved, hadds, hlegal, hrules⟩ := h
    have hkey : e.key = d.key := congrArg keyOf hask.name
    rw [← hkey] at hreserved hadds hrules
    refine ⟨hreserved, fun h => hadds (hask.adds ▸ h), ?_, ih hrules⟩
    exact hask.body.legal (fun name hname => .inl hname) hlegal

/-- They define the same names. -/
theorem keys_of_asksNoMore (h : List.Forall₂ Definition.AsksNoMore ds es) :
    es.map Definition.key = ds.map Definition.key := by
  induction h with
  | nil => rfl
  | cons hask _ ih => exact congrArg₂ List.cons (congrArg keyOf hask.name) ih

/-- They keep to the limits. -/
theorem limits_of_asksNoMore [Interpreter] (h : List.Forall₂ Definition.AsksNoMore ds es)
    (hds : ∀ d ∈ ds, d.body.nesting < depthLimit ∧ d.body.Fits) :
    ∀ e ∈ es, e.body.nesting < depthLimit ∧ e.body.Fits := by
  induction h with
  | nil => nofun
  | cons hask _ ih =>
    rw [List.forall_mem_cons] at hds ⊢
    exact ⟨⟨Nat.lt_of_le_of_lt hask.body.nesting hds.1.1, hask.body.fits hds.1.2⟩, ih hds.2⟩

/-- A grammar with other words in it is a grammar of the same names in the same order. -/
theorem exists_read_of_filled [Interpreter] {rules : Rules} (h : read [] u = .ok rules)
    (hfilled : Filled space u t) :
    ∃ filled, read [] t = .ok filled ∧ filled.names = rules.names := by
  obtain ⟨ds, scope, hds, hscope, rfl⟩ := read_eq_ok.mp h
  obtain ⟨es, hes, hasks⟩ := hds.filled hfilled
  obtain ⟨hlegal, hlimits⟩ := (addAll?_isSome_iff_nil ds).mp (Option.isSome_of_mem hscope)
  have hsome : (({} : Scope).addAll? es).isSome :=
    (addAll?_isSome_iff_nil es).mpr
      ⟨hlegal.of_asksNoMore hasks, limits_of_asksNoMore hasks hlimits⟩
  obtain ⟨scope', hscope'⟩ := Option.isSome_iff_exists.mp hsome
  refine ⟨scope'.defined, read_eq_ok.mpr ⟨es, scope', hes, hscope', rfl⟩, ?_⟩
  rw [Scope.names_addAll? hscope', Scope.names_addAll? hscope, keys_of_asksNoMore hasks]

end Abnf.Grammar
