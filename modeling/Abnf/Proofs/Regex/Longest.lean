import Abnf.Proofs.Regex.Denotes

/-!
# The longest way first

An expression takes the first of its ways, and what it takes is not always the longest it could:
`a|ab` leaves the `b` of `ab` behind. The first way is the longest where the next character decides.
Behind a word of `L` a character may lead on to a longer word of `L` (`Continues`), or start a word
of what comes next (`Starts`). If no character does both (`Separate`), a way that stops early leaves
nothing for what comes next to take, so that the ways of both together go from the longest to the
shortest, as the ways of each do (`descends_flatMap`).

`Descends` is strict, for otherwise nothing would follow: where two ways end in the same place, what
comes next is tried from there twice.
-/

namespace Abnf.Regex

variable {L M N : Language Char} {round next : Place → List Place} {ways more : List Place}
  {n m least : Nat} {last most : Option Nat} {p q : Place} {u v w x y text left : List Char}
  {c : Char}

/-! ## Characters that start a word or go on with one -/

/-- A word starts with the character. -/
def Starts (L : Language Char) (c : Char) : Prop := ∃ w, c :: w ∈ L

/-- Behind a word, the character leads on to a longer one. -/
def Continues (L : Language Char) (c : Char) : Prop := ∃ u w, u ∈ L ∧ u ++ c :: w ∈ L

/-- No character continues a word of the first language and starts one of the second. -/
def Separate (L M : Language Char) : Prop := ∀ c, Continues L c → ¬ Starts M c

theorem starts_mul (h : Starts (L * M) c) : Starts L c ∨ [] ∈ L ∧ Starts M c := by
  obtain ⟨w, hw⟩ := h
  obtain ⟨u, hu, v, hv, huv⟩ := Language.mem_mul.mp hw
  cases u with
  | nil =>
    rw [List.nil_append] at huv
    exact .inr ⟨hu, w, huv ▸ hv⟩
  | cons d u =>
    obtain ⟨rfl, -⟩ := List.cons.inj huv
    exact .inl ⟨u, hu⟩

theorem nil_notMem_oneOf (wanted : Char → Prop) : [] ∉ oneOf wanted := by
  rintro ⟨d, hd, -⟩
  cases hd

theorem length_of_oneOf (wanted : Char → Prop) : ∀ u ∈ oneOf wanted, u.length = 1 := by
  rintro _ ⟨c, rfl, -⟩
  rfl

theorem nil_notMem_mul (h : [] ∉ L) : [] ∉ L * M := by
  intro hmem
  obtain ⟨u, hu, v, -, huv⟩ := Language.mem_mul.mp hmem
  obtain ⟨rfl, -⟩ := List.append_eq_nil_iff.mp huv
  exact h hu

theorem starts_add (h : Starts (L + M) c) : Starts L c ∨ Starts M c := by
  obtain ⟨w, hw⟩ := h
  exact ((Language.mem_add L M _).mp hw).imp (fun hw => ⟨w, hw⟩) fun hw => ⟨w, hw⟩

theorem not_starts_one (c : Char) : ¬ Starts 1 c := by
  rintro ⟨w, hw⟩
  cases hw

theorem starts_pow (h : Starts (L ^ n) c) : Starts L c := by
  induction n with
  | zero => exact absurd h (not_starts_one c)
  | succ n ih =>
    rw [pow_succ'] at h
    exact (starts_mul h).elim id fun h => ih h.2

theorem starts_copies (h : Starts (copies L least most) c) : Starts L c := by
  obtain ⟨w, n, -, -, hw⟩ := h
  exact starts_pow ⟨w, hw⟩

theorem Separate.pow_right (h : Separate L M) (n : Nat) : Separate L (M ^ n) := fun c hc hstarts =>
  h c hc (starts_pow hstarts)

theorem Separate.copies_right (h : Separate L M) : Separate L (copies M least most) :=
  fun c hc hstarts => h c hc (starts_copies hstarts)

/--
A word in two parts, and a longer one that starts with it. Either the second parts start in the same
place, or there is no second part and the longer word goes on with the first.
-/
theorem Separate.cases (hM : Separate L M) (hN : Separate L N) (hu : u ∈ L) (hv : v ∈ M)
    (hx : x ∈ L) (hy : y ∈ N) (h : x ++ y = u ++ (v ++ c :: w)) :
    x = u ∧ y = v ++ c :: w ∨ v = [] ∧ Continues L c := by
  -- one of the first parts goes on where the other ends, with a character of the second part there
  rcases List.append_eq_append_iff.mp h with ⟨mid, rfl, rfl⟩ | ⟨mid, rfl, hmid⟩
  · cases mid with
    | nil => exact .inl ⟨(List.append_nil x).symm, rfl⟩
    | cons d mid => exact absurd ⟨_, hy⟩ (hN d ⟨x, mid, hx, hu⟩)
  · cases mid with
    | nil => exact .inl ⟨List.append_nil u, hmid.symm⟩
    | cons d mid =>
      have hgoes : Continues L d := ⟨u, mid, hu, hx⟩
      cases v with
      | nil =>
        obtain ⟨rfl, -⟩ := List.cons.inj hmid
        exact .inr ⟨rfl, hgoes⟩
      | cons e v =>
        obtain ⟨rfl, -⟩ := List.cons.inj hmid
        exact absurd ⟨v, hv⟩ (hM e hgoes)

theorem continues_mul (h : Separate L M) (hc : Continues (L * M) c) :
    Continues M c ∨ [] ∈ M ∧ Continues L c := by
  obtain ⟨_, w, hshort, hlong⟩ := hc
  obtain ⟨u, hu, v, hv, rfl⟩ := Language.mem_mul.mp hshort
  obtain ⟨x, hx, y, hy, hxy⟩ := Language.mem_mul.mp hlong
  rw [List.append_assoc] at hxy
  rcases h.cases h hu hv hx hy hxy with ⟨-, rfl⟩ | ⟨rfl, hgoes⟩
  · exact .inl ⟨v, w, hv, hy⟩
  · exact .inr ⟨hv, hgoes⟩

theorem continues_add (hne : [] ∉ L) (hapart : ∀ c, Starts L c → ¬ Starts M c)
    (hc : Continues (L + M) c) : Continues L c ∨ Continues M c ∨ [] ∈ M ∧ Starts L c := by
  obtain ⟨u, w, hu, hw⟩ := hc
  -- with one word of each language, both start with the same character, or the shorter is empty
  rcases (Language.mem_add L M u).mp hu with hu | hu <;>
    rcases (Language.mem_add L M _).mp hw with hw | hw
  · exact .inl ⟨u, w, hu, hw⟩
  · cases u with
    | nil => exact absurd hu hne
    | cons d u => exact absurd ⟨_, hw⟩ (hapart d ⟨u, hu⟩)
  · cases u with
    | nil => exact .inr (.inr ⟨hu, w, hw⟩)
    | cons d u => exact absurd ⟨u, hu⟩ (hapart d ⟨_, hw⟩)
  · exact .inr (.inl ⟨u, w, hu, hw⟩)

/-- Where all words have one length, none goes on. -/
theorem not_continues_of_length (h : ∀ u ∈ L, u.length = n) (c : Char) : ¬ Continues L c := by
  rintro ⟨u, w, hu, hw⟩
  have hshort := h u hu
  have hlong := h _ hw
  rw [List.length_append, List.length_cons] at hlong
  omega

/-- From some copies to more, the way goes over what goes on with a copy or starts one. -/
theorem continues_pow (h : Separate L L) (hu : u ∈ L ^ n) (hw : u ++ c :: w ∈ L ^ m) :
    Continues L c ∨ n < m ∧ Starts L c := by
  -- copy by copy, as long as both words have the same ones
  induction n generalizing m u with
  | zero =>
    obtain rfl := (Language.mem_one u).mp hu
    cases m with
    | zero => cases hw
    | succ m => exact .inr ⟨Nat.succ_pos m, starts_pow ⟨w, hw⟩⟩
  | succ n ih =>
    cases m with
    | zero => exact absurd ((Language.mem_one _).mp hw) (by simp)
    | succ m =>
      rw [pow_succ', Language.mem_mul] at hu hw
      obtain ⟨u, hu, v, hv, rfl⟩ := hu
      obtain ⟨x, hx, y, hy, hxy⟩ := hw
      rw [List.append_assoc] at hxy
      rcases (h.pow_right n).cases (h.pow_right m) hu hv hx hy hxy with ⟨-, rfl⟩ | ⟨-, hgoes⟩
      · exact (ih hv hy).imp_right fun h => ⟨Nat.succ_lt_succ h.1, h.2⟩
      · exact .inl hgoes

theorem continues_copies (h : Separate L L) (hc : Continues (copies L least most) c) :
    Continues L c ∨ Starts L c := by
  obtain ⟨u, w, ⟨n, -, -, hu⟩, m, -, -, hw⟩ := hc
  exact (continues_pow h hu hw).imp_right And.right

/-- Of so many copies none is cut short for further ones. -/
theorem Separate.pow_copies (h : Separate L L) (n : Nat) : Separate (L ^ n) (copies L 0 none) := by
  rintro c ⟨u, w, hu, hw⟩ hstarts
  rcases continues_pow h hu hw with hgoes | ⟨hlt, -⟩
  · exact h c hgoes (starts_copies hstarts)
  · exact absurd hlt (Nat.lt_irrefl n)

/-! ## Ways from the longest to the shortest -/

/-- Ways from the longest to the shortest, no two of which end in the same place. -/
def Descends (ways : List Place) : Prop := ways.Pairwise fun q r => r.index < q.index

/-- What is tried from the ends of such ways ends in such ways, if the next character decides. -/
theorem descends_flatMap (hsep : Separate L M) (hways : ∀ q ∈ ways, p.Reads L q)
    (hnext : ∀ q r, r ∈ next q → q.Reads M r) (hd : Descends ways)
    (hd' : ∀ q ∈ ways, Descends (next q)) : Descends (ways.flatMap next) := by
  refine List.pairwise_flatMap.mpr ⟨hd', hd.imp_of_mem ?_⟩
  intro q r hq hr hlt far hfar near hnear
  obtain ⟨⟨u, hu, hpq⟩, -⟩ := hways q hq
  obtain ⟨⟨v, hv, hpr⟩, -⟩ := hways r hr
  obtain ⟨⟨x, -, hfar⟩, -⟩ := hnext q far hfar
  obtain ⟨⟨y, hy, hnear⟩, -⟩ := hnext r near hnear
  have hq := hpq.index
  have hr := hpr.index
  have hfar := hfar.index
  -- the shorter way stops before a character that goes on to the longer one
  obtain ⟨c, rest, rfl, hafter⟩ :
      ∃ c rest, u = v ++ c :: rest ∧ r.after = c :: rest ++ q.after := by
    have hsame : u ++ q.after = v ++ r.after := hpq.after.symm.trans hpr.after
    rcases List.append_eq_append_iff.mp hsame with ⟨mid, rfl, -⟩ | ⟨mid, rfl, hafter⟩
    · rw [List.length_append] at hr
      omega
    · cases mid with
      | nil =>
        rw [List.append_nil] at hq
        omega
      | cons c rest => exact ⟨c, rest, rfl, hafter⟩
  cases y with
  | nil =>
    have hnear := hnear.index
    rw [List.length_nil] at hnear
    omega
  | cons d y =>
    have hfirst := hnear.after
    rw [hafter] at hfirst
    obtain ⟨rfl, -⟩ := List.cons.inj hfirst
    exact absurd ⟨y, hy⟩ (hsep c ⟨v, rest, hv, hu⟩)

/-- Ways that start otherwise may follow, as there are never both, or one that takes nothing. -/
theorem descends_append (hne : [] ∉ L) (hapart : ∀ c, Starts L c → ¬ Starts M c)
    (hways : ∀ q ∈ ways, p.Reads L q) (hmore : ∀ q ∈ more, p.Reads M q) (hd : Descends ways)
    (hd' : Descends more) : Descends (ways ++ more) := by
  refine List.pairwise_append.mpr ⟨hd, hd', fun q hq r hr => ?_⟩
  obtain ⟨⟨u, hu, hpq⟩, -⟩ := hways q hq
  obtain ⟨⟨v, hv, hpr⟩, -⟩ := hmore r hr
  cases u with
  | nil => exact absurd hu hne
  | cons c u =>
    cases v with
    | nil =>
      -- a way that takes nothing ends before every other
      have hq := hpq.index
      have hr := hpr.index
      rw [List.length_cons] at hq
      rw [List.length_nil] at hr
      omega
    | cons d v =>
      have hfirst := hpq.after.symm.trans hpr.after
      obtain ⟨rfl, -⟩ := List.cons.inj hfirst
      exact absurd ⟨v, hv⟩ (hapart c ⟨u, hu⟩)

theorem descends_singleton (p : Place) : Descends [p] := List.pairwise_singleton _ p

/-- To take nothing is what may come last, where everything before takes something. -/
theorem descends_append_self (hne : [] ∉ L) (hways : ∀ q ∈ ways, p.Reads L q) (hd : Descends ways) :
    Descends (ways ++ [p]) := by
  have hself : ∀ q ∈ [p], p.Reads 1 q := fun q hq => Place.reads_one.mpr (List.mem_singleton.mp hq)
  exact descends_append hne (fun c _ => not_starts_one c) hways hself hd (descends_singleton p)

theorem descends_of_length_le (h : ways.length ≤ 1) : Descends ways := by
  match ways, h with
  | [], _ => exact List.Pairwise.nil
  | [q], _ => exact descends_singleton q

theorem Place.Reads.mono (h : p.Reads L q) (hle : ∀ u ∈ L, u ∈ M) : p.Reads M q := by
  obtain ⟨⟨u, hu, hmoves⟩, hcaptures⟩ := h
  exact ⟨⟨u, hle u hu, hmoves⟩, hcaptures⟩

theorem Leads.reads_upToWays (h : Leads round L) (hq : q ∈ upToWays round lazy n last p) :
    p.Reads (copies L 0 none) q := by
  obtain ⟨m, -, hreads⟩ := h.upTo_sound hq
  exact hreads.mono fun u hu =>
    ⟨m, Nat.zero_le m, fun n hn => absurd hn (Option.not_mem_none n), hu⟩

section

variable (h : Leads round L) (hround : ∀ p, Descends (round p)) (hsep : Separate L L)

include h hround hsep

theorem descends_timesWays (n : Nat) (p : Place) : Descends (timesWays round n p) := by
  induction n generalizing p with
  | zero => exact descends_singleton p
  | succ n ih =>
    exact descends_flatMap (hsep.pow_right n) (fun q => (h p q).mp)
      (fun q r => (h.times n q r).mp) (hround p) fun q _ => ih q

/-- As many rounds as possible are tried first, and then fewer and fewer. -/
theorem descends_upToWays (hne : [] ∉ L) (n : Nat) (last : Option Nat) (p : Place) :
    Descends (upToWays round false n last p) := by
  induction n generalizing last p with
  | zero => exact descends_singleton p
  | succ n ih =>
    rw [upToWays]
    split
    · exact descends_singleton p
    · -- further rounds come first, and each of them takes something
      rw [if_neg Bool.false_ne_true]
      have hmore (q r : Place) (hr : r ∈ upToWays round false n (some p.index) q) :
          q.Reads (copies L 0 none) r := h.reads_upToWays hr
      have hfurther : ∀ q ∈ (round p).flatMap (upToWays round false n (some p.index)),
          p.Reads (L * copies L 0 none) q := by
        intro q hq
        obtain ⟨mid, hmid, hq⟩ := List.mem_flatMap.mp hq
        exact Place.reads_mul.mpr ⟨mid, (h p mid).mp hmid, hmore mid q hq⟩
      exact descends_append_self (nil_notMem_mul hne) hfurther
        (descends_flatMap hsep.copies_right (fun q => (h p q).mp) hmore (hround p)
          fun q _ => ih _ q)

theorem descends_roundsWays (hne : [] ∉ L) (least : Nat) (most : Option Nat) (p : Place) :
    Descends (roundsWays round false least most p) :=
  descends_flatMap (hsep.pow_copies least) (fun q => (h.times least p q).mp)
    (fun _ _ => h.reads_upToWays) (descends_timesWays h hround hsep least p)
    fun q _ => descends_upToWays h hround hsep hne _ none q

end

/-- A round or none. -/
theorem roundsWays_zero_one (round : Place → List Place) (p : Place) :
    roundsWays round false 0 (some 1) p = round p ++ [p] := by
  have hspare : Attempt.spare 0 (some 1) p = 1 := Nat.min_eq_left (Nat.le_add_left 1 _)
  have hround : (round p).flatMap (upToWays round false 0 (some p.index)) = round p :=
    List.flatMap_singleton' _
  rw [roundsWays, timesWays, List.flatMap_singleton, hspare, upToWays,
    if_neg (Option.some_ne_none _).symm, if_neg Bool.false_ne_true, hround]

/-! ## The first way -/

/-- A word of a language that a text starts with, and that is as long as any. -/
structure IsLongest (L : Language Char) (text u : List Char) : Prop where
  mem : u ∈ L
  starts : u <+: text
  longest : ∀ v ∈ L, v <+: text → v.length ≤ u.length

theorem IsLongest.eq (hu : IsLongest L text u) (hv : IsLongest L text v) : u = v :=
  (List.prefix_of_prefix_length_le hu.starts hv.starts (hv.longest u hu.mem hu.starts)).eq_of_length
    (Nat.le_antisymm (hv.longest u hu.mem hu.starts) (hu.longest v hv.mem hv.starts))

/-- The first of such ways takes the longest word. -/
theorem Leads.isLongest (h : Leads round L) (hd : Descends (round p))
    (hq : (round p).head? = some q) : ∃ u, p.Moves u q ∧ IsLongest L p.after u := by
  obtain ⟨ways, hways⟩ := List.head?_eq_some_iff.mp hq
  obtain ⟨⟨u, hu, hmoves⟩, -⟩ := (h p q).mp (List.mem_of_mem_head? hq)
  refine ⟨u, hmoves, hu, ⟨q.after, hmoves.after.symm⟩, ?_⟩
  rintro v hv ⟨rest, hafter⟩
  have hother : p.Moves v ⟨v.reverse ++ p.before, rest, p.captures⟩ := ⟨hafter.symm, rfl⟩
  have hmem := (h p _).mpr ⟨⟨v, hv, hother⟩, rfl⟩
  have hle := hother.index
  have hindex := hmoves.index
  rw [hways] at hd hmem
  rcases List.mem_cons.mp hmem with heq | hlater
  · rw [heq] at hle
    omega
  · have hlt := List.rel_of_pairwise_cons hd hlater
    omega

/-! ## Part by part -/

/-- Behind the longest first part comes the second, or there is nothing of the second. -/
theorem IsLongest.cases (h : IsLongest L text u) (hsep : Separate L M) (hx : x ∈ L) (hy : y ∈ M)
    (hxy : x ++ y <+: text) : x = u ∨ y = [] := by
  have hfirst : x <+: text := (List.prefix_append x y).trans hxy
  obtain ⟨mid, rfl⟩ := List.prefix_of_prefix_length_le hfirst h.starts (h.longest x hx hfirst)
  cases mid with
  | nil => exact .inl (List.append_nil x).symm
  | cons c mid =>
    cases y with
    | nil => exact .inr rfl
    | cons d y =>
      -- the text has one character behind `x`, which starts the second part and continues the first
      obtain ⟨rest, hrest⟩ := h.starts
      obtain ⟨rest', hrest'⟩ := hxy
      have hsame := hrest'.trans hrest.symm
      rw [List.append_assoc, List.append_assoc] at hsame
      obtain ⟨rfl, -⟩ := List.cons.inj (List.append_cancel_left hsame)
      exact absurd ⟨y, hy⟩ (hsep d ⟨x, mid, hx, h.mem⟩)

/-- The longest word in two parts is the longest first part with the longest second part behind. -/
theorem IsLongest.mul (hu : IsLongest L text u) (htext : text = u ++ left) (hsep : Separate L M)
    (hv : IsLongest M left v) : IsLongest (L * M) text (u ++ v) := by
  subst htext
  refine ⟨Language.append_mem_mul hu.mem hv.mem, (List.prefix_append_right_inj u).mpr hv.starts,
    fun w hw hprefix => ?_⟩
  obtain ⟨x, hx, y, hy, rfl⟩ := Language.mem_mul.mp hw
  rw [List.length_append, List.length_append]
  rcases hu.cases hsep hx hy hprefix with rfl | rfl
  · have hlater := hv.longest y hy ((List.prefix_append_right_inj x).mp hprefix)
    omega
  · have hfirst := hu.longest x hx ((List.prefix_append x []).trans hprefix)
    rw [List.length_nil]
    omega

/-- Where no second part comes behind the longest first part, there is no word in two parts. -/
theorem IsLongest.not_mul (hu : IsLongest L text u) (htext : text = u ++ left)
    (hsep : Separate L M) (hnone : ∀ v ∈ M, ¬ v <+: left) : ∀ w ∈ L * M, ¬ w <+: text := by
  subst htext
  intro w hw hprefix
  obtain ⟨x, hx, y, hy, rfl⟩ := Language.mem_mul.mp hw
  rcases hu.cases hsep hx hy hprefix with rfl | rfl
  · exact hnone y hy ((List.prefix_append_right_inj x).mp hprefix)
  · exact hnone [] hy List.nil_prefix

/-- Without a first part there is no word in two parts. -/
theorem not_prefix_mul (hnone : ∀ u ∈ L, ¬ u <+: text) : ∀ w ∈ L * M, ¬ w <+: text := by
  intro w hw hprefix
  obtain ⟨x, hx, y, -, rfl⟩ := Language.mem_mul.mp hw
  exact hnone x hx ((List.prefix_append x y).trans hprefix)

end Abnf.Regex
