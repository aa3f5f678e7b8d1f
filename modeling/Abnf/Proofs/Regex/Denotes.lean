import Abnf.Proofs.Regex.Ways
import Mathlib.Computability.Language

/-!
# Expressions and languages

An expression without captures, anchors and look arounds has a language: it matches the words of the
language wherever they stand, and nothing else. `Denotes` says so of all its ways at once, and the
theorems below give the language of each construct from those of its parts.

The one that takes an argument is `Denotes.iterate`. Rounds that take nothing are tried only up to
the least number, and none after them, but a word that needs such rounds does without them.
-/

namespace Abnf.Regex

variable {L M : Language Char} {a b body : Node} {round : Place → List Place} {lazy : Bool}
  {n least : Nat} {last most : Option Nat} {p q : Place} {u : List Char}
  {wanted wanted' : Char → Prop}

/-! ## Languages -/

/-- The characters of a kind, each a word of its own. -/
def oneOf (wanted : Char → Prop) : Language Char := {u | ∃ c, u = [c] ∧ wanted c}

theorem oneOf_eq (c : Char) : oneOf (· = c) = {[c]} := by
  ext u
  constructor
  · rintro ⟨_, rfl, rfl⟩
    rfl
  · rintro rfl
    exact ⟨c, rfl, rfl⟩

/-- A character of a kind, and a word behind it. -/
theorem mem_oneOf_cons : u ∈ oneOf wanted * L ↔ ∃ c v, u = c :: v ∧ wanted c ∧ v ∈ L := by
  rw [Language.mem_mul]
  constructor
  · rintro ⟨_, ⟨c, rfl, hc⟩, v, hv, rfl⟩
    exact ⟨c, v, rfl, hc, hv⟩
  · rintro ⟨c, v, rfl, hc, hv⟩
    exact ⟨[c], ⟨c, rfl, hc⟩, v, hv, rfl⟩

theorem mem_oneOf_mul : u ∈ oneOf wanted * oneOf wanted' ↔
    ∃ a b, u = [a, b] ∧ wanted a ∧ wanted' b := by
  rw [mem_oneOf_cons]
  constructor
  · rintro ⟨a, _, rfl, ha, b, rfl, hb⟩
    exact ⟨a, b, rfl, ha, hb⟩
  · rintro ⟨a, b, rfl, ha, hb⟩
    exact ⟨a, [b], rfl, ha, b, rfl, hb⟩

theorem mem_oneOf_pow : u ∈ oneOf wanted ^ n ↔ u.length = n ∧ ∀ c ∈ u, wanted c := by
  induction n generalizing u with
  | zero =>
    rw [pow_zero, Language.mem_one, List.length_eq_zero_iff]
    refine ⟨?_, And.left⟩
    rintro rfl
    exact ⟨rfl, List.forall_mem_nil _⟩
  | succ n ih =>
    rw [pow_succ', mem_oneOf_cons]
    constructor
    · rintro ⟨c, v, rfl, hc, hv⟩
      obtain ⟨hlength, hv⟩ := ih.mp hv
      exact ⟨congrArg (· + 1) hlength, List.forall_mem_cons.mpr ⟨hc, hv⟩⟩
    · rintro ⟨hlength, hall⟩
      obtain ⟨c, v, rfl⟩ := List.exists_cons_of_length_eq_add_one hlength
      rw [List.forall_mem_cons] at hall
      exact ⟨c, v, rfl, hall.1, ih.mpr ⟨Nat.succ.inj hlength, hall.2⟩⟩

/-- So many copies: at least `least`, and at most `most` if there is a bound. -/
def copies (L : Language Char) (least : Nat) (most : Option Nat) : Language Char :=
  {u | ∃ n, least ≤ n ∧ (∀ m ∈ most, n ≤ m) ∧ u ∈ L ^ n}

theorem mem_copies : u ∈ copies L least most ↔ ∃ n, least ≤ n ∧ (∀ m ∈ most, n ≤ m) ∧ u ∈ L ^ n :=
  Iff.rfl

/-- Copies of single characters are runs of them. -/
theorem mem_copies_oneOf : u ∈ copies (oneOf wanted) least most ↔
    least ≤ u.length ∧ (∀ m ∈ most, u.length ≤ m) ∧ ∀ c ∈ u, wanted c := by
  simp only [mem_copies, mem_oneOf_pow]
  constructor
  · rintro ⟨_, hleast, hmost, rfl, hall⟩
    exact ⟨hleast, hmost, hall⟩
  · rintro ⟨hleast, hmost, hall⟩
    exact ⟨_, hleast, hmost, rfl, hall⟩

/-! ## What an expression denotes -/

/-- From a place the words of a language lead on, and captures are left alone. -/
structure Place.Reads (L : Language Char) (p q : Place) : Prop where
  moves : ∃ u ∈ L, p.Moves u q
  captures : q.captures = p.captures

/-- The places that the words of a language lead to, wherever one starts. -/
def Leads (round : Place → List Place) (L : Language Char) : Prop :=
  ∀ p q, q ∈ round p ↔ p.Reads L q

/-- An expression matches exactly the words of a language. -/
def Denotes (node : Node) (L : Language Char) : Prop := Leads node.ways L

theorem Leads.forward (h : Leads round L) : Forward round := by
  intro p q hq
  obtain ⟨⟨u, -, hu⟩, -⟩ := (h p q).mp hq
  exact ⟨u, hu⟩

theorem Place.reads_one : p.Reads 1 q ↔ q = p := by
  constructor
  · rintro ⟨⟨u, rfl, hafter, hbefore⟩, hcaptures⟩
    cases p
    cases q
    simp_all
  · rintro rfl
    exact ⟨⟨[], rfl, .refl rfl rfl⟩, rfl⟩

/-- A word in two parts leads over the place between them. -/
theorem Place.reads_mul : p.Reads (L * M) q ↔ ∃ mid, p.Reads L mid ∧ mid.Reads M q := by
  constructor
  · rintro ⟨⟨w, hw, hafter, hbefore⟩, hcaptures⟩
    obtain ⟨u, hu, v, hv, rfl⟩ := Language.mem_mul.mp hw
    refine ⟨⟨u.reverse ++ p.before, v ++ q.after, p.captures⟩, ⟨⟨u, hu, ?_, rfl⟩, rfl⟩,
      ⟨⟨v, hv, rfl, ?_⟩, hcaptures⟩⟩
    · rw [hafter, List.append_assoc]
    · rw [hbefore, List.reverse_append, List.append_assoc]
  · rintro ⟨mid, ⟨⟨u, hu, hmid⟩, hcaptures⟩, ⟨⟨v, hv, hq⟩, hcaptures'⟩⟩
    exact ⟨⟨u ++ v, Language.append_mem_mul hu hv, hmid.trans hq⟩, hcaptures'.trans hcaptures⟩

theorem Place.reads_add : p.Reads (L + M) q ↔ p.Reads L q ∨ p.Reads M q := by
  constructor
  · rintro ⟨⟨u, hu, hmoves⟩, hcaptures⟩
    exact ((Language.mem_add L M u).mp hu).imp (fun hu => ⟨⟨u, hu, hmoves⟩, hcaptures⟩)
      fun hu => ⟨⟨u, hu, hmoves⟩, hcaptures⟩
  · rintro (⟨⟨u, hu, hmoves⟩, hcaptures⟩ | ⟨⟨u, hu, hmoves⟩, hcaptures⟩)
    · exact ⟨⟨u, .inl hu, hmoves⟩, hcaptures⟩
    · exact ⟨⟨u, .inr hu, hmoves⟩, hcaptures⟩

/-! ## Single characters, sequences and alternatives -/

theorem Denotes.empty : Denotes .empty 1 := by
  intro p q
  rw [Place.reads_one]
  exact List.mem_singleton

/-- What takes one character of a kind denotes those characters. -/
theorem Leads.take (wanted : Char → Bool) :
    Leads (fun p => (p.take? wanted).toList) (oneOf fun c => wanted c) := by
  intro p q
  rw [Option.mem_toList]
  constructor
  · intro h
    obtain ⟨c, hc, hmoves, hcaptures⟩ := Place.moves_of_take? h
    exact ⟨⟨[c], ⟨c, rfl, hc⟩, hmoves⟩, hcaptures⟩
  · rintro ⟨⟨_, ⟨c, rfl, hc⟩, hafter, hbefore⟩, hcaptures⟩
    cases p
    cases q
    simp_all [Place.take?]

theorem Denotes.seq (ha : Denotes a L) (hb : Denotes b M) : Denotes (.seq a b) (L * M) := by
  intro p q
  rw [Place.reads_mul]
  simp only [Node.ways, List.mem_flatMap, ha p, hb _ q]

theorem Denotes.alt (ha : Denotes a L) (hb : Denotes b M) : Denotes (.alt a b) (L + M) := by
  intro p q
  rw [Place.reads_add, Node.ways, List.mem_append, ha p q, hb p q]

/-! ## Repeats -/

theorem Leads.times (h : Leads round L) (n : Nat) : Leads (timesWays round n) (L ^ n) := by
  induction n with
  | zero =>
    intro p q
    rw [pow_zero, Place.reads_one]
    exact List.mem_singleton
  | succ n ih =>
    intro p q
    rw [pow_succ', Place.reads_mul]
    simp only [timesWays, List.mem_flatMap, h p, ih _ q]

/-- Further rounds lead over words of the language, as many as were made. -/
theorem Leads.upTo_sound (h : Leads round L) :
    ∀ {n : Nat} {last : Option Nat} {p q : Place}, q ∈ upToWays round lazy n last p →
      ∃ m ≤ n, p.Reads (L ^ m) q
  | 0, last, p, q, hq => ⟨0, Nat.le_refl 0, Place.reads_one.mpr (List.mem_singleton.mp hq)⟩
  | n + 1, last, p, q, hq => by
      rcases mem_upToWays_succ.mp hq with rfl | ⟨-, mid, hmid, hq⟩
      · exact ⟨0, Nat.zero_le _, Place.reads_one.mpr rfl⟩
      · obtain ⟨m, hm, hreads⟩ := h.upTo_sound hq
        refine ⟨m + 1, Nat.succ_le_succ hm, ?_⟩
        rw [pow_succ', Place.reads_mul]
        exact ⟨mid, (h p mid).mp hmid, hreads⟩

/-- Words that all take something can be taken round by round. -/
theorem Leads.upTo_complete (h : Leads round L) :
    ∀ {n : Nat} {words : List (List Char)} {last : Option Nat} {p q : Place},
      (∀ u ∈ words, u ∈ L ∧ u ≠ []) → words.length ≤ n → last ≠ some p.index →
      p.Moves words.flatten q → q.captures = p.captures → q ∈ upToWays round lazy n last p
  | n, [], last, p, q, _, _, _, hmoves, hcaptures => by
      obtain rfl := Place.reads_one.mp ⟨⟨[], rfl, hmoves⟩, hcaptures⟩
      cases n with
      | zero => exact List.mem_singleton_self _
      | succ n => exact mem_upToWays_succ.mpr (.inl rfl)
  | 0, _ :: _, _, _, _, _, hn, _, _, _ => absurd hn (Nat.not_succ_le_zero _)
  | n + 1, u :: words, last, p, q, hwords, hn, hlast, ⟨hafter, hbefore⟩, hcaptures => by
      -- the first word is a round of its own: it is not empty, so the next round starts further on
      -- and is not cut off for having taken nothing
      obtain ⟨hu, hne⟩ := hwords u (List.mem_cons_self ..)
      have hmid : p.Moves u ⟨u.reverse ++ p.before, words.flatten ++ q.after, p.captures⟩ :=
        ⟨by simpa using hafter, rfl⟩
      have hpos := List.length_pos_iff.mpr hne
      refine mem_upToWays_succ.mpr (.inr ⟨hlast, _, (h _ _).mpr ⟨⟨u, hu, hmid⟩, rfl⟩, ?_⟩)
      refine h.upTo_complete (fun v hv => hwords v (List.mem_cons_of_mem _ hv))
        (Nat.le_of_succ_le_succ hn) ?_ ⟨rfl, by simpa using hbefore⟩ hcaptures
      rw [hmid.index, ne_eq, Option.some.injEq]
      omega

theorem length_le_flatten {words : List (List Char)} (h : ∀ u ∈ words, u ≠ []) :
    words.length ≤ words.flatten.length := by
  induction words with
  | nil => exact Nat.le_refl 0
  | cons u words ih =>
    rw [List.forall_mem_cons] at h
    have hpos := List.length_pos_iff.mpr h.1
    have hle := ih h.2
    rw [List.length_cons, List.flatten_cons, List.length_append]
    omega

/-- Beyond the least number, the words that take nothing can be left out. -/
theorem exists_rounds {words : List (List Char)} (hwords : ∀ u ∈ words, u ∈ L)
    (hleast : least ≤ words.length) :
    ∃ (u : List Char) (more : List (List Char)), u ∈ L ^ least ∧ (∀ v ∈ more, v ∈ L ∧ v ≠ []) ∧
      words.flatten = u ++ more.flatten ∧ more.length ≤ words.length - least := by
  refine ⟨(words.take least).flatten, (words.drop least).filter (· ≠ []), ?_, ?_, ?_, ?_⟩
  · exact Language.mem_pow.mpr ⟨words.take least, rfl, List.length_take_of_le hleast,
      fun v hv => hwords v (List.mem_of_mem_take hv)⟩
  · intro v hv
    obtain ⟨hv, hne⟩ := List.mem_filter.mp hv
    exact ⟨hwords v (List.mem_of_mem_drop hv), by simpa using hne⟩
  · rw [List.flatten_filter_ne_nil, ← List.flatten_append, List.take_append_drop]
  · exact (List.length_filter_le ..).trans List.length_drop.le

theorem Denotes.iterate (h : Denotes body L) (hmost : ∀ m ∈ most, least ≤ m) :
    Denotes (.iterate lazy least most body) (copies L least most) := by
  intro p q
  rw [Node.ways, roundsWays, List.mem_flatMap]
  constructor
  · rintro ⟨mid, hmid, hq⟩
    obtain ⟨k, hk, hreads⟩ := Leads.upTo_sound h hq
    have hall : p.Reads (L ^ (least + k)) q := by
      rw [pow_add, Place.reads_mul]
      exact ⟨mid, (Leads.times h least p mid).mp hmid, hreads⟩
    obtain ⟨⟨u, hu, hmoves⟩, hcaptures⟩ := hall
    refine ⟨⟨u, ⟨least + k, Nat.le_add_right .., fun m hm => ?_, hu⟩, hmoves⟩, hcaptures⟩
    obtain rfl : most = some m := hm
    have hle := hmost m rfl
    have hspare := hk.trans (Nat.min_le_left ..)
    omega
  · -- empty words count among the rounds that have to be, and those beyond them can be left out
    rintro ⟨⟨u, ⟨n, hn, hle, hu⟩, hmoves⟩, hcaptures⟩
    obtain ⟨words, rfl, rfl, hwords⟩ := Language.mem_pow.mp hu
    obtain ⟨v, more, hv, hmore, hflatten, hspare⟩ := exists_rounds hwords hn
    have hlength := length_le_flatten fun u hu => (hmore u hu).2
    obtain ⟨hafter, hbefore⟩ := hmoves
    rw [hflatten] at hafter hbefore
    refine ⟨⟨v.reverse ++ p.before, more.flatten ++ q.after, p.captures⟩,
      (Leads.times h least p _).mpr ⟨⟨v, hv, ⟨by simpa using hafter, rfl⟩⟩, rfl⟩, ?_⟩
    refine Leads.upTo_complete h hmore ?_ (fun h => by cases h) ⟨rfl, by simpa using hbefore⟩
      hcaptures
    have htext : more.length ≤ (more.flatten ++ q.after).length + 1 := by
      rw [List.length_append]
      omega
    unfold Attempt.spare
    cases most with
    | none => exact htext
    | some m => exact Nat.le_min.mpr ⟨hspare.trans (Nat.sub_le_sub_right (hle m rfl) _), htext⟩

end Abnf.Regex
