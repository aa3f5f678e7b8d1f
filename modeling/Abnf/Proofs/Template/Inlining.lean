import Abnf.Template.Inline
import Abnf.Proofs.Regex.LeadingFlags
import Abnf.Proofs.Regex.Lockstep
import Abnf.Proofs.Regex.Pieces

/-!
# A pattern put into a grammar

A pattern becomes part of an expression as its text in parentheses with its flags, without the flag
groups at its start. These do nothing but set flags, and the parentheses put the same flags into
force, so that between them the text is read as it is behind the groups before it
(`ReadsBehind.readAll_between`). The parentheses take no flag out of force: where flags are in force
around them, the text is read with those as well.

Behind other groups a text is read as it is alone, with its groups numbered on, or else it comes to
a clash (`ReadsBehind.behind`). It comes to none if it shares no name with a group before it and
refers to none by its number (`ReadsBehind.shifts`).
-/

namespace Abnf.Template

open Regex

variable {fs : Flags} {on : List Flag} {cs rest source : List Char} {s t last done before : State}
  {n : Nat} {pattern : Pattern} {groups : List Group} {fault : Regex.Fault}

/-! ## The parentheses -/

/-- The flags in force between parentheses with some flags, where others are given. -/
def joined (fs given : Flags) : Flags where
  ascii := fs.ascii || given.ascii
  ignoreCase := fs.ignoreCase || given.ignoreCase
  multiline := fs.multiline || given.multiline
  dotAll := fs.dotAll || given.dotAll
  verbose := fs.verbose || given.verbose

/-- Where no flags are given, those of the parentheses are in force. -/
theorem agree_joined (fs : Flags) : fs.Agree (joined fs {}) := by
  constructor <;> exact Bool.or_false _

/-- That expressions over text have the flag for it changes nothing about how they are read. -/
theorem agree_settled {fs' : Flags} : fs.settled.Agree fs' ↔ fs.Agree fs' :=
  ⟨fun h => ⟨h.ascii, h.ignoreCase, h.multiline, h.dotAll, h.verbose⟩,
    fun h => ⟨h.ascii, h.ignoreCase, h.multiline, h.dotAll, h.verbose⟩⟩

/-- How the parentheses around an expression with some flags start. -/
def opening (fs : Flags) : List Char :=
  '(' :: '?' :: (groupFlags.filter fs.has).map Flag.letter ++ [':']

/-- What closes the parentheses around a pattern. -/
def ending (fs : Flags) : List Char := if fs.verbose then ['\n', ')'] else [')']

theorem wrap_eq (pattern : Pattern) :
    wrap pattern = opening pattern.flags ++
    (dropFlagGroups pattern.source ++ ending pattern.flags) := by
  simp [wrap, opening, ending]

/-! ## Flag groups at the start -/

theorem flagGroup?_eq_some (h : flagGroup? cs = some rest) :
    ∃ c letters, (∀ d ∈ c :: letters, (Flag.ofLetter? d).isSome) ∧
      cs = '(' :: '?' :: c :: (letters ++ ')' :: rest) := by
  unfold flagGroup? at h
  split at h
  · rename_i cs
    split at h
    · rename_i c letters rest' htake hdrop
      cases h
      refine ⟨c, letters, ?_, ?_⟩
      · intro d hd
        rw [← htake] at hd
        exact List.all_eq_true.mp List.all_takeWhile d hd
      · rw [← List.cons_append, ← htake, ← hdrop, List.takeWhile_append_dropWhile]
    · cases h
  · cases h

theorem letter_of_ofLetter? {c : Char} {f : Flag} (h : Flag.ofLetter? c = some f) :
    c = f.letter := by
  unfold Flag.ofLetter? at h
  split at h <;> cases h <;> rfl

theorem addFlag_eq_ok {f : Flag} (h : s.addFlag on f = .ok t) :
    t = s.enter (.flagsOn (f :: on)) := by
  rw [State.addFlag] at h
  split at h
  · cases h
  · split at h <;> cases h
    rfl

variable [Interpreter]

/-- The letters of a flag group set flags and do nothing else. -/
theorem readAll_letters {letters : List Char} (hletters : ∀ c ∈ letters, (Flag.ofLetter? c).isSome)
    (hread : ((State.start fs).enter (.flagsOn on)).readAll (letters ++ [')']) = .ok t) :
    ∃ fs', t = .start fs' := by
  induction letters generalizing on with
  | nil =>
    cases hread
    exact ⟨fs.insertAll on, rfl⟩
  | cons c letters ih =>
    obtain ⟨next, hstep, hread⟩ := Except.bind_eq_ok.mp hread
    obtain ⟨f, hf⟩ := Option.isSome_iff_exists.mp (hletters c List.mem_cons_self)
    have hadd : ((State.start fs).enter (.flagsOn on)).addFlag on f = .ok next := by
      rw [← hstep]
      change _ = State.readFlagsOn _ on c
      simp only [State.readFlagsOn, hf]
    rw [addFlag_eq_ok hadd] at hread
    exact ih (fun d hd => hletters d (List.mem_cons_of_mem c hd)) hread

theorem readAll_flagGroup {c : Char} {letters : List Char}
    (hletters : ∀ d ∈ c :: letters, (Flag.ofLetter? d).isSome)
    (hread : (State.start fs).readAll ('(' :: '?' :: c :: (letters ++ [')'])) = .ok t) :
    ∃ fs', t = .start fs' := by
  have hopen : (State.start fs).step '(' = .ok ((State.start fs).enter .groupOpen) := by
    change (State.start fs).readPlain '(' = _
    simp [State.readPlain, isPatternSpace]
  rw [State.readAll_cons hopen, State.readAll_cons (c := '?') rfl] at hread
  obtain ⟨next, hstep, hread⟩ := Except.bind_eq_ok.mp hread
  obtain ⟨f, hf⟩ := Option.isSome_iff_exists.mp (hletters c List.mem_cons_self)
  have hadd : ((State.start fs).enter .extension).addFlag [] f = .ok next := by
    rw [← hstep, letter_of_ofLetter? hf]
    cases f <;> rfl
  rw [addFlag_eq_ok hadd] at hread
  exact readAll_letters (fun d hd => hletters d (List.mem_cons_of_mem c hd)) hread

/-- Flag groups at the start leave nothing but flags behind. -/
theorem exists_start_of_dropFlagGroupsUpTo (n : Nat)
    (hread : (State.start fs).readAll cs = .ok last) :
    ∃ leading fs', cs = leading ++ dropFlagGroupsUpTo n cs ∧
      (State.start fs).readAll leading = .ok (.start fs') := by
  -- what is dropped is read as flags for the whole, after which the reading is as at its start
  induction n generalizing fs cs with
  | zero => exact ⟨[], fs, rfl, rfl⟩
  | succ n ih =>
    rw [dropFlagGroupsUpTo]
    cases hgroup : flagGroup? cs with
    | none => exact ⟨[], fs, rfl, rfl⟩
    | some rest =>
      obtain ⟨c, letters, hletters, rfl⟩ := flagGroup?_eq_some hgroup
      have hsplit : '(' :: '?' :: c :: (letters ++ ')' :: rest) =
          '(' :: '?' :: c :: (letters ++ [')']) ++ rest := by simp
      rw [hsplit, State.readAll_append] at hread
      obtain ⟨t, hfirst, hread⟩ := Except.bind_eq_ok.mp hread
      obtain ⟨fs', rfl⟩ := readAll_flagGroup hletters hfirst
      obtain ⟨leading, fs'', hleading, hstart⟩ := ih hread
      refine ⟨'(' :: '?' :: c :: (letters ++ [')']) ++ leading, fs'', ?_, ?_⟩
      · rw [hsplit, List.append_assoc]
        exact congrArg _ hleading
      · rw [State.readAll_of_append hfirst, hstart]

/-! ## A text behind groups -/

theorem readAll_opening (hmode : s.mode = .plain) (hlocale : s.level.flags.locale = false)
    (hunicode : s.level.flags.unicode = false) (fs : Flags) :
    s.readAll (opening fs) = .ok (s.openGroup .plain (joined fs s.level.flags)) := by
  obtain ⟨⟨⟨_, _, _, _, _, _, skips⟩, branches, items⟩, outer, mode, groups, global⟩ := s
  cases hmode
  cases hlocale
  cases hunicode
  obtain ⟨a, i, l, m, s, u, x⟩ := fs
  -- whether white space is skipped is asked at the parenthesis, the flags are taken one by one
  cases skips <;> cases a <;> cases i <;> cases m <;> cases s <;> cases x <;> rfl

/-- How a text is read behind groups, before and after what is cut off at its end is settled. -/
structure ReadsBehind (groups : List Group) (fs : Flags) (text : List Char) (last done : State) :
    Prop where
  calm : Calm (.behind groups fs) text (.ok last)
  settle : last.settle = .ok done
  outer : done.outer = []
  answered : done.Answered

/-- A text cannot be read behind groups, because one of them gets in the way. -/
structure ClashesBehind (groups : List Group) (fs : Flags) (text : List Char)
    (fault : Regex.Fault) :
    Prop where
  clash : fault.cause.isClash = true
  calm : ∃ out, Calm (.behind groups fs) text out ∧ out.bind State.settle = .error fault

namespace ReadsBehind

/-- The groups before a text stay, under their names. -/
theorem names (h : ReadsBehind groups fs cs last done) : groups.map (·.name) <+: done.names := by
  rw [State.names_of_settle h.settle]
  exact h.calm.names rfl

theorem length_le (h : ReadsBehind groups fs cs last done) :
    groups.length ≤ done.groups.length := by
  simpa [State.names] using h.names.length_le

/--
Behind groups a text is read as it is alone, unless there is a clash. In a faithful reading that is
one of names.
-/
theorem follow (h : ReadsBehind [] fs cs last done) (groups : List Group) (faithful : Bool)
    (hnumber : faithful = true → groups = [] ∨ (State.start fs).refersByNumber cs = false) :
    (∃ last' done', ReadsBehind groups fs cs last' done' ∧ last'.mode = last.mode ∧
      Embeds (.behind groups faithful fs) done done') ∨
      (∃ fault, ClashesBehind groups fs cs fault) ∧
        (faithful = true → ¬ (Host.behind groups faithful fs).Apart done.names) := by
  have hnumbered : faithful = true → (Host.behind groups faithful fs).count = 0 ∨
      (State.start fs).refersByNumber cs = false := fun hf =>
    (hnumber hf).imp_left fun hnone => by rw [Host.count, Host.behind, hnone]; rfl
  -- a reference by number at the very end would have counted as one
  have hend : faithful = true → (Host.behind groups faithful fs).count = 0 ∨
      ∀ digits, last.mode ≠ .reference digits := by
    refine fun hf => (hnumbered hf).imp_right fun hnone digits hmode => ?_
    have hlast := State.refersByNumber_of_append (v := []) h.calm.readAll (by rwa [List.append_nil])
    simp [State.refersByNumber, hmode] at hlast
  obtain ⟨out, hcalm, hout⟩ :=
    (Embeds.start_behind groups faithful fs).run h.calm rfl hnumbered
  rcases hout with ⟨last', rfl, hembeds⟩ | ⟨⟨fault, rfl, hclash⟩, hnames⟩
  · -- the text is read to its end, which may be a number that goes to an open group
    rcases (hembeds.settle hend).goesOn done h.settle with
      ⟨-, done', hsettle, hdone⟩ | ⟨⟨fault, hfault, hclash⟩, hnames⟩
    · refine .inl ⟨last', done', ⟨hcalm, hsettle, ?_, fun group hgroup => ?_⟩, hembeds.mode, hdone⟩
      · have hnests := hdone.nests
        rw [h.outer] at hnests
        exact hnests.eq_around
      · have hasked : done'.asked = done.asked := hdone.asked
        rw [hasked] at hgroup
        rw [hdone.length_groups]
        exact Nat.le_add_right_of_le (h.answered group hgroup)
    · exact .inr ⟨⟨fault, hclash, _, hcalm, hfault⟩, hnames⟩
  · refine .inr ⟨⟨fault, hclash, _, hcalm, rfl⟩, fun hf hapart => hnames hf ?_⟩
    rwa [State.names_of_settle h.settle] at hapart

/-- Behind groups a text is read, or it comes to a clash. -/
theorem behind (h : ReadsBehind [] fs cs last done) (groups : List Group) :
    (∃ last' done', ReadsBehind groups fs cs last' done' ∧ last'.mode = last.mode) ∨
      ∃ fault, ClashesBehind groups fs cs fault := by
  rcases h.follow groups false nofun with ⟨last', done', hread, hmode, -⟩ | ⟨hclashes, -⟩
  · exact .inl ⟨last', done', hread, hmode⟩
  · exact .inr hclashes

/--
A text is one item in parentheses that put its flags into force, be it that some of them are in
force around the parentheses already.
-/
theorem readAll_between (h : ReadsBehind before.groups fs cs last done) (hplain : before.Plain)
    (hmode : before.mode = .plain) {around : Flags}
    (hlocale : before.level.flags.locale = false) (hunicode : before.level.flags.unicode = false)
    (hjoin : fs.Agree (joined around before.level.flags))
    (hcomment : around.verbose = false → last.mode ≠ .comment false) :
    before.readAll (opening around ++ (cs ++ ending around)) = .ok (before.after done) := by
  have hembeds := Embeds.start_inside before hplain hjoin
  obtain ⟨inside, hinside, hembeds⟩ :=
    (hembeds.run_inside (Host.groupless_inside ..) h.calm).1 last rfl
  have hverbose : around.verbose = true → fs.verbose = true := by
    intro hverbose
    rw [← hjoin.verbose]
    exact Bool.or_eq_true_iff.mpr (.inl hverbose)
  rw [State.readAll_of_append (readAll_opening hmode hlocale hunicode around),
    State.readAll_of_append hinside]
  exact hembeds.readAll_ending h.settle h.outer hverbose hcomment

/-- There are as many groups as have been asked for by what was read before and by the text. -/
theorem answered_after (h : ReadsBehind before.groups fs cs last done) (hbefore : before.Answered) :
    (before.after done).Answered := by
  intro group hgroup
  rcases List.mem_append.mp hgroup with hgroup | hgroup
  · exact Nat.le_trans (hbefore group hgroup) h.length_le
  · exact h.answered group hgroup

end ReadsBehind

/-- A text that comes to a clash comes to it in such parentheses as well. -/
theorem ClashesBehind.readAll_between (h : ClashesBehind before.groups fs cs fault)
    (hplain : before.Plain) (hmode : before.mode = .plain) {around : Flags}
    (hlocale : before.level.flags.locale = false) (hunicode : before.level.flags.unicode = false)
    (hjoin : fs.Agree (joined around before.level.flags)) :
    before.readAll (opening around ++ (cs ++ ending around)) = .error fault := by
  obtain ⟨out, hcalm, hout⟩ := h.calm
  have hembeds := Embeds.start_inside before hplain hjoin
  have hrun := hembeds.run_inside (Host.groupless_inside ..) hcalm
  rw [State.readAll_of_append (readAll_opening hmode hlocale hunicode around), State.readAll_append]
  -- the clash comes at a character of the text, or at the parenthesis, when its end is settled
  cases hout' : out with
  | error found =>
    rw [hout'] at hout
    cases hout
    rw [hrun.2 fault hout' h.clash]
    rfl
  | ok last =>
    rw [hout'] at hout
    obtain ⟨inside, hinside, hembeds⟩ := hrun.1 last hout'
    rw [hinside]
    exact hembeds.readAll_ending_error hout h.clash around.verbose

/-! ## A pattern in parentheses -/

/-- How a pattern is read that can be put in parentheses. -/
structure Inlined (flags : Flags) (pattern : Pattern) (fs : Flags) (last done : State) : Prop where
  /-- The flag groups at the start give it the flags that the parentheses put into force. -/
  leading : ∃ leading, pattern.source = leading ++ dropFlagGroups pattern.source ∧
    (State.start flags).readAll leading = .ok (.start fs)
  reads : ReadsBehind [] fs (dropFlagGroups pattern.source) last done
  flags : pattern.flags = fs.settled
  groups : pattern.groups = done.names
  node : pattern.node = done.level.body
  /-- A comment at the end is closed by the newline before the parenthesis. -/
  comment : fs.verbose = false → last.mode ≠ .comment false

theorem compile_of_inline {wrapped : List Char} (h : inline pattern = .ok wrapped) :
    wrapped = wrap pattern ∧ ∃ read, Pattern.compile (wrap pattern) = .ok read := by
  rw [inline] at h
  split at h
  · rename_i read hread
    cases h
    exact ⟨rfl, read, hread⟩
  · cases h

/-- A text that can be read in parentheses sets no flags for the whole expression. -/
theorem flags_of_between {given opened : Flags} {inside : State}
    (halone : (State.start fs).readAll cs = .ok last)
    (hinside : ((State.start given).openGroup .plain opened).readAll cs = .ok inside)
    (hverbose : last.flags.verbose = true → opened.verbose = true) : last.flags = fs := by
  have hwaits : Waits (State.start fs) ((State.start given).openGroup .plain opened) := by
    refine ⟨rfl, fun hstart => hverbose ?_, rfl, rfl, rfl⟩
    exact (Embeds.of_empty fs [] [] .plain).verbose_of_readAll (Host.groupless_inside ..) halone
      hstart
  exact State.flags_of_readAll hwaits halone hinside

/-- In a comment a parenthesis closes nothing. -/
theorem outer_eq_nil_of_comment {done : State} (hopen : s.mode = .comment false)
    (hread : s.readAll [')'] = .ok last) (hfinish : last.finish = .ok done) : s.outer = [] := by
  have hstep : s.step ')' = .ok (s.enter (.comment false)) := by
    rw [State.step, hopen]
    rfl
  rw [State.readAll_cons hstep] at hread
  obtain rfl := Except.ok.inj hread
  obtain ⟨hsettle, houter, -⟩ := State.finish_eq_ok hfinish
  obtain rfl : s.enter (.comment false) = done := Except.ok.inj hsettle
  exact houter

/--
A pattern that can be read in parentheses, under flags that together with theirs are its own, is
read there as it is alone.
-/
theorem exists_inlined_of_compile {flags given around : Flags} {read : Pattern}
    (hcompile : Pattern.compile source flags = .ok pattern)
    (hjoin : pattern.flags.Agree (joined around given)) (hlocale : given.locale = false)
    (hunicode : given.unicode = false)
    (hread : Pattern.compile (opening around ++ (dropFlagGroups source ++ ending around)) given =
      .ok read) :
    ∃ fs last done, Inlined flags pattern fs last done ∧
      (around.verbose = false → last.mode ≠ .comment false) := by
  obtain ⟨last, done, halone, hfinish, rfl⟩ := Pattern.compile_eq_ok.mp hcompile
  obtain ⟨leading, fs, hleading, hstart⟩ := exists_start_of_dropFlagGroupsUpTo source.length halone
  have hdrop : source = leading ++ dropFlagGroups source := hleading
  rw [hdrop, State.readAll_of_append hstart] at halone
  -- inside of the parentheses the text can be read as well
  obtain ⟨lastWrapped, _, hwrapped, hfinishWrapped, -⟩ := Pattern.compile_eq_ok.mp hread
  have hopening : (State.start given).readAll (opening around) =
      .ok ((State.start given).openGroup .plain (joined around given)) :=
    readAll_opening rfl hlocale hunicode around
  rw [State.readAll_of_append hopening, State.readAll_append] at hwrapped
  obtain ⟨inside, hinside, hending⟩ := Except.bind_eq_ok.mp hwrapped
  -- so it sets no flags, and the two readings go together
  obtain ⟨hsettle, houter, hasked⟩ := State.finish_eq_ok hfinish
  have hsettled : done.flags = last.flags := State.flags_of_settle hsettle
  have hverbose : last.flags.verbose = true → (joined around given).verbose = true := by
    intro hlast
    rw [← hsettled] at hlast
    exact hjoin.verbose.trans hlast
  have hflags : done.flags = fs := hsettled.trans (flags_of_between halone hinside hverbose)
  have hagree : fs.Agree (joined around given) := by
    rw [← hflags]
    exact agree_settled.mp hjoin
  have hembeds := Embeds.start_inside (.start given) (State.plain_start given) hagree
  obtain ⟨hcalm, hembeds⟩ :=
    hembeds.calm (Host.groupless_inside ..) (List.cons_ne_nil _ _) halone hinside
  -- in a comment the closing parenthesis would not have been found
  have hcomment : around.verbose = false → last.mode ≠ .comment false := by
    intro hverbose hopen
    rw [← hembeds.mode] at hopen
    rw [ending, hverbose, if_neg Bool.false_ne_true] at hending
    exact hembeds.nests.ne_nil (List.cons_ne_nil _ _)
      (outer_eq_nil_of_comment hopen hending hfinishWrapped)
  refine ⟨fs, last, done,
    ⟨⟨leading, hdrop, hstart⟩, ⟨hcalm, hsettle, houter, hasked⟩, by rw [hflags],
    rfl, rfl, ?_⟩, hcomment⟩
  intro hverbose
  rw [← hagree.verbose] at hverbose
  exact hcomment (Bool.or_eq_false_iff.mp hverbose).1

theorem exists_inlined {flags : Flags} {wrapped : List Char}
    (hcompile : Pattern.compile source flags = .ok pattern)
    (hinline : inline pattern = .ok wrapped) :
    ∃ fs last done, Inlined flags pattern fs last done := by
  obtain ⟨-, read, hread⟩ := compile_of_inline hinline
  rw [wrap_eq, Pattern.source_of_compile hcompile] at hread
  obtain ⟨fs, last, done, hinlined, -⟩ :=
    exists_inlined_of_compile hcompile (agree_joined _) rfl rfl hread
  exact ⟨fs, last, done, hinlined⟩

namespace Inlined

variable {flags : Flags}

theorem length_groups (h : Inlined flags pattern fs last done) :
    done.groups.length = pattern.groups.length := by
  rw [h.groups, State.names, List.length_map]

theorem wrap_eq (h : Inlined flags pattern fs last done) :
    wrap pattern = opening fs ++ (dropFlagGroups pattern.source ++ ending fs) := by
  rw [Template.wrap_eq, h.flags]
  rfl

/-- Where no flags are in force the parentheses around a pattern are one item. -/
theorem readAll_wrap (h : Inlined flags pattern fs last done) {last' done' : State}
    (hread : ReadsBehind before.groups fs (dropFlagGroups pattern.source) last' done')
    (hlast : last'.mode = last.mode) (hplain : before.Plain) (hmode : before.mode = .plain)
    (hlevel : before.level.flags = {}) :
    before.readAll (wrap pattern) = .ok (before.after done') := by
  rw [h.wrap_eq]
  refine hread.readAll_between hplain hmode (by rw [hlevel]) (by rw [hlevel]) ?_ ?_
  · rw [hlevel]
    exact agree_joined fs
  · rw [hlast]
    exact h.comment

/-- And they come to a clash if the text of the pattern does. -/
theorem readAll_wrap_error (h : Inlined flags pattern fs last done)
    (hclash : ClashesBehind before.groups fs (dropFlagGroups pattern.source) fault)
    (hplain : before.Plain) (hmode : before.mode = .plain) (hlevel : before.level.flags = {}) :
    before.readAll (wrap pattern) = .error fault := by
  rw [h.wrap_eq]
  refine hclash.readAll_between hplain hmode (by rw [hlevel]) (by rw [hlevel]) ?_
  rw [hlevel]
  exact agree_joined fs

/--
Parentheses around the text of a pattern are read as what the pattern says, with its groups, under
flags that together with theirs are its own.
-/
theorem compile_between (h : Inlined flags pattern fs last done) {around given : Flags}
    (hjoin : pattern.flags.Agree (joined around given)) (hlocale : given.locale = false)
    (hunicode : given.unicode = false)
    (hcomment : around.verbose = false → last.mode ≠ .comment false) :
    ∃ read,
      Pattern.compile (opening around ++ (dropFlagGroups pattern.source ++ ending around)) given =
        .ok read ∧
      read.node = .seq pattern.node .empty ∧ read.groups = pattern.groups := by
  rw [h.flags] at hjoin
  let before := State.start given
  have hread : before.readAll
      (opening around ++ (dropFlagGroups pattern.source ++ ending around)) =
        .ok (before.after done) :=
    h.reads.readAll_between (State.plain_start given) rfl hlocale hunicode
      (agree_settled.mp hjoin) hcomment
  -- all groups that conditions asked for are there, for they were there when the text was read
  -- alone
  have hanswered : (before.after done).Answered := h.reads.answered_after (.of_empty rfl)
  have halphabet : (before.flags.ascii && before.flags.unicode) = false := by
    rw [show before.flags.unicode = false from hunicode, Bool.and_false]
  have hfinish : (before.after done).finish = .ok (before.after done) :=
    Mode.Between.finish (.inl rfl) rfl hlocale halphabet hanswered
  refine ⟨_, Pattern.compile_eq_ok.mpr ⟨_, _, hread, hfinish, rfl⟩, ?_, h.groups.symm⟩
  rw [h.node]
  rfl

/-- The parentheses around a pattern are read as what the pattern says, with its groups. -/
theorem compile_wrap (h : Inlined flags pattern fs last done) :
    ∃ read, Pattern.compile (wrap pattern) = .ok read ∧ read.node = .seq pattern.node .empty ∧
      read.groups = pattern.groups := by
  rw [h.wrap_eq]
  refine h.compile_between ?_ rfl rfl h.comment
  rw [h.flags]
  exact agree_settled.mpr (agree_joined fs)

end Inlined

end Abnf.Template
