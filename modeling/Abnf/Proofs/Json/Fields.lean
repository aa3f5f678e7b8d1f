import Abnf.Proofs.Distinct
import Abnf.Proofs.Json.Notation
import Mathlib.Data.List.Basic

/-!
# Names that come again

The reader puts the members of an object in one by one, and the notation says of all of them
together that each name is there once, in its first place and with its last value. Both come to the
same (`insertAll_nil`).
-/

namespace Abnf.Json

variable {name : List Nat} {value : Value} {names keys : List (List Nat)}
  {members : List (List Nat × Value)}

/-- Another name adds itself at the end, unless it is there already. -/
theorem eraseDups_append_singleton (names : List (List Nat)) (name : List Nat) :
    (names ++ [name]).eraseDups =
      if name ∈ names.eraseDups then names.eraseDups else names.eraseDups ++ [name] := by
  rw [List.eraseDups_append]
  by_cases h : name ∈ names
  · rw [if_pos (List.mem_eraseDups.mpr h)]
    simp [List.removeAll, h]
  · rw [if_neg (mt List.mem_eraseDups.mp h)]
    simp [List.removeAll, h, List.eraseDups_cons]

/--
Fields that are found name by name, with one more: the name is found where it was, or behind the
others, with the new value.
-/
theorem insertField_filterMap {found : List Nat → Option (List Nat × Value)}
    (hfound : ∀ key ∈ keys, ∃ old, found key = some (key, old)) (hkeys : keys.Nodup) :
    insertField (keys.filterMap found) name value =
      (if name ∈ keys then keys else keys ++ [name]).filterMap fun key =>
        if key = name then some (name, value) else found key := by
  -- up to the first key of that name nothing changes, and there is no other behind it
  induction keys with
  | nil => simp [insertField]
  | cons key keys ih =>
    rw [List.forall_mem_cons] at hfound
    obtain ⟨⟨old, hold⟩, hfound⟩ := hfound
    obtain ⟨hkey, hkeys⟩ := List.nodup_cons.mp hkeys
    rw [List.filterMap_cons_some hold, insertField]
    by_cases hname : key = name
    · subst hname
      rw [if_pos rfl, if_pos (List.mem_cons_self ..), List.filterMap_cons]
      simp only [if_pos]
      refine congrArg _ (List.filterMap_congr fun other hother => ?_)
      rw [if_neg (ne_of_mem_of_not_mem hother hkey)]
    · rw [if_neg hname, ih hfound hkeys]
      have hmem : name ∈ key :: keys ↔ name ∈ keys := by simp [Ne.symm hname]
      simp only [hmem]
      split <;> simp [hname, hold]

/-- What comes last of a name is what was added last of it. -/
theorem lastOfEach_append (members : List (List Nat × Value)) (name : List Nat) (value : Value) :
    lastOfEach (members ++ [(name, value)]) = insertField (lastOfEach members) name value := by
  unfold lastOfEach
  rw [insertField_filterMap (fun key hkey => ?_) (nodup_eraseDups _), List.map_append,
    List.map_singleton, eraseDups_append_singleton]
  · refine List.filterMap_congr fun key _ => ?_
    rw [List.reverse_append, List.reverse_singleton, List.singleton_append, List.find?_cons]
    by_cases hkey : key = name
    · simp [hkey]
    · simp [hkey, Ne.symm hkey]
  · obtain ⟨m, hm, rfl⟩ := List.mem_map.mp (List.mem_eraseDups.mp hkey)
    obtain ⟨last, hlast⟩ : ∃ last, members.reverse.find? (·.1 = m.1) = some last := by
      refine Option.isSome_iff_exists.mp (List.find?_isSome.mpr ⟨m, ?_, by simp⟩)
      exact List.mem_reverse.mpr hm
    have hname : last.1 = m.1 := by simpa using List.find?_some hlast
    exact ⟨last.2, by rw [hlast, ← hname]⟩

/-- Fields with members put in one after the other. -/
def insertAll (before members : List (List Nat × Value)) : List (List Nat × Value) :=
  members.foldl (fun fields m => insertField fields m.1 m.2) before

theorem insertAll_lastOfEach (members before : List (List Nat × Value)) :
    insertAll (lastOfEach before) members = lastOfEach (before ++ members) := by
  induction members generalizing before with
  | nil => rw [List.append_nil, insertAll, List.foldl_nil]
  | cons m members ih =>
    rw [List.append_cons, ← ih, lastOfEach_append]
    rfl

/-- Members that are put in one after the other are each name once. -/
theorem insertAll_nil (members : List (List Nat × Value)) :
    insertAll [] members = lastOfEach members :=
  insertAll_lastOfEach members []

end Abnf.Json
