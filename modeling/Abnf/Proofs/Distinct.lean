import Mathlib.Data.List.Sort

/-!
# Lists that stand for sets

A set comes as a list of its members, in any order. What is made of it has to depend on the members
alone: each is kept once (`nodup_eraseDups`), and sorting by a total order then leaves one list
(`mergeSort_eraseDups_eq`).
-/

namespace Abnf

variable {α : Type}

/-- Keeping the first of equal members leaves every member once. -/
theorem nodup_eraseDups [BEq α] [LawfulBEq α] : ∀ l : List α, l.eraseDups.Nodup
  | [] => List.nodup_nil
  | a :: l => by
      have hrest := nodup_eraseDups (l.filter fun b => !b == a)
      rw [List.eraseDups_cons]
      refine List.nodup_cons.mpr ⟨fun hmem => ?_, hrest⟩
      have hne := (List.mem_filter.mp (List.mem_eraseDups.mp hmem)).2
      rw [beq_self_eq_true] at hne
      exact absurd hne Bool.false_ne_true
termination_by l => l.length
decreasing_by exact Nat.lt_succ_of_le (List.length_filter_le ..)

/-- Sorting the members of a set by a total order does not depend on how they come. -/
theorem mergeSort_eraseDups_eq [BEq α] [LawfulBEq α] {le : α → α → Bool}
    (htrans : ∀ a b c, le a b → le b c → le a c) (htotal : ∀ a b, le a b || le b a)
    (hantisymm : ∀ a b, le a b → le b a → a = b) {l l' : List α} (h : ∀ a, a ∈ l ↔ a ∈ l') :
    l.eraseDups.mergeSort le = l'.eraseDups.mergeSort le := by
  have hmembers : ∀ a, a ∈ l.eraseDups ↔ a ∈ l'.eraseDups := fun a => by
    rw [List.mem_eraseDups, List.mem_eraseDups, h]
  have hperm : l.eraseDups.Perm l'.eraseDups :=
    (List.perm_ext_iff_of_nodup (nodup_eraseDups l) (nodup_eraseDups l')).mpr hmembers
  have hsorted (l : List α) : (l.mergeSort le).Pairwise fun a b => le a b :=
    List.pairwise_mergeSort htrans htotal l
  have hboth : (l.eraseDups.mergeSort le).Perm (l'.eraseDups.mergeSort le) :=
    (List.mergeSort_perm _ le).trans (hperm.trans (List.mergeSort_perm _ le).symm)
  exact List.Perm.eq_of_pairwise (fun a b _ _ => hantisymm a b) (hsorted _) (hsorted _) hboth

end Abnf
