/-
  File:      ArgusPep/Util/LinkedList.lean
  Subject:   The addresses that `llist_delete_elements` of util/linkedlist.c hands to its function.

  * `uniqueElts` -- the array `unique_elts`, filled from the list;
  * `uniqueElts_nodup`, `mem_uniqueElts` -- every address of the list, each once;
  * `uniqueElts_eq_eraseDups` -- in the order in which they come first.
-/
import Mathlib.Data.List.Nodup
import Mathlib.Data.List.Induction

namespace ArgusPep

variable {ε : Type} [DecidableEq ε]

/-- The first loop of `llist_delete_elements`: an element already in the array is passed over, the
    others are added at its end. -/
def uniqueElts (list : List ε) : List ε :=
  list.foldl (fun unique elt => if elt ∈ unique then unique else unique ++ [elt]) []

@[simp] theorem uniqueElts_nil : uniqueElts ([] : List ε) = [] := rfl

/-- One more element. -/
theorem uniqueElts_concat (list : List ε) (elt : ε) :
    uniqueElts (list ++ [elt]) =
      if elt ∈ uniqueElts list then uniqueElts list else uniqueElts list ++ [elt] := by
  unfold uniqueElts
  rw [List.foldl_append]
  rfl

theorem mem_uniqueElts {list : List ε} {elt : ε} : elt ∈ uniqueElts list ↔ elt ∈ list := by
  induction list using List.reverseRecOn with
  | nil => exact Iff.rfl
  | append_singleton list last ih =>
    rw [uniqueElts_concat, List.mem_append, ← ih, List.mem_singleton]
    split
    · rename_i hlast
      exact ⟨.inl, fun h => h.elim id fun e => e ▸ hlast⟩
    · rw [List.mem_append, List.mem_singleton]

/-- **Every element is in the array once.** -/
theorem uniqueElts_nodup (list : List ε) : (uniqueElts list).Nodup := by
  induction list using List.reverseRecOn with
  | nil => exact List.nodup_nil
  | append_singleton list last ih =>
    rw [uniqueElts_concat]
    split
    · exact ih
    · rename_i hlast
      exact List.nodup_append.mpr ⟨ih, List.nodup_singleton last, fun a ha b hb e =>
        hlast (List.mem_singleton.mp hb ▸ e ▸ ha)⟩

theorem uniqueElts_of_nodup {list : List ε} (h : list.Nodup) : uniqueElts list = list := by
  induction list using List.reverseRecOn with
  | nil => rfl
  | append_singleton list last ih =>
    have hsplit := List.nodup_append.mp h
    have hlast : last ∉ list := fun hmem =>
      hsplit.2.2 last hmem last (List.mem_singleton_self last) rfl
    rw [uniqueElts_concat, ih hsplit.1, if_neg hlast]

/-- The elements stand in the array in the order of their first places. -/
theorem uniqueElts_eq_eraseDups (list : List ε) : uniqueElts list = list.eraseDups := by
  induction list using List.reverseRecOn with
  | nil => rfl
  | append_singleton list last ih =>
    rw [uniqueElts_concat, List.eraseDups_append, ih]
    by_cases hlast : last ∈ list
    · rw [if_pos (List.mem_eraseDups.mpr hlast)]
      simp [List.removeAll, hlast]
    · rw [if_neg fun h => hlast (List.mem_eraseDups.mp h)]
      simp [List.removeAll, hlast, List.eraseDups_cons]

end ArgusPep
