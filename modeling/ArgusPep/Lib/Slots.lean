/-
  File:      ArgusPep/Lib/Slots.lean
  Subject:   Pointers that own what they point to.

  A slot is a place for a pointer. An allocation is an identity, the number of the allocations
  before it, and it is made for one slot.

  * `Heap` -- the allocations, each with its slot and what was written to it, and the releases;
  * `Owns pointer m values` -- every pointer is NULL or holds an allocation of its own slot that was
    not released; every other allocation was released once. `values` is what the slots mean;
  * `Owns.clear`, `Owns.store` -- the two steps that keep it: release and set to NULL; make and
    store in a slot that is NULL;
  * `Owns.releaseAll` -- **once the pointers of some slots are released, everything that was made
    for them was released exactly once**.
-/
import Mathlib.Data.List.Nodup
import Mathlib.Data.List.Count
import Mathlib.Logic.Function.Basic

namespace Lib.Slots

open Function

variable {κ τ : Type}

/-! ## 1. Allocations -/

structure Heap (κ τ : Type) where
  /-- What was allocated, in order: the slot it was made for and what was written to it. -/
  made : List (κ × τ)
  /-- What was released, in order. -/
  released : List Nat

namespace Heap

def empty : Heap κ τ := ⟨[], []⟩

/-- `free`, behind a test for NULL. -/
def release (m : Heap κ τ) : Option Nat → Heap κ τ
  | none => m
  | some p => { m with released := m.released ++ [p] }

def make (m : Heap κ τ) (k : κ) (t : τ) : Heap κ τ := { m with made := m.made ++ [(k, t)] }

/-- What was written to an allocation. -/
def read (m : Heap κ τ) (p : Nat) : Option τ := m.made[p]?.map Prod.snd

@[simp] theorem release_made (m : Heap κ τ) (p? : Option Nat) : (m.release p?).made = m.made := by
  cases p? <;> rfl

@[simp] theorem make_released (m : Heap κ τ) (k : κ) (t : τ) :
    (m.make k t).released = m.released := rfl

theorem make_made_old {m : Heap κ τ} {k : κ} {t : τ} {p : Nat} {e : κ × τ}
    (h : m.made[p]? = some e) : (m.make k t).made[p]? = some e := by
  have hlt := (List.getElem?_eq_some_iff.mp h).1
  unfold make
  rw [List.getElem?_append_left hlt, h]

/-- An allocation is the new one or an old one. -/
theorem make_made_cases {m : Heap κ τ} {k j : κ} {t u : τ} {p : Nat}
    (h : (m.make k t).made[p]? = some (j, u)) :
    m.made[p]? = some (j, u) ∨ p = m.made.length ∧ j = k ∧ u = t := by
  unfold make at h
  by_cases hlt : p < m.made.length
  · rw [List.getElem?_append_left hlt] at h
    exact .inl h
  · have hlen := (List.getElem?_eq_some_iff.mp h).1
    simp only [List.length_append, List.length_cons, List.length_nil] at hlen
    obtain rfl : p = m.made.length := by omega
    rw [List.getElem?_concat_length] at h
    cases h
    exact .inr ⟨rfl, rfl, rfl⟩

theorem mem_release {m : Heap κ τ} {p? : Option Nat} {p : Nat} :
    p ∈ (m.release p?).released ↔ p ∈ m.released ∨ p? = some p := by
  cases p? with
  | none => simp [release]
  | some q => simp [release, eq_comm]

theorem count_release_self {m : Heap κ τ} {p : Nat} :
    (m.release (some p)).released.count p = m.released.count p + 1 := by
  simp [release]

theorem count_release_ne {m : Heap κ τ} {p? : Option Nat} {p : Nat} (h : p? ≠ some p) :
    (m.release p?).released.count p = m.released.count p := by
  cases p? with
  | none => rfl
  | some q =>
    have hne : q ≠ p := fun e => h (e ▸ rfl)
    simp [release, hne]

end Heap

/-! ## 2. Ownership -/

/-- **Every pointer is NULL or owns an allocation of its slot, and every other allocation was
    released once.** -/
structure Owns (pointer : κ → Option Nat) (m : Heap κ τ) (values : κ → Option τ) : Prop where
  null : ∀ k, pointer k = none → values k = none
  holds : ∀ k p, pointer k = some p → ∃ t, m.made[p]? = some (k, t) ∧ values k = some t
  alive : ∀ k p, pointer k = some p → p ∉ m.released
  spent : ∀ p k t, m.made[p]? = some (k, t) → pointer k ≠ some p → m.released.count p = 1
  known : ∀ p ∈ m.released, p < m.made.length

variable {pointer : κ → Option Nat} {m : Heap κ τ} {values : κ → Option τ}

theorem Owns.start : Owns (fun _ => none) (Heap.empty : Heap κ τ) fun _ => none where
  null _ _ := rfl
  holds _ _ h := nomatch h
  alive _ _ h := nomatch h
  spent _ _ _ h := by simp [Heap.empty] at h
  known _ h := nomatch h

/-- No two slots share an allocation. -/
theorem Owns.inj (h : Owns pointer m values) {j k : κ} {p : Nat} (hj : pointer j = some p)
    (hk : pointer k = some p) : j = k := by
  obtain ⟨t, ht, _⟩ := h.holds j p hj
  obtain ⟨u, hu, _⟩ := h.holds k p hk
  rw [ht] at hu
  cases hu
  rfl

/-- What a slot means is what can be read through its pointer. -/
theorem Owns.read (h : Owns pointer m values) (k : κ) : (pointer k).bind m.read = values k := by
  cases hk : pointer k with
  | none => exact (h.null k hk).symm
  | some p =>
    obtain ⟨t, ht, hv⟩ := h.holds k p hk
    simp only [Option.bind_some, Heap.read, ht, hv, Option.map_some]

variable [DecidableEq κ]

/-- The allocation of a slot is released and the pointer set to NULL. -/
theorem Owns.clear (h : Owns pointer m values) (k : κ) :
    Owns (update pointer k none) (m.release (pointer k)) (update values k none) where
  null j hj := by
    by_cases e : j = k
    · subst e
      rw [update_self]
    · rw [update_of_ne e] at hj ⊢
      exact h.null j hj
  holds j p hj := by
    by_cases e : j = k
    · subst e
      rw [update_self] at hj
      cases hj
    · rw [update_of_ne e] at hj ⊢
      rw [Heap.release_made]
      exact h.holds j p hj
  alive j p hj := by
    by_cases e : j = k
    · subst e
      rw [update_self] at hj
      cases hj
    · rw [update_of_ne e] at hj
      rw [Heap.mem_release]
      intro h
      rcases h with hp | hp
      · exact h.alive j p hj hp
      · exact e (h.inj hj hp)
  spent p j t hmade hj := by
    rw [Heap.release_made] at hmade
    by_cases e : j = k
    · subst e
      by_cases hp : pointer j = some p
      · rw [hp, Heap.count_release_self, List.count_eq_zero_of_not_mem (h.alive j p hp)]
      · rw [Heap.count_release_ne hp]
        exact h.spent p j t hmade hp
    · rw [update_of_ne e] at hj
      have hp : pointer k ≠ some p := by
        intro hp
        obtain ⟨u, hu, _⟩ := h.holds k p hp
        rw [hmade] at hu
        cases hu
        exact e rfl
      rw [Heap.count_release_ne hp]
      exact h.spent p j t hmade hj
  known p hp := by
    rw [Heap.release_made]
    rcases Heap.mem_release.mp hp with hp | hp
    · exact h.known p hp
    · obtain ⟨t, ht, _⟩ := h.holds k p hp
      exact (List.getElem?_eq_some_iff.mp ht).1

/-- A new allocation is stored in a slot that is NULL. -/
theorem Owns.store (h : Owns pointer m values) {k : κ} (hk : pointer k = none) (t : τ) :
    Owns (update pointer k (some m.made.length)) (m.make k t) (update values k (some t)) where
  null j hj := by
    by_cases e : j = k
    · subst e
      rw [update_self] at hj
      cases hj
    · rw [update_of_ne e] at hj ⊢
      exact h.null j hj
  holds j p hj := by
    by_cases e : j = k
    · subst e
      rw [update_self] at hj ⊢
      cases hj
      exact ⟨t, List.getElem?_concat_length, rfl⟩
    · rw [update_of_ne e] at hj ⊢
      obtain ⟨u, hu, hv⟩ := h.holds j p hj
      exact ⟨u, Heap.make_made_old hu, hv⟩
  alive j p hj := by
    by_cases e : j = k
    · subst e
      rw [update_self] at hj
      cases hj
      exact fun hp => absurd (h.known _ hp) (Nat.lt_irrefl _)
    · rw [update_of_ne e] at hj
      exact h.alive j p hj
  spent p j u hmade hj := by
    rcases Heap.make_made_cases hmade with hmade | ⟨rfl, rfl, rfl⟩
    · refine h.spent p j u hmade fun hp => hj ?_
      have e : j ≠ k := by
        intro e
        rw [e, hk] at hp
        cases hp
      rw [update_of_ne e, hp]
    · exact absurd (update_self _ _ _) hj
  known p hp := by
    have := h.known p hp
    unfold Heap.make
    rw [List.length_append]
    omega

/-- Storing under the same meaning of the slots, but for a slot that means nothing. -/
theorem Owns.clear_null (h : Owns pointer m values) {k : κ} (hk : pointer k = none) :
    Owns pointer m (update values k none) := by
  rw [← h.null k hk, update_eq_self]
  exact h

/-- The pointers of `ks` are released, and stay where they are. -/
def Heap.releaseAll (pointer : κ → Option Nat) (ks : List κ) (m : Heap κ τ) : Heap κ τ :=
  ks.foldl (fun m k => m.release (pointer k)) m

omit [DecidableEq κ] in
theorem Heap.releaseAll_congr {pointer pointer' : κ → Option Nat} : ∀ {ks : List κ} (m : Heap κ τ),
    (∀ k ∈ ks, pointer k = pointer' k) → m.releaseAll pointer ks = m.releaseAll pointer' ks
  | [], _, _ => rfl
  | k :: ks, m, h => by
    show (m.release (pointer k)).releaseAll pointer ks = (m.release (pointer' k)).releaseAll pointer' ks
    rw [h k List.mem_cons_self,
      releaseAll_congr (m.release (pointer' k)) fun j hj => h j (List.mem_cons_of_mem _ hj)]

/-- **What was made for the slots `ks` was released exactly once, when their pointers were.** -/
theorem Owns.releaseAll : ∀ {ks : List κ} {pointer : κ → Option Nat} {m : Heap κ τ}
    {values : κ → Option τ}, Owns pointer m values → ks.Nodup → ∀ {p : Nat} {k : κ} {t : τ},
    m.made[p]? = some (k, t) → k ∈ ks ∨ pointer k ≠ some p →
      (m.releaseAll pointer ks).released.count p = 1
  | [], pointer, m, values, h, _, p, k, t, hmade, hk =>
    h.spent p k t hmade (hk.resolve_left List.not_mem_nil)
  | j :: ks, pointer, m, values, h, hnodup, p, k, t, hmade, hk => by
    obtain ⟨hj, hks⟩ := List.nodup_cons.mp hnodup
    show ((m.release (pointer j)).releaseAll pointer ks).released.count p = 1
    have hsame : ∀ i ∈ ks, pointer i = update pointer j none i := fun i hi =>
      (update_of_ne (fun e : i = j => hj (e ▸ hi)) _ _).symm
    rw [Heap.releaseAll_congr _ hsame]
    refine (h.clear j).releaseAll hks (k := k) (t := t) (by rw [Heap.release_made, hmade]) ?_
    by_cases e : k = j
    · subst e
      rw [update_self]
      exact .inr nofun
    · rw [update_of_ne e]
      exact hk.imp_left fun hk => (List.mem_cons.mp hk).resolve_left e

end Lib.Slots
