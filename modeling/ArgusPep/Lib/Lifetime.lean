/-
  File:      ArgusPep/Lib/Lifetime.lean
  Subject:   Traces of acquisitions, uses and releases, and what it means that every resource is
             acquired once, used only while it is held, and released once.

  * `Open r acts`, `Closed r acts` -- the acts on `r` are its acquisition and then uses; they are
    its acquisition, uses, and last its release;
  * `Holds acts live` -- the resources of `live` are open, every other one is closed or untouched.
    The invariant of a program that owns its resources: `Holds.acquire`, `Holds.use` and
    `Holds.release` are its steps, and at `Holds acts []` nothing is leaked, released twice or
    used after its release (`Holds.closed`, `Holds.not_use_behind`).
-/
import Mathlib.Data.List.Nodup
import Mathlib.Data.List.Count

namespace Lib.Lifetime

variable {ρ : Type}

/-- What a program does to a resource. -/
inductive Act (ρ : Type) where
  | acquire (r : ρ)
  | use (r : ρ)
  | release (r : ρ)
deriving DecidableEq, Repr

/-- The resource of an act. -/
def Act.on : Act ρ → ρ
  | .acquire r | .use r | .release r => r

variable [DecidableEq ρ]

/-- The acts on `r`, in order. -/
def actsOn (r : ρ) (acts : List (Act ρ)) : List (Act ρ) := acts.filter (·.on = r)

/-- `r` was acquired once and has only been used since. -/
def Open (r : ρ) (acts : List (Act ρ)) : Prop :=
  ∃ k, actsOn r acts = .acquire r :: List.replicate k (.use r)

/-- `r` was acquired once, then only used, then released once and not touched again. -/
def Closed (r : ρ) (acts : List (Act ρ)) : Prop :=
  ∃ k, actsOn r acts = .acquire r :: (List.replicate k (.use r) ++ [.release r])

/-! ## 1. The acts on one resource -/

theorem actsOn_append (r : ρ) (acts later : List (Act ρ)) :
    actsOn r (acts ++ later) = actsOn r acts ++ actsOn r later := List.filter_append ..

theorem actsOn_self (a : Act ρ) : actsOn a.on [a] = [a] :=
  List.filter_cons_of_pos (by simp)

theorem actsOn_other {r : ρ} {acts : List (Act ρ)} (h : ∀ a ∈ acts, a.on ≠ r) :
    actsOn r acts = [] :=
  List.filter_eq_nil_iff.mpr fun a ha => by simpa using h a ha

/-- An act on another resource changes nothing. -/
theorem actsOn_append_other {r : ρ} {a : Act ρ} (acts : List (Act ρ)) (h : a.on ≠ r) :
    actsOn r (acts ++ [a]) = actsOn r acts := by
  have hnone : actsOn r [a] = [] := actsOn_other (List.forall_mem_singleton.mpr h)
  rw [actsOn_append, hnone, List.append_nil]

theorem Open.ne_nil {r : ρ} {acts : List (Act ρ)} (h : Open r acts) : actsOn r acts ≠ [] := by
  obtain ⟨k, hk⟩ := h
  rw [hk]
  exact List.cons_ne_nil _ _

theorem Open.use {r : ρ} {acts : List (Act ρ)} (h : Open r acts) : Open r (acts ++ [.use r]) := by
  obtain ⟨k, hk⟩ := h
  refine ⟨k + 1, ?_⟩
  rw [actsOn_append, hk, show actsOn r [.use r] = [.use r] from actsOn_self (.use r),
    List.replicate_succ']
  rfl

theorem Open.release {r : ρ} {acts : List (Act ρ)} (h : Open r acts) :
    Closed r (acts ++ [.release r]) := by
  obtain ⟨k, hk⟩ := h
  refine ⟨k, ?_⟩
  rw [actsOn_append, hk, show actsOn r [.release r] = [.release r] from actsOn_self (.release r)]
  rfl

theorem count_release (r : ρ) (acts : List (Act ρ)) :
    acts.count (.release r) = (actsOn r acts).count (.release r) :=
  (List.count_filter (by simp [Act.on])).symm

/-- An open resource has not been released. -/
theorem Open.count_release {r : ρ} {acts : List (Act ρ)} (h : Open r acts) :
    acts.count (.release r) = 0 := by
  obtain ⟨k, hk⟩ := h
  rw [Lifetime.count_release, hk]
  simp [List.count_replicate]

/-- A closed resource has been released exactly once. -/
theorem Closed.count_release {r : ρ} {acts : List (Act ρ)} (h : Closed r acts) :
    acts.count (.release r) = 1 := by
  obtain ⟨k, hk⟩ := h
  rw [Lifetime.count_release, hk]
  simp [List.count_replicate]

/-! ## 2. All resources -/

/-- **Ownership**: exactly the resources of `live` are open, and no other was left half-way. -/
structure Holds (acts : List (Act ρ)) (live : List ρ) : Prop where
  nodup : live.Nodup
  held : ∀ r ∈ live, Open r acts
  settled : ∀ r, r ∉ live → actsOn r acts = [] ∨ Closed r acts

variable {acts : List (Act ρ)} {live : List ρ} {r : ρ}

theorem Holds.start : Holds ([] : List (Act ρ)) [] where
  nodup := List.nodup_nil
  held _ h := absurd h List.not_mem_nil
  settled _ _ := .inl rfl

theorem Holds.perm {live' : List ρ} (h : Holds acts live) (p : live.Perm live') :
    Holds acts live' where
  nodup := p.nodup_iff.mp h.nodup
  held r hr := h.held r (p.mem_iff.mpr hr)
  settled r hr := h.settled r fun hm => hr (p.mem_iff.mp hm)

/-- A resource that was not touched before is acquired. -/
theorem Holds.acquire (h : Holds acts live) (fresh : ∀ a ∈ acts, a.on ≠ r) :
    Holds (acts ++ [.acquire r]) (r :: live) where
  nodup := List.nodup_cons.mpr ⟨fun hr => (h.held r hr).ne_nil (actsOn_other fresh), h.nodup⟩
  held q hq := by
    by_cases e : q = r
    · subst e
      refine ⟨0, ?_⟩
      rw [actsOn_append, actsOn_other fresh]
      exact actsOn_self (.acquire q)
    · have hm : q ∈ live := (List.mem_cons.mp hq).resolve_left e
      show ∃ k, _
      rw [actsOn_append_other acts (a := .acquire r) (Ne.symm e)]
      exact h.held q hm
  settled q hq := by
    have e : r ≠ q := fun e => hq (e ▸ List.mem_cons_self)
    have hm : q ∉ live := fun hm => hq (List.mem_cons_of_mem _ hm)
    unfold Closed
    rw [actsOn_append_other acts (a := .acquire r) e]
    exact h.settled q hm

/-- Resources that were not touched before are acquired one after the other. -/
theorem Holds.acquires {rs : List ρ} (h : Holds acts live) (hnodup : rs.Nodup)
    (fresh : ∀ r ∈ rs, ∀ a ∈ acts, a.on ≠ r) : Holds (acts ++ rs.map .acquire) (live ++ rs) := by
  induction rs generalizing acts live with
  | nil =>
    rw [List.map_nil, List.append_nil, List.append_nil]
    exact h
  | cons r rs ih =>
    obtain ⟨hr, hrs⟩ := List.nodup_cons.mp hnodup
    have hfirst := (h.acquire (fresh r List.mem_cons_self)).perm (List.perm_append_singleton ..).symm
    have hfresh : ∀ q ∈ rs, ∀ a ∈ acts ++ [.acquire r], a.on ≠ q := by
      intro q hq a ha
      rcases List.mem_append.mp ha with ha | ha
      · exact fresh q (List.mem_cons_of_mem _ hq) a ha
      · rw [List.mem_singleton.mp ha]
        exact fun (e : r = q) => hr (e ▸ hq)
    have hrest := ih hfirst hrs hfresh
    rw [List.append_assoc, List.append_assoc] at hrest
    exact hrest

/-- A resource is used while it is held. -/
theorem Holds.use (h : Holds acts live) (hr : r ∈ live) : Holds (acts ++ [.use r]) live where
  nodup := h.nodup
  held q hq := by
    by_cases e : q = r
    · subst e
      exact (h.held q hq).use
    · show ∃ k, _
      rw [actsOn_append_other acts (a := .use r) (Ne.symm e)]
      exact h.held q hq
  settled q hq := by
    have e : r ≠ q := fun e => hq (e ▸ hr)
    unfold Closed
    rw [actsOn_append_other acts (a := .use r) e]
    exact h.settled q hq

theorem Holds.uses {rs : List ρ} (h : Holds acts live) (hr : ∀ r ∈ rs, r ∈ live) :
    Holds (acts ++ rs.map .use) live := by
  induction rs generalizing acts with
  | nil =>
    rw [List.map_nil, List.append_nil]
    exact h
  | cons r rs ih =>
    have hfirst := h.use (hr r List.mem_cons_self)
    have hrest := ih hfirst fun q hq => hr q (List.mem_cons_of_mem _ hq)
    rw [List.append_assoc] at hrest
    exact hrest

/-- A resource that is held is released. -/
theorem Holds.release (h : Holds acts (r :: live)) : Holds (acts ++ [.release r]) live where
  nodup := h.nodup.of_cons
  held q hq := by
    have e : r ≠ q := fun e => (List.nodup_cons.mp h.nodup).1 (e ▸ hq)
    show ∃ k, _
    rw [actsOn_append_other acts (a := .release r) e]
    exact h.held q (List.mem_cons_of_mem _ hq)
  settled q hq := by
    by_cases e : q = r
    · subst e
      exact .inr (h.held q List.mem_cons_self).release
    · have hm : q ∉ r :: live := fun hm => (List.mem_cons.mp hm).elim e hq
      unfold Closed
      rw [actsOn_append_other acts (a := .release r) (Ne.symm e)]
      exact h.settled q hm

/-- **A resource that was touched and is no longer held has had a whole life.** -/
theorem Holds.closed {a : Act ρ} (h : Holds acts live) (ha : a ∈ acts) (hr : a.on ∉ live) :
    Closed a.on acts := by
  rcases h.settled a.on hr with e | hc
  · exact absurd (decide_eq_true rfl) (List.filter_eq_nil_iff.mp e a ha)
  · exact hc

/-- **Nothing is used behind its release.** -/
theorem Holds.not_use_behind {before behind : List (Act ρ)} (h : Holds acts live)
    (hacts : acts = before ++ .release r :: behind) : .use r ∉ behind := by
  intro huse
  have hon : actsOn r acts = actsOn r before ++ .release r :: actsOn r behind := by
    rw [hacts, ← List.singleton_append, actsOn_append, actsOn_append]
    exact congrArg _ (congrArg (· ++ _) (actsOn_self (.release r)))
  have hin : Act.use r ∈ actsOn r behind := List.mem_filter.mpr ⟨huse, by simp [Act.on]⟩
  have hcount : acts.count (.release r) =
      (actsOn r before).count (.release r) + (1 + (actsOn r behind).count (.release r)) := by
    rw [count_release, hon, List.count_append, List.count_cons_self, Nat.add_comm 1]
  by_cases hr : r ∈ live
  · rw [(h.held r hr).count_release] at hcount
    omega
  · rcases h.settled r hr with hnone | hclosed
    · rw [hnone] at hon
      exact absurd hon.symm (List.append_ne_nil_of_right_ne_nil _ (List.cons_ne_nil _ _))
    · -- the release is the last act on `r`, so it comes again
      rw [hclosed.count_release] at hcount
      obtain ⟨k, hk⟩ := hclosed
      have hlast := congrArg List.getLast? (hon.symm.trans hk)
      have hne : actsOn r behind ≠ [] := List.ne_nil_of_mem hin
      rw [← List.singleton_append, ← List.append_assoc, List.getLast?_append_of_ne_nil _ hne,
        ← List.cons_append, List.getLast?_concat] at hlast
      have hagain := List.count_pos_iff.mpr (List.mem_of_getLast? hlast)
      omega

end Lib.Lifetime
