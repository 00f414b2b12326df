/-
  File:      ArgusPep/Lib/Walk.lean
  Subject:   A loop over the indices of a list that appends to the list it walks.

  The length is read once, before the loop; each round looks its element up by index in the list as
  it is then. Where a round only appends, what it looks up is the element that was there at the
  start.

  * `walk body j n` -- the rounds `j`, .., `j + n - 1`;
  * **`walk_keeps`** -- the invariant rule: rounds that succeed and keep it make a loop that does;
  * **`walk_eq_foldlM`** -- such a loop is the fold over the elements the list had at the start;
  * `foldlM_appends` -- a fold whose rounds append what they compute from their element appends all
    of it, in order;
  * `errorOf_foldlM` -- a fold whose rounds fail as their elements do fails as the first of them;
  * `filterMap_eq_iff` -- when two such loops append the same.
-/
import Mathlib.Data.List.Basic
import Mathlib.Data.List.Forall2

namespace Lib

variable {ε σ α β : Type}

/-- `for (i= j; i<j+n; i++) body(i)`. -/
def walk (body : σ → Nat → Except ε σ) : (j n : Nat) → σ → Except ε σ
  | _, 0, s => .ok s
  | j, n + 1, s => do walk body (j + 1) n (← body s j)

theorem walk_succ (body : σ → Nat → Except ε σ) (j n : Nat) (s : σ) :
    walk body j (n + 1) s = body s j >>= walk body (j + 1) n := rfl

section Keeping

variable {body : σ → Nat → Except ε σ} {I : Nat → σ → Prop} {n : Nat}

/-- From round `j` on, with `n` rounds to go. -/
theorem walk_keeps_from (j : Nat)
    (hstep : ∀ i s, j ≤ i → i < j + n → I i s → ∃ t, body s i = .ok t ∧ I (i + 1) t) {s : σ}
    (h : I j s) : ∃ t, walk body j n s = .ok t ∧ I (j + n) t := by
  induction n generalizing j s with
  | zero => exact ⟨s, rfl, h⟩
  | succ n ih =>
    obtain ⟨t, hround, ht⟩ := hstep j s (Nat.le_refl j) (by omega) h
    obtain ⟨u, hrest, hu⟩ := ih (j + 1) (fun i s hle hlt => hstep i s (by omega) (by omega)) ht
    refine ⟨u, ?_, ?_⟩
    · rw [walk_succ, hround]
      exact hrest
    · rwa [show j + (n + 1) = j + 1 + n by omega]

/-- **A loop whose rounds succeed and keep the invariant succeeds and keeps it.** -/
theorem walk_keeps (hstep : ∀ i s, i < n → I i s → ∃ t, body s i = .ok t ∧ I (i + 1) t)
    {s : σ} (h : I 0 s) : ∃ t, walk body 0 n s = .ok t ∧ I n t := by
  obtain ⟨t, hrun, ht⟩ := walk_keeps_from 0
    (fun i s _ hlt => hstep i s (by rwa [Nat.zero_add] at hlt)) h
  exact ⟨t, hrun, by rwa [Nat.zero_add] at ht⟩

end Keeping

section Growing

variable {items : σ → List α} {body : σ → Nat → Except ε σ} {step : σ → α → Except ε σ}

/-- From the round where `xs` is left of the list the loop started with. -/
theorem walk_from (hbody : ∀ s j a, (items s)[j]? = some a → body s j = step s a)
    (hgrow : ∀ s a t, step s a = .ok t → items s <+: items t) {xs : List α} {j : Nat} {s : σ}
    (h : ∀ k, k < xs.length → (items s)[j + k]? = xs[k]?) :
    walk body j xs.length s = xs.foldlM step s := by
  induction xs generalizing j s with
  | nil => rfl
  | cons x xs ih =>
    have hx : body s j = step s x := hbody s j x (h 0 (Nat.zero_lt_succ _))
    rw [List.length_cons, walk_succ, List.foldlM_cons, hx]
    cases ht : step s x with
    | error e => rfl
    | ok t =>
      refine ih fun k hk => ?_
      have hk' := h (k + 1) (Nat.succ_lt_succ hk)
      rw [List.getElem?_cons_succ, show j + (k + 1) = j + 1 + k by omega] at hk'
      obtain ⟨a, ha⟩ : ∃ a, xs[k]? = some a := ⟨xs[k], List.getElem?_eq_getElem hk⟩
      rw [ha] at hk' ⊢
      obtain ⟨bs, hbs⟩ := hgrow s x t ht
      obtain ⟨hlt, -⟩ := List.getElem?_eq_some_iff.mp hk'
      rw [← hbs, List.getElem?_append_left hlt, hk']

/-- **A loop that only appends to the list it walks goes through the elements the list had when it
    started**, one after the other. -/
theorem walk_eq_foldlM (items : σ → List α) (step : σ → α → Except ε σ)
    (hbody : ∀ s j a, (items s)[j]? = some a → body s j = step s a)
    (hgrow : ∀ s a t, step s a = .ok t → items s <+: items t) (s : σ) :
    walk body 0 (items s).length s = (items s).foldlM step s :=
  walk_from hbody hgrow fun k _ => by rw [Nat.zero_add]

end Growing

section Appending

variable {append : σ → List β → σ} {step : σ → α → Except ε σ} {added : α → List β}

/-- A fold whose rounds append the elements computed from their own: all are appended, in order. -/
theorem foldlM_appends (hnil : ∀ s, append s [] = s)
    (happend : ∀ s bs cs, append (append s bs) cs = append s (bs ++ cs)) {xs : List α}
    (hstep : ∀ a ∈ xs, ∀ s, step s a = .ok (append s (added a))) (s : σ) :
    xs.foldlM step s = .ok (append s (xs.flatMap added)) := by
  induction xs generalizing s with
  | nil => exact congrArg Except.ok (hnil s).symm
  | cons x xs ih =>
    rw [List.foldlM_cons, hstep x List.mem_cons_self s]
    show xs.foldlM step (append s (added x)) = _
    rw [ih (fun a ha => hstep a (List.mem_cons_of_mem _ ha)), happend, List.flatMap_cons]

/-- The same, where a round may also fail. -/
theorem eq_append_of_foldlM (hnil : ∀ s, append s [] = s)
    (happend : ∀ s bs cs, append (append s bs) cs = append s (bs ++ cs))
    (hstep : ∀ s a t, step s a = .ok t → t = append s (added a)) {xs : List α} {s t : σ}
    (h : xs.foldlM step s = .ok t) : t = append s (xs.flatMap added) := by
  induction xs generalizing s with
  | nil => exact (Except.ok.inj h).symm.trans (hnil s).symm
  | cons x xs ih =>
    rw [List.foldlM_cons] at h
    cases hround : step s x with
    | error e =>
      rw [hround] at h
      cases h
    | ok u =>
      rw [hround] at h
      rw [ih h, hstep s x u hround, happend, List.flatMap_cons]

/-- Each element has had its round in a fold that ends. -/
theorem step_of_foldlM {xs : List α} {s t : σ} (h : xs.foldlM step s = .ok t) :
    ∀ a ∈ xs, ∃ u v, step u a = .ok v := by
  induction xs generalizing s with
  | nil => exact fun a ha => absurd ha List.not_mem_nil
  | cons x xs ih =>
    rw [List.foldlM_cons] at h
    cases hround : step s x with
    | error e =>
      rw [hround] at h
      cases h
    | ok u =>
      rw [hround] at h
      intro a ha
      rcases List.mem_cons.mp ha with rfl | ha
      · exact ⟨s, u, hround⟩
      · exact ih h a ha

end Appending

section Failing

/-- The error of a call that fails. -/
def errorOf : Except ε β → Option ε
  | .error e => some e
  | .ok _ => none

theorem errorOf_eq_some {call : Except ε β} {e : ε} : errorOf call = some e ↔ call = .error e := by
  cases call with
  | ok b => exact ⟨nofun, nofun⟩
  | error e' =>
    exact ⟨fun h => congrArg Except.error (Option.some.inj h), fun h => congrArg errorOf h⟩

/-- A fold whose rounds fail as a call on their element does fails as the first of these calls. -/
theorem errorOf_foldlM {call : α → Except ε β} {step : σ → α → Except ε σ}
    (hstep : ∀ s a, errorOf (step s a) = errorOf (call a)) (xs : List α) (s : σ) :
    errorOf (xs.foldlM step s) = xs.findSome? fun a => errorOf (call a) := by
  induction xs generalizing s with
  | nil => rfl
  | cons x xs ih =>
    rw [List.foldlM_cons, List.findSome?_cons, ← hstep s x]
    cases step s x with
    | error e => rfl
    | ok t => exact ih t

theorem errorOf_mapM (f : α → Except ε β) (xs : List α) :
    errorOf (xs.mapM f) = xs.findSome? fun a => errorOf (f a) := by
  induction xs with
  | nil => rfl
  | cons x xs ih =>
    rw [List.mapM_cons, List.findSome?_cons]
    cases f x with
    | error e => rfl
    | ok b =>
      refine Eq.trans ?_ ih
      cases xs.mapM f <;> rfl

theorem findSome?_flatMap (f : β → Option ε) (items : α → List β) (xs : List α) :
    (xs.flatMap items).findSome? f = xs.findSome? fun a => (items a).findSome? f := by
  induction xs with
  | nil => rfl
  | cons x xs ih =>
    rw [List.flatMap_cons, List.findSome?_append, List.findSome?_cons, ih]
    cases (items x).findSome? f <;> rfl

end Failing

section Mapping

theorem mapM_eq_map {f : α → Except ε β} {g : α → β} {xs : List α}
    (h : ∀ x ∈ xs, f x = .ok (g x)) : xs.mapM f = .ok (xs.map g) := by
  induction xs with
  | nil => rfl
  | cons x xs ih =>
    rw [List.mapM_cons, h x List.mem_cons_self, ih fun y hy => h y (List.mem_cons_of_mem _ hy)]
    rfl

theorem forall₂_of_mapM {f : α → Except ε β} {xs : List α} {ys : List β} (h : xs.mapM f = .ok ys) :
    List.Forall₂ (fun x y => f x = .ok y) xs ys := by
  induction xs generalizing ys with
  | nil =>
    obtain rfl := Except.ok.inj h
    exact .nil
  | cons x xs ih =>
    rw [List.mapM_cons] at h
    cases hx : f x with
    | error e =>
      rw [hx] at h
      cases h
    | ok y =>
      rw [hx] at h
      cases hxs : xs.mapM f with
      | error e =>
        rw [hxs] at h
        cases h
      | ok zs =>
        rw [hxs] at h
        obtain rfl := Except.ok.inj h
        exact .cons hx (ih hxs)

/-- What each pair of two lists says of its first element, the two lists say of all of them. -/
theorem forall₂_iff_forall {R P : α → β → Prop} {Q : α → Prop} (hiff : ∀ x y, R x y → (P x y ↔ Q x))
    {xs : List α} {ys : List β} (h : List.Forall₂ R xs ys) :
    List.Forall₂ P xs ys ↔ ∀ x ∈ xs, Q x := by
  induction h with
  | nil => exact iff_of_true .nil fun x hx => absurd hx List.not_mem_nil
  | cons hxy _ ih => rw [List.forall₂_cons, List.forall_mem_cons, hiff _ _ hxy, ih]

/-- What stands at a place of the second list is related to what stands there in the first. -/
theorem forall₂_getElem? {R : α → β → Prop} {xs : List α} {ys : List β} {i : Nat} {y : β}
    (h : List.Forall₂ R xs ys) (hy : ys[i]? = some y) : ∃ x, xs[i]? = some x ∧ R x y := by
  induction h generalizing i with
  | nil => cases hy
  | cons hxy _ ih =>
    cases i with
    | zero =>
      obtain rfl := Option.some.inj hy
      exact ⟨_, rfl, hxy⟩
    | succ i => exact ih hy

/-- Where each element has one related to it, a list has a list. -/
theorem exists_forall₂ {R : α → β → Prop} {P : β → Prop} {xs : List α}
    (h : ∀ x ∈ xs, ∃ y, R x y ∧ P y) : ∃ ys, List.Forall₂ R xs ys ∧ ∀ y ∈ ys, P y := by
  induction xs with
  | nil => exact ⟨[], .nil, fun y hy => absurd hy List.not_mem_nil⟩
  | cons x xs ih =>
    obtain ⟨y, hxy, hy⟩ := h x List.mem_cons_self
    obtain ⟨ys, hxys, hys⟩ := ih fun z hz => h z (List.mem_cons_of_mem _ hz)
    exact ⟨y :: ys, .cons hxy hxys, List.forall_mem_cons.mpr ⟨hy, hys⟩⟩

variable {f g : α → Option β}

theorem filterMap_length_le (h : ∀ a, (g a).isSome → (f a).isSome) (xs : List α) :
    (xs.filterMap g).length ≤ (xs.filterMap f).length := by
  induction xs with
  | nil => exact Nat.le_refl 0
  | cons a xs ih =>
    cases hg : g a with
    | none =>
      rw [List.filterMap_cons_none hg]
      cases hf : f a with
      | none => rwa [List.filterMap_cons_none hf]
      | some b =>
        rw [List.filterMap_cons_some hf]
        exact Nat.le_succ_of_le ih
    | some c =>
      obtain ⟨b, hf⟩ := Option.isSome_iff_exists.mp (h a (by rw [hg]; rfl))
      rw [List.filterMap_cons_some hg, List.filterMap_cons_some hf]
      exact Nat.succ_le_succ ih

/-- Where `f` gives something whenever `g` does, what they give for a list is the same only if it is
    the same for each element. -/
theorem filterMap_eq_iff (h : ∀ a, (g a).isSome → (f a).isSome) (xs : List α) :
    xs.filterMap f = xs.filterMap g ↔ ∀ a ∈ xs, f a = g a := by
  refine ⟨fun heq => ?_, fun hall => List.filterMap_congr hall⟩
  induction xs with
  | nil => exact fun a ha => absurd ha List.not_mem_nil
  | cons a xs ih =>
    have hhead : f a = g a ∧ xs.filterMap f = xs.filterMap g := by
      cases hg : g a with
      | none =>
        cases hf : f a with
        | none =>
          rw [List.filterMap_cons_none hf, List.filterMap_cons_none hg] at heq
          exact ⟨rfl, heq⟩
        | some b =>
          rw [List.filterMap_cons_some hf, List.filterMap_cons_none hg] at heq
          have hlength := congrArg List.length heq
          have hle := filterMap_length_le h xs
          rw [List.length_cons] at hlength
          omega
      | some c =>
        obtain ⟨b, hf⟩ := Option.isSome_iff_exists.mp (h a (by rw [hg]; rfl))
        rw [List.filterMap_cons_some hf, List.filterMap_cons_some hg] at heq
        obtain ⟨hb, hrest⟩ := List.cons.inj heq
        exact ⟨by rw [hf, hb], hrest⟩
    intro x hx
    rcases List.mem_cons.mp hx with rfl | hx
    · exact hhead.1
    · exact ih hhead.2 x hx

end Mapping

end Lib
