/-
  File:      ArgusPep/Lib/Refines.lean
  Subject:   Two programs with early exits, one of them refining the other: rules for relating their
             runs construct by construct.

  The concrete program may do more than the abstract one (work on a richer state, steps the
  abstract program does not have) and may fail where the abstract program cannot.

  `Refines m s n t S T F` -- the run of `m` from `s` ends like that of `n` from `t`: both return,
  and `S` relates the values and the states, or both leave with the same error code, and `T`
  relates the states; or `m` leaves with a failure of its own, and `F` holds.

  * `Refines.bind`, `Refines.forM`, `Refines.ite` -- both programs go on together;
  * `Refines.left` -- the concrete program takes a step alone;
  * `Refines.simulates` -- what the relation says of the two runs.
-/
import ArgusPep.Lib.Exits

namespace Lib

variable {ε σ τ α α' β β' γ : Type}

/-- The run of `m` from `s` refines that of `n` from `t`. -/
def Refines (m : Exits ε σ α) (s : σ) (n : Exits ε τ β) (t : τ) (S : α → β → σ → τ → Prop)
    (T : σ → τ → Prop) (F : ε → σ → Prop) : Prop :=
  match m.run s with
  | (.ok a, s') => ∃ b t', n.run t = (.ok b, t') ∧ S a b s' t'
  | (.error e, s') => F e s' ∨ ∃ t', n.run t = (.error e, t') ∧ T s' t'

namespace Refines

variable {m : Exits ε σ α} {s : σ} {n : Exits ε τ β} {t : τ} {S : α → β → σ → τ → Prop}
  {S' : α' → β' → σ → τ → Prop} {T : σ → τ → Prop} {F : ε → σ → Prop}

protected theorem pure {a : α} {b : β} (h : S a b s t) :
    Refines (pure a : Exits ε σ α) s (pure b : Exits ε τ β) t S T F := ⟨b, t, rfl, h⟩

/-- Both leave with the same error code. -/
protected theorem throw {e : ε} (h : T s t) :
    Refines (throw e : Exits ε σ α) s (throw e : Exits ε τ β) t S T F := .inr ⟨t, rfl, h⟩

/-- Both take a step. -/
protected theorem modifyGet {f : σ → α × σ} {g : τ → β × τ}
    (h : S (f s).1 (g t).1 (f s).2 (g t).2) :
    Refines (modifyGet f : Exits ε σ α) s (modifyGet g : Exits ε τ β) t S T F :=
  ⟨(g t).1, (g t).2, rfl, h⟩

/-- Where the first parts end alike, the second parts start. -/
protected theorem bind {f : α → Exits ε σ α'} {g : β → Exits ε τ β'}
    (hm : Refines m s n t S T F)
    (hf : ∀ a b s' t', n.run t = (.ok b, t') → S a b s' t' →
      Refines (f a) s' (g b) t' S' T F) :
    Refines (m >>= f) s (n >>= g) t S' T F := by
  unfold Refines at hm
  rcases hs : m.run s with ⟨e | a, s'⟩
  · rw [hs] at hm
    unfold Refines
    rw [run_bind_error hs]
    rcases hm with hF | ⟨t', hn, hT⟩
    · exact .inl hF
    · exact .inr ⟨t', run_bind_error hn, hT⟩
  · rw [hs] at hm
    obtain ⟨b, t', hn, hS⟩ := hm
    have hrest := hf a b s' t' hn hS
    unfold Refines at hrest ⊢
    rw [run_bind_ok hs, run_bind_ok hn]
    exact hrest

/-- Behind parts that end alike, the concrete program goes on alone. -/
theorem behind {S' : α' → β → σ → τ → Prop} {f : α → Exits ε σ α'} (hm : Refines m s n t S T F)
    (hf : ∀ a b s' t', S a b s' t' → Ensures (f a) s' (fun a' s' => S' a' b s' t') F) :
    Refines (m >>= f) s n t S' T F := by
  unfold Refines at hm ⊢
  rcases hs : m.run s with ⟨e | a, s'⟩
  · rw [hs] at hm
    rw [run_bind_error hs]
    exact hm
  · rw [hs] at hm
    obtain ⟨b, t', hn, hS⟩ := hm
    have hrest := hf a b s' t' hS
    unfold Ensures at hrest
    rw [run_bind_ok hs]
    rcases hf' : (f a).run s' with ⟨e | a', s''⟩
    · rw [hf'] at hrest
      exact .inl hrest
    · rw [hf'] at hrest
      exact ⟨b, t', hn, hrest⟩

/-- A part of the concrete program the abstract one does not have. -/
theorem left {Q : α → σ → Prop} {f : α → Exits ε σ α'} {n : Exits ε τ β'}
    (hm : Ensures m s Q F) (hf : ∀ a s', Q a s' → Refines (f a) s' n t S' T F) :
    Refines (m >>= f) s n t S' T F := by
  unfold Ensures at hm
  unfold Refines
  rcases hs : m.run s with ⟨e | a, s'⟩
  · rw [hs] at hm
    rw [run_bind_error hs]
    exact .inl hm
  · rw [hs] at hm
    rw [run_bind_ok hs]
    exact hf a s' hm

/-- Both programs test the same. -/
protected theorem ite {c d : Prop} [Decidable c] [Decidable d] {m' : Exits ε σ α}
    {n' : Exits ε τ β} (hcd : c ↔ d) (hm : c → Refines m s n t S T F)
    (hn : ¬c → Refines m' s n' t S T F) :
    Refines (if c then m else m') s (if d then n else n') t S T F := by
  by_cases h : c
  · rw [if_pos h, if_pos (hcd.mp h)]
    exact hm h
  · rw [if_neg h, if_neg fun hd => h (hcd.mpr hd)]
    exact hn h

/-- Both loops go over the same list: what a round keeps, the loop keeps. -/
protected theorem forM {I : σ → τ → Prop} {f : γ → Exits ε σ PUnit} {g : γ → Exits ε τ PUnit}
    {xs : List γ} (round : ∀ x ∈ xs, ∀ s t, I s t → Refines (f x) s (g x) t (fun _ _ => I) T F)
    (h : I s t) : Refines (xs.forM f) s (xs.forM g) t (fun _ _ => I) T F := by
  induction xs generalizing s t with
  | nil => exact Refines.pure h
  | cons x xs ih =>
    refine (round x List.mem_cons_self s t h).bind fun _ _ s' t' _ hI => ?_
    exact ih (fun y hy => round y (List.mem_cons_of_mem _ hy)) hI

end Refines

end Lib
