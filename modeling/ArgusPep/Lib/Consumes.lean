/-
  File:      ArgusPep/Lib/Consumes.lean
  Subject:   What a run over a stream has read when it returns.

  The input of a state is a list (`view`). A run that comes to the end of its input may go on and
  make up what it reads; one that leaves something has read exactly the items in front of that.

  `Consumes view Ok m P` -- from a state with `Ok`, a run of `m` that returns a value `a` ends with
  `Ok`, has put nothing back, and, if it leaves something, has read items `w` with `P w a`. There
  is a rule for each construct of a run: `Consumes.pure`, `Consumes.fail`, `Consumes.bind`,
  `Consumes.onFailure`, `Consumes.ite`; `Consumes.bind_nil` is for a first part that reads nothing,
  and `Consumes.bind_exact` for one that in addition returns one value only.
-/
import ArgusPep.Lib.Run

namespace Lib.Run

variable {σ α β ι : Type} {view : σ → List ι} {Ok : σ → Prop} {m n : Run σ α} {f : α → Run σ β}
  {P Q : List ι → α → Prop} {R : List ι → β → Prop}

/-- What `m` has read is in `P`, with what it returns. -/
def Consumes (view : σ → List ι) (Ok : σ → Prop) (m : Run σ α) (P : List ι → α → Prop) : Prop :=
  ∀ s a t, Ok s → m s = .done a t → Ok t ∧ (view t).length ≤ (view s).length ∧
    (view t ≠ [] → ∃ w, view s = w ++ view t ∧ P w a)

theorem Consumes.mono (h : Consumes view Ok m P) (hPQ : ∀ w a, P w a → Q w a) :
    Consumes view Ok m Q := by
  intro s a t hs hrun
  obtain ⟨ht, hlen, hread⟩ := h s a t hs hrun
  refine ⟨ht, hlen, fun hne => ?_⟩
  obtain ⟨w, hw, hP⟩ := hread hne
  exact ⟨w, hw, hPQ w a hP⟩

theorem Consumes.pure {a : α} (h : P [] a) : Consumes view Ok (Pure.pure a : Run σ α) P := by
  intro s b t hs hrun
  cases hrun
  exact ⟨hs, Nat.le_refl _, fun _ => ⟨[], rfl, h⟩⟩

theorem Consumes.pure_exact (a : α) :
    Consumes view Ok (Pure.pure a : Run σ α) fun w b => w = [] ∧ b = a := .pure ⟨rfl, rfl⟩

/-- A run that never returns has read anything. -/
theorem consumes_of_rejects (h : ∀ s, Rejects m s) : Consumes view Ok m P :=
  fun s a t _ hrun => absurd hrun (h s a t)

theorem Consumes.fail : Consumes view Ok (fail : Run σ α) P := consumes_of_rejects rejects_fail

theorem Consumes.undefined : Consumes view Ok (undefined : Run σ α) P :=
  consumes_of_rejects rejects_undefined

theorem Consumes.outOfFuel : Consumes view Ok (outOfFuel : Run σ α) P :=
  consumes_of_rejects fun _ _ _ h => nomatch h

/-- The second part reads on where the first has stopped. -/
theorem Consumes.bind {F : α → List ι → β → Prop} (hm : Consumes view Ok m P)
    (hf : ∀ a, Consumes view Ok (f a) (F a)) (h : ∀ v a w b, P v a → F a w b → R (v ++ w) b) :
    Consumes view Ok (m >>= f) R := by
  intro s b u hs hrun
  obtain ⟨a, t, hm', hf'⟩ := bind_eq_done hrun
  obtain ⟨ht, hlen, hread⟩ := hm s a t hs hm'
  obtain ⟨hu, hlen', hread'⟩ := hf a t b u ht hf'
  refine ⟨hu, Nat.le_trans hlen' hlen, fun hne => ?_⟩
  obtain ⟨w, hw, hF⟩ := hread' hne
  -- what is left at the end was left in the middle
  have hmid : view t ≠ [] := by
    intro hnil
    rw [hnil] at hlen'
    exact hne (List.eq_nil_of_length_eq_zero (Nat.le_zero.mp hlen'))
  obtain ⟨v, hv, hP⟩ := hread hmid
  exact ⟨v ++ w, by rw [hv, hw, List.append_assoc], h v a w b hP hF⟩

theorem Consumes.bind_nil {G : α → Prop} {F : α → List ι → β → Prop}
    (hm : Consumes view Ok m fun w a => w = [] ∧ G a) (hf : ∀ a, Consumes view Ok (f a) (F a))
    (h : ∀ a w b, G a → F a w b → R w b) : Consumes view Ok (m >>= f) R := by
  refine hm.bind hf fun v a w b hv hF => ?_
  obtain ⟨rfl, hG⟩ := hv
  exact h a w b hG hF

/-- A first part that returns the one value `a` and leaves the state as it is. -/
theorem Consumes.bind_exact {a : α} (hm : ∀ s, Ok s → m s = .done a s)
    (hf : Consumes view Ok (f a) R) : Consumes view Ok (m >>= f) R := by
  intro s b t hs hrun
  rw [bind_done (hm s hs)] at hrun
  exact hf s b t hs hrun

/-- A last part that reads nothing. -/
theorem Consumes.map (g : α → β) (hm : Consumes view Ok m P) (h : ∀ w a, P w a → R w (g a)) :
    Consumes view Ok (m >>= fun a => Pure.pure (g a)) R := by
  refine hm.bind (fun a => .pure_exact (g a)) fun v a w b hv hw => ?_
  obtain ⟨rfl, rfl⟩ := hw
  rw [List.append_nil]
  exact h v a hv

theorem Consumes.onFailure {c : Run σ Unit} (hm : Consumes view Ok m P) :
    Consumes view Ok (m.onFailure c) P :=
  fun s a t hs hrun => hm s a t hs (onFailure_eq_done hrun)

theorem Consumes.ite {c : Prop} [Decidable c] (hm : c → Consumes view Ok m P)
    (hn : ¬c → Consumes view Ok n P) : Consumes view Ok (if c then m else n) P := by
  by_cases h : c
  · rw [if_pos h]
    exact hm h
  · rw [if_neg h]
    exact hn h

/-- Looking at the state. -/
theorem Consumes.look {g : σ → Run σ β} (hg : ∀ s, Consumes view Ok (g s) R) :
    Consumes view Ok (Run.read >>= g) R := fun s b t hs hrun => hg s s b t hs hrun

end Lib.Run
