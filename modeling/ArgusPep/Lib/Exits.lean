/-
  File:      ArgusPep/Lib/Exits.lean
  Subject:   Programs over a state that can leave early with an error code, and the rules for what
             holds at each of their exits.

  `Ensures m s Q E` -- the run of `m` from `s` ends with a value and a state where `Q` holds, or
  leaves with an error code in a state where `E` holds. There is one rule for each construct of a
  program: `Ensures.pure`, `Ensures.throw`, `Ensures.bind`, `Ensures.modifyGet`, `Ensures.ite`, and
  for a loop over a list `Ensures.forM`, with an invariant, and `Ensures.forM_through`, where it
  speaks of the elements gone through. `Ensures.leave` is the branch of a
  guard that leaves early.

  `Keeps I m` -- wherever `m` ends, `I` holds if it did at the start; the rules are the same.

  `Blind R m` -- `m` does not tell two states in the relation `R` apart.

  The `run_..` equations compute the run of a program from a given state.
-/
import Mathlib.Logic.Basic

namespace Lib

/-- A program over the state `σ` that leaves early with an error code of `ε`. -/
abbrev Exits (ε σ α : Type) := ExceptT ε (StateM σ) α

section Run

variable {ε σ α β : Type} {s t : σ}

@[simp] theorem run_modifyGet (g : σ → α × σ) (s : σ) :
    (modifyGet g : Exits ε σ α).run s = (.ok (g s).1, (g s).2) := rfl

@[simp] theorem run_modify (g : σ → σ) (s : σ) :
    (modify g : Exits ε σ PUnit).run s = (.ok ⟨⟩, g s) := rfl

@[simp] theorem run_throw (e : ε) (s : σ) : (throw e : Exits ε σ α).run s = (.error e, s) := rfl

@[simp] theorem run_pure (a : α) (s : σ) : (pure a : Exits ε σ α).run s = (.ok a, s) := rfl

theorem run_bind_ok {m : Exits ε σ α} {f : α → Exits ε σ β} {a : α} (h : m.run s = (.ok a, t)) :
    (m >>= f).run s = (f a).run t := by
  show (ExceptT.bindCont f (m.run s).1).run (m.run s).2 = (f a).run t
  rw [h]
  rfl

theorem run_bind_error {m : Exits ε σ α} {f : α → Exits ε σ β} {e : ε}
    (h : m.run s = (.error e, t)) : (m >>= f).run s = (.error e, t) := by
  show (ExceptT.bindCont f (m.run s).1).run (m.run s).2 = (.error e, t)
  rw [h]
  rfl

theorem run_discard {m : Exits ε σ α} {a : α} (h : m.run s = (.ok a, t)) :
    (discard m).run s = (.ok ⟨⟩, t) :=
  run_bind_ok (f := fun _ => (pure ⟨⟩ : Exits ε σ PUnit)) h

@[simp] theorem run_modifyGet_bind (g : σ → α × σ) (f : α → Exits ε σ β) (s : σ) :
    (modifyGet g >>= f).run s = (f (g s).1).run (g s).2 := rfl

@[simp] theorem run_modify_bind (g : σ → σ) (f : PUnit → Exits ε σ β) (s : σ) :
    (modify g >>= f).run s = (f ⟨⟩).run (g s) := rfl

end Run

/-- What holds where the run of `m` from `s` ends: `Q` at its end, `E` at an early exit. -/
def Ensures {ε σ α : Type} (m : Exits ε σ α) (s : σ) (Q : α → σ → Prop) (E : ε → σ → Prop) : Prop :=
  match m.run s with
  | (.ok a, t) => Q a t
  | (.error e, t) => E e t

namespace Ensures

variable {ε σ α β : Type} {Q Q' : α → σ → Prop} {R : β → σ → Prop} {E : ε → σ → Prop} {s : σ}

protected theorem pure {a : α} (h : Q a s) : Ensures (pure a : Exits ε σ α) s Q E := h

protected theorem throw {e : ε} (h : E e s) : Ensures (throw e : Exits ε σ α) s Q E := h

protected theorem modifyGet {f : σ → α × σ} (h : Q (f s).1 (f s).2) :
    Ensures (modifyGet f : Exits ε σ α) s Q E := h

protected theorem modify {f : σ → σ} {Q : PUnit → σ → Prop} (h : Q ⟨⟩ (f s)) :
    Ensures (modify f : Exits ε σ PUnit) s Q E := h

/-- What holds after the first part is where the second starts. -/
protected theorem bind {m : Exits ε σ α} {f : α → Exits ε σ β} (hm : Ensures m s Q E)
    (hf : ∀ a t, Q a t → Ensures (f a) t R E) : Ensures (m >>= f) s R E := by
  unfold Ensures at hm ⊢
  show match (ExceptT.bindCont f (m.run s).1).run (m.run s).2 with
    | (.ok a, t) => R a t
    | (.error e, t) => E e t
  rcases hs : m.run s with ⟨e | a, t⟩
  · rw [hs] at hm
    exact hm
  · rw [hs] at hm
    exact hf _ t hm

/-- A look at the state. -/
protected theorem get {f : σ → Exits ε σ β} (h : Ensures (f s) s R E) :
    Ensures (MonadState.get >>= f) s R E := h

/-- The value is not looked at. -/
protected theorem discard {m : Exits ε σ α} {P : σ → Prop} (hm : Ensures m s (fun _ => P) E) :
    Ensures (Functor.discard m) s (fun _ => P) E :=
  hm.bind (f := fun _ => (pure ⟨⟩ : Exits ε σ PUnit)) fun _ _ h => Ensures.pure h

/-- Nothing comes behind a part that never ends but leaves. -/
theorem leave {m : Exits ε σ α} {f : α → Exits ε σ β} (hm : Ensures m s (fun _ _ => False) E) :
    Ensures (m >>= f) s R E := hm.bind fun _ _ h => h.elim

theorem exits {m : Exits ε σ α} {E' : ε → σ → Prop} (h : Ensures m s Q E)
    (hE : ∀ e t, E e t → E' e t) : Ensures m s Q E' := by
  unfold Ensures at h ⊢
  rcases hs : m.run s with ⟨e | a, t⟩
  · rw [hs] at h
    exact hE e t h
  · rw [hs] at h
    exact h

/-- What holds at every end holds of the state there. -/
theorem after {m : Exits ε σ α} {I : σ → Prop} (h : Ensures m s (fun _ => I) fun _ => I) :
    I (m.run s).2 := by
  unfold Ensures at h
  rcases hs : m.run s with ⟨e | a, t⟩ <;> rw [hs] at h <;> exact h

theorem mono {m : Exits ε σ α} (h : Ensures m s Q E) (hQ : ∀ a t, Q a t → Q' a t) :
    Ensures m s Q' E := by
  unfold Ensures at h ⊢
  rcases hs : m.run s with ⟨e | a, t⟩
  · rw [hs] at h
    exact h
  · rw [hs] at h
    exact hQ a t h

protected theorem ite {c : Prop} [Decidable c] {m n : Exits ε σ α} (hm : c → Ensures m s Q E)
    (hn : ¬c → Ensures n s Q E) : Ensures (if c then m else n) s Q E := by
  by_cases h : c
  · rw [if_pos h]
    exact hm h
  · rw [if_neg h]
    exact hn h

/-- A loop: what a round keeps, the loop keeps. -/
protected theorem forM {I : σ → Prop} {f : β → Exits ε σ PUnit} {xs : List β}
    (round : ∀ x ∈ xs, ∀ t, I t → Ensures (f x) t (fun _ => I) E) (h : I s) :
    Ensures (xs.forM f) s (fun _ => I) E := by
  induction xs generalizing s with
  | nil => exact Ensures.pure h
  | cons x xs ih =>
    refine (round x List.mem_cons_self s h).bind fun _ t ht => ?_
    exact ih (fun y hy => round y (List.mem_cons_of_mem _ hy)) ht

/-- A loop with the elements it has gone through: it ends behind the last, or leaves at one of
    them. -/
theorem forM_through {I : List β → σ → Prop} {F : List β → β → ε → σ → Prop}
    {f : β → Exits ε σ PUnit} (xs : List β)
    (round : ∀ through x t, I through t →
      Ensures (f x) t (fun _ => I (through ++ [x])) (F through x)) (h : I [] s) :
    Ensures (xs.forM f) s (fun _ => I xs)
      (fun e t => ∃ through x later, xs = through ++ x :: later ∧ F through x e t) := by
  suffices hgen : ∀ (left through : List β) (s : σ), xs = through ++ left → I through s →
      Ensures (left.forM f) s (fun _ => I xs)
        (fun e t => ∃ through x later, xs = through ++ x :: later ∧ F through x e t) from
    hgen xs [] s rfl h
  intro left
  induction left with
  | nil =>
    intro through s hxs hs
    rw [List.append_nil] at hxs
    exact Ensures.pure (hxs ▸ hs)
  | cons x left ih =>
    intro through s hxs hs
    have hx : Ensures (f x) s (fun _ => I (through ++ [x]))
        (fun e t => ∃ through x later, xs = through ++ x :: later ∧ F through x e t) :=
      (round through x s hs).exits fun e t ht => ⟨through, x, left, hxs, ht⟩
    refine hx.bind fun _ t ht => ih (through ++ [x]) t ?_ ht
    rw [hxs, List.append_assoc]
    rfl

end Ensures

/-- What holds at the start holds at every end of `m`. -/
def Keeps {ε σ α : Type} (I : σ → Prop) (m : Exits ε σ α) : Prop :=
  ∀ s, I s → Ensures m s (fun _ => I) (fun _ => I)

namespace Keeps

variable {ε σ α β : Type} {I : σ → Prop}

protected theorem pure (a : α) : Keeps I (pure a : Exits ε σ α) := fun _ h => Ensures.pure h

protected theorem modifyGet {f : σ → α × σ} (h : ∀ s, I s → I (f s).2) :
    Keeps I (modifyGet f : Exits ε σ α) := fun s hs => Ensures.modifyGet (h s hs)

protected theorem bind {m : Exits ε σ α} {f : α → Exits ε σ β} (hm : Keeps I m)
    (hf : ∀ a, Keeps I (f a)) : Keeps I (m >>= f) :=
  fun s hs => (hm s hs).bind fun a t ht => hf a t ht

protected theorem ite {c : Prop} [Decidable c] {m n : Exits ε σ α} (hm : Keeps I m)
    (hn : Keeps I n) : Keeps I (if c then m else n) :=
  fun s hs => Ensures.ite (fun _ => hm s hs) (fun _ => hn s hs)

protected theorem throw (e : ε) : Keeps I (throw e : Exits ε σ α) := fun _ h => Ensures.throw h

protected theorem modify {f : σ → σ} (h : ∀ s, I s → I (f s)) :
    Keeps I (modify f : Exits ε σ PUnit) := fun s hs => Ensures.modify (h s hs)

/-- A look at the state. -/
protected theorem get {f : σ → Exits ε σ α} (h : ∀ s, Keeps I (f s)) :
    Keeps I (MonadState.get >>= f) := fun s hs => Ensures.get (h s s hs)

/-- The value is not looked at. -/
protected theorem discard {m : Exits ε σ α} (hm : Keeps I m) : Keeps I (Functor.discard m) :=
  fun s hs => (hm s hs).discard

protected theorem forM {f : β → Exits ε σ PUnit} {xs : List β} (hf : ∀ x, Keeps I (f x)) :
    Keeps I (xs.forM f) := fun _ hs => Ensures.forM (fun x _ t ht => hf x t ht) hs

/-- A guard that leaves early. -/
theorem guard {c : Prop} [Decidable c] {m : Exits ε σ β} {f : β → Exits ε σ α} {n : Exits ε σ α}
    (hm : ∀ s, I s → Ensures m s (fun _ _ => False) (fun _ => I)) (hn : Keeps I n) :
    Keeps I (if c then m >>= f else n) :=
  fun s hs => Ensures.ite (fun _ => (hm s hs).leave) (fun _ => hn s hs)

end Keeps

/-- From two states in `R` the program comes to the same end, in states in `R`. -/
def Blind {ε σ α : Type} (R : σ → σ → Prop) (m : Exits ε σ α) : Prop :=
  ∀ s t, R s t → (m.run s).1 = (m.run t).1 ∧ R (m.run s).2 (m.run t).2

namespace Blind

variable {ε σ α β : Type} {R : σ → σ → Prop}

protected theorem pure (a : α) : Blind R (pure a : Exits ε σ α) := fun _ _ h => ⟨rfl, h⟩

protected theorem throw (e : ε) : Blind R (throw e : Exits ε σ α) := fun _ _ h => ⟨rfl, h⟩

protected theorem modifyGet {f : σ → α × σ}
    (h : ∀ s t, R s t → (f s).1 = (f t).1 ∧ R (f s).2 (f t).2) :
    Blind R (modifyGet f : Exits ε σ α) :=
  fun s t hst => ⟨congrArg Except.ok (h s t hst).1, (h s t hst).2⟩

protected theorem modify {f : σ → σ} (h : ∀ s t, R s t → R (f s) (f t)) :
    Blind R (modify f : Exits ε σ PUnit) := fun s t hst => ⟨rfl, h s t hst⟩

protected theorem bind {m : Exits ε σ α} {f : α → Exits ε σ β} (hm : Blind R m)
    (hf : ∀ a, Blind R (f a)) : Blind R (m >>= f) := by
  intro s t hst
  obtain ⟨hend, hR⟩ := hm s t hst
  show ((ExceptT.bindCont f (m.run s).1).run (m.run s).2).1 =
      ((ExceptT.bindCont f (m.run t).1).run (m.run t).2).1 ∧
    R ((ExceptT.bindCont f (m.run s).1).run (m.run s).2).2
      ((ExceptT.bindCont f (m.run t).1).run (m.run t).2).2
  rw [← hend]
  rcases (m.run s).1 with e | a
  · exact ⟨rfl, hR⟩
  · exact hf a _ _ hR

protected theorem ite {c : Prop} [Decidable c] {m n : Exits ε σ α} (hm : Blind R m)
    (hn : Blind R n) : Blind R (if c then m else n) := by
  by_cases h : c
  · rw [if_pos h]
    exact hm
  · rw [if_neg h]
    exact hn

end Blind

end Lib
