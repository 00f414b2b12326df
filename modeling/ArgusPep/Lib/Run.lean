/-
  File:      ArgusPep/Lib/Run.lean
  Subject:   Runs over an explicit state: a run ends with a value, with an error code, in an
             undefined operation, or without fuel.

  A C function that reads a stream and allocates is a `Run σ α`: from a state it ends `done` with
  a value, `failed` with its error code, at a `fault` (an operation the language gives no meaning
  to), or `stuck` (the fuel of a loop ran out). The rules below compose facts about runs:

  * `Returns m s Q` -- the run from `s` ends `done`, and `Q` holds of the value and the end state;
  * `Rejects m s`, `Defined m s` -- the run from `s` does not end `done`, or not at a fault;
  * `Shrinks μ m` -- no `done` run of `m` makes the measure `μ` grow;
  * `Lively m s` -- the run from `s` is not `stuck`;
  * `Honest Ok Bad m` -- from a state with `Ok`, a run that ends keeps `Ok`, and a run that faults
    has come to `Bad`: the state alone tells whether the run faulted;
  * `Tame Ok Bad μ m` -- all of these, from every state;
  * `Meets m s Q E` -- where the run from `s` ends, `Q` holds of a value returned and the state, and
    `E` of the state after a failure or a fault;
  * `Moves R m` -- every state a run of `m` ends in is `R` of the state it started from, for a
    relation one can stay in and go on along (`Path R`);
  * `Lifts f m n` -- over a richer state, `m` does what `n` does on the part `f` of it; `onFst m` is
    `m` on the first part of a pair, `within get set m` on any part;
  * `rounds max body left i` -- a loop whose counter must not go past `max`;
  * `forM_done_or_stops` -- a list of steps, each of which returns or fails, is done to its end or to
    one of them.
-/
import Mathlib.Logic.Basic

namespace Lib

/-- How a run ends. -/
inductive Outcome (σ α : Type) where
  /-- The function returned a value. -/
  | done (a : α) (s : σ)
  /-- The function returned its error code. -/
  | failed (s : σ)
  /-- The function did something undefined. -/
  | fault (s : σ)
  /-- A loop had no fuel left. -/
  | stuck

/-- Whether the function returned its error code. -/
def Outcome.hasFailed {σ α : Type} : Outcome σ α → Bool
  | .failed _ => true
  | _ => false

/-- A computation over the state `σ`. -/
def Run (σ α : Type) := σ → Outcome σ α

/-- The state a run ends in. -/
def Outcome.last {σ α : Type} : (o : Outcome σ α) → o ≠ .stuck → σ
  | .done _ s, _ => s
  | .failed s, _ => s
  | .fault s, _ => s
  | .stuck, h => absurd rfl h

namespace Run

variable {σ α β : Type}

/-! ## 1. The operations -/

def ret (a : α) : Run σ α := fun s => .done a s

def andThen (m : Run σ α) (f : α → Run σ β) : Run σ β := fun s =>
  match m s with
  | .done a s' => f a s'
  | .failed s' => .failed s'
  | .fault s' => .fault s'
  | .stuck => .stuck

instance : Monad (Run σ) where
  pure := ret
  bind := andThen

def fail : Run σ α := fun s => .failed s

def undefined : Run σ α := fun s => .fault s

def outOfFuel : Run σ α := fun _ => .stuck

def read : Run σ σ := fun s => .done s s

def update (f : σ → σ) : Run σ Unit := fun s => .done () (f s)

/-- Runs `m`; when it fails, runs `cleanUp` and fails all the same. -/
def onFailure (m : Run σ α) (cleanUp : Run σ Unit) : Run σ α := fun s =>
  match m s with
  | .done a s' => .done a s'
  | .failed s' => (andThen cleanUp fun _ => fail) s'
  | .fault s' => .fault s'
  | .stuck => .stuck

@[simp] theorem pure_apply (a : α) (s : σ) : (pure a : Run σ α) s = .done a s := rfl

theorem bind_apply (m : Run σ α) (f : α → Run σ β) (s : σ) :
    (m >>= f) s = match m s with
      | .done a s' => f a s'
      | .failed s' => .failed s'
      | .fault s' => .fault s'
      | .stuck => .stuck := rfl

instance : LawfulMonad (Run σ) := by
  refine LawfulMonad.mk' (Run σ) (fun m => ?_) (fun _ _ => rfl) (fun m f g => ?_)
  · funext s
    show (m >>= fun a => pure a) s = m s
    rw [bind_apply]
    cases m s <;> rfl
  · funext s
    rw [bind_apply, bind_apply, bind_apply]
    cases m s <;> rfl

theorem bind_done {m : Run σ α} {f : α → Run σ β} {s s' : σ} {a : α} (h : m s = .done a s') :
    (m >>= f) s = f a s' := by
  rw [bind_apply, h]

/-- A `done` run of a sequence is a `done` run of its first part, then one of its second. -/
theorem bind_eq_done {m : Run σ α} {f : α → Run σ β} {s s' : σ} {b : β}
    (h : (m >>= f) s = .done b s') : ∃ a t, m s = .done a t ∧ f a t = .done b s' := by
  rw [bind_apply] at h
  cases hm : m s with
  | done a t => exact ⟨a, t, rfl, by rw [hm] at h; exact h⟩
  | failed t => rw [hm] at h; cases h
  | fault t => rw [hm] at h; cases h
  | stuck => rw [hm] at h; cases h

theorem onFailure_done {m : Run σ α} {c : Run σ Unit} {s s' : σ} {a : α} (h : m s = .done a s') :
    (m.onFailure c) s = .done a s' := by
  unfold onFailure
  rw [h]

theorem onFailure_eq_done {m : Run σ α} {c : Run σ Unit} {s s' : σ} {a : α}
    (h : (m.onFailure c) s = .done a s') : m s = .done a s' := by
  unfold onFailure at h
  cases hm : m s with
  | done b t => rw [hm] at h; exact h
  | failed t =>
    rw [hm] at h
    obtain ⟨_, _, _, e⟩ := bind_eq_done (m := c) (f := fun _ => (fail : Run σ α)) h
    cases e
  | fault t => rw [hm] at h; cases h
  | stuck => rw [hm] at h; cases h

/-! ## 2. Runs that return -/

/-- The run of `m` from `s` returns, and `Q` holds of the value and the end state. -/
def Returns (m : Run σ α) (s : σ) (Q : α → σ → Prop) : Prop :=
  ∃ a s', m s = .done a s' ∧ Q a s'

theorem Returns.pure {a : α} {s : σ} {Q : α → σ → Prop} (h : Q a s) :
    Returns (Pure.pure a : Run σ α) s Q := ⟨a, s, rfl, h⟩

theorem Returns.bind {m : Run σ α} {f : α → Run σ β} {s : σ} {P : α → σ → Prop}
    {Q : β → σ → Prop} (hm : Returns m s P) (hf : ∀ a s', P a s' → Returns (f a) s' Q) :
    Returns (m >>= f) s Q := by
  obtain ⟨a, s', e, hP⟩ := hm
  obtain ⟨b, s'', e', hQ⟩ := hf a s' hP
  exact ⟨b, s'', by rw [bind_done e, e'], hQ⟩

theorem Returns.mono {m : Run σ α} {s : σ} {P Q : α → σ → Prop} (hm : Returns m s P)
    (h : ∀ a s', P a s' → Q a s') : Returns m s Q := by
  obtain ⟨a, s', e, hP⟩ := hm
  exact ⟨a, s', e, h a s' hP⟩

theorem Returns.onFailure {m : Run σ α} {c : Run σ Unit} {s : σ} {Q : α → σ → Prop}
    (hm : Returns m s Q) : Returns (m.onFailure c) s Q := by
  obtain ⟨a, s', e, hQ⟩ := hm
  exact ⟨a, s', onFailure_done e, hQ⟩

/-! ## 3. Runs that do not return -/

/-- The run of `m` from `s` does not return a value. -/
def Rejects (m : Run σ α) (s : σ) : Prop := ∀ a s', m s ≠ .done a s'

theorem rejects_fail (s : σ) : Rejects (fail : Run σ α) s := fun _ _ h => nomatch h

theorem rejects_undefined (s : σ) : Rejects (undefined : Run σ α) s := fun _ _ h => nomatch h

theorem Rejects.bind {m : Run σ α} {f : α → Run σ β} {s : σ} (h : Rejects m s) :
    Rejects (m >>= f) s := by
  intro b s' e
  obtain ⟨a, t, ha, _⟩ := bind_eq_done e
  exact h a t ha

theorem Returns.bind_rejects {m : Run σ α} {f : α → Run σ β} {s : σ} {P : α → σ → Prop}
    (hm : Returns m s P) (hf : ∀ a s', P a s' → Rejects (f a) s') : Rejects (m >>= f) s := by
  obtain ⟨a, s', e, hP⟩ := hm
  intro b t h
  rw [bind_done e] at h
  exact hf a s' hP b t h

/-- A second part that never returns makes the sequence never return. -/
theorem rejects_bind_of_forall {m : Run σ α} {f : α → Run σ β} (s : σ)
    (hf : ∀ a s', Rejects (f a) s') : Rejects (m >>= f) s := by
  intro b t h
  obtain ⟨a, s', _, e⟩ := bind_eq_done h
  exact hf a s' b t e

theorem Rejects.onFailure {m : Run σ α} {c : Run σ Unit} {s : σ} (h : Rejects m s) :
    Rejects (m.onFailure c) s := fun a s' e => h a s' (onFailure_eq_done e)

/-- The run of `m` from `s` does nothing undefined. -/
def Defined (m : Run σ α) (s : σ) : Prop := ∀ t, m s ≠ .fault t

theorem Returns.defined {m : Run σ α} {s : σ} {Q : α → σ → Prop} (h : Returns m s Q) :
    Defined m s := by
  obtain ⟨a, s', e, _⟩ := h
  intro t hfault
  rw [e] at hfault
  cases hfault

theorem bind_fault {m : Run σ α} {f : α → Run σ β} {s t : σ} (h : m s = .fault t) :
    (m >>= f) s = .fault t := by
  rw [bind_apply, h]

/-! ## 4. Measures along runs, and fuel -/

/-- No run of `m` that returns makes `μ` grow. -/
def Shrinks (μ : σ → Nat) (m : Run σ α) : Prop := ∀ s a s', m s = .done a s' → μ s' ≤ μ s

theorem shrinks_pure (μ : σ → Nat) (a : α) : Shrinks μ (Pure.pure a : Run σ α) := by
  intro s b s' h
  cases h
  exact Nat.le_refl _

theorem shrinks_fail (μ : σ → Nat) : Shrinks μ (fail : Run σ α) := fun _ _ _ h => nomatch h

theorem shrinks_undefined (μ : σ → Nat) : Shrinks μ (undefined : Run σ α) :=
  fun _ _ _ h => nomatch h

theorem shrinks_outOfFuel (μ : σ → Nat) : Shrinks μ (outOfFuel : Run σ α) :=
  fun _ _ _ h => nomatch h

theorem Shrinks.bind {μ : σ → Nat} {m : Run σ α} {f : α → Run σ β} (hm : Shrinks μ m)
    (hf : ∀ a, Shrinks μ (f a)) : Shrinks μ (m >>= f) := by
  intro s b s' h
  obtain ⟨a, t, ha, hb⟩ := bind_eq_done h
  exact Nat.le_trans (hf a t b s' hb) (hm s a t ha)

theorem Shrinks.onFailure {μ : σ → Nat} {m : Run σ α} {c : Run σ Unit} (hm : Shrinks μ m) :
    Shrinks μ (m.onFailure c) := fun s a s' h => hm s a s' (onFailure_eq_done h)

/-- The run of `m` from `s` does not run out of fuel. -/
def Lively (m : Run σ α) (s : σ) : Prop := m s ≠ .stuck

theorem Lively.done {m : Run σ α} {a : α} {s t : σ} (h : m s = .done a t) : Lively m s := by
  intro hstuck
  rw [h] at hstuck
  cases hstuck

theorem lively_undefined (s : σ) : Lively (undefined : Run σ α) s := by
  intro hstuck
  cases hstuck

theorem Lively.bind {m : Run σ α} {f : α → Run σ β} {s : σ} (hm : Lively m s)
    (hf : ∀ a s', m s = .done a s' → Lively (f a) s') : Lively (m >>= f) s := by
  intro h
  rw [bind_apply] at h
  cases e : m s with
  | done a s' => rw [e] at h; exact hf a s' e h
  | failed t => rw [e] at h; cases h
  | fault t => rw [e] at h; cases h
  | stuck => exact hm e

theorem Lively.onFailure {m : Run σ α} {c : Run σ Unit} {s : σ} (hm : Lively m s)
    (hc : ∀ s', Lively c s') : Lively (m.onFailure c) s := by
  intro h
  unfold Run.onFailure at h
  cases e : m s with
  | done a s' => rw [e] at h; cases h
  | failed t =>
    rw [e] at h
    exact Lively.bind (m := c) (f := fun _ => (fail : Run σ α)) (hc t) (fun _ _ _ => nofun) h
  | fault t => rw [e] at h; cases h
  | stuck => exact hm e

/-! ## 5. Faults the state can tell -/

/-- A run of `m` from `s` that returns or fails ends with `Ok`, and one that faults with `Bad`. -/
def HonestAt (Ok Bad : σ → Prop) (m : Run σ α) (s : σ) : Prop :=
  match m s with
  | .done _ s' => Ok s'
  | .failed s' => Ok s'
  | .fault s' => Bad s'
  | .stuck => True

/-- So it is from every state with `Ok`. -/
def Honest (Ok Bad : σ → Prop) (m : Run σ α) : Prop := ∀ s, Ok s → HonestAt Ok Bad m s

theorem honest_pure (Ok Bad : σ → Prop) (a : α) : Honest Ok Bad (Pure.pure a : Run σ α) :=
  fun _ h => h

theorem honest_fail (Ok Bad : σ → Prop) : Honest Ok Bad (fail : Run σ α) := fun _ h => h

theorem honest_outOfFuel (Ok Bad : σ → Prop) : Honest Ok Bad (outOfFuel : Run σ α) :=
  fun _ _ => trivial

theorem HonestAt.bind {Ok Bad : σ → Prop} {m : Run σ α} {f : α → Run σ β} {s : σ}
    (hm : HonestAt Ok Bad m s) (hf : ∀ a s', m s = .done a s' → Ok s' → HonestAt Ok Bad (f a) s') :
    HonestAt Ok Bad (m >>= f) s := by
  unfold HonestAt at hm ⊢
  rw [bind_apply]
  cases e : m s with
  | done a s' =>
    rw [e] at hm
    exact hf a s' e hm
  | failed s' => rw [e] at hm; exact hm
  | fault s' => rw [e] at hm; exact hm
  | stuck => trivial

/-- A first part that returns leaves the second to tell. -/
theorem honestAt_bind_done {Ok Bad : σ → Prop} {m : Run σ α} {f : α → Run σ β} {s s' : σ} {a : α}
    (h : m s = .done a s') (hf : HonestAt Ok Bad (f a) s') : HonestAt Ok Bad (m >>= f) s := by
  unfold HonestAt at hf ⊢
  rw [bind_done h]
  exact hf

/-- A fault at a bad state. -/
theorem honestAt_fault {Ok Bad : σ → Prop} {m : Run σ α} {s s' : σ} (h : m s = .fault s')
    (hs : Bad s') : HonestAt Ok Bad m s := by
  unfold HonestAt
  rw [h]
  exact hs

theorem Honest.bind {Ok Bad : σ → Prop} {m : Run σ α} {f : α → Run σ β} (hm : Honest Ok Bad m)
    (hf : ∀ a, Honest Ok Bad (f a)) : Honest Ok Bad (m >>= f) :=
  fun s hs => (hm s hs).bind fun a s' _ h => hf a s' h

theorem HonestAt.onFailure {Ok Bad : σ → Prop} {m : Run σ α} {c : Run σ Unit} {s : σ}
    (hm : HonestAt Ok Bad m s) (hc : Honest Ok Bad c) : HonestAt Ok Bad (m.onFailure c) s := by
  have hfail : Honest Ok Bad (c >>= fun _ => (fail : Run σ α)) := hc.bind fun _ => honest_fail Ok Bad
  unfold HonestAt at hm ⊢
  unfold Run.onFailure
  cases e : m s with
  | done a s' => rw [e] at hm; exact hm
  | failed s' =>
    rw [e] at hm
    exact hfail s' hm
  | fault s' => rw [e] at hm; exact hm
  | stuck => trivial

theorem Honest.onFailure {Ok Bad : σ → Prop} {m : Run σ α} {c : Run σ Unit} (hm : Honest Ok Bad m)
    (hc : Honest Ok Bad c) : Honest Ok Bad (m.onFailure c) :=
  fun s hs => (hm s hs).onFailure hc

/-! ## 6. Runs that are all of this -/

/-- A run that is honest and lets `μ` shrink. -/
structure Orderly (Ok Bad : σ → Prop) (μ : σ → Nat) (m : Run σ α) : Prop where
  honest : Honest Ok Bad m
  shrinks : Shrinks μ m

/-- A run that is orderly and never runs out of fuel. -/
structure Tame (Ok Bad : σ → Prop) (μ : σ → Nat) (m : Run σ α) : Prop extends Orderly Ok Bad μ m where
  lively : ∀ s, Lively m s

section Tame

variable {Ok Bad : σ → Prop} {μ : σ → Nat} {m : Run σ α}

theorem orderly_outOfFuel : Orderly Ok Bad μ (outOfFuel : Run σ α) :=
  ⟨honest_outOfFuel Ok Bad, shrinks_outOfFuel μ⟩

theorem Orderly.bind {f : α → Run σ β} (hm : Orderly Ok Bad μ m) (hf : ∀ a, Orderly Ok Bad μ (f a)) :
    Orderly Ok Bad μ (m >>= f) :=
  ⟨hm.honest.bind fun a => (hf a).honest, hm.shrinks.bind fun a => (hf a).shrinks⟩

theorem Orderly.onFailure {c : Run σ Unit} (hm : Orderly Ok Bad μ m) (hc : Honest Ok Bad c) :
    Orderly Ok Bad μ (m.onFailure c) := ⟨hm.honest.onFailure hc, hm.shrinks.onFailure⟩

theorem tame_pure (a : α) : Tame Ok Bad μ (Pure.pure a : Run σ α) :=
  ⟨⟨honest_pure Ok Bad a, shrinks_pure μ a⟩, fun _ => nofun⟩

theorem tame_fail : Tame Ok Bad μ (fail : Run σ α) :=
  ⟨⟨honest_fail Ok Bad, shrinks_fail μ⟩, fun _ => nofun⟩

theorem tame_read : Tame Ok Bad μ (read : Run σ σ) := by
  refine ⟨⟨fun _ h => h, ?_⟩, fun _ => nofun⟩
  intro s a s' h
  cases h
  exact Nat.le_refl _

theorem Tame.bind {f : α → Run σ β} (hm : Tame Ok Bad μ m) (hf : ∀ a, Tame Ok Bad μ (f a)) :
    Tame Ok Bad μ (m >>= f) :=
  ⟨hm.toOrderly.bind fun a => (hf a).toOrderly,
    fun s => (hm.lively s).bind fun a s' _ => (hf a).lively s'⟩

theorem Tame.ite {c : Prop} [Decidable c] {m' : Run σ α} (hm : Tame Ok Bad μ m)
    (hm' : Tame Ok Bad μ m') : Tame Ok Bad μ (if c then m else m') := by
  split
  · exact hm
  · exact hm'

end Tame

/-! ## 7. What holds wherever a run ends -/

/-- `Q` holds where the run of `m` from `s` returns, `E` where it fails or faults. -/
def Meets (m : Run σ α) (s : σ) (Q : α → σ → Prop) (E : σ → Prop) : Prop :=
  match m s with
  | .done a t => Q a t
  | .failed t => E t
  | .fault t => E t
  | .stuck => True

section Meets

variable {m : Run σ α} {s : σ} {Q P : α → σ → Prop} {R : β → σ → Prop} {E : σ → Prop}

theorem Meets.pure {a : α} (h : Q a s) : Meets (Pure.pure a : Run σ α) s Q E := h

theorem Meets.fail (h : E s) : Meets (fail : Run σ α) s Q E := h

theorem Meets.undefined (h : E s) : Meets (undefined : Run σ α) s Q E := h

theorem Meets.outOfFuel : Meets (outOfFuel : Run σ α) s Q E := trivial

theorem Meets.read {Q : σ → σ → Prop} (h : Q s s) : Meets (read : Run σ σ) s Q E := h

theorem Meets.update {f : σ → σ} {Q : Unit → σ → Prop} (h : Q () (f s)) :
    Meets (update f) s Q E := h

theorem Meets.bind {f : α → Run σ β} (hm : Meets m s Q E)
    (hf : ∀ a t, Q a t → Meets (f a) t R E) : Meets (m >>= f) s R E := by
  unfold Meets at hm ⊢
  rw [bind_apply]
  cases e : m s with
  | done a t =>
    rw [e] at hm
    exact hf a t hm
  | failed t => rw [e] at hm; exact hm
  | fault t => rw [e] at hm; exact hm
  | stuck => trivial

theorem Meets.mono {F : σ → Prop} (hm : Meets m s P F) (hQ : ∀ a t, P a t → Q a t)
    (hE : ∀ t, F t → E t) : Meets m s Q E := by
  unfold Meets at hm ⊢
  cases e : m s with
  | done a t =>
    rw [e] at hm
    exact hQ a t hm
  | failed t => rw [e] at hm; exact hE t hm
  | fault t => rw [e] at hm; exact hE t hm
  | stuck => trivial

theorem Returns.meets (h : Returns m s Q) : Meets m s Q E := by
  obtain ⟨a, t, hrun, hQ⟩ := h
  unfold Meets
  rw [hrun]
  exact hQ

/-- A first part whose errors are as good as those of the whole. -/
theorem Meets.andThen {F : σ → Prop} {f : α → Run σ β} (hm : Meets m s Q F)
    (hE : ∀ t, F t → E t) (hf : ∀ a t, Q a t → Meets (f a) t R E) : Meets (m >>= f) s R E :=
  (hm.mono (fun _ _ h => h) hE).bind hf

/-- Looking at the state. -/
theorem Meets.look {f : σ → Run σ β} (hf : Meets (f s) s R E) : Meets (Run.read >>= f) s R E := hf

theorem Meets.ite {c : Prop} [Decidable c] {n : Run σ α} (hm : c → Meets m s Q E)
    (hn : ¬c → Meets n s Q E) : Meets (if c then m else n) s Q E := by
  by_cases h : c
  · rw [if_pos h]
    exact hm h
  · rw [if_neg h]
    exact hn h

/-- The clean-up runs from where `m` failed, and what holds there holds behind it. -/
theorem Meets.onFailure {c : Run σ Unit} (hm : Meets m s Q E)
    (hc : ∀ t, E t → Meets c t (fun _ => E) E) : Meets (m.onFailure c) s Q E := by
  unfold Meets at hm ⊢
  unfold Run.onFailure
  cases e : m s with
  | done a t => rw [e] at hm; exact hm
  | failed t =>
    rw [e] at hm
    exact (hc t hm).bind (f := fun _ => (Run.fail : Run σ α)) fun _ _ h => h
  | fault t => rw [e] at hm; exact hm
  | stuck => trivial

end Meets

/-- One can stay where one is, and go on. -/
structure Path (R : σ → σ → Prop) : Prop where
  refl : ∀ s, R s s
  trans : ∀ {s t u}, R s t → R t u → R s u

/-- The run of `m` ends in a state that is `R` of its start, however it ends. -/
def Moves (R : σ → σ → Prop) (m : Run σ α) : Prop := ∀ s, Meets m s (fun _ => R s) (R s)

namespace Path

variable {R : σ → σ → Prop} (hR : Path R)

include hR

theorem pure (a : α) : Moves R (Pure.pure a : Run σ α) := fun s => Meets.pure (hR.refl s)

theorem fail : Moves R (Run.fail : Run σ α) := fun s => Meets.fail (hR.refl s)

theorem undefined : Moves R (Run.undefined : Run σ α) := fun s => Meets.undefined (hR.refl s)

theorem read : Moves R (Run.read : Run σ σ) := fun s => Meets.read (hR.refl s)

theorem bind {m : Run σ α} {f : α → Run σ β} (hm : Moves R m) (hf : ∀ a, Moves R (f a)) :
    Moves R (m >>= f) := fun s => (hm s).bind fun a t hst =>
  (hf a t).mono (fun _ _ htu => hR.trans hst htu) fun _ htu => hR.trans hst htu

theorem onFailure {m : Run σ α} {c : Run σ Unit} (hm : Moves R m) (hc : Moves R c) :
    Moves R (m.onFailure c) := fun s => (hm s).onFailure fun t hst =>
  (hc t).mono (fun _ _ htu => hR.trans hst htu) fun _ htu => hR.trans hst htu

end Path

/-- What holds wherever a lively run ends. -/
theorem Meets.last {m : Run σ α} {s : σ} {Q : α → σ → Prop} {E G : σ → Prop} (hm : Meets m s Q E)
    (h : Lively m s) (hQ : ∀ a t, Q a t → G t) (hE : ∀ t, E t → G t) : G ((m s).last h) := by
  unfold Meets at hm
  unfold Lively at h
  revert hm h
  cases m s with
  | done a t => exact fun hm _ => hQ a t hm
  | failed t => exact fun hm _ => hE t hm
  | fault t => exact fun hm _ => hE t hm
  | stuck => exact fun _ h => absurd rfl h

/-- Where a lively run ends, what it moves along holds. -/
theorem Moves.last {R : σ → σ → Prop} {m : Run σ α} (hm : Moves R m) {s : σ} (h : Lively m s) :
    R s ((m s).last h) := (hm s).last h (fun _ _ h => h) fun _ h => h

theorem Moves.update {R : σ → σ → Prop} {f : σ → σ} (h : ∀ s, R s (f s)) : Moves R (update f) :=
  fun s => Meets.update (h s)

theorem Moves.ite {R : σ → σ → Prop} {c : Prop} [Decidable c] {m n : Run σ α} (hm : Moves R m)
    (hn : Moves R n) : Moves R (if c then m else n) :=
  fun s => Meets.ite (fun _ => hm s) fun _ => hn s

/-! ## 8. Runs over a richer state -/

/-- The outcome with another state. -/
def onState {τ : Type} (f : σ → τ) : Outcome σ α → Outcome τ α
  | .done a s => .done a (f s)
  | .failed s => .failed (f s)
  | .fault s => .fault (f s)
  | .stuck => .stuck

/-- On the part `f` of its state, `m` is `n`. -/
def Lifts {τ : Type} (f : σ → τ) (m : Run σ α) (n : Run τ α) : Prop :=
  ∀ s, onState f (m s) = n (f s)

section Lifts

variable {τ : Type} {f : σ → τ}

theorem Lifts.pure (a : α) : Lifts f (Pure.pure a) (Pure.pure a) := fun _ => rfl

theorem Lifts.fail : Lifts f (fail : Run σ α) fail := fun _ => rfl

theorem Lifts.undefined : Lifts f (undefined : Run σ α) undefined := fun _ => rfl

theorem Lifts.outOfFuel : Lifts f (outOfFuel : Run σ α) outOfFuel := fun _ => rfl

theorem Lifts.bind {m : Run σ α} {n : Run τ α} {g : α → Run σ β} {h : α → Run τ β}
    (hm : Lifts f m n) (hg : ∀ a, Lifts f (g a) (h a)) : Lifts f (m >>= g) (n >>= h) := by
  intro s
  have hs := hm s
  rw [bind_apply, bind_apply, ← hs]
  cases m s with
  | done a t => exact hg a t
  | failed t => rfl
  | fault t => rfl
  | stuck => rfl

theorem Lifts.onFailure {m : Run σ α} {n : Run τ α} {c : Run σ Unit} {d : Run τ Unit}
    (hm : Lifts f m n) (hc : Lifts f c d) : Lifts f (m.onFailure c) (n.onFailure d) := by
  intro s
  have hs := hm s
  unfold Run.onFailure
  rw [← hs]
  cases m s with
  | done a t => rfl
  | failed t => exact hc.bind (fun _ => Lifts.fail) t
  | fault t => rfl
  | stuck => rfl

theorem Lifts.ite {c : Prop} [Decidable c] {m m' : Run σ α} {n n' : Run τ α} (hm : Lifts f m n)
    (hm' : Lifts f m' n') : Lifts f (if c then m else m') (if c then n else n') := by
  by_cases h : c
  · rw [if_pos h, if_pos h]
    exact hm
  · rw [if_neg h, if_neg h]
    exact hm'

theorem Lifts.read {g : σ → Run σ β} {h : τ → Run τ β} (hg : ∀ s, Lifts f (g s) (h (f s))) :
    Lifts f (read >>= g) (read >>= h) := fun s => hg s s

/-- Where the smaller run returns, the richer one does. -/
theorem Lifts.done {m : Run σ α} {n : Run τ α} (h : Lifts f m n) {s : σ} {t : τ} {a : α}
    (hn : n (f s) = .done a t) : ∃ s', m s = .done a s' ∧ f s' = t := by
  have hs := h s
  rw [hn] at hs
  cases hm : m s with
  | done b s' =>
    rw [hm] at hs
    cases hs
    exact ⟨s', rfl, rfl⟩
  | failed s' => rw [hm] at hs; cases hs
  | fault s' => rw [hm] at hs; cases hs
  | stuck => rw [hm] at hs; cases hs

theorem Lifts.lively {m : Run σ α} {n : Run τ α} (h : Lifts f m n) {s : σ} (hn : Lively n (f s)) :
    Lively m s := by
  intro hstuck
  have hs := h s
  rw [hstuck] at hs
  exact hn hs.symm

/-- Both runs end in the same place. -/
theorem Lifts.last {m : Run σ α} {n : Run τ α} (h : Lifts f m n) {s : σ} (hm : Lively m s)
    (hn : Lively n (f s)) : f ((m s).last hm) = (n (f s)).last hn := by
  have hs := h s
  unfold Lively at hm hn
  revert hm hn
  rw [← hs]
  cases m s with
  | done a t => exact fun _ _ => rfl
  | failed t => exact fun _ _ => rfl
  | fault t => exact fun _ _ => rfl
  | stuck => exact fun hm => absurd rfl hm

/-- Looking at the richer state changes nothing. -/
theorem Lifts.look {g : σ → Run σ β} {n : Run τ β} (hg : ∀ s, Lifts f (g s) n) :
    Lifts f (Run.read >>= g) n := fun s => hg s s

/-- Neither does an update outside of `f`. -/
theorem Lifts.ghost {u : σ → σ} (hu : ∀ s, f (u s) = f s) {g : Unit → Run σ β} {n : Run τ β}
    (hg : Lifts f (g ()) n) : Lifts f (update u >>= g) n := by
  intro s
  show onState f (g () (u s)) = n (f s)
  rw [hg (u s), hu]

/-- `m` on the first part of a pair, with the second as it is. -/
def onFst {ν : Type} (m : Run σ α) : Run (σ × ν) α := fun s =>
  match m s.1 with
  | .done a t => .done a (t, s.2)
  | .failed t => .failed (t, s.2)
  | .fault t => .fault (t, s.2)
  | .stuck => .stuck

theorem lifts_onFst {ν : Type} (m : Run σ α) : Lifts Prod.fst (onFst m : Run (σ × ν) α) m := by
  intro s
  unfold onFst
  cases m s.1 <;> rfl

/-- `m` on the part `get` of the state, which `set` puts back. -/
def within {τ : Type} (get : τ → σ) (set : σ → τ → τ) (m : Run σ α) : Run τ α := fun s =>
  match m (get s) with
  | .done a t => .done a (set t s)
  | .failed t => .failed (set t s)
  | .fault t => .fault (set t s)
  | .stuck => .stuck

theorem within_done {τ : Type} {get : τ → σ} {set : σ → τ → τ} {m : Run σ α} {s : τ} {t : σ} {a : α}
    (h : m (get s) = .done a t) : within get set m s = .done a (set t s) := by
  unfold within
  rw [h]

/-- A part on the first of a pair keeps the second. -/
theorem Meets.onFst {ν : Type} {m : Run σ α} {s : σ × ν} {P : α → σ → Prop} {E : σ × ν → Prop}
    (hm : ∀ a t, m s.1 = .done a t → P a t) (hE : ∀ t, E (t, s.2)) :
    Meets (Run.onFst m) s (fun a t => P a t.1 ∧ t.2 = s.2) E := by
  unfold Meets Run.onFst
  cases e : m s.1 with
  | done a t => exact ⟨hm a t e, rfl⟩
  | failed t => exact hE t
  | fault t => exact hE t
  | stuck => trivial

end Lifts

/-- `i++` of a counter that must not go past `max`. -/
def next (max i : Nat) : Run σ Nat := if i < max then pure (i + 1) else undefined

/-- `left` rounds of a loop, from the round `i` on, with a value that the rounds hand on. -/
def rounds (max : Nat) (body : Nat → β → Run σ β) : (left i : Nat) → β → Run σ β
  | 0, _, b => pure b
  | left + 1, i, b => do
    let b ← body i b
    let i ← next max i
    rounds max body left i b

section Rounds

variable {max left i : Nat} {body : Nat → β → Run σ β} {b : β} {s : σ}

theorem next_of_lt (hi : i < max) : (next max i : Run σ Nat) = pure (i + 1) := if_pos hi

theorem next_of_le (hi : max ≤ i) : (next max i : Run σ Nat) = undefined := if_neg (by omega)

theorem next_eq_done {i' : Nat} {t : σ} (h : (next max i : Run σ Nat) s = .done i' t) :
    i < max ∧ i' = i + 1 := by
  by_cases hi : i < max
  · rw [next_of_lt hi] at h
    cases h
    exact ⟨hi, rfl⟩
  · rw [next_of_le (Nat.le_of_not_lt hi)] at h
    cases h

theorem Lifts.next {τ : Type} {f : σ → τ} :
    Lifts f (next max i : Run σ Nat) (next max i : Run τ Nat) :=
  .ite (Lifts.pure _) Lifts.undefined

/-- What each round hands on to the next holds behind the last. -/
theorem rounds_returns {I : Nat → β → σ → Prop} (hmax : i + left ≤ max)
    (round : ∀ j b s, i ≤ j → j < i + left → I j b s → Returns (body j b) s (I (j + 1)))
    (h : I i b s) : Returns (rounds max body left i b) s (I (i + left)) := by
  induction left generalizing i b s with
  | zero => exact Returns.pure h
  | succ left ih =>
    refine (round i b s (Nat.le_refl i) (by omega) h).bind fun b' s' h' => ?_
    rw [next_of_lt (by omega), show i + (left + 1) = i + 1 + left by omega]
    exact ih (by omega) (fun j b s hij hj => round j b s (by omega) (by omega)) h'

/-- A counter that would have to go past `max` does not get there. -/
theorem rounds_rejects (hmax : max < i + left) (hi : i ≤ max) :
    Rejects (rounds max body left i b) s := by
  induction left generalizing i b s with
  | zero => omega
  | succ left ih =>
    refine rejects_bind_of_forall s fun b' s' => ?_
    by_cases hnext : i < max
    · rw [next_of_lt hnext]
      exact ih (by omega) hnext
    · rw [next_of_le (Nat.le_of_not_lt hnext)]
      exact (rejects_undefined s').bind

end Rounds

/-! ## 10. Lists of steps -/

/-- **All of the steps are done, or all in front of one that fails.** `I xs` is what holds behind
    the steps `xs`, and `E xs x` what holds of the states around the step `x` that fails there. -/
theorem forM_done_or_stops {ι : Type} {step : ι → Run σ Unit} {I : List ι → σ → Prop}
    {E : List ι → ι → σ → σ → Prop} {xs : List ι} {s : σ} (h : I [] s)
    (hstep : ∀ before, ∀ x ∈ xs, ∀ s, I before s →
      (∃ s', step x s = .done () s' ∧ I (before ++ [x]) s') ∨
        ∃ s', step x s = .failed s' ∧ E before x s s') :
    (∃ s', xs.forM step s = .done () s' ∧ I xs s') ∨
      ∃ before x behind s₁ s', xs = before ++ x :: behind ∧ before.forM step s = .done () s₁ ∧
        I before s₁ ∧ xs.forM step s = .failed s' ∧ E before x s₁ s' := by
  induction xs generalizing I E s with
  | nil => exact .inl ⟨s, rfl, h⟩
  | cons x xs ih =>
    have hcons : (x :: xs).forM step = step x >>= fun _ => xs.forM step := rfl
    rcases hstep [] x List.mem_cons_self s h with ⟨t, hrun, ht⟩ | ⟨t, hrun, hE⟩
    · have hrest := ih (I := fun before => I (x :: before)) (E := fun before => E (x :: before)) ht
        fun before y hy => hstep (x :: before) y (List.mem_cons_of_mem x hy)
      rw [hcons, bind_done hrun]
      rcases hrest with hdone | ⟨before, y, behind, s₁, s', rfl, hbefore, hI, hfail, hE⟩
      · exact .inl hdone
      · refine .inr ⟨x :: before, y, behind, s₁, s', rfl, ?_, hI, hfail, hE⟩
        exact (bind_done (f := fun _ => before.forM step) hrun).trans hbefore
    · refine .inr ⟨[], x, xs, s, t, rfl, rfl, h, ?_, hE⟩
      rw [hcons, bind_apply, hrun]

end Run

end Lib
