/-
  File:      ArgusPep/Lib/Keyed.lean
  Subject:   Records that a loop fills from keyed entries.

  A loop goes through entries `(key, value)` from first to last. A `Step` says what one entry makes
  of the record read so far; the loop ends without a record at the first entry its step refuses.
  Keys may repeat, be missing and come in any order.

  * `fold` -- the loop; `scan` -- the same over entries whose keys have yet to be read;
  * `slots`, `slot` -- a step that reads the entries of some keys, or of one key, and no others;
  * `both` -- two steps side by side on the halves of a pair;
  * `valuesAt` -- the values of one key, in order; `Gives` -- what they make of a field.

  The rules take a loop apart: a loop over `both` is two loops, a loop over `slot` is a loop over
  the values of its key (`fold_both`, `fold_slot`), and a chain of tests for keys is a step put
  together of slots (`dispatch`). So each field of a record is a function of the values of its own
  key, and where keys are distinct the order of the entries does not matter.
-/
import Mathlib.Data.List.Perm.Basic
import Mathlib.Data.List.Nodup

namespace Lib.Keyed

variable {κ ρ υ σ τ α β : Type}

/-! ## 1. Loops -/

/-- What an entry makes of a record. -/
abbrev Step (κ υ σ : Type) := σ → κ → υ → Option σ

def fold (step : Step κ υ σ) : σ → List (κ × υ) → Option σ
  | s, [] => some s
  | s, (k, v) :: entries => do
    let s ← step s k v
    fold step s entries

/-- The loop over entries with a key that `key` reads, or refuses. -/
def scan (key : ρ → Option κ) (step : Step κ υ σ) : σ → List (ρ × υ) → Option σ
  | s, [] => some s
  | s, (r, v) :: entries => do
    let k ← key r
    let s ← step s k v
    scan key step s entries

/-- The entries with their keys read; `none` when one key is refused. -/
def readKeys (key : ρ → Option κ) : List (ρ × υ) → Option (List (κ × υ))
  | [] => some []
  | (r, v) :: entries => do
    let k ← key r
    let rest ← readKeys key entries
    pure ((k, v) :: rest)

/-- The entries whose key can be read. -/
def readable (key : ρ → Option κ) (entries : List (ρ × υ)) : List (κ × υ) :=
  entries.filterMap fun e => (key e.1).map fun k => (k, e.2)

theorem readable_cons_some {key : ρ → Option κ} {e : ρ × υ} {k : κ} (h : key e.1 = some k)
    (entries : List (ρ × υ)) : readable key (e :: entries) = (k, e.2) :: readable key entries := by
  simp [readable, h]

theorem readable_cons_none {key : ρ → Option κ} {e : ρ × υ} (h : key e.1 = none)
    (entries : List (ρ × υ)) : readable key (e :: entries) = readable key entries := by
  simp [readable, h]

theorem readable_append (key : ρ → Option κ) (es fs : List (ρ × υ)) :
    readable key (es ++ fs) = readable key es ++ readable key fs :=
  List.filterMap_append

theorem mem_readable {key : ρ → Option κ} {entries : List (ρ × υ)} {e : κ × υ}
    (h : e ∈ readable key entries) : ∃ r, (r, e.2) ∈ entries ∧ key r = some e.1 := by
  obtain ⟨⟨r, v⟩, hr, he⟩ := List.mem_filterMap.mp h
  obtain ⟨k, hk, rfl⟩ := Option.map_eq_some_iff.mp he
  exact ⟨r, hr, hk⟩

theorem readKeys_eq_some {key : ρ → Option κ} {entries : List (ρ × υ)} {es : List (κ × υ)} :
    readKeys key entries = some es ↔ (∀ e ∈ entries, key e.1 ≠ none) ∧ es = readable key entries := by
  induction entries generalizing es with
  | nil => simp [readKeys, readable, eq_comm]
  | cons e entries ih =>
    obtain ⟨r, v⟩ := e
    cases hk : key r with
    | none => simp [readKeys, hk]
    | some k =>
      rw [readable_cons_some (e := (r, v)) hk, List.forall_mem_cons]
      cases hr : readKeys key entries with
      | none =>
        have hbad : ¬ ∀ e ∈ entries, key e.1 ≠ none := fun h => by
          have := ih.mpr ⟨h, rfl⟩
          rw [hr] at this
          cases this
        simp only [readKeys, hk, hr]
        constructor
        · intro h
          cases h
        · intro h
          obtain ⟨⟨-, h⟩, -⟩ := h
          exact absurd h hbad
      | some rest =>
        obtain ⟨hall, hrest⟩ := ih.mp hr
        rw [← hrest]
        simp only [readKeys, hk, hr]
        constructor
        · intro h
          cases h
          exact ⟨⟨nofun, hall⟩, rfl⟩
        · intro h
          obtain ⟨-, rfl⟩ := h
          rfl

@[simp] theorem fold_nil (step : Step κ υ σ) (s : σ) : fold step s [] = some s := rfl

theorem fold_cons (step : Step κ υ σ) (s : σ) (k : κ) (v : υ) (entries : List (κ × υ)) :
    fold step s ((k, v) :: entries) = (step s k v).bind fun s => fold step s entries := rfl

/-- Reading a key and taking its step may be done in two passes: a loop that ends without a record
    does not tell which entry ended it. -/
theorem scan_eq (key : ρ → Option κ) (step : Step κ υ σ) (s : σ) (entries : List (ρ × υ)) :
    scan key step s entries = (readKeys key entries).bind (fold step s) := by
  induction entries generalizing s with
  | nil => rfl
  | cons e entries ih =>
    obtain ⟨r, v⟩ := e
    cases hk : key r with
    | none => simp [scan, readKeys, hk]
    | some k =>
      cases hs : step s k v with
      | none => cases hr : readKeys key entries <;> simp [scan, readKeys, hk, hs, hr, fold_cons]
      | some s' =>
        have h := ih s'
        cases hr : readKeys key entries with
        | none => simpa [scan, readKeys, hk, hs, hr] using h
        | some es => simpa [scan, readKeys, hk, hs, hr, fold_cons] using h

/-- Whether the step refuses an entry does not depend on the record. -/
def Steady (step : Step κ υ σ) : Prop := ∀ s t k v, (step s k v).isSome = (step t k v).isSome

/-- A loop with a steady step ends with a record exactly if each entry is taken on its own. -/
theorem scan_isSome {step : Step κ υ σ} (h : Steady step) (key : ρ → Option κ) (s : σ)
    (entries : List (ρ × υ)) : (scan key step s entries).isSome
      = entries.all fun e => (scan key step s [e]).isSome := by
  have hrun : ∀ t, (scan key step t entries).isSome
      = entries.all fun e => (scan key step s [e]).isSome := by
    induction entries with
    | nil => exact fun _ => rfl
    | cons e entries ih =>
      intro t
      obtain ⟨r, v⟩ := e
      rw [List.all_cons]
      cases hk : key r with
      | none => simp [scan, hk]
      | some k =>
        have hstep := h t s k v
        cases ht : step t k v with
        | none =>
          rw [ht, Option.isSome_none, eq_comm, Option.isSome_eq_false_iff,
            Option.isNone_iff_eq_none] at hstep
          simp [scan, hk, ht, hstep]
        | some t' =>
          rw [ht, Option.isSome_some, eq_comm, Option.isSome_iff_exists] at hstep
          obtain ⟨s', hs'⟩ := hstep
          simp [scan, hk, ht, hs', ih t']
  exact hrun s

/-! ## 2. Steps put together -/

/-- A step on the entries whose key satisfies `p`. -/
def slots (p : κ → Bool) (f : Step κ υ β) : Step κ υ β := fun b k v =>
  if p k then f b k v else some b

/-- Two steps on the halves of a pair. -/
def both (f : Step κ υ α) (g : Step κ υ β) : Step κ υ (α × β) := fun s k v => do
  let a ← f s.1 k v
  let b ← g s.2 k v
  pure (a, b)

theorem fold_slots (p : κ → Bool) (f : Step κ υ β) (b : β) (entries : List (κ × υ)) :
    fold (slots p f) b entries = fold f b (entries.filter fun e => p e.1) := by
  induction entries generalizing b with
  | nil => rfl
  | cons e entries ih =>
    obtain ⟨k, v⟩ := e
    by_cases hp : p k = true
    · rw [List.filter_cons_of_pos (p := fun e : κ × υ => p e.1) hp, fold_cons, fold_cons]
      simp only [slots, hp, if_true]
      exact congrArg _ (funext ih)
    · rw [List.filter_cons_of_neg (p := fun e : κ × υ => p e.1) hp, fold_cons]
      simp only [slots, hp, Bool.false_eq_true, if_false]
      exact ih b

theorem fold_both (f : Step κ υ α) (g : Step κ υ β) (a : α) (b : β) (entries : List (κ × υ)) :
    fold (both f g) (a, b) entries
      = (fold f a entries).bind fun a => (fold g b entries).map fun b => (a, b) := by
  induction entries generalizing a b with
  | nil => rfl
  | cons e entries ih =>
    obtain ⟨k, v⟩ := e
    rw [fold_cons, fold_cons, fold_cons]
    cases hf : f a k v with
    | none => simp [both, hf]
    | some a' =>
      cases hg : g b k v with
      | none => cases hr : fold f a' entries <;> simp [both, hf, hg, hr]
      | some b' => simpa [both, hf, hg] using ih a' b'

theorem fold_both_eq_some {f : Step κ υ α} {g : Step κ υ β} {a a' : α} {b b' : β}
    {entries : List (κ × υ)} :
    fold (both f g) (a, b) entries = some (a', b')
      ↔ fold f a entries = some a' ∧ fold g b entries = some b' := by
  rw [fold_both]
  cases fold f a entries with
  | none => simp
  | some a₁ => cases fold g b entries <;> simp

/-- A record that `split` takes apart and `make` puts together: the loop reads the parts. -/
theorem fold_split_eq_some {step : Step κ υ σ} {parts : Step κ υ τ} {make : τ → σ} (split : σ → τ)
    (hs : ∀ s, make (split s) = s) (hm : ∀ t, split (make t) = t)
    (h : ∀ t k v, step (make t) k v = (parts t k v).map make) {s s' : σ}
    {entries : List (κ × υ)} :
    fold step s entries = some s' ↔ fold parts (split s) entries = some (split s') := by
  have hrun : ∀ t, fold step (make t) entries = (fold parts t entries).map make := by
    intro t
    induction entries generalizing t with
    | nil => rfl
    | cons e entries ih =>
      obtain ⟨k, v⟩ := e
      rw [fold_cons, fold_cons, h]
      cases parts t k v with
      | none => rfl
      | some t' => exact ih t'
  rw [← hs s, hrun, hm]
  cases fold parts (split s) entries with
  | none => simp
  | some t =>
    simp only [Option.map_some, Option.some.injEq]
    exact ⟨fun e => by rw [← e, hm], fun e => by rw [e, hs]⟩

/-! ## 3. The values of a key -/

section Slot

variable [DecidableEq κ]

/-- A step on the entries of the key `key`. -/
def slot (key : κ) (f : β → υ → Option β) : Step κ υ β :=
  slots (fun k => decide (k = key)) fun b _ v => f b v

/-- The values of the key `key`, in order. -/
def valuesAt (key : κ) (entries : List (κ × υ)) : List υ :=
  (entries.filter fun e => decide (e.1 = key)).map Prod.snd

theorem slot_self (key : κ) (f : β → υ → Option β) (b : β) (v : υ) :
    slot key f b key v = f b v := by
  simp [slot, slots]

theorem slot_ne {key k : κ} (h : k ≠ key) (f : β → υ → Option β) (b : β) (v : υ) :
    slot key f b k v = some b := by
  simp [slot, slots, h]

@[simp] theorem valuesAt_nil (key : κ) : valuesAt key ([] : List (κ × υ)) = [] := rfl

theorem valuesAt_cons_self (key : κ) (v : υ) (entries : List (κ × υ)) :
    valuesAt key ((key, v) :: entries) = v :: valuesAt key entries := by
  simp [valuesAt]

theorem valuesAt_cons_ne {key k : κ} (h : k ≠ key) (v : υ) (entries : List (κ × υ)) :
    valuesAt key ((k, v) :: entries) = valuesAt key entries := by
  simp [valuesAt, h]

omit [DecidableEq κ] in
theorem fold_values (f : β → υ → Option β) (b : β) (entries : List (κ × υ)) :
    fold (fun b _ v => f b v) b entries = (entries.map Prod.snd).foldlM f b := by
  induction entries generalizing b with
  | nil => rfl
  | cons e entries ih =>
    rw [List.map_cons, List.foldlM_cons]
    exact congrArg _ (funext ih)

/-- The loop of a slot sees the values of its key and nothing else. -/
theorem fold_slot (key : κ) (f : β → υ → Option β) (b : β) (entries : List (κ × υ)) :
    fold (slot key f) b entries = (valuesAt key entries).foldlM f b :=
  (fold_slots _ _ b entries).trans (fold_values f b _)

/-- The values of the key `key` make `b` into `b'`. -/
def Gives (entries : List (κ × υ)) (key : κ) (f : β → υ → Option β) (b b' : β) : Prop :=
  (valuesAt key entries).foldlM f b = some b'

theorem fold_slot_eq_some {key : κ} {f : β → υ → Option β} {b b' : β} {entries : List (κ × υ)} :
    fold (slot key f) b entries = some b' ↔ Gives entries key f b b' := by
  rw [fold_slot]
  rfl

/-- A chain of tests for keys, at its first test: the key of the first part, which the rest of the
    parts pass over. -/
theorem dispatch {make : α × β → σ} {key k : κ} {v : υ} {f : α → υ → Option α} {rest : Step κ υ β}
    {a : α} {b : β} {x y : Option σ} (hself : rest b key v = some b)
    (hx : x = (f a v).map fun a => make (a, b))
    (hy : k ≠ key → y = (rest b k v).map fun b => make (a, b)) :
    (if k = key then x else y) = (both (slot key f) rest (a, b) k v).map make := by
  by_cases h : k = key
  · subst h
    rw [if_pos rfl, hx]
    simp only [both, slot_self]
    cases f a v with
    | none => rfl
    | some a => simp [hself]
  · rw [if_neg h, hy h]
    simp only [both, slot_ne h]
    cases rest b k v <;> rfl

/-- The last test of a chain. -/
theorem dispatch_last {make : α → σ} {key k : κ} {v : υ} {f : α → υ → Option α} {a : α}
    {x y : Option σ} (hx : x = (f a v).map make) (hy : y = some (make a)) :
    (if k = key then x else y) = (slot key f a k v).map make := by
  by_cases h : k = key
  · subst h
    rw [if_pos rfl, hx, slot_self]
  · rw [if_neg h, slot_ne h, hy]
    rfl

end Slot

/-! ## 4. Distinct keys -/

/-- Lists of at most one element that are permutations of each other are equal. -/
theorem eq_of_perm_of_short {es fs : List α} (h : es.Perm fs) (hs : es.length ≤ 1) : es = fs := by
  match es, hs with
  | [], _ => exact h.nil_eq
  | [e], _ => exact h.singleton_eq

/-- At most one entry has its key among those of `p`, when the classes of the keys are distinct and
    those of `p` are one class. -/
theorem filter_short {ι : Type} {entries : List (κ × υ)} (cls : κ → ι) (c : ι) (p : κ → Bool)
    (hp : ∀ k, p k = true → cls k = c) (hd : (entries.map fun e => cls e.1).Nodup) :
    (entries.filter fun e => p e.1).length ≤ 1 := by
  induction entries with
  | nil => exact Nat.zero_le 1
  | cons e entries ih =>
    rw [List.map_cons, List.nodup_cons] at hd
    obtain ⟨hne, hd⟩ := hd
    by_cases he : p e.1 = true
    · have hnil : entries.filter (fun e => p e.1) = [] := by
        rw [List.filter_eq_nil_iff]
        intro e' he' hp'
        apply hne
        rw [hp e.1 he, ← hp e'.1 hp']
        exact List.mem_map_of_mem he'
      rw [List.filter_cons_of_pos (p := fun e : κ × υ => p e.1) he, hnil]
      exact Nat.le_refl 1
    · rw [List.filter_cons_of_neg (p := fun e : κ × υ => p e.1) he]
      exact ih hd

end Lib.Keyed
