/-
  File:      ArgusPep/Argus/Passwords.lean
  Subject:   What is left of a client key password in the memory a PEP handle gives back.

  `pep_setoption` and `pep_destroy` overwrite the handle's copy before they free it, over the length
  `strlen` finds. A copy that is held is a string and one zero, so this is all of it.

  * `Concealed` -- the INVARIANT: the password held is a string, and a block of one that was freed
    has zeros in it only;
  * `freeString_concealed`, `concealed_stored` -- the two steps that touch passwords;
  * **`passwords_erased`** -- no block of a password that was freed holds a byte of it.
-/
import ArgusPep.Argus.HandleRuns

namespace ArgusPep.HandleMemory

open Lib Lib.Lifetime

/-! ## 1. Strings in blocks -/

/-- A string, and the zero behind it. -/
def HoldsString (bytes : Bytes) : Prop := ∃ text : CString, bytes = text.bytes ++ [0]

/-- Zeros only. -/
def Zeros (bytes : Bytes) : Prop := ∃ k, bytes = List.replicate (k + 1) 0

theorem strlen_string (text : CString) : strlen (text.bytes ++ [0]) = text.bytes.length := by
  have hall : text.bytes.takeWhile (· ≠ 0) = text.bytes :=
    List.takeWhile_eq_self_iff.mpr fun b hb => decide_eq_true fun hzero => text.nulFree (hzero ▸ hb)
  unfold strlen
  rw [List.takeWhile_append, hall, if_pos rfl]
  simp

/-- Overwritten up to its end, a string leaves zeros. -/
theorem zeros_of_string {bytes : Bytes} (h : HoldsString bytes) :
    Zeros (List.replicate (strlen bytes) 0 ++ bytes.drop (strlen bytes)) := by
  obtain ⟨text, rfl⟩ := h
  refine ⟨text.bytes.length, ?_⟩
  rw [strlen_string, List.drop_left, List.replicate_succ']

/-! ## 2. The invariant -/

/-- The block of a password is freed. -/
def PasswordFreed (w : HandleWorld) (n : Nat) : Prop :=
  .freed (.string .clientKeypassword n) ∈ w.events

/-- **The invariant**: the password of the handle is a string, and blocks of passwords that were
    freed have zeros in them. -/
structure Concealed (w : HandleWorld) : Prop where
  held : ∀ n, w.pep.strings .clientKeypassword = some n →
    n < w.created ∧ HoldsString (w.contents n)
  freed : ∀ n, PasswordFreed w n → n < w.created ∧ Zeros (w.contents n)

section Steps

variable {ε : Type} {w : HandleWorld} {E : ε → HandleWorld → Prop} {n : Nat}

theorem passwordFreed_append {more : List MemoryEvent}
    (hmore : .freed (.string .clientKeypassword n) ∉ more)
    (h : PasswordFreed { w with events := w.events ++ more } n) : PasswordFreed w n :=
  (List.mem_append.mp h).resolve_right hmore

theorem concealed_stable : Stable Concealed where
  events more h hmore := ⟨h.held, fun n hn => h.freed n (passwordFreed_append (hmore _ n) hn)⟩
  pointers pep h hsame := by
    refine ⟨fun n hn => h.held n ?_, h.freed⟩
    rcases hsame .clientKeypassword with heq | hnone
    · exact heq ▸ hn
    · cases hnone.symm.trans hn
  counters created asked answered h hle :=
    ⟨fun n hn => ⟨Nat.lt_of_lt_of_le (h.held n hn).1 hle, (h.held n hn).2⟩,
      fun n hn => ⟨Nat.lt_of_lt_of_le (h.freed n hn).1 hle, (h.freed n hn).2⟩⟩

/-- **The password is overwritten, and then freed.** -/
theorem freeString_concealed (name : StringName) :
    Keeps Concealed (freeString name : OnHandle ε Unit) := by
  intro w h
  unfold freeString
  refine Ensures.get ?_
  cases hstring : w.pep.strings name with
  | none => exact Ensures.pure h
  | some n =>
    refine Ensures.ite (fun hname => ?_) fun hname => ?_
    · subst hname
      obtain ⟨hlt, hholds⟩ := h.held n hstring
      have hzeros := zeros_of_string hholds
      refine ⟨fun m hm => ?_, fun m hm => ?_⟩
      · have hnone : (w.pep.withString .clientKeypassword none).strings .clientKeypassword = some m :=
          hm
        simp [PepMemory.withString] at hnone
      · show m < w.created ∧ Zeros (Function.update w.contents n _ m)
        by_cases heq : m = n
        · rw [heq, Function.update_self]
          exact ⟨hlt, hzeros⟩
        · rw [Function.update_of_ne heq]
          have hmem : .freed (.string .clientKeypassword m) ∈
              w.events ++ [.wiped (.string .clientKeypassword n)]
                ++ [.freed (.string .clientKeypassword n)] := hm
          exact h.freed m (by simpa [PasswordFreed, heq] using hmem)
    · have hkept : Concealed { w with events := w.events ++ [.freed (.string name n)] } :=
        ⟨h.held, fun m hm => h.freed m (passwordFreed_append (by simp [Ne.symm hname]) hm)⟩
      refine concealed_stable.pointers (w.pep.withString name none) hkept fun name' => ?_
      by_cases heq : name' = name
      · exact .inr (by simp [PepMemory.withString, heq])
      · exact .inl (by simp [PepMemory.withString, heq])

/-- **A new string changes no block there was.** -/
theorem concealed_stored (name : StringName) (text : CString) (h : Concealed w) :
    Concealed (w.stored name text) where
  held n hn := by
    show n < w.created + 1 ∧ HoldsString (Function.update w.contents w.created _ n)
    by_cases hname : name = .clientKeypassword
    · obtain rfl : w.created = n := by
        subst hname
        simpa [HandleWorld.stored, PepMemory.withString] using hn
      rw [Function.update_self]
      exact ⟨Nat.lt_succ_self _, text, rfl⟩
    · have hold : w.pep.strings .clientKeypassword = some n := by
        simpa [HandleWorld.stored, PepMemory.withString, Ne.symm hname] using hn
      obtain ⟨hlt, hholds⟩ := h.held n hold
      rw [Function.update_of_ne (Nat.ne_of_lt hlt)]
      exact ⟨Nat.lt_succ_of_lt hlt, hholds⟩
  freed n hn := by
    show n < w.created + 1 ∧ Zeros (Function.update w.contents w.created _ n)
    have hold : PasswordFreed w n := by
      simpa [HandleWorld.stored, PasswordFreed] using hn
    obtain ⟨hlt, hzeros⟩ := h.freed n hold
    rw [Function.update_of_ne (Nat.ne_of_lt hlt)]
    exact ⟨Nat.lt_succ_of_lt hlt, hzeros⟩

theorem concealed_stringStable : StringStable Concealed where
  toStable := concealed_stable
  freeString := freeString_concealed
  stored := concealed_stored
  attempts _ _ h := ⟨h.held, h.freed⟩

end Steps

/-! ## 3. A whole life -/

/-- The blocks of passwords that were freed have zeros in them only. -/
def Erased (w : HandleWorld) : Prop := ∀ n, PasswordFreed w n → Zeros (w.contents n)

/-- **No block of a password that was freed holds a byte of it**, behind each of the calls and at the
    end, whichever call freed it and whatever fails. -/
theorem passwords_erased (keepsStrings : Bool) (granted : Nat → Bool) (answers : Nat → CurlCode)
    (calls : List HandleCall) :
    (∀ w, pepInitialize.run (.start granted answers) = (.ok (), w) →
      Erased (runCalls keepsStrings calls w)) ∧
    Erased (handleLife keepsStrings calls (.start granted answers)) := by
  have hstart : Concealed (.start granted answers) := by
    refine ⟨fun n hn => ?_, fun n hn => ?_⟩
    · cases hn
    · exact absurd hn List.not_mem_nil
  refine ⟨fun w hw => ?_, fun n hn => ?_⟩
  · have hmade := (concealed_stable.pepInitialize _ hstart).after
    rw [hw] at hmade
    exact fun n hn => ((concealed_stringStable.runCalls keepsStrings calls hmade).freed n hn).2
  · exact ((concealed_stringStable.handleLife keepsStrings calls hstart).freed n hn).2

end ArgusPep.HandleMemory
