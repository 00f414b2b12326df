/-
  File:      ArgusPep/Hessian/SafeSteps.lean
  Subject:   The risky steps of the deserializers, and the parts of the parser without elements.

  An allocator that refuses what is above `PTRDIFF_MAX` and answers the rest as it likes is
  `Mem.bounded answers`.

  * `Step.Safe` -- a risky step does not go wrong from the state before it;
  * `TameReading` -- a deserializer keeps its steps safe or faults at one that is not, reads on or
    stays, and does not run out of fuel; `honest_visit` is the rule for a risky step;
  * `readText_granted`, `readText_refused` -- the array of a text is not NULL exactly when its two
    length bytes are there and the allocator grants its three requests;
  * `tame_hessianStringDeserialize`, `tame_hessianBinaryDeserialize`, … -- the scalar classes;
  * `tame_hessianDelete` -- the destructors.
-/
import ArgusPep.Hessian.Deserialize
import ArgusPep.Lib.Utf8

namespace ArgusPep

open Lib Run

/-! ## 1. Safe steps -/

namespace Mem

/-- Refuses what is above `PTRDIFF_MAX` and has these answers to the requests within it. -/
def bounded (answers : List Bool) : Mem := ⟨some PTRDIFF_MAX, answers⟩

/-- The next `k` requests are granted, if within the bound. -/
def grantsNext (m : Mem) (k : Nat) : Bool := (m.script.take k).all id

theorem refuses_bounded {answers : List Bool} {n : Nat} (h : n ≤ PTRDIFF_MAX) :
    (bounded answers).refuses n = false := by
  simp only [refuses, bounded, Option.any_some, decide_eq_false_iff_not]
  omega

theorem grants_bounded {answers : List Bool} {n : Nat} (h : n ≤ PTRDIFF_MAX) :
    (bounded answers).grants n = answers.headD true := by
  unfold grants
  rw [refuses_bounded h]
  rfl

theorem after_bounded {answers : List Bool} {n : Nat} (h : n ≤ PTRDIFF_MAX) :
    (bounded answers).after n = bounded answers.tail := by
  unfold after
  rw [refuses_bounded h]
  rfl

theorem grants_bounded_of_gt {answers : List Bool} {n : Nat} (h : PTRDIFF_MAX < n) :
    (bounded answers).grants n = false := by
  simp only [grants, refuses, bounded, Option.any_some, h, decide_true, Bool.not_true,
    Bool.false_and]

theorem exists_after_bounded (answers : List Bool) (n : Nat) :
    ∃ answers', (bounded answers).after n = bounded answers' := by
  rcases Nat.lt_or_ge PTRDIFF_MAX n with h | h
  · refine ⟨answers, ?_⟩
    unfold after
    rw [if_pos (by simp only [refuses, bounded, Option.any_some, h, decide_true])]
  · exact ⟨answers.tail, after_bounded h⟩

@[simp] theorem grantsNext_zero (m : Mem) : m.grantsNext 0 = true := rfl

theorem grantsNext_succ (answers : List Bool) (k : Nat) :
    (bounded answers).grantsNext (k + 1)
      = (answers.headD true && (bounded answers.tail).grantsNext k) := by
  unfold grantsNext bounded
  cases answers with
  | nil => simp only [List.take_nil, List.all_nil, List.headD_nil, List.tail_nil, Bool.true_and]
  | cons a answers =>
    simp only [List.take_succ_cons, List.all_cons, id_eq, List.headD_cons, List.tail_cons]

end Mem

/-- The step does not go wrong. -/
def Step.Safe : Step → Prop
  -- the length is there, and the buffer and the array of the text are granted
  | .readChunk input mem => 2 ≤ input.length ∧ mem.grantsNext 3 = true
  -- the binary itself is refused
  | .copyLost mem => mem.grants 0 = false
  -- a Ref names an element, and the node is granted
  | .linkElement n object mem => (refIndex n 0 object).isSome = true ∧ mem.grants 16 = true
  -- no object is deleted twice, and the scratch array is granted
  | .deleteElements n dangling mem => dangling = false ∧ (n = 0 ∨ mem.grants (8 * n) = true)

instance : DecidablePred Step.Safe
  | .readChunk _ _ => inferInstanceAs (Decidable (_ ∧ _))
  | .copyLost _ => inferInstanceAs (Decidable (_ = _))
  | .linkElement _ _ _ => inferInstanceAs (Decidable (_ ∧ _))
  | .deleteElements _ _ _ => inferInstanceAs (Decidable (_ ∧ (_ ∨ _)))

/-- The steps so far were safe, and the allocator is one of those considered. -/
structure Reader.Ok (s : Reader) : Prop where
  bounded : ∃ answers, s.mem = Mem.bounded answers
  safe : ∀ step ∈ s.steps, step.Safe

/-- A step went wrong. -/
def Reader.Harmed (s : Reader) : Prop := ∃ step ∈ s.steps, ¬ step.Safe

/-- The measure of a reader: what is left to read. -/
def Reader.left (s : Reader) : Nat := s.input.length

theorem Reader.Ok.visit {s : Reader} {step : Step} (hs : s.Ok) (h : step.Safe) :
    Reader.Ok { s with steps := step :: s.steps } := by
  refine ⟨hs.bounded, ?_⟩
  intro t ht
  rcases List.mem_cons.mp ht with rfl | ht
  · exact h
  · exact hs.safe t ht

theorem Reader.Ok.after {s : Reader} (hs : s.Ok) (n : Nat) :
    Reader.Ok { s with mem := s.mem.after n } := by
  obtain ⟨answers, hmem⟩ := hs.bounded
  obtain ⟨answers', hafter⟩ := Mem.exists_after_bounded answers n
  exact ⟨⟨answers', by rw [← hafter, ← hmem]⟩, hs.safe⟩

section Tame

variable {α β : Type}

/-- A deserializer whose faults are told by an unsafe step. -/
abbrev OrderlyReading (m : Reading α) : Prop := Orderly Reader.Ok Reader.Harmed Reader.left m

/-- And one that does not run out of fuel. -/
abbrev TameReading (m : Reading α) : Prop := Tame Reader.Ok Reader.Harmed Reader.left m

/-- A risky step: safe, what follows goes on; not safe, it faults. -/
theorem honest_visit {step : Reader → Step} {f : Unit → Reading α}
    (hsafe : ∀ s : Reader, s.Ok → (step s).Safe →
      HonestAt Reader.Ok Reader.Harmed (f ()) { s with steps := step s :: s.steps })
    (hfault : ∀ s : Reader, s.Ok → ¬ (step s).Safe →
      ∃ t, f () { s with steps := step s :: s.steps } = .fault t ∧ step s ∈ t.steps) :
    Honest Reader.Ok Reader.Harmed (Reading.visit step >>= f) := by
  intro s hs
  by_cases h : (step s).Safe
  · exact honestAt_bind_done rfl (hsafe s hs h)
  · obtain ⟨t, ht, hmem⟩ := hfault s hs h
    exact honestAt_bind_done rfl (honestAt_fault ht ⟨_, hmem, h⟩)

theorem shrinks_visit (step : Reader → Step) : Shrinks Reader.left (Reading.visit step) := by
  intro _ _ s' h
  cases h
  exact Nat.le_refl _

theorem tame_visit_bind {step : Reader → Step} {f : Unit → Reading α}
    (hhonest : Honest Reader.Ok Reader.Harmed (Reading.visit step >>= f))
    (hf : Shrinks Reader.left (f ()) ∧ ∀ s, Lively (f ()) s) :
    TameReading (Reading.visit step >>= f) :=
  ⟨⟨hhonest, (shrinks_visit step).bind fun _ => hf.1⟩,
    fun _ => Lively.bind nofun fun _ s' _ => hf.2 s'⟩

theorem take_bind (f : Bytes → α × Bytes) (g : α → Reading β) (s : Reader) :
    (Reading.take f >>= g) s = g (f s.input).1 { s with input := (f s.input).2 } := rfl

theorem calloc_bind (n : Nat) (g : Bool → Reading β) (s : Reader) :
    (Reading.calloc n >>= g) s = g (s.mem.grants n) { s with mem := s.mem.after n } := rfl

theorem tame_take {f : Bytes → α × Bytes} (h : ∀ input, (f input).2.length ≤ input.length) :
    TameReading (Reading.take f) := by
  refine ⟨⟨fun s hs => ⟨hs.bounded, hs.safe⟩, ?_⟩, fun _ => nofun⟩
  intro s a s' e
  cases e
  exact h s.input

theorem tame_calloc (n : Nat) : TameReading (Reading.calloc n) := by
  refine ⟨⟨fun s hs => hs.after n, ?_⟩, fun _ => nofun⟩
  intro s a s' e
  cases e
  exact Nat.le_refl _

/-- An allocation, and what is done with and without it. -/
theorem tame_calloc_then {n : Nat} {m m' : Reading α} (hm : TameReading m)
    (hm' : TameReading m') :
    TameReading (do if ← Reading.calloc n then m else m') :=
  (tame_calloc n).bind fun _ => Tame.ite hm hm'

end Tame

/-! ## 2. Texts -/

theorem tame_bufferGetc : TameReading bufferGetc := tame_take getc_length

theorem tame_bufferCreate (n : Nat) : TameReading (bufferCreate n) :=
  tame_calloc_then (tame_calloc _) (tame_pure _)

theorem bytesGetc_length (n : Nat) (input : Bytes) :
    (bytesGetc n input).2.length ≤ input.length := by
  show (input.drop n).length ≤ input.length
  rw [List.length_drop]
  omega

theorem utf8Chars_length : ∀ (n : Nat) (input : Bytes),
    (utf8Chars n input).2.length ≤ input.length
  | 0, _ => Nat.le_refl _
  | n + 1, input => by
    unfold utf8Chars
    dsimp only
    have hget := getc_length input
    have hmore := bytesGetc_length (mbytes (getc input).1) (getc input).2
    have hrest := utf8Chars_length n (bytesGetc (mbytes (getc input).1) (getc input).2).2
    omega

theorem mbytes_le (byte : CInt) : mbytes byte ≤ 3 := by
  unfold mbytes
  split
  · split
    · omega
    · split
      · omega
      · split <;> omega
  · omega

/-- A character takes four bytes of the array at most. -/
theorem utf8Chars_array_length : ∀ (n : Nat) (input : Bytes),
    (utf8Chars n input).1.length ≤ 4 * n
  | 0, _ => Nat.le_refl _
  | n + 1, input => by
    unfold utf8Chars
    dsimp only
    have hlead := mbytes_le (getc input).1
    have hrest := utf8Chars_array_length n (bytesGetc (mbytes (getc input).1) (getc input).2).2
    have hmore : (bytesGetc (mbytes (getc input).1) (getc input).2).1.length ≤ 3 := by
      simp only [bytesGetc, List.length_append, List.length_take, List.length_replicate]
      omega
    rw [List.length_cons, List.length_append]
    omega

theorem tame_utf8Bgets (n : Nat) : TameReading (utf8Bgets n) :=
  (tame_bufferCreate n).bind fun _ => .ite
    ((tame_take (utf8Chars_length n)).bind fun _ => tame_calloc_then (tame_pure _) (tame_pure _))
    (tame_pure _)

theorem tame_readText : TameReading readText :=
  tame_bufferGetc.bind fun _ => tame_bufferGetc.bind fun _ => tame_utf8Bgets _

/-- A length that ends with the input is larger than every allocation. -/
theorem size16_eof (b : UInt8) : PTRDIFF_MAX < size16 (UInt8.int b) BUFFER_EOF :=
  Lib.Utf8.forall_byte (P := fun b => PTRDIFF_MAX < size16 (UInt8.int b) BUFFER_EOF)
    (by decide +kernel) b

theorem size16_eof_eof : PTRDIFF_MAX < size16 BUFFER_EOF BUFFER_EOF := by decide

section Texts

variable {s : Reader} {answers : List Bool} {n : Nat}

/-- The requests of `buffer_create`, the second for a buffer of `n` bytes. -/
theorem bufferCreate_eq (hs : s.mem = Mem.bounded answers) : bufferCreate n s =
    if answers.headD true then
      .done ((Mem.bounded answers.tail).grants (if n < 2 then 16 else n))
        { s with mem := (Mem.bounded answers.tail).after (if n < 2 then 16 else n) }
    else .done false { s with mem := Mem.bounded answers.tail } := by
  have h32 : (32 : Nat) ≤ PTRDIFF_MAX := by decide
  have hfirst : Reading.calloc 32 s
      = .done (answers.headD true) { s with mem := Mem.bounded answers.tail } := by
    unfold Reading.calloc
    rw [hs, Mem.grants_bounded h32, Mem.after_bounded h32]
  unfold bufferCreate
  rw [bind_done hfirst]
  cases answers.headD true with
  | true => rfl
  | false => rfl

theorem bufferCreate_granted (hs : s.mem = Mem.bounded answers) (hn : n ≤ PTRDIFF_MAX)
    (hg : (Mem.bounded answers).grantsNext 2 = true) :
    bufferCreate n s = .done true { s with mem := Mem.bounded answers.tail.tail } := by
  rw [Mem.grantsNext_succ, Mem.grantsNext_succ, Bool.and_eq_true, Bool.and_eq_true] at hg
  have hsize : (if n < 2 then 16 else n) ≤ PTRDIFF_MAX := by
    split
    · decide
    · exact hn
  rw [bufferCreate_eq hs, if_pos hg.1, Mem.grants_bounded hsize, Mem.after_bounded hsize, hg.2.1]

theorem bufferCreate_refused (hs : s.mem = Mem.bounded answers)
    (hg : PTRDIFF_MAX < n ∨ (Mem.bounded answers).grantsNext 2 = false) :
    ∃ mem, bufferCreate n s = .done false { s with mem := mem } := by
  rw [bufferCreate_eq hs]
  cases hfirst : answers.headD true with
  | false => exact ⟨_, rfl⟩
  | true =>
    rw [if_pos rfl]
    suffices h : (Mem.bounded answers.tail).grants (if n < 2 then 16 else n) = false by
      rw [h]
      exact ⟨_, rfl⟩
    rcases Nat.lt_or_ge PTRDIFF_MAX n with hn | hn
    · have hsize : ¬ n < 2 := fun h => absurd (Nat.lt_trans hn h) (by decide)
      rw [if_neg hsize, Mem.grants_bounded_of_gt hn]
    · have hsize : (if n < 2 then 16 else n) ≤ PTRDIFF_MAX := by
        split
        · decide
        · exact hn
      rcases hg with h | h
      · omega
      · rw [Mem.grantsNext_succ, hfirst, Mem.grantsNext_succ, Mem.grantsNext_zero] at h
        simpa only [Bool.true_and, Bool.and_true, Mem.grants_bounded hsize] using h

theorem utf8Bgets_granted (hs : s.mem = Mem.bounded answers) (hn : n < 65536)
    (hg : (Mem.bounded answers).grantsNext 3 = true) :
    utf8Bgets n s = .done (some (utf8Chars n s.input).1)
      { s with input := (utf8Chars n s.input).2, mem := Mem.bounded answers.tail.tail.tail } := by
  rw [Mem.grantsNext_succ, Mem.grantsNext_succ, Mem.grantsNext_succ, Bool.and_eq_true,
    Bool.and_eq_true, Bool.and_eq_true] at hg
  have hmax : (262144 : Nat) ≤ PTRDIFF_MAX := by decide
  have hcreate : bufferCreate n s = .done true { s with mem := Mem.bounded answers.tail.tail } := by
    refine bufferCreate_granted hs (by omega) ?_
    rw [Mem.grantsNext_succ, Mem.grantsNext_succ, hg.1, hg.2.1]
    rfl
  have hsize : (utf8Chars n s.input).1.length + 1 ≤ PTRDIFF_MAX := by
    have := utf8Chars_array_length n s.input
    omega
  unfold utf8Bgets
  rw [bind_done hcreate, if_pos rfl, take_bind, calloc_bind]
  dsimp only
  rw [Mem.grants_bounded hsize, hg.2.2.1, if_pos rfl, Mem.after_bounded hsize]
  rfl

theorem utf8Bgets_refused (hs : s.mem = Mem.bounded answers)
    (hg : PTRDIFF_MAX < n ∨ n < 65536 ∧ (Mem.bounded answers).grantsNext 3 = false) :
    ∃ t, utf8Bgets n s = .done none t ∧ t.steps = s.steps := by
  by_cases hcreate : n < 65536 ∧ (Mem.bounded answers).grantsNext 2 = true
  · -- the buffer is there, so it is the array that is refused
    obtain ⟨hn, h2⟩ := hcreate
    have hmax : (262144 : Nat) ≤ PTRDIFF_MAX := by decide
    have hsize : (utf8Chars n s.input).1.length + 1 ≤ PTRDIFF_MAX := by
      have := utf8Chars_array_length n s.input
      omega
    have hthird : answers.tail.tail.headD true = false := by
      rcases hg with h | ⟨_, h⟩
      · omega
      · rw [Mem.grantsNext_succ, Mem.grantsNext_succ, Bool.and_eq_true, Bool.and_eq_true] at h2
        rw [Mem.grantsNext_succ, Mem.grantsNext_succ, Mem.grantsNext_succ, h2.1, h2.2.1] at h
        simpa only [Mem.grantsNext_zero, Bool.true_and, Bool.and_true] using h
    unfold utf8Bgets
    rw [bind_done (bufferCreate_granted hs (by omega) h2), if_pos rfl, take_bind, calloc_bind]
    dsimp only
    rw [Mem.grants_bounded hsize, hthird, if_neg Bool.false_ne_true]
    exact ⟨_, rfl, rfl⟩
  · have hrefused : PTRDIFF_MAX < n ∨ (Mem.bounded answers).grantsNext 2 = false := by
      rcases hg with h | ⟨h, _⟩
      · exact .inl h
      · exact .inr (Bool.eq_false_iff.mpr fun h2 => hcreate ⟨h, h2⟩)
    obtain ⟨mem, hbuffer⟩ := bufferCreate_refused hs hrefused
    unfold utf8Bgets
    rw [bind_done hbuffer, if_neg Bool.false_ne_true]
    exact ⟨_, rfl, rfl⟩

end Texts

/-- The two length bytes are there, and the allocator grants what the text needs. -/
theorem readText_granted {s : Reader} (hs : s.Ok)
    (h : 2 ≤ s.input.length ∧ s.mem.grantsNext 3 = true) :
    ∃ utf8 t, readText s = .done (some utf8) t ∧ t.Ok := by
  obtain ⟨hlen, hg⟩ := h
  obtain ⟨answers, hmem⟩ := hs.bounded
  obtain ⟨input, mem, steps⟩ := s
  match input, hlen with
  | b16 :: b8 :: input, _ =>
    have hn : size16 (UInt8.int b16) (UInt8.int b8) < 65536 := by
      have h16 := b16.toNat_lt
      have h8 := b8.toNat_lt
      rw [size16_int]
      omega
    have hrun := utf8Bgets_granted (s := ⟨input, mem, steps⟩) hmem hn
      (hmem ▸ hg)
    have hread : readText ⟨b16 :: b8 :: input, mem, steps⟩
        = utf8Bgets (size16 (UInt8.int b16) (UInt8.int b8)) ⟨input, mem, steps⟩ := rfl
    exact ⟨_, _, hread.trans hrun, ⟨_, rfl⟩, hs.safe⟩

/-- Otherwise `utf8_bgets` returns NULL. -/
theorem readText_refused {s : Reader} {answers : List Bool} (hmem : s.mem = Mem.bounded answers)
    (h : ¬ (2 ≤ s.input.length ∧ s.mem.grantsNext 3 = true)) :
    ∃ t, readText s = .done none t ∧ t.steps = s.steps := by
  obtain ⟨input, mem, steps⟩ := s
  match input with
  | [] =>
    unfold readText bufferGetc
    rw [take_bind, take_bind]
    exact utf8Bgets_refused hmem (.inl size16_eof_eof)
  | [b16] =>
    unfold readText bufferGetc
    rw [take_bind, take_bind]
    exact utf8Bgets_refused hmem (.inl (size16_eof b16))
  | b16 :: b8 :: input =>
    have hn : size16 (UInt8.int b16) (UInt8.int b8) < 65536 := by
      have h16 := b16.toNat_lt
      have h8 := b8.toNat_lt
      rw [size16_int]
      omega
    have hg : mem.grantsNext 3 = false :=
      Bool.eq_false_iff.mpr fun hg => h ⟨by simp only [List.length_cons]; omega, hg⟩
    unfold readText bufferGetc
    rw [take_bind, take_bind]
    exact utf8Bgets_refused hmem (.inr ⟨hn, hmem ▸ hg⟩)

/-! ## 3. Strings, binaries and the other scalar classes -/

theorem orderly_stringChunks (cls : HessianClass) : ∀ (fuel : Nat) (tag : CInt) (sb : CString),
    OrderlyReading (stringChunks cls fuel tag sb)
  | 0, _, _ => orderly_outOfFuel
  | fuel + 1, tag, sb => by
    have hnext (sb : CString) : OrderlyReading (if tag = Char.int cls.chunkTag then
        (do let tag ← bufferGetc
            stringChunks cls fuel tag sb)
        else pure sb) := by
      split
      · exact tame_bufferGetc.toOrderly.bind fun tag => orderly_stringChunks cls fuel tag sb
      · exact (tame_pure _).toOrderly
    unfold stringChunks
    refine ⟨honest_visit (fun s hs hsafe => ?_) (fun s hs hfault => ?_), ?_⟩
    · obtain ⟨utf8, t, hread, ht⟩ := readText_granted (hs.visit hsafe) hsafe
      exact honestAt_bind_done hread ((hnext _).honest t ht)
    · obtain ⟨answers, hmem⟩ := hs.bounded
      obtain ⟨t, hread, hsteps⟩ := readText_refused (s := { s with
        steps := .readChunk s.input s.mem :: s.steps }) hmem hfault
      refine ⟨t, by rw [bind_done hread]; rfl, ?_⟩
      rw [hsteps]
      exact List.mem_cons_self
    · refine (shrinks_visit _).bind fun _ => tame_readText.shrinks.bind fun text => ?_
      cases text with
      | none => exact shrinks_undefined _
      | some utf8 => exact (hnext _).shrinks

/-- A tag was read, or the input is at its end. -/
theorem bufferGetc_left {s s' : Reader} {tag : CInt} (h : bufferGetc s = .done tag s') :
    s'.left + 1 ≤ s.left ∨ tag = BUFFER_EOF ∧ s'.left = 0 := by
  obtain ⟨input, mem, steps⟩ := s
  cases input with
  | nil =>
    cases h
    exact .inr ⟨rfl, rfl⟩
  | cons b input =>
    cases h
    exact .inl (Nat.le_refl _)

/-- Every round but the last one reads the tag of the next. -/
theorem lively_stringChunks {cls : HessianClass} (hcls : Char.int cls.chunkTag ≠ BUFFER_EOF) :
    ∀ (fuel : Nat) (tag : CInt) (sb : CString) (s : Reader),
      s.left + 2 ≤ fuel ∨ tag = BUFFER_EOF ∧ 1 ≤ fuel → Lively (stringChunks cls fuel tag sb) s
  | 0, _, _, _, h => by omega
  | fuel + 1, tag, sb, s, h => by
    unfold stringChunks
    refine Lively.bind nofun fun _ t ht => ?_
    refine (tame_readText.lively t).bind fun text u hu => ?_
    have hleft : u.left ≤ s.left :=
      Nat.le_trans (tame_readText.shrinks t text u hu) (shrinks_visit _ s _ t ht)
    cases text with
    | none => nofun
    | some utf8 =>
      dsimp only
      split
      · rename_i htag
        rcases h with h | ⟨rfl, _⟩
        · refine Lively.bind nofun fun tag v hv => lively_stringChunks hcls fuel tag _ v ?_
          rcases bufferGetc_left hv with hv | ⟨hv, _⟩
          · exact .inl (by omega)
          · exact .inr ⟨hv, by omega⟩
        · exact absurd htag.symm hcls
      · nofun

/-- A loop that is given fuel for what is left. -/
theorem tame_read_bind {α : Type} (loop : Nat → Reading α)
    (horderly : ∀ n, OrderlyReading (loop n)) (hlively : ∀ s, Lively (loop s.left) s) :
    TameReading (read >>= fun s => loop s.input.length) := by
  refine ⟨tame_read.toOrderly.bind fun s => horderly _, fun s => ?_⟩
  refine Lively.bind nofun fun t s' h => ?_
  cases h
  exact hlively s

theorem tame_hessianStringDeserialize {cls : HessianClass} (tag : CInt)
    (hcls : Char.int cls.chunkTag ≠ BUFFER_EOF) :
    TameReading (hessianStringDeserialize cls tag) := by
  have hloop : TameReading (do
      let s ← read
      stringChunks cls (s.input.length + 2) tag .empty) := by
    refine tame_read_bind (fun n => stringChunks cls (n + 2) tag .empty)
      (fun n => orderly_stringChunks cls _ tag _)
      (fun s => lively_stringChunks hcls _ tag _ s (.inl (Nat.le_refl _)))
  unfold hessianStringDeserialize
  refine Tame.ite tame_fail ?_
  refine (tame_bufferCreate _).bind fun created => Tame.ite ?_ tame_fail
  exact hloop.bind fun sb => tame_calloc_then (tame_pure _) tame_fail

theorem tame_readBytes (buf : BinaryBuffer) : TameReading (readBytes buf) := by
  have hdrop (n : Nat) : TameReading (update fun s : Reader =>
      { s with input := s.input.drop n }) := by
    refine ⟨⟨fun s hs => ⟨hs.bounded, hs.safe⟩, ?_⟩, fun _ => nofun⟩
    intro s _ s' h
    cases h
    show (s.input.drop n).length ≤ s.input.length
    rw [List.length_drop]
    omega
  exact tame_bufferGetc.bind fun b16 => tame_bufferGetc.bind fun b8 =>
    tame_read.bind fun s => (hdrop _).bind fun _ => tame_pure _

theorem orderly_binaryGetChunks (cls : HessianClass) :
    ∀ (fuel : Nat) (tag : CInt) (buf : BinaryBuffer),
      OrderlyReading (binaryGetChunks cls fuel tag buf)
  | 0, _, _ => orderly_outOfFuel
  | fuel + 1, tag, buf => by
    unfold binaryGetChunks
    refine (tame_readBytes buf).toOrderly.bind fun buf => ?_
    split
    · exact tame_bufferGetc.toOrderly.bind fun tag => orderly_binaryGetChunks cls fuel tag buf
    · exact (tame_pure _).toOrderly

theorem lively_binaryGetChunks {cls : HessianClass} (hcls : Char.int cls.chunkTag ≠ BUFFER_EOF) :
    ∀ (fuel : Nat) (tag : CInt) (buf : BinaryBuffer) (s : Reader),
      s.left + 2 ≤ fuel ∨ tag = BUFFER_EOF ∧ 1 ≤ fuel →
      Lively (binaryGetChunks cls fuel tag buf) s
  | 0, _, _, _, h => by omega
  | fuel + 1, tag, buf, s, h => by
    unfold binaryGetChunks
    refine ((tame_readBytes buf).lively s).bind fun buf' u hu => ?_
    have hleft : u.left ≤ s.left := (tame_readBytes buf).shrinks s buf' u hu
    split
    · rename_i htag
      rcases h with h | ⟨rfl, _⟩
      · refine Lively.bind nofun fun tag v hv => lively_binaryGetChunks hcls fuel tag _ v ?_
        rcases bufferGetc_left hv with hv | ⟨hv, _⟩
        · exact .inl (by omega)
        · exact .inr ⟨hv, by omega⟩
      · exact absurd htag.symm hcls
    · nofun

/-- A buffer without data: the binary is refused, or copied from NULL. -/
theorem tame_copyLost : TameReading (do
    Reading.visit fun s => .copyLost s.mem
    if ← Reading.calloc 0 then (undefined : Reading Bytes) else fail) := by
  refine tame_visit_bind (honest_visit (fun s hs hsafe => ?_) fun s hs hfault => ?_) ⟨?_, ?_⟩
  · refine honestAt_bind_done rfl ?_
    rw [show s.mem.grants 0 = false from hsafe, if_neg Bool.false_ne_true]
    exact honest_fail _ _ _ ((hs.visit hsafe).after 0)
  · have hgrants : s.mem.grants 0 = true := by
      by_contra h
      exact hfault (Bool.eq_false_iff.mpr h)
    refine ⟨{ s with steps := .copyLost s.mem :: s.steps, mem := s.mem.after 0 }, ?_,
      List.mem_cons_self⟩
    rw [calloc_bind, hgrants]
    rfl
  · refine (tame_calloc 0).shrinks.bind fun granted => ?_
    split
    · exact shrinks_undefined _
    · exact shrinks_fail _
  · intro s
    refine Lively.bind nofun fun granted t _ => ?_
    split <;> nofun

theorem tame_hessianBinaryDeserialize {cls : HessianClass} (tag : CInt)
    (hcls : Char.int cls.chunkTag ≠ BUFFER_EOF) :
    TameReading (hessianBinaryDeserialize cls tag) := by
  have hloop (buf : BinaryBuffer) : TameReading (do
      let s ← read
      binaryGetChunks cls (s.input.length + 2) tag buf) := by
    refine tame_read_bind (fun n => binaryGetChunks cls (n + 2) tag buf)
      (fun n => orderly_binaryGetChunks cls _ tag _)
      (fun s => lively_binaryGetChunks hcls _ tag _ s (.inl (Nat.le_refl _)))
  unfold hessianBinaryDeserialize
  refine Tame.ite tame_fail ?_
  refine (tame_bufferCreate _).bind fun created => (hloop _).bind fun buf => ?_
  cases buf with
  | absent => exact tame_calloc_then (tame_pure _) tame_fail
  | holding data => exact tame_calloc_then (tame_pure _) tame_fail
  | lost => exact tame_copyLost

theorem tame_getInt32 : TameReading getInt32 :=
  tame_bufferGetc.bind fun _ => tame_bufferGetc.bind fun _ => tame_bufferGetc.bind fun _ =>
    tame_bufferGetc.bind fun _ => tame_pure _

theorem tame_bufferGetc64 : TameReading bufferGetc64 :=
  tame_bufferGetc.bind fun _ => tame_pure _

theorem tame_hessianIntegerDeserialize (cls : HessianClass) (tag : CInt) :
    TameReading (hessianIntegerDeserialize cls tag) := .ite tame_fail tame_getInt32

theorem tame_hessianLongDeserialize (cls : HessianClass) (tag : CInt) :
    TameReading (hessianLongDeserialize cls tag) := by
  refine .ite tame_fail ?_
  refine tame_bufferGetc64.bind fun b64 => tame_bufferGetc64.bind fun b56 =>
    tame_bufferGetc64.bind fun b48 => tame_bufferGetc64.bind fun b40 => ?_
  exact tame_bufferGetc64.bind fun b32 => tame_bufferGetc64.bind fun b24 =>
    tame_bufferGetc64.bind fun b16 => tame_bufferGetc64.bind fun b8 => tame_pure _

theorem tame_hessianBooleanDeserialize (cls : HessianClass) (tag : CInt) :
    TameReading (hessianBooleanDeserialize cls tag) := .ite tame_fail (tame_pure _)

theorem tame_hessianNullDeserialize (cls : HessianClass) (tag : CInt) :
    TameReading (hessianNullDeserialize cls tag) := .ite tame_fail (tame_pure _)

theorem tame_hessianRemoteDeserialize (cls : HessianClass) (tag : CInt) :
    TameReading (hessianRemoteDeserialize cls tag) := by
  refine .ite tame_fail (tame_bufferGetc.bind fun typeTag => .ite tame_fail ?_)
  refine tame_readText.bind fun type => tame_bufferGetc.bind fun urlTag => .ite tame_fail ?_
  exact tame_readText.bind fun url => tame_pure _

/-! ## 4. Destructors -/

theorem tame_runAll : ∀ {acts : List (Reading Unit)}, (∀ act ∈ acts, TameReading act) →
    TameReading (runAll acts)
  | [], _ => tame_pure _
  | act :: _, h =>
    (h act List.mem_cons_self).bind fun _ => tame_runAll fun a ha => h a (List.mem_cons_of_mem _ ha)

/-- The objects are deleted unless one of them was, or the scratch array is refused. -/
theorem tame_llistDeleteElements (n : Nat) (dangling : Bool) {deletes : List (Reading Unit)}
    (h : ∀ act ∈ deletes, TameReading act) :
    TameReading (llistDeleteElements n dangling deletes) := by
  have hdeletes := tame_runAll h
  refine tame_visit_bind (honest_visit (fun s hs hsafe => ?_) fun s hs hfault => ?_) ⟨?_, ?_⟩
  · obtain ⟨hdangling, hscratch⟩ := hsafe
    have hs' : Reader.Ok { s with steps := .deleteElements n dangling s.mem :: s.steps } :=
      hs.visit ⟨hdangling, hscratch⟩
    rw [if_neg (by rw [hdangling]; decide)]
    refine honestAt_bind_done rfl ?_
    cases hgrants : s.mem.grants (8 * n) with
    | true =>
      rw [if_pos rfl]
      exact hdeletes.honest _ (hs'.after _)
    | false =>
      rw [hgrants] at hscratch
      have hn : n = 0 := hscratch.resolve_right Bool.false_ne_true
      rw [if_neg Bool.false_ne_true, if_pos hn]
      exact honest_pure _ _ _ _ (hs'.after _)
  · cases hdangling : dangling with
    | true => exact ⟨_, rfl, List.mem_cons_self⟩
    | false =>
      have hgrants : s.mem.grants (8 * n) = false := by
        by_contra h
        exact hfault ⟨hdangling, .inr (by rwa [Bool.not_eq_false] at h)⟩
      have hn : n ≠ 0 := fun h => hfault ⟨hdangling, .inl h⟩
      refine ⟨{ s with
        steps := .deleteElements n false s.mem :: s.steps, mem := s.mem.after (8 * n) }, ?_,
        List.mem_cons_self⟩
      rw [if_neg Bool.false_ne_true, calloc_bind, hgrants, if_neg Bool.false_ne_true, if_neg hn]
      rfl
  · split
    · exact shrinks_undefined _
    · refine (tame_calloc _).shrinks.bind fun granted => ?_
      split
      · exact hdeletes.shrinks
      · split
        · exact shrinks_pure _ _
        · exact shrinks_undefined _
  · intro s
    split
    · nofun
    · refine Lively.bind nofun fun granted t _ => ?_
      split
      · exact hdeletes.lively t
      · split <;> nofun

theorem mem_of_mem_linked {α : Type} {links : List Nat} {objects : List α} {a : α}
    (h : a ∈ linked links objects) : a ∈ objects := by
  obtain ⟨i, _, hi⟩ := List.mem_filterMap.mp h
  exact List.mem_of_getElem? hi

theorem tame_addPointers : ∀ pointers : List Nat, TameReading (addPointers pointers)
  | [] => tame_pure _
  | _ :: rest => tame_calloc_then ((tame_addPointers rest).bind fun _ => tame_pure _)
      (tame_addPointers rest)

mutual
theorem tame_hessianDelete : ∀ o : HessianObject, TameReading (hessianDelete o)
  | .list _ elements => by
    unfold hessianDelete
    exact tame_llistDeleteElements _ _ fun act hact =>
      tame_deletesOf elements act (mem_of_mem_linked hact)
  | .map _ pairs => by
    unfold hessianDelete
    refine tame_calloc_then ?_ (tame_pure _)
    refine (tame_addPointers _).bind fun added => ?_
    exact tame_llistDeleteElements _ _ fun act hact =>
      tame_deletesOfPairs pairs act (mem_of_mem_linked hact)
  | .null | .boolean _ | .integer _ | .long _ | .double _ | .date _ | .string _ | .xml _
  | .binary _ | .remote _ _ | .ref _ => by
    unfold hessianDelete
    exact tame_pure _

theorem tame_deletesOf : ∀ (elements : List HessianObject), ∀ act ∈ deletesOf elements,
    TameReading act
  | [], _, h => nomatch h
  | object :: rest, act, h => by
    unfold deletesOf at h
    rcases List.mem_cons.mp h with e | h
    · exact e ▸ tame_hessianDelete object
    · exact tame_deletesOf rest act h

theorem tame_deletesOfPairs : ∀ (pairs : List (HessianObject × HessianObject)),
    ∀ act ∈ deletesOfPairs pairs, TameReading act
  | [], _, h => nomatch h
  | (key, value) :: rest, act, h => by
    unfold deletesOfPairs at h
    rcases List.mem_cons.mp h with e | h
    · exact e ▸ tame_hessianDelete key
    · rcases List.mem_cons.mp h with e | h
      · exact e ▸ tame_hessianDelete value
      · exact tame_deletesOfPairs rest act h
end

theorem tame_deleteElements (refs : List HessianObject) : TameReading (deleteElements refs) :=
  tame_llistDeleteElements _ _ (tame_deletesOf refs)

theorem tame_deletePairs (refs : List (HessianObject × HessianObject)) :
    TameReading (deletePairs refs) :=
  tame_llistDeleteElements _ _ (tame_deletesOfPairs refs)

/-- The clean-up after an element that cannot be kept. -/
theorem tame_addFailed (refs : List HessianObject) (o : HessianObject) : TameReading (do
    hessianDelete o
    deleteElements refs
    (fail : Reading (List HessianObject))) :=
  (tame_hessianDelete o).bind fun _ => (tame_deleteElements refs).bind fun _ => tame_fail

/-- The clean-up after a pair that cannot be kept. -/
theorem tame_pairFailed (refs : List (HessianObject × HessianObject)) (key value : HessianObject) :
    TameReading (do
      hessianDelete key
      hessianDelete value
      deletePairs refs
      (fail : Reading (List (HessianObject × HessianObject)))) :=
  (tame_hessianDelete key).bind fun _ => (tame_hessianDelete value).bind fun _ =>
    (tame_deletePairs refs).bind fun _ => tame_fail

end ArgusPep
