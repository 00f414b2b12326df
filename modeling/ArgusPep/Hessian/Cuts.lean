/-
  File:      ArgusPep/Hessian/Cuts.lean
  Subject:   What the deserializers make of bytes that were cut off.

  The allocator is `Mem.generous`: it grants every request up to `PTRDIFF_MAX`.

  * `Ends m w P` -- on the input `w`, `m` reads to the end of the input and returns a value with
    `P`; `Refused m w` -- on the input `w`, `m` returns nothing;
  * `Cut m w R P` -- on the input `w`, `m` is refused if `R` holds and ends with `P` if not;
  * `lastChunk`, `lastText` -- the last chunk of a value;
  * `cut_string`, `cut_binary`, `cut_remote`, … -- **where a scalar can be cut without its
    deserializer noticing**.
-/
import ArgusPep.Hessian.TreeCodec
import ArgusPep.Hessian.SafeSteps

namespace ArgusPep

open Lib Run Utf8 Reading

/-! ## 1. Reading to the end of the input -/

section Rules

variable {α β : Type} {m : Reading α} {f : α → Reading β} {P : α → Prop} {Q : β → Prop}
  {v w : Bytes} {a : α} {R : Prop}

/-- On the input `w`, `m` reads to the end of the input and returns a value with `P`. -/
def Ends (m : Reading α) (w : Bytes) (P : α → Prop) : Prop :=
  ∀ s : Reader, s.mem = Mem.generous → s.input = w →
    Returns m s fun a t => P a ∧ t.input = [] ∧ t.mem = Mem.generous

/-- On the input `w`, `m` does not return. -/
def Refused (m : Reading α) (w : Bytes) : Prop :=
  ∀ s : Reader, s.mem = Mem.generous → s.input = w → Rejects m s

/-- On the input `w`, `m` does not return if `R` holds, and reads to the end if not: then the value
    has `P`. -/
structure Cut (m : Reading α) (w : Bytes) (R : Prop) (P : α → Prop) : Prop where
  refused : R → Refused m w
  ends : ¬ R → Ends m w P

theorem Ends.mono {P' : α → Prop} (hm : Ends m w P) (h : ∀ a, P a → P' a) : Ends m w P' :=
  fun s hmem hs => (hm s hmem hs).mono fun _ _ ha => ⟨h _ ha.1, ha.2⟩

theorem ends_pure (h : P a) : Ends (pure a) [] P :=
  fun _ hmem hs => Returns.pure ⟨h, hs, hmem⟩

theorem Ends.bind (hm : Ends m w P) (hf : ∀ a, P a → Ends (f a) [] Q) : Ends (m >>= f) w Q := by
  intro s hmem hs
  refine (hm s hmem hs).bind ?_
  intro a t h
  obtain ⟨ha, ht, hmem'⟩ := h
  exact hf a ha t hmem' ht

theorem Ends.bind_refused (hm : Ends m w P) (hf : ∀ a, P a → Refused (f a) []) :
    Refused (m >>= f) w := by
  intro s hmem hs
  refine (hm s hmem hs).bind_rejects ?_
  intro a t h
  obtain ⟨ha, ht, hmem'⟩ := h
  exact hf a ha t hmem' ht

theorem Ends.onFailure (hm : Ends m w P) (cleanUp : Reading Unit) :
    Ends (m.onFailure cleanUp) w P := fun s hmem hs => (hm s hmem hs).onFailure

theorem refused_fail : Refused (fail : Reading α) w := fun s _ _ => rejects_fail s

theorem refused_undefined : Refused (undefined : Reading α) w := fun s _ _ => rejects_undefined s

theorem refused_outOfFuel : Refused (outOfFuel : Reading α) w := fun _ _ _ _ _ => nofun

theorem Refused.bind (hm : Refused m w) : Refused (m >>= f) w :=
  fun s hmem hs => (hm s hmem hs).bind

theorem Refused.onFailure (hm : Refused m w) (cleanUp : Reading Unit) :
    Refused (m.onFailure cleanUp) w := fun s hmem hs => (hm s hmem hs).onFailure

/-- A first part that is read whole. -/
theorem Reads.bind_ends (hm : Reads m v a) (hlen : (v ++ w).length ≤ PTRDIFF_MAX)
    (hf : Ends (f a) w Q) : Ends (m >>= f) (v ++ w) Q := by
  intro s hmem hs
  have hample : s.Ample := ⟨PTRDIFF_MAX, by decide, hs ▸ hlen, hmem ▸ Mem.ample_generous⟩
  refine (hm s w hample hs).bind ?_
  intro b t h
  obtain ⟨rfl, ht, hmem'⟩ := h
  exact hf t (hmem'.trans hmem) ht

theorem Reads.bind_refused (hm : Reads m v a) (hlen : (v ++ w).length ≤ PTRDIFF_MAX)
    (hf : Refused (f a) w) : Refused (m >>= f) (v ++ w) := by
  intro s hmem hs
  have hample : s.Ample := ⟨PTRDIFF_MAX, by decide, hs ▸ hlen, hmem ▸ Mem.ample_generous⟩
  refine (hm s w hample hs).bind_rejects ?_
  intro b t h
  obtain ⟨rfl, ht, hmem'⟩ := h
  exact hf t (hmem'.trans hmem) ht

theorem Reads.bind_cut (hm : Reads m v a) (hlen : (v ++ w).length ≤ PTRDIFF_MAX)
    (hf : Cut (f a) w R Q) : Cut (m >>= f) (v ++ w) R Q :=
  ⟨fun h => hm.bind_refused hlen (hf.refused h), fun h => hm.bind_ends hlen (hf.ends h)⟩

theorem Reads.bind_nil_cut (hm : Reads m [] a) (hlen : w.length ≤ PTRDIFF_MAX)
    (hf : Cut (f a) w R Q) : Cut (m >>= f) w R Q := hm.bind_cut hlen hf

/-- Nothing is refused behind the part that is cut. -/
theorem Cut.bind_ends (hm : Cut m w R P) (hf : ∀ a, P a → Ends (f a) [] Q) :
    Cut (m >>= f) w R Q :=
  ⟨fun h => (hm.refused h).bind, fun h => (hm.ends h).bind hf⟩

theorem Cut.onFailure (hm : Cut m w R P) (cleanUp : Reading Unit) :
    Cut (m.onFailure cleanUp) w R P :=
  ⟨fun h => (hm.refused h).onFailure cleanUp, fun h => (hm.ends h).onFailure cleanUp⟩

theorem Cut.mono {P' : α → Prop} (hm : Cut m w R P) (h : ∀ a, P a → P' a) : Cut m w R P' :=
  ⟨hm.refused, fun h' => (hm.ends h').mono h⟩

theorem Cut.congr {R' : Prop} (hm : Cut m w R P) (h : R' ↔ R) : Cut m w R' P :=
  ⟨fun h' => hm.refused (h.mp h'), fun h' => hm.ends fun h'' => h' (h.mpr h'')⟩

theorem cut_of_refused (hR : R) (h : Refused m w) : Cut m w R P :=
  ⟨fun _ => h, fun h' => absurd hR h'⟩

theorem cut_of_ends (hR : ¬ R) (h : Ends m w P) : Cut m w R P := ⟨fun h' => absurd h' hR, fun _ => h⟩

/-- The next byte is the end of the input. -/
theorem ends_getc : Ends bufferGetc [] fun tag => tag = BUFFER_EOF := by
  intro s hmem hs
  refine ⟨_, _, rfl, ?_⟩
  rw [hs]
  exact ⟨rfl, rfl, hmem⟩

theorem ends_bind_getc {f : CInt → Reading β} (hf : Ends (f BUFFER_EOF) [] Q) :
    Ends (bufferGetc >>= f) [] Q := ends_getc.bind fun _ h => h ▸ hf

theorem refused_bind_getc {f : CInt → Reading β} (hf : Refused (f BUFFER_EOF) []) :
    Refused (bufferGetc >>= f) [] := ends_getc.bind_refused fun _ h => h ▸ hf

theorem ends_calloc {n : Nat} (h : n ≤ PTRDIFF_MAX) : Ends (calloc n) [] fun b => b = true := by
  intro s hmem hs
  exact ⟨true, s, calloc_ample (hmem ▸ Mem.ample_generous) h, rfl, hs, hmem⟩

/-- The number of bytes a run may still read. -/
def Drains (k : Nat) (m : Reading α) : Prop := ∀ w : Bytes, w.length ≤ k → Ends m w fun _ => True

theorem drains_pure (a : α) : Drains 0 (pure a) := by
  intro w hw
  rw [List.eq_nil_of_length_eq_zero (Nat.le_zero.mp hw)]
  exact ends_pure trivial

theorem Drains.bind_getc {k : Nat} {f : CInt → Reading β} (hf : ∀ c, Drains k (f c)) :
    Drains (k + 1) (bufferGetc >>= f) := by
  intro w hw
  cases w with
  | nil => exact ends_bind_getc (hf _ [] (Nat.zero_le _))
  | cons b w =>
    intro s hmem hs
    have hget : bufferGetc s = .done (UInt8.int b) { s with input := w } := by
      unfold bufferGetc Reading.take
      rw [hs]
      rfl
    obtain ⟨a, t, hrun, ht⟩ := hf (UInt8.int b) w (Nat.le_of_succ_le_succ hw)
      { s with input := w } hmem rfl
    exact ⟨a, t, by rw [bind_done hget, hrun], ht⟩

theorem drains_getInt32 : Drains 4 getInt32 :=
  .bind_getc fun _ => .bind_getc fun _ => .bind_getc fun _ => .bind_getc fun _ => drains_pure _

end Rules

/-! ## 2. Texts -/

/-- The bytes of an input that ends within the characters, then zero bytes. -/
theorem utf8Chars_padded : ∀ (n : Nat) (x : Bytes), (utf8Chars n x).2 = [] →
    ∃ k, (utf8Chars n x).1 = x ++ List.replicate k 0
  | 0, x, h => ⟨0, by rw [show x = [] from h]; rfl⟩
  | n + 1, [], _ => by
    obtain ⟨k, hk⟩ := utf8Chars_padded n [] (utf8Chars_nil n)
    refine ⟨k + 1, ?_⟩
    have hbytes : bytesGetc (mbytes BUFFER_EOF) [] = ([], []) := by decide
    simp only [utf8Chars, getc_nil, hbytes, hk, putc_eof, List.nil_append, List.replicate_succ]
  | n + 1, b :: x, h => by
    simp only [utf8Chars, getc_cons, putc_int] at h ⊢
    have hx : (bytesGetc (mbytes (UInt8.int b)) x).2 = x.drop (mbytes (UInt8.int b)) := rfl
    obtain ⟨k, hk⟩ := utf8Chars_padded n _ h
    rw [hk, hx]
    show ∃ k', b :: ((x.take (mbytes (UInt8.int b))
      ++ List.replicate (mbytes (UInt8.int b) - x.length) 0) ++ _) = _
    rcases Nat.le_total x.length (mbytes (UInt8.int b)) with hle | hle
    · refine ⟨mbytes (UInt8.int b) - x.length + k, ?_⟩
      rw [List.drop_eq_nil_of_le hle, List.take_of_length_le hle, List.nil_append,
        List.append_assoc, ← List.replicate_add, List.cons_append]
    · refine ⟨k, ?_⟩
      rw [Nat.sub_eq_zero_of_le hle, List.replicate_zero, List.append_nil, ← List.append_assoc,
        List.take_append_drop, List.cons_append]

/-- A cut text has its bytes up to the cut, at most. -/
theorem ofArray_padded_length {n : Nat} {x : Bytes} (h : (utf8Chars n x).2 = []) :
    (CString.ofArray (utf8Chars n x).1).bytes.length ≤ x.length := by
  obtain ⟨k, hk⟩ := utf8Chars_padded n x h
  show (List.takeWhile _ _).length ≤ _
  rw [hk, List.takeWhile_append]
  split
  · have hzero : List.takeWhile (· != 0) (List.replicate k (0 : UInt8)) = [] := by
      cases k <;> rfl
    rw [hzero, List.append_nil]
  · exact (List.takeWhile_prefix _).length_le

/-- Plain characters that were cut off are read to the end of the input. -/
theorem utf8Chars_cut : ∀ (cs : List Char) (m : Nat), (∀ c ∈ cs, Plain c) →
    m < (encode cs).length → (utf8Chars cs.length ((encode cs).take m)).2 = []
  | [], _, _, h => by simp at h
  | c :: cs, 0, _, _ => by
    rw [List.take_zero]
    exact utf8Chars_nil _
  | c :: cs, m + 1, hplain, h => by
    obtain ⟨lead, tail, hc⟩ := exists_sequence c
    have hm := mbytes_lead hc (hplain c List.mem_cons_self)
    rw [hc.encode_cons] at h ⊢
    simp only [List.length_cons, List.length_append, List.take_succ_cons, utf8Chars, getc_cons,
      hm] at h ⊢
    show (utf8Chars cs.length (((tail ++ encode cs).take m).drop tail.length)).2 = []
    rw [List.drop_take, List.drop_left]
    rcases Nat.lt_or_ge tail.length m with hlt | hge
    · exact utf8Chars_cut cs _ (fun d hd => hplain d (List.mem_cons_of_mem c hd)) (by omega)
    · rw [Nat.sub_eq_zero_of_le hge, List.take_zero]
      exact utf8Chars_nil _

/-- A length that is cut off asks for more than can be granted. -/
theorem readText_none {w : Bytes} (h : w.length < 2) : Ends readText w fun text => text = none := by
  have hrefused (n : Nat) (hn : PTRDIFF_MAX < n) (s : Reader) (hs : s.mem = Mem.generous) :
      utf8Bgets n s = .done none s := by
    have hcreate := bufferCreate_eq (n := n) (show s.mem = Mem.bounded [] from hs)
    have hsize : ¬ n < 2 := fun h => absurd (Nat.lt_trans hn h) (by decide)
    rw [List.headD_nil, if_pos rfl, if_neg hsize, Mem.grants_bounded_of_gt hn] at hcreate
    unfold utf8Bgets
    rw [bind_done hcreate, if_neg Bool.false_ne_true]
    have hafter : (Mem.bounded [].tail).after n = s.mem :=
      (Mem.after_generous n).trans hs.symm
    rw [hafter]
    rfl
  intro s hmem hs
  obtain ⟨input, mem, steps⟩ := s
  replace hmem : mem = Mem.generous := hmem
  replace hs : input = w := hs
  subst hs
  match input, h with
  | [], _ => exact ⟨none, _, hrefused _ size16_eof_eof _ hmem, rfl, rfl, hmem⟩
  | [b], _ => exact ⟨none, _, hrefused _ (size16_eof b) _ hmem, rfl, rfl, hmem⟩

/-- A length and so many characters, cut off: what is there is taken for the text. -/
theorem readText_cut {n : Nat} {x : Bytes} (hn : n < 65536) (hx : (utf8Chars n x).2 = []) :
    Ends readText (size16Bytes n ++ x)
      fun text => ∃ array, text = some array ∧ (CString.ofArray array).bytes.length ≤ x.length := by
  intro s hmem hs
  have hmax : (262144 : Nat) ≤ PTRDIFF_MAX := by decide
  obtain ⟨input, mem, steps⟩ := s
  replace hmem : mem = Mem.bounded [] := hmem
  replace hs : input = size16Bytes n ++ x := hs
  subst hs hmem
  have hgranted := utf8Bgets_granted
    (show (⟨x, Mem.bounded [], steps⟩ : Reader).mem = Mem.bounded [] from rfl) hn rfl
  refine ⟨some (utf8Chars n x).1, ⟨(utf8Chars n x).2, Mem.bounded [], steps⟩, ?_,
    ⟨_, rfl, ofArray_padded_length hx⟩, hx, rfl⟩
  unfold readText bufferGetc size16Bytes
  rw [take_bind, take_bind]
  simp only [List.cons_append, List.nil_append, getc_cons, size16_bytes hn]
  exact hgranted

/-! ## 3. Chunks -/

/-- The items of the last chunk of `xs`. -/
def lastChunk {α : Type} (xs : List α) : List α :=
  xs.drop ((xs.length - 1) / HESSIAN_CHUNK_SIZE * HESSIAN_CHUNK_SIZE)

theorem lastChunk_full {α : Type} {xs : List α} (h : HESSIAN_CHUNK_SIZE < xs.length) :
    lastChunk xs = lastChunk (xs.drop HESSIAN_CHUNK_SIZE) := by
  unfold lastChunk HESSIAN_CHUNK_SIZE at *
  rw [List.drop_drop, List.length_drop]
  congr 1
  omega

theorem lastChunk_last {α : Type} {xs : List α} (h : ¬ HESSIAN_CHUNK_SIZE < xs.length) :
    lastChunk xs = xs := by
  unfold lastChunk HESSIAN_CHUNK_SIZE at *
  rw [show (xs.length - 1) / 32767 = 0 by omega, Nat.zero_mul, List.drop_zero]

/-- The bytes of the last chunk of a text. -/
def lastText (bs : Bytes) : Bytes :=
  dropChars ((leads bs - 1) / HESSIAN_CHUNK_SIZE * HESSIAN_CHUNK_SIZE) bs

theorem lastText_encode (cs : List Char) : lastText (encode cs) = encode (lastChunk cs) := by
  unfold lastText lastChunk
  rw [leads_encode, dropChars_encode]

theorem take_append_of_lt {v w : Bytes} {m : Nat} (h : m < v.length) : (v ++ w).take m = v.take m :=
  List.take_append_of_le_length (Nat.le_of_lt h)

theorem take_append_of_ge {v w : Bytes} {m : Nat} (h : v.length ≤ m) :
    (v ++ w).take m = v ++ w.take (m - v.length) := by
  rw [List.take_append, List.take_of_length_le h]

theorem size16Bytes_length (n : Nat) : (size16Bytes n).length = 2 := rfl

/-- Without a tag behind a chunk there is no text. -/
theorem refused_stringChunks_eof {cls : HessianClass} (fuel : Nat) (tag : CInt) (sb : CString) :
    Refused (stringChunks cls fuel tag sb) [] := by
  cases fuel with
  | zero => exact refused_outOfFuel
  | succ fuel =>
    unfold stringChunks
    have hvisit : Ends (visit fun s => .readChunk s.input s.mem) [] fun _ => True :=
      fun s hmem hs => ⟨(), _, rfl, trivial, hs, hmem⟩
    refine hvisit.bind_refused fun _ _ => (readText_none (by decide)).bind_refused ?_
    intro _ e
    obtain rfl := e
    exact refused_undefined

theorem refused_readChunk {cls : HessianClass} {fuel : Nat} {tag : CInt} {sb : CString} {w : Bytes}
    (h : w.length < 2) : Refused (stringChunks cls (fuel + 1) tag sb) w := by
  unfold stringChunks
  refine Reads.bind_refused (v := []) (reads_visit _) ?_ ?_
  · exact Nat.le_trans (Nat.le_of_lt h) (by decide)
  · refine (readText_none h).bind_refused ?_
    intro _ e
    obtain rfl := e
    exact refused_undefined

/-- A text that is cut behind its length. -/
theorem readText_cut_plain {cs : List Char} {m : Nat} (hplain : ∀ c ∈ cs, Plain c)
    (hlen : cs.length < 65536) (h2 : 2 ≤ m) (hm : m < 2 + (encode cs).length) :
    Ends readText ((size16Bytes cs.length ++ encode cs).take m) fun text =>
      ∃ array, text = some array ∧ (CString.ofArray array).bytes.length ≤ m := by
  have htake : (size16Bytes cs.length ++ encode cs).take m
      = size16Bytes cs.length ++ (encode cs).take (m - 2) := take_append_of_ge h2
  rw [htake]
  refine (readText_cut hlen (utf8Chars_cut cs (m - 2) hplain (by omega))).mono ?_
  intro text h
  obtain ⟨array, htext, harray⟩ := h
  rw [List.length_take] at harray
  exact ⟨array, htext, by omega⟩

theorem lastChunk_length_le {α : Type} (cls : HessianClass) (enc : List α → Bytes) (xs : List α) :
    2 + (enc (lastChunk xs)).length ≤ (chunkBody cls enc xs).length := by
  by_cases h : HESSIAN_CHUNK_SIZE < xs.length
  · have ih := lastChunk_length_le cls enc (xs.drop HESSIAN_CHUNK_SIZE)
    rw [chunkBody_full h, lastChunk_full h]
    simp only [List.length_append, List.length_cons]
    omega
  · rw [chunkBody_last h, lastChunk_last h, List.length_append, size16Bytes_length]
termination_by xs.length
decreasing_by
  rw [List.length_drop]
  unfold HESSIAN_CHUNK_SIZE at *
  omega

/-- The chunks of a text, cut off: without the last chunk there is no text, within the last chunk
    what is there is taken for the text. -/
theorem cut_stringChunks {cls : HessianClass} (ht : ChunkTags cls) :
    ∀ (fuel : Nat) (cs : List Char) (sb : CString) (m : Nat), (∀ c ∈ cs, Plain c) →
      (0 : UInt8) ∉ encode cs → (chunkBody cls encode cs).length ≤ PTRDIFF_MAX →
      m < (chunkBody cls encode cs).length → m + 2 ≤ fuel →
      Cut (stringChunks cls fuel (Char.int (chunkHead cls cs)) sb)
        ((chunkBody cls encode cs).take m)
        (m + (encode (lastChunk cs)).length < (chunkBody cls encode cs).length)
        fun r => r.bytes.length ≤ sb.bytes.length + m
  | fuel + 1, cs, sb, m, hplain, hnul, hmax, hm, hf => by
    have hlast := lastChunk_length_le cls encode cs
    have htake : ((chunkBody cls encode cs).take m).length ≤ PTRDIFF_MAX := by
      rw [List.length_take]
      omega
    by_cases h2 : m < 2
    · -- the length is cut off
      refine cut_of_refused (by omega) (refused_readChunk ?_)
      rw [List.length_take]
      omega
    unfold stringChunks
    refine Reads.bind_nil_cut (reads_visit _) htake ?_
    by_cases h : HESSIAN_CHUNK_SIZE < cs.length
    · have hlength : (cs.take HESSIAN_CHUNK_SIZE).length = HESSIAN_CHUNK_SIZE :=
        List.length_take_of_le (Nat.le_of_lt h)
      have hfirst : ∀ c ∈ cs.take HESSIAN_CHUNK_SIZE, Plain c :=
        fun c hc => hplain c (List.mem_of_mem_take hc)
      have hlast' := lastChunk_length_le cls encode (cs.drop HESSIAN_CHUNK_SIZE)
      have hread := reads_text _ hfirst (by rw [hlength]; decide)
      rw [chunkBody_full h, ← List.append_assoc] at hm hmax htake ⊢
      rw [lastChunk_full h, chunkHead_full h]
      rw [hlength] at hread
      simp only [List.length_append, List.length_cons, size16Bytes_length] at hm hmax
      have hv : (size16Bytes HESSIAN_CHUNK_SIZE ++ encode (cs.take HESSIAN_CHUNK_SIZE)).length
          = 2 + (encode (cs.take HESSIAN_CHUNK_SIZE)).length := by
        rw [List.length_append, size16Bytes_length]
      rcases Nat.lt_trichotomy m (2 + (encode (cs.take HESSIAN_CHUNK_SIZE)).length) with
        hlt | heq | hgt
      · -- within the first chunk: no tag follows
        have hcut := readText_cut_plain hfirst (by rw [hlength]; decide) (by omega) hlt
        rw [hlength] at hcut
        rw [take_append_of_lt (by omega)]
        refine cut_of_refused ?_ (hcut.bind_refused ?_)
        · simp only [List.length_append, List.length_cons, size16Bytes_length]
          omega
        · intro _ h
          obtain ⟨array, rfl, _⟩ := h
          dsimp only
          rw [if_pos rfl]
          exact refused_bind_getc (refused_stringChunks_eof _ _ _)
      · -- behind the first chunk
        rw [take_append_of_ge (by omega), hv, heq, Nat.sub_self, List.take_zero]
        refine cut_of_refused ?_ (hread.bind_refused ?_ ?_)
        · simp only [List.length_append, List.length_cons, size16Bytes_length]
          omega
        · rw [List.append_nil, hv]
          omega
        · dsimp only
          rw [if_pos rfl]
          exact refused_bind_getc (refused_stringChunks_eof _ _ _)
      · -- in the chunks that follow
        obtain ⟨k, hk⟩ : ∃ k, m = 2 + (encode (cs.take HESSIAN_CHUNK_SIZE)).length + (k + 1) :=
          ⟨m - (2 + (encode (cs.take HESSIAN_CHUNK_SIZE)).length) - 1, by omega⟩
        have hcs : encode cs = encode (cs.take HESSIAN_CHUNK_SIZE)
            ++ encode (cs.drop HESSIAN_CHUNK_SIZE) := by
          rw [← encode_append, List.take_append_drop]
        have ih := cut_stringChunks ht fuel (cs.drop HESSIAN_CHUNK_SIZE)
          (sb.append (CString.ofArray (encode (cs.take HESSIAN_CHUNK_SIZE)))) k
          (fun c hc => hplain c (List.mem_of_mem_drop hc))
          (fun h0 => hnul (hcs ▸ List.mem_append_right _ h0)) (by omega) (by omega) (by omega)
        have hsub : m - (2 + (encode (cs.take HESSIAN_CHUNK_SIZE)).length) = k + 1 := by omega
        rw [take_append_of_ge (by omega), hv, hsub, List.take_succ_cons] at htake ⊢
        refine hread.bind_cut htake ?_
        dsimp only
        rw [if_pos rfl]
        refine Reads.bind_cut (v := [_]) (reads_getc _) ?_ ?_
        · rw [List.length_append] at htake
          exact Nat.le_trans (Nat.le_add_left _ _) htake
        · rw [int_byte (ht.head_lt _)]
          refine (ih.congr ?_).mono ?_
          · simp only [List.length_append, List.length_cons, size16Bytes_length]
            omega
          · intro r hr
            rw [CString.append_bytes, List.length_append, CString.ofArray_bytes
              (fun h0 => hnul (hcs ▸ List.mem_append_left _ h0))] at hr
            omega
    · -- within the last chunk
      have hlen : cs.length < 65536 := by
        unfold HESSIAN_CHUNK_SIZE at h
        omega
      rw [chunkBody_last h] at hm ⊢
      rw [lastChunk_last h, chunkHead_last h]
      rw [List.length_append, size16Bytes_length] at hm
      refine cut_of_ends ?_ ((readText_cut_plain hplain hlen (by omega) hm).bind ?_)
      · rw [List.length_append, size16Bytes_length]
        omega
      · intro _ h
        obtain ⟨array, rfl, harray⟩ := h
        dsimp only
        rw [if_neg ht.ne]
        refine ends_pure ?_
        rw [CString.append_bytes, List.length_append]
        omega

/-- A run that is given the length of what is left. -/
theorem Cut.bind_read {α : Type} (loop : Nat → Reading α) {w : Bytes} {R : Prop} {P : α → Prop}
    (h : Cut (loop w.length) w R P) :
    Cut (read >>= fun s => loop s.input.length) w R P := by
  have hread (s : Reader) (hs : s.input = w) :
      (read >>= fun s => loop s.input.length) s = loop w.length s := by
    rw [← hs]
    rfl
  refine ⟨fun hR s hmem hs => ?_, fun hR s hmem hs => ?_⟩
  · intro a t hrun
    exact h.refused hR s hmem hs a t ((hread s hs).symm.trans hrun)
  · obtain ⟨a, t, hrun, hQ⟩ := h.ends hR s hmem hs
    exact ⟨a, t, (hread s hs).trans hrun, hQ⟩

theorem reads_bufferCreate {n : Nat} (h : n ≤ 2 ^ 18) : Reads (bufferCreate n) [] true := by
  intro s rest h hs
  obtain ⟨k, hk, _, hm⟩ := h
  exact ⟨true, s, bufferCreate_ample hk hm h, rfl, by rw [hs, List.nil_append], rfl⟩

theorem chunkHead_accepted {α : Type} (cls : HessianClass) (xs : List α) :
    ¬ (Char.int (chunkHead cls xs) ≠ Char.int cls.tag
      ∧ Char.int (chunkHead cls xs) ≠ Char.int cls.chunkTag) := by
  unfold chunkHead
  split <;> simp

theorem chunkBuffer_le {α : Type} (cls : HessianClass) (xs : List α) :
    (if Char.int (chunkHead cls xs) = Char.int cls.chunkTag then HESSIAN_CHUNK_SIZE else 32)
      ≤ 2 ^ 18 := by
  split <;> decide

/-- **A text is cut unnoticed within its last chunk.** -/
theorem cut_string {cls : HessianClass} (ht : ChunkTags cls) {cs : List Char} {m : Nat}
    (hplain : ∀ c ∈ cs, Plain c) (hnul : (0 : UInt8) ∉ encode cs)
    (hmax : (chunkBody cls encode cs).length ≤ PTRDIFF_MAX)
    (hm : m < (chunkBody cls encode cs).length) :
    Cut (hessianStringDeserialize cls (Char.int (chunkHead cls cs)))
      ((chunkBody cls encode cs).take m)
      (m + (encode (lastChunk cs)).length < (chunkBody cls encode cs).length) fun _ => True := by
  have htake : ((chunkBody cls encode cs).take m).length = m := by
    rw [List.length_take]
    omega
  unfold hessianStringDeserialize
  rw [if_neg (chunkHead_accepted cls cs)]
  refine Reads.bind_nil_cut (reads_bufferCreate (chunkBuffer_le cls cs)) (by omega) ?_
  rw [if_pos rfl]
  have hloop : Cut (read >>= fun s => stringChunks cls (s.input.length + 2)
      (Char.int (chunkHead cls cs)) .empty) ((chunkBody cls encode cs).take m)
      (m + (encode (lastChunk cs)).length < (chunkBody cls encode cs).length)
      fun r => r.bytes.length ≤ m := by
    refine Cut.bind_read (fun n => stringChunks cls (n + 2)
      (Char.int (chunkHead cls cs)) .empty) ?_
    have h := cut_stringChunks ht (m + 2) cs .empty m hplain hnul hmax hm (Nat.le_refl _)
    rw [CString.empty_bytes, List.length_nil, Nat.zero_add] at h
    rw [htake]
    exact h
  refine hloop.bind_ends fun sb hsb => (ends_calloc (by omega)).bind ?_
  intro _ e
  obtain rfl := e
  exact ends_pure trivial

/-! ## 4. Binaries -/

/-- What a round of the loop does, by the length `n` and the input behind it. -/
theorem readBytes_eq {s : Reader} {n : Nat} {x : Bytes} (buf : BinaryBuffer)
    (hn : size16 (getc s.input).1 (getc (getc s.input).2).1 = n)
    (hx : (getc (getc s.input).2).2 = x) :
    readBytes buf s = .done (buf.putAll s.mem n x) { s with input := x.drop n } := by
  subst hn hx
  rfl

/-- A length that is cut off makes the buffer lose its data. -/
theorem lost_ne_absent : BinaryBuffer.lost ≠ .absent := BinaryBuffer.noConfusion

theorem holding_ne_absent (data : Bytes) : BinaryBuffer.holding data ≠ .absent :=
  BinaryBuffer.noConfusion

theorem readBytes_lost {w : Bytes} {buf : BinaryBuffer} (hbuf : buf ≠ .absent) (h : w.length < 2) :
    Ends (readBytes buf) w fun buf => buf = .lost := by
  have hput (n : Nat) (hn : PTRDIFF_MAX < n) : buf.putAll Mem.generous n [] = .lost := by
    cases buf with
    | absent => exact absurd rfl hbuf
    | lost => rfl
    | holding data =>
      unfold BinaryBuffer.putAll
      have hrefuses : Mem.generous.refuses n = true := by
        simp only [Mem.refuses, Mem.generous, Option.any_some, hn, decide_true]
      dsimp only
      rw [if_pos hrefuses]
  intro s hmem hs
  have hrest : (getc (getc s.input).2).2 = [] ∧
      PTRDIFF_MAX < size16 (getc s.input).1 (getc (getc s.input).2).1 := by
    rw [hs]
    cases w with
    | nil => exact ⟨rfl, size16_eof_eof⟩
    | cons b w =>
      obtain rfl : w = [] := List.eq_nil_of_length_eq_zero (by rw [List.length_cons] at h; omega)
      exact ⟨rfl, size16_eof b⟩
  refine ⟨_, _, readBytes_eq buf rfl hrest.1, ?_, List.drop_nil, hmem⟩
  rw [hmem]
  exact hput _ hrest.2

/-- A chunk that is cut behind its length is filled up with zero bytes. -/
theorem readBytes_cut (data : Bytes) {x : Bytes} {n : Nat} (hn : n < 65536) (hx : x.length ≤ n) :
    Ends (readBytes (.holding data)) (size16Bytes n ++ x)
      fun buf => ∃ bs, buf = .holding (data ++ bs) ∧ bs.length = n := by
  intro s hmem hs
  have hsize : size16 (getc s.input).1 (getc (getc s.input).2).1 = n := by
    rw [hs]
    exact size16_bytes hn
  have hbehind : (getc (getc s.input).2).2 = x := by
    rw [hs]
    rfl
  have hrefuses : s.mem.refuses n = false := by
    have hmax : (65536 : Nat) ≤ PTRDIFF_MAX := by decide
    exact (hmem ▸ Mem.ample_generous).not_refuses (k := PTRDIFF_MAX) (by omega)
  refine ⟨_, _, readBytes_eq _ hsize hbehind, ⟨(bytesGetc n x).1, ?_, ?_⟩,
    List.drop_eq_nil_of_le hx, hmem⟩
  · unfold BinaryBuffer.putAll
    dsimp only
    rw [hrefuses, if_neg Bool.false_ne_true]
  · simp only [bytesGetc, List.length_append, List.length_take, List.length_replicate]
    omega

/-- Without a tag behind a chunk the buffer loses its data. -/
theorem ends_binaryGetChunks_eof {cls : HessianClass} (hcls : Char.int cls.chunkTag ≠ BUFFER_EOF)
    {fuel : Nat} (hf : 0 < fuel) {buf : BinaryBuffer} (hbuf : buf ≠ .absent) :
    Ends (binaryGetChunks cls fuel BUFFER_EOF buf) [] fun buf => buf = .lost := by
  cases fuel with
  | zero => omega
  | succ fuel =>
    unfold binaryGetChunks
    refine (readBytes_lost hbuf (by decide)).bind ?_
    intro _ e
    obtain rfl := e
    rw [if_neg (Ne.symm hcls)]
    exact ends_pure rfl

/-- What comes of the buffer of a binary of `n` bytes: with `R` the data are lost, without it the
    buffer is filled up. -/
def BufferCut (R : Prop) (data : Bytes) (n : Nat) (buf : BinaryBuffer) : Prop :=
  (R → buf = .lost) ∧ (¬ R → ∃ bs, buf = .holding (data ++ bs) ∧ bs.length = n)

theorem bufferCut_lost {R : Prop} (hR : R) (data : Bytes) (n : Nat) : BufferCut R data n .lost :=
  ⟨fun _ => rfl, fun h => absurd hR h⟩

theorem bufferCut_holding {R : Prop} (hR : ¬ R) {data : Bytes} {n : Nat} {buf : BinaryBuffer}
    (h : ∃ bs, buf = .holding (data ++ bs) ∧ bs.length = n) : BufferCut R data n buf :=
  ⟨fun h' => absurd h' hR, fun _ => h⟩

/-- The chunks of a binary, cut off: without the last chunk the data are lost, within the last
    chunk they are filled up. -/
theorem cut_binaryGetChunks {cls : HessianClass} (ht : ChunkTags cls)
    (hcls : Char.int cls.chunkTag ≠ BUFFER_EOF) :
    ∀ (fuel : Nat) (bs data : Bytes) (m : Nat), (chunkBody cls id bs).length ≤ PTRDIFF_MAX →
      m < (chunkBody cls id bs).length → m + 2 ≤ fuel →
      Ends (binaryGetChunks cls fuel (Char.int (chunkHead cls bs)) (.holding data))
        ((chunkBody cls id bs).take m)
        (BufferCut (m + (lastChunk bs).length < (chunkBody cls id bs).length) data bs.length)
  | fuel + 1, bs, data, m, hmax, hm, hf => by
    have hlast := lastChunk_length_le cls id bs
    simp only [id_eq] at hlast
    have hend {R : Prop} (hR : R) (n : Nat) (buf : BinaryBuffer) (hbuf : buf ≠ .absent) :
        Ends (bufferGetc >>= fun tag => binaryGetChunks cls fuel tag buf) []
          (BufferCut R data n) := by
      refine ends_bind_getc ((ends_binaryGetChunks_eof hcls (by omega : 0 < fuel) hbuf).mono ?_)
      intro _ e
      obtain rfl := e
      exact bufferCut_lost hR data n
    unfold binaryGetChunks
    by_cases h2 : m < 2
    · -- the length is cut off
      have hshort : ((chunkBody cls id bs).take m).length < 2 := by
        rw [List.length_take]
        omega
      refine (readBytes_lost (holding_ne_absent data) hshort).bind ?_
      intro _ e
      obtain rfl := e
      split
      · exact hend (by omega) _ _ lost_ne_absent
      · exact ends_pure (bufferCut_lost (by omega) _ _)
    by_cases h : HESSIAN_CHUNK_SIZE < bs.length
    · have hlength : (bs.take HESSIAN_CHUNK_SIZE).length = HESSIAN_CHUNK_SIZE :=
        List.length_take_of_le (Nat.le_of_lt h)
      have hlast' := lastChunk_length_le cls id (bs.drop HESSIAN_CHUNK_SIZE)
      simp only [id_eq] at hlast'
      have hread := reads_bytes data (bs.take HESSIAN_CHUNK_SIZE)
        (by rw [hlength]; decide)
      have hpos : 0 < HESSIAN_CHUNK_SIZE := by decide
      have hv : (size16Bytes HESSIAN_CHUNK_SIZE ++ bs.take HESSIAN_CHUNK_SIZE).length
          = 2 + HESSIAN_CHUNK_SIZE := by
        rw [List.length_append, size16Bytes_length, hlength]
      rw [hlength] at hread
      rw [chunkBody_full h, ← List.append_assoc, id_eq] at hm hmax ⊢
      rw [lastChunk_full h, chunkHead_full h, List.length_append, hv, List.length_cons]
      rw [List.length_append, hv, List.length_cons] at hm hmax
      rcases Nat.lt_trichotomy m (2 + HESSIAN_CHUNK_SIZE) with hlt | heq | hgt
      · -- within the first chunk: no tag follows
        have hcut := readBytes_cut data (n := HESSIAN_CHUNK_SIZE)
          (x := (bs.take HESSIAN_CHUNK_SIZE).take (m - 2)) (by decide)
          (by rw [List.length_take]; omega)
        rw [take_append_of_lt (by omega), take_append_of_ge (by rw [size16Bytes_length]; omega),
          size16Bytes_length]
        refine hcut.bind ?_
        intro _ h
        obtain ⟨bs', rfl, _⟩ := h
        rw [if_pos rfl]
        exact hend (by omega) _ _ (holding_ne_absent _)
      · -- behind the first chunk
        rw [take_append_of_ge (by omega), hv, heq, Nat.sub_self, List.take_zero]
        refine hread.bind_ends (by rw [List.append_nil, hv]; omega) ?_
        rw [if_pos rfl]
        exact hend (by omega) _ _ (holding_ne_absent _)
      · -- in the chunks that follow
        obtain ⟨k, rfl⟩ : ∃ k, m = 2 + HESSIAN_CHUNK_SIZE + (k + 1) :=
          ⟨m - (2 + HESSIAN_CHUNK_SIZE) - 1, by omega⟩
        have ih := cut_binaryGetChunks ht hcls fuel (bs.drop HESSIAN_CHUNK_SIZE)
          (data ++ bs.take HESSIAN_CHUNK_SIZE) k (by omega) (by omega) (by omega)
        have hsub : 2 + HESSIAN_CHUNK_SIZE + (k + 1) - (2 + HESSIAN_CHUNK_SIZE) = k + 1 := by omega
        have hrest : ((chunkBody cls id (bs.drop HESSIAN_CHUNK_SIZE)).take k).length ≤ k :=
          List.length_take_le _ _
        rw [take_append_of_ge (by omega), hv, hsub, List.take_succ_cons]
        refine hread.bind_ends ?_ ?_
        · rw [List.length_append, List.length_cons, hv]
          omega
        · rw [if_pos rfl]
          refine Reads.bind_ends (v := [_]) (reads_getc _) ?_ ?_
          · rw [List.length_append, List.length_singleton]
            omega
          · rw [int_byte (ht.head_lt _)]
            refine ih.mono fun buf hbuf => ⟨fun hR => hbuf.1 (by omega), fun hR => ?_⟩
            obtain ⟨bs', hbs', hlen'⟩ := hbuf.2 (by omega)
            refine ⟨bs.take HESSIAN_CHUNK_SIZE ++ bs', by rw [hbs', List.append_assoc], ?_⟩
            rw [List.length_append, hlength, hlen', List.length_drop]
            omega
    · -- within the last chunk
      have hlen : bs.length < 65536 := by
        unfold HESSIAN_CHUNK_SIZE at h
        omega
      have hcut := readBytes_cut data (n := bs.length) (x := bs.take (m - 2)) hlen
        (by rw [List.length_take]; omega)
      rw [chunkBody_last h, id_eq] at hm ⊢
      rw [lastChunk_last h, chunkHead_last h, take_append_of_ge (by rw [size16Bytes_length]; omega),
        List.length_append, size16Bytes_length]
      refine hcut.bind fun buf hbuf => ?_
      rw [if_neg ht.ne]
      exact ends_pure (bufferCut_holding (by omega) hbuf)

/-- **A binary is cut unnoticed within its last chunk.** -/
theorem cut_binary {cls : HessianClass} (ht : ChunkTags cls)
    (hcls : Char.int cls.chunkTag ≠ BUFFER_EOF) {data : Bytes} {m : Nat}
    (hmax : (chunkBody cls id data).length ≤ PTRDIFF_MAX)
    (hm : m < (chunkBody cls id data).length) :
    Cut (hessianBinaryDeserialize cls (Char.int (chunkHead cls data)))
      ((chunkBody cls id data).take m)
      (m + (lastChunk data).length < (chunkBody cls id data).length) fun _ => True := by
  have htake : ((chunkBody cls id data).take m).length = m := by
    rw [List.length_take]
    omega
  have hdata : data.length + 2 ≤ (chunkBody cls id data).length :=
    enc_length_le_chunkBody _ id (fun _ _ => rfl) data
  unfold hessianBinaryDeserialize
  rw [if_neg (chunkHead_accepted cls data)]
  refine Reads.bind_nil_cut (reads_bufferCreate (chunkBuffer_le cls data)) (by omega) ?_
  have hloop := cut_binaryGetChunks ht hcls (m + 2) data [] m hmax hm (Nat.le_refl _)
  have hread : Ends (read >>= fun s => binaryGetChunks cls (s.input.length + 2)
      (Char.int (chunkHead cls data)) (.holding [])) ((chunkBody cls id data).take m)
      (BufferCut (m + (lastChunk data).length < (chunkBody cls id data).length) [] data.length) := by
    refine (Cut.bind_read (R := False) (fun n => binaryGetChunks cls (n + 2)
      (Char.int (chunkHead cls data)) (.holding [])) ?_).ends not_false
    rw [htake]
    exact cut_of_ends not_false hloop
  by_cases hR : m + (lastChunk data).length < (chunkBody cls id data).length
  · refine cut_of_refused hR (hread.bind_refused fun buf hbuf => ?_)
    rw [hbuf.1 hR]
    have hvisit : Ends (visit fun s => .copyLost s.mem) [] fun _ => True :=
      fun s hmem hs => ⟨(), _, rfl, trivial, hs, hmem⟩
    refine hvisit.bind_refused fun _ _ => (ends_calloc (by decide)).bind_refused ?_
    intro _ e
    obtain rfl := e
    exact refused_undefined
  · refine cut_of_ends hR (hread.bind fun buf hbuf => ?_)
    obtain ⟨bs', rfl, hlen⟩ := hbuf.2 hR
    refine (ends_calloc (by rw [List.nil_append]; omega)).bind ?_
    intro _ e
    obtain rfl := e
    exact ends_pure trivial

/-! ## 5. The other scalar classes -/

theorem drains_hessianIntegerDeserialize (cls : HessianClass) :
    Drains 4 (hessianIntegerDeserialize cls (Char.int cls.tag)) := by
  unfold hessianIntegerDeserialize
  rw [if_neg (not_not.mpr rfl)]
  exact drains_getInt32

theorem Drains.bind_getc64 {α : Type} {k : Nat} {f : BitVec 64 → Reading α}
    (hf : ∀ b, Drains k (f b)) : Drains (k + 1) (bufferGetc64 >>= f) := by
  have hget : (bufferGetc64 >>= f) = (bufferGetc >>= fun b => f (b.signExtend 64)) := rfl
  rw [hget]
  exact .bind_getc fun b => hf _

theorem drains_hessianLongDeserialize (cls : HessianClass) :
    Drains 8 (hessianLongDeserialize cls (Char.int cls.tag)) := by
  unfold hessianLongDeserialize
  rw [if_neg (not_not.mpr rfl)]
  refine .bind_getc64 fun b64 => .bind_getc64 fun b56 => .bind_getc64 fun b48 =>
    .bind_getc64 fun b40 => ?_
  exact .bind_getc64 fun b32 => .bind_getc64 fun b24 => .bind_getc64 fun b16 =>
    .bind_getc64 fun b8 => drains_pure _

/-- The length and the characters of a type or an url. -/
def textBody (text : CString) : Bytes := size16Bytes (leads text.bytes) ++ text.bytes

theorem textField_eq (tag : Char) (text : CString) :
    textField tag text = Char.byte tag :: textBody text := rfl

theorem textBody_length (text : CString) : (textBody text).length = 2 + text.bytes.length := by
  rw [textBody, List.length_append, size16Bytes_length]

theorem reads_textBody {text : CString} (h : ShortText text) :
    Reads readText (textBody text) (some text.bytes) := reads_textField h

/-- A type or an url that is cut behind its length is taken for a shorter one. -/
theorem readText_textBody_cut {text : CString} (h : ShortText text) {m : Nat} (h2 : 2 ≤ m)
    (hm : m < (textBody text).length) :
    Ends readText ((textBody text).take m) fun r => ∃ array, r = some array := by
  obtain ⟨cs, htext, hplain, hlen⟩ := h
  rw [textBody_length, htext] at hm
  unfold textBody
  rw [htext, leads_encode]
  refine (readText_cut_plain hplain hlen h2 hm).mono ?_
  intro r h
  obtain ⟨array, hr, _⟩ := h
  exact ⟨array, hr⟩

theorem ends_textBody_cut {text : CString} (h : ShortText text) {m : Nat}
    (hm : m < (textBody text).length) :
    Ends readText ((textBody text).take m) fun _ => True := by
  rcases Nat.lt_or_ge m 2 with h2 | h2
  · exact (readText_none (by rw [List.length_take]; omega)).mono fun _ _ => trivial
  · exact (readText_textBody_cut h h2 hm).mono fun _ _ => trivial

/-- **A remote is cut unnoticed behind the tag of its url.** -/
theorem cut_remote (cls : HessianClass) {type url : CString} (htype : ShortText type)
    (hurl : ShortText url) {m : Nat}
    (hmax : (textField 't' type ++ textField 'S' url).length ≤ PTRDIFF_MAX)
    (hm : m < (textField 't' type ++ textField 'S' url).length) :
    Cut (hessianRemoteDeserialize cls (Char.int cls.tag))
      ((textField 't' type ++ textField 'S' url).take m) (m < 4 + type.bytes.length)
      fun _ => True := by
  have hnoUrl (type : Option Bytes) : Refused (do
      let urlTag ← bufferGetc
      if urlTag ≠ Char.int 'S' then fail
      else do
        let url ← readText
        pure (type.map CString.ofArray, url.map CString.ofArray)) [] := by
    refine refused_bind_getc ?_
    rw [if_pos (by decide)]
    exact refused_fail
  rw [textField_eq, textField_eq, List.length_append, List.length_cons, List.length_cons,
    textBody_length, textBody_length] at hm hmax
  rw [textField_eq, textField_eq]
  unfold hessianRemoteDeserialize
  rw [if_neg (not_not.mpr rfl)]
  cases m with
  | zero =>
    refine cut_of_refused (by omega) (refused_bind_getc ?_)
    rw [if_pos (by decide)]
    exact refused_fail
  | succ m =>
    rw [List.cons_append, List.take_succ_cons]
    refine Reads.bind_cut (v := [_]) (reads_getc _) ?_ ?_
    · rw [List.length_append, List.length_singleton, List.length_take]
      omega
    rw [int_byte (by decide), if_neg (not_not.mpr rfl)]
    rcases Nat.lt_trichotomy m (textBody type).length with hlt | heq | hgt
    · rw [textBody_length] at hlt
      rw [take_append_of_lt (by rw [textBody_length]; exact hlt)]
      exact cut_of_refused (by omega) ((ends_textBody_cut htype
        (by rw [textBody_length]; exact hlt)).bind_refused fun type _ => hnoUrl type)
    · rw [take_append_of_ge (Nat.le_of_eq heq.symm), heq, Nat.sub_self, List.take_zero]
      refine cut_of_refused (by rw [textBody_length]; omega)
        ((reads_textBody htype).bind_refused ?_ (hnoUrl _))
      rw [List.append_nil, textBody_length]
      omega
    · rw [textBody_length] at hgt
      obtain ⟨k, rfl⟩ : ∃ k, m = 2 + type.bytes.length + (k + 1) :=
        ⟨m - (2 + type.bytes.length) - 1, by omega⟩
      rw [take_append_of_ge (by rw [textBody_length]; omega), textBody_length,
        Nat.add_sub_cancel_left, List.take_succ_cons]
      refine (reads_textBody htype).bind_cut ?_ (Reads.bind_cut (v := [_]) (reads_getc _) ?_ ?_)
      · rw [List.length_append, List.length_cons, List.length_take, textBody_length]
        omega
      · rw [List.length_append, List.length_singleton, List.length_take]
        omega
      · rw [int_byte (by decide), if_neg (not_not.mpr rfl)]
        refine cut_of_ends (by omega) ((ends_textBody_cut hurl ?_).bind fun _ _ => ends_pure trivial)
        rw [textBody_length]
        omega

end ArgusPep
