/-
  File:      ArgusPep/Argus/Transfer.lean
  Subject:   What goes through the two callbacks pep_authorize hands to libcurl.

  libcurl calls `buffer_read` on `b64output` for what it posts, and `buffer_write` on `b64input`
  with what it receives, in an order and in pieces of its own. A `buffer_write` that does not return
  the size of its piece ends the transfer (CURLE_WRITE_ERROR).

  * `Buffer.Queues` -- the bytes of a buffer, in a block an allocator can have granted;
  * `ensureCapacity_queues`, `write_queues`, `read_queues` -- the calls, with any allocator;
  * `Link`, `Callback`, `transferPieces` -- both buffers, and libcurl's calls on them;
  * `Transferred` -- what is there behind some calls: the number of bytes asked for tells what was
    posted, and the pieces, one behind the other, what was received;
  * **`transfer_exact`** -- this is so behind every call of a transfer, and the only thing that can
    end it is a growth that is refused.
-/
import ArgusPep.Util.GrowthFailure
import ArgusPep.Util.BufferQueue
import ArgusPep.Argus.Pep

namespace ArgusPep

open Lib Run

/-! ## 1. Buffers with any allocator -/

/-- No object is larger than `PTRDIFF_MAX`. -/
def Mem.Bounded (m : Mem) : Prop := ∃ limit, m.limit = some limit ∧ limit ≤ PTRDIFF_MAX

theorem Mem.Bounded.after {m : Mem} (h : m.Bounded) (n : Nat) : (m.after n).Bounded := by
  unfold Mem.after
  split
  · exact h
  · exact h

theorem Mem.Bounded.le_of_grants {m : Mem} (h : m.Bounded) {n : Nat} (hn : m.grants n = true) :
    n ≤ PTRDIFF_MAX := by
  obtain ⟨limit, hlimit, hle⟩ := h
  simp only [Mem.grants, Mem.refuses, hlimit, Option.any_some, Bool.and_eq_true,
    Bool.not_eq_true', decide_eq_false_iff_not] at hn
  omega

/-- The buffer holds the tape, in a block that can have been granted. -/
structure Buffer.Queues (b : Buffer) (t : Tape UInt8) : Prop where
  holds : ∃ spare, b.Holds t spare
  size : b.size ≤ PTRDIFF_MAX

/-- The size `buffer_ensure_capacity` asks for where there is no room for `n` bytes: half as much
    again, or what is needed where that is more. -/
def Buffer.grownSize (b : Buffer) (n : Nat) : Nat :=
  if b.size + (n - (b.size - b.wpos)) < b.size + b.size / 2 + 1 then b.size + b.size / 2 + 1
  else b.size + (n - (b.size - b.wpos))

/-- There is no room for `n` bytes, and the larger block asked for is refused. -/
structure Buffer.NoGrowth (b : Buffer) (mem : Mem) (n : Nat) : Prop where
  full : b.size - b.wpos < n
  refused : mem.grants (b.grownSize n) = false

section Queues

variable {w : BufferWorld} {t : Tape UInt8}

/-- A growth that is granted keeps the bytes; one that is refused loses them. -/
theorem ensureCapacity_queues (h : w.buffer.Queues t) (hmem : w.mem.Bounded) {n : Nat}
    (hn : n ≤ PTRDIFF_MAX) :
    Returns (Buffer.ensureCapacity n) w fun c w' => w'.mem.Bounded ∧
      ((c = BUFFER_OK ∧ w'.buffer.Queues t ∧ w'.buffer.wpos = w.buffer.wpos ∧
          w.buffer.wpos + n ≤ w'.buffer.size) ∨
        (c = BUFFER_ERROR ∧ w.buffer.NoGrowth w.mem n ∧
          w'.buffer = { w.buffer with data := none })) := by
  obtain ⟨⟨spare, hb⟩, hmax⟩ := h
  have hsize : w.buffer.size = w.buffer.wpos + spare.length := by
    rw [hb.size, hb.wpos]
    simp only [List.length_append]
  have hdiff : PTRDIFF_MAX = 2 ^ 63 - 1 := rfl
  unfold Buffer.ensureCapacity Returns
  rw [bind_get]
  dsimp only
  rw [toSize_sub (by omega) hb.bound]
  by_cases hroom : w.buffer.size - w.buffer.wpos < n
  · -- neither of the two sizes wraps around
    rw [if_pos hroom, toSize_of_lt (by omega), toSize_of_lt (by omega)]
    generalize hnew : (if w.buffer.size + (n - (w.buffer.size - w.buffer.wpos)) <
        w.buffer.size + w.buffer.size / 2 + 1 then w.buffer.size + w.buffer.size / 2 + 1
      else w.buffer.size + (n - (w.buffer.size - w.buffer.wpos))) = newSize
    have hgrown : w.buffer.grownSize n = newSize := hnew
    have hlarge : w.buffer.wpos + n ≤ newSize ∧ w.buffer.size ≤ newSize := by
      rw [← hnew]
      split <;> omega
    by_cases hgrants : w.mem.grants newSize = true
    · have hle := hmem.le_of_grants hgrants
      obtain ⟨more, hblock, hlength⟩ := reallocated_grows
        (t.consumed ++ t.unread ++ spare) (w.leftovers.headD []) (n := newSize) (by
          rw [← hb.size]
          exact hlarge.2)
      have hrealloc : realloc w.buffer.data newSize w =
          .done (some (t.consumed ++ t.unread ++ spare ++ more))
            { w with mem := w.mem.after newSize, leftovers := w.leftovers.tail } := by
        unfold realloc
        rw [if_pos hgrants, hb.data, Option.getD_some, hblock]
      rw [bind_done hrealloc]
      refine ⟨BUFFER_OK, _, rfl, hmem.after newSize, .inl ⟨rfl, ⟨⟨spare ++ more, ?_⟩, hle⟩, rfl,
        hlarge.1⟩⟩
      rw [List.append_assoc] at hlength
      exact ⟨congrArg some (List.append_assoc ..), hlength.symm, hb.wpos, hb.rpos,
        show newSize < 2 ^ 64 by omega⟩
    · have hrealloc : realloc w.buffer.data newSize w =
          .done none { w with mem := w.mem.after newSize } := if_neg hgrants
      rw [bind_done hrealloc]
      exact ⟨BUFFER_ERROR, _, rfl, hmem.after newSize,
        .inr ⟨rfl, ⟨hroom, hgrown.symm ▸ Bool.eq_false_iff.mpr hgrants⟩, rfl⟩⟩
  · rw [if_neg hroom]
    exact ⟨BUFFER_OK, w, rfl, hmem, .inl ⟨rfl, ⟨⟨spare, hb⟩, hmax⟩, rfl, by omega⟩⟩

/-- Bytes stored at the write position, which then moves behind them. -/
theorem append_queues (h : w.buffer.Queues t) {bytes : Bytes}
    (hroom : w.buffer.wpos + bytes.length ≤ w.buffer.size) :
    ∃ b, Buffer.Queues b (t.write bytes) ∧ ∀ n : Nat, (do
      Buffer.store w.buffer.wpos bytes
      Buffer.change fun b => { b with wpos := toSize (b.wpos + bytes.length) }
      pure n) w = .done n { w with buffer := b } := by
  obtain ⟨⟨spare, hb⟩, hmax⟩ := h
  have hwpos := hb.wpos
  have hsize := hb.size
  simp only [List.length_append] at hsize
  have hbound := hb.bound
  have hdata : w.buffer.data =
      some (t.consumed ++ t.unread ++ spare.take bytes.length ++ spare.drop bytes.length) := by
    rw [hb.data, List.append_assoc _ (spare.take _), List.take_append_drop]
  have hstore := store_append bytes hdata (hwpos.trans (List.length_append ..).symm)
    (by rw [List.length_take]; omega)
  refine ⟨{ w.buffer with
      data := some (t.consumed ++ t.unread ++ bytes ++ spare.drop bytes.length),
      wpos := toSize (w.buffer.wpos + bytes.length) },
    ⟨⟨spare.drop bytes.length, ?_, ?_, ?_, hb.rpos, hbound⟩, hmax⟩, fun n => ?_⟩
  · show some _ = some (t.consumed ++ (t.unread ++ bytes) ++ spare.drop bytes.length)
    rw [List.append_assoc t.consumed t.unread bytes]
  · show w.buffer.size = (t.consumed ++ (t.unread ++ bytes) ++ spare.drop bytes.length).length
    simp only [List.length_append, List.length_drop]
    omega
  · show toSize (w.buffer.wpos + bytes.length) = t.consumed.length + (t.unread ++ bytes).length
    rw [toSize_of_lt (by omega), List.length_append]
    omega
  · rw [bind_done hstore, bind_change]
    rfl

/-- **A write adds its bytes, or loses all.** -/
theorem write_queues (h : w.buffer.Queues t) (hmem : w.mem.Bounded) {src : Bytes}
    {size count : Nat} (hsrc : src.length = size * count) (hmax : src.length ≤ PTRDIFF_MAX) :
    Returns (Buffer.write src size count) w fun n w' => w'.mem.Bounded ∧
      ((n = src.length ∧ w'.buffer.Queues (t.write src)) ∨
        (n = sizeOfInt BUFFER_ERROR ∧ w.buffer.NoGrowth w.mem src.length ∧
          w'.buffer = { w.buffer with data := none })) := by
  have hdiff : PTRDIFF_MAX = 2 ^ 63 - 1 := rfl
  unfold Buffer.write
  rw [← hsrc, toSize_of_lt (by omega)]
  refine (ensureCapacity_queues h hmem hmax).bind fun c w₁ hensure => ?_
  obtain ⟨hmem₁, ⟨rfl, hqueues, hwpos, hroom⟩ | ⟨rfl, hrefused, hlost⟩⟩ := hensure
  · rw [if_neg (fun hne => hne rfl), if_neg (Nat.lt_irrefl _), List.take_length]
    rw [← hwpos] at hroom
    obtain ⟨b, hb, hrun⟩ := append_queues hqueues hroom
    exact ⟨_, _, hrun _, hmem₁, .inl ⟨rfl, hb⟩⟩
  · rw [if_pos (by decide)]
    exact Returns.pure ⟨hmem₁, .inr ⟨rfl, hrefused, hlost⟩⟩

/-- A read takes what is there, up to what was asked for. -/
theorem read_queues (h : w.buffer.Queues t) {size count : Nat} (hn : size * count < 2 ^ 64) :
    Returns (Buffer.read size count) w fun r w' =>
      r = ((t.front (size * count)).length, t.front (size * count)) ∧ w'.mem = w.mem ∧
        w'.buffer.Queues (t.skip (size * count)) := by
  obtain ⟨⟨spare, hb⟩, hmax⟩ := h
  unfold Buffer.read Returns
  rw [bind_get, available_eq hb, toSize_of_lt hn, length_front, bind_done (load_front hb rfl),
    bind_change]
  exact ⟨_, _, rfl, rfl, rfl, ⟨spare, skip_holds hb _⟩, hmax⟩

end Queues

theorem Buffer.Queues.unread_eq {b : Buffer} {t : Tape UInt8} (h : b.Queues t) :
    b.unread = t.unread := by
  obtain ⟨⟨spare, hb⟩, -⟩ := h
  have hlength : b.wpos - b.rpos = t.unread.length := by
    rw [hb.wpos, hb.rpos]
    omega
  unfold Buffer.unread
  rw [hlength, hb.data, hb.rpos, Option.getD_some, List.append_assoc, List.drop_left,
    List.take_left]

/-- A new buffer has nothing in it. -/
theorem create_queues {size : Nat} {mem mem' : Mem} {b : Buffer} (hmem : mem.Bounded)
    (h : Buffer.create size mem = (some b, mem')) : b.Queues Tape.empty ∧ mem'.Bounded := by
  unfold Buffer.create at h
  dsimp only at h
  generalize (if size < 2 then 16 else size) = initial at h
  split at h
  · split at h
    · next hgrants =>
      cases h
      have hle := (hmem.after 32).le_of_grants hgrants
      have hbound : initial < 2 ^ 64 := hle.trans_lt (by decide)
      exact ⟨⟨⟨List.replicate initial 0, rfl, (List.length_replicate ..).symm, rfl, rfl, hbound⟩,
        hle⟩, (hmem.after 32).after initial⟩
    · cases h
  · cases h

/-! ## 2. The callbacks -/

/-- A transfer: the two buffers, the allocator, and what was posted. -/
structure Link where
  output : Buffer
  input : Buffer
  mem : Mem
  leftovers : List Bytes
  posted : Bytes

/-- A call on `b64output`. -/
def onOutput {α : Type} (m : OnBuffer α) : Run Link α :=
  Run.within (fun s => ⟨s.output, s.mem, s.leftovers⟩)
    (fun w s => { s with output := w.buffer, mem := w.mem, leftovers := w.leftovers }) m

/-- A call on `b64input`. -/
def onInput {α : Type} (m : OnBuffer α) : Run Link α :=
  Run.within (fun s => ⟨s.input, s.mem, s.leftovers⟩)
    (fun w s => { s with input := w.buffer, mem := w.mem, leftovers := w.leftovers }) m

theorem onOutput_done {α : Type} {m : OnBuffer α} {s : Link} {a : α} {w : BufferWorld}
    (h : m ⟨s.output, s.mem, s.leftovers⟩ = .done a w) : onOutput m s =
      .done a { s with output := w.buffer, mem := w.mem, leftovers := w.leftovers } :=
  @within_done BufferWorld α Link _ _ m s w a h

theorem onInput_done {α : Type} {m : OnBuffer α} {s : Link} {a : α} {w : BufferWorld}
    (h : m ⟨s.input, s.mem, s.leftovers⟩ = .done a w) : onInput m s =
      .done a { s with input := w.buffer, mem := w.mem, leftovers := w.leftovers } :=
  @within_done BufferWorld α Link _ _ m s w a h

/-- A call libcurl makes. -/
inductive Callback where
  /-- `buffer_read(dst,size,nitems,b64output)`: there is room for so much. -/
  | read (size nitems : Nat)
  /-- `buffer_write(piece,size,nmemb,b64input)`. -/
  | write (piece : Bytes) (size nmemb : Nat)

/-- A size from here on means something else to libcurl. -/
def CURL_READFUNC_ABORT : Nat := 0x10000000

def Callback.Fits : Callback → Prop
  | .read size nitems => size * nitems < CURL_READFUNC_ABORT
  | .write piece size nmemb => piece.length = size * nmemb ∧ piece.length < CURL_READFUNC_ABORT

/-- The call, and what libcurl does with what it returns. -/
def Callback.call : Callback → Run Link Unit
  | .read size nitems => do
    let (_, bytes) ← onOutput (Buffer.read size nitems)
    update fun s => { s with posted := s.posted ++ bytes }
  | .write piece size nmemb => do
    let n ← onInput (Buffer.write piece size nmemb)
    if n ≠ size * nmemb then fail

def transferPieces (callbacks : List Callback) : Run Link Unit := callbacks.forM Callback.call

/-- So many bytes were asked for. -/
def Callback.asked : Callback → Nat
  | .read size nitems => size * nitems
  | .write _ _ _ => 0

/-- These bytes were brought. -/
def Callback.brought : Callback → Bytes
  | .read _ _ => []
  | .write piece _ _ => piece

def askedFor (callbacks : List Callback) : Nat := (callbacks.map Callback.asked).sum

def piecesOf (callbacks : List Callback) : Bytes := (callbacks.map Callback.brought).flatten

@[simp] theorem askedFor_concat (callbacks : List Callback) (c : Callback) :
    askedFor (callbacks ++ [c]) = askedFor callbacks + c.asked := by
  simp [askedFor]

@[simp] theorem piecesOf_concat (callbacks : List Callback) (c : Callback) :
    piecesOf (callbacks ++ [c]) = piecesOf callbacks ++ c.brought := by
  simp [piecesOf]

/-! ## 3. Behind some calls -/

/-- **What is there behind the calls.** How they were ordered does not count, nor the size of a
    single piece. -/
structure Transferred (t : Tape UInt8) (callbacks : List Callback) (s : Link) : Prop where
  posted : s.posted = t.unread.take (askedFor callbacks)
  output : s.output.Queues (t.skip (askedFor callbacks))
  input : s.input.Queues ⟨[], piecesOf callbacks⟩
  mem : s.mem.Bounded

/-- The call is a `buffer_write` for whose piece the input would have to grow, and the growth is
    refused: the transfer is over. -/
structure WriteRefused (s : Link) (c : Callback) (s' : Link) : Prop where
  refused : ∃ piece size nmemb, c = .write piece size nmemb ∧
    s.input.NoGrowth s.mem piece.length
  lost : s'.input.data = none
  output : s'.output = s.output
  posted : s'.posted = s.posted

theorem skip_skip {α : Type} (m n : Nat) (t : Tape α) : (t.skip m).skip n = t.skip (m + n) := by
  unfold Tape.skip
  rw [List.append_assoc, ← List.take_add, List.drop_drop]

section Steps

variable {t : Tape UInt8} {before : List Callback} {s : Link}

/-- A read posts the next bytes. -/
theorem read_served (h : Transferred t before s) {size nitems : Nat}
    (hfits : (Callback.read size nitems).Fits) :
    ∃ s', (Callback.read size nitems).call s = .done () s' ∧
      Transferred t (before ++ [.read size nitems]) s' := by
  obtain ⟨r, w, hrun, rfl, hmem, hqueues⟩ := read_queues (w := ⟨s.output, s.mem, s.leftovers⟩)
    h.output (hfits.trans (by decide))
  refine ⟨_, bind_done (onOutput_done hrun), ?_, ?_, ?_, ?_⟩
  · show s.posted ++ (t.skip (askedFor before)).front (size * nitems) = _
    rw [h.posted, askedFor_concat]
    exact (List.take_add).symm
  · rw [askedFor_concat, ← skip_skip]
    exact hqueues
  · rw [piecesOf_concat]
    exact (List.append_nil _).symm ▸ h.input
  · exact hmem ▸ h.mem

/-- A write adds its piece to the input, or ends the transfer. -/
theorem write_served (h : Transferred t before s) {piece : Bytes} {size nmemb : Nat}
    (hfits : (Callback.write piece size nmemb).Fits) :
    (∃ s', (Callback.write piece size nmemb).call s = .done () s' ∧
        Transferred t (before ++ [.write piece size nmemb]) s') ∨
      ∃ s', (Callback.write piece size nmemb).call s = .failed s' ∧
        WriteRefused s (.write piece size nmemb) s' := by
  obtain ⟨hpiece, hlt⟩ := hfits
  obtain ⟨n, w, hrun, hmem, ⟨rfl, hqueues⟩ | ⟨rfl, hrefused, hlost⟩⟩ :=
    write_queues (w := ⟨s.input, s.mem, s.leftovers⟩) h.input h.mem hpiece
      (hlt.le.trans (by decide))
  · have hcall : (Callback.write piece size nmemb).call s = .done () _ :=
      (bind_done (onInput_done hrun)).trans (congrFun (if_neg (not_not_intro hpiece)) _)
    refine .inl ⟨_, hcall, ?_, ?_, ?_, hmem⟩
    · rw [askedFor_concat]
      exact h.posted
    · rw [askedFor_concat]
      exact h.output
    · rw [piecesOf_concat]
      exact hqueues
  · have hne : sizeOfInt BUFFER_ERROR ≠ size * nmemb := by
      rw [← hpiece]
      exact (hlt.trans (by decide)).ne'
    have hcall : (Callback.write piece size nmemb).call s = .failed _ :=
      (bind_done (onInput_done hrun)).trans (congrFun (if_pos hne) _)
    refine .inr ⟨_, hcall, ⟨piece, size, nmemb, rfl, hrefused⟩, ?_, rfl, rfl⟩
    show w.buffer.data = none
    rw [hlost]

/-- No call of a transfer is undefined. -/
theorem call_served (h : Transferred t before s) {c : Callback} (hfits : c.Fits) :
    (∃ s', c.call s = .done () s' ∧ Transferred t (before ++ [c]) s') ∨
      ∃ s', c.call s = .failed s' ∧ WriteRefused s c s' := by
  cases c with
  | read size nitems => exact .inl (read_served h hfits)
  | write piece size nmemb => exact write_served h hfits

end Steps

/-! ## 4. Transfers -/

/-- **A transfer is done to its end, or to a `buffer_write` that gets no memory**, whatever the
    order and the pieces are, and whatever the allocator does. Up to there each byte asked for is
    posted and each byte brought is in the input, once and in its order. -/
theorem transfer_exact {size : Nat} {mem mem' : Mem} {output input : Buffer} {t : Tape UInt8}
    {callbacks : List Callback} (leftovers : List Bytes) (hmem : mem.Bounded)
    (houtput : output.Queues t) (hinput : Buffer.create size mem = (some input, mem'))
    (hfits : ∀ c ∈ callbacks, c.Fits) :
    (∃ s, transferPieces callbacks ⟨output, input, mem', leftovers, []⟩ = .done () s ∧
        Transferred t callbacks s) ∨
      ∃ before c behind s₁ s, callbacks = before ++ c :: behind ∧
        transferPieces before ⟨output, input, mem', leftovers, []⟩ = .done () s₁ ∧
        Transferred t before s₁ ∧
        transferPieces callbacks ⟨output, input, mem', leftovers, []⟩ = .failed s ∧
        WriteRefused s₁ c s := by
  obtain ⟨hempty, hmem'⟩ := create_queues hmem hinput
  have hstart : Transferred t [] ⟨output, input, mem', leftovers, []⟩ := by
    refine ⟨rfl, ?_, hempty, hmem'⟩
    show output.Queues ⟨t.consumed ++ [], t.unread⟩
    rw [List.append_nil]
    exact houtput
  exact forM_done_or_stops hstart fun before c hc s hs => call_served hs (hfits c hc)

/-- A read, a write and a read. -/
def inTurn : List Callback := [.read 1 2, .write [7] 1 1, .read 2 2]

/-- The three bytes of the output are posted; the input has the one received. -/
theorem transfer_exact_inTurn : ∃ s,
    transferPieces inTurn ⟨⟨some [1, 2, 3], 3, 3, 0⟩, ⟨some [0, 0], 2, 0, 0⟩, Mem.generous, [], []⟩
        = .done () s ∧ s.posted = [1, 2, 3] ∧ s.input.unread = [7] := by
  have hmem : Mem.generous.Bounded := ⟨PTRDIFF_MAX, rfl, Nat.le_refl _⟩
  have houtput : Buffer.Queues ⟨some [1, 2, 3], 3, 3, 0⟩ ⟨[], [1, 2, 3]⟩ :=
    ⟨⟨[], rfl, rfl, rfl, rfl, by decide⟩, by decide⟩
  have hcreate : Buffer.create 2 Mem.generous = (some ⟨some [0, 0], 2, 0, 0⟩, Mem.generous) := rfl
  have hfits : ∀ c ∈ inTurn, c.Fits := by
    simp [inTurn, Callback.Fits, CURL_READFUNC_ABORT]
  rcases transfer_exact [] hmem houtput hcreate hfits with
    ⟨s, hrun, h⟩ | ⟨_, _, _, _, s, _, _, _, hfail, _⟩
  · exact ⟨s, hrun, h.posted, h.input.unread_eq⟩
  · have hdone : transferPieces inTurn ⟨⟨some [1, 2, 3], 3, 3, 0⟩, ⟨some [0, 0], 2, 0, 0⟩,
        Mem.generous, [], []⟩ = .done () ⟨⟨some [1, 2, 3], 3, 3, 3⟩, ⟨some [7, 0], 2, 1, 0⟩,
          Mem.generous, [], [1, 2, 3]⟩ := by rfl
    rw [hdone] at hfail
    cases hfail

end ArgusPep
