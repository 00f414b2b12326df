/-
  File:      ArgusPep/Util/Capacity.lean
  Subject:   What `buffer_ensure_capacity` promises, under each of the growth policies of
             util/buffer.c.

  `BUFFER_INCREASE_POLICY` is set when the library is built; `Util.Buffer` has the default. The
  promise: after `BUFFER_OK` the positions are in order and the bytes asked for fit behind `wpos`,
  and the writes that rely on it stay within the block. It is kept exactly where the sum of `wpos`
  and the request is a `size_t`, and there is a block, or one is made for the request.

  * `IncreasePolicy.ensureCapacity`, `write`, `putc`, `ungetc` -- the functions under a policy, with
    those of `Util.Buffer` as the instance `half`;
  * `OrderedBuffer` -- a buffer with its positions in order, and a block of its size if any;
  * `CapacityThere` -- the promise, for every allocator;
  * `capacityThere_iff` -- when it is kept.
-/
import ArgusPep.Util.Buffer
import ArgusPep.Util.BufferQueue

namespace ArgusPep

open Lib Run

/-! ## 1. The functions under a policy -/

/-- The settings of `BUFFER_INCREASE_POLICY`. -/
inductive IncreasePolicy where
  /-- 0: the size grows by 1k. -/
  | kilobyte
  /-- 1: the size doubles. -/
  | double
  /-- 2, and any other: the size grows by half. -/
  | half
deriving DecidableEq

namespace IncreasePolicy

variable (policy : IncreasePolicy)

/-- `new_size1`. -/
def newSize1 (size : Nat) : Nat :=
  match policy with
  | kilobyte => toSize (size + 1024)
  | double => toSize (size * 2)
  | half => toSize (size + size / 2 + 1)

/-- `new_size`, for `size` more bytes: the larger of what is needed and what the policy says. -/
def newSize (b : Buffer) (size : Nat) : Nat :=
  let available := toSize (b.size + 2 ^ 64 - b.wpos)
  let newSize0 := toSize (b.size + (size - available))
  if newSize0 < policy.newSize1 b.size then policy.newSize1 b.size else newSize0

/-- `buffer_ensure_capacity`. -/
def ensureCapacity (size : Nat) : OnBuffer CInt := do
  let b ← Buffer.get
  let available := toSize (b.size + 2 ^ 64 - b.wpos)
  if available < size then
    match ← realloc b.data (policy.newSize b size) with
    | none =>
      Buffer.change fun b => { b with data := none }
      pure BUFFER_ERROR
    | some block =>
      Buffer.change fun buffer =>
        { buffer with data := some block, size := policy.newSize b size }
      pure BUFFER_OK
  else pure BUFFER_OK

/-- `buffer_write` of `size * count` bytes from `src`. -/
def write (src : Bytes) (size count : Nat) : OnBuffer Nat := do
  let nbytes := toSize (size * count)
  if (← policy.ensureCapacity nbytes) ≠ BUFFER_OK then pure (sizeOfInt BUFFER_ERROR)
  else if src.length < nbytes then undefined
  else
    Buffer.store (← Buffer.get).wpos (src.take nbytes)
    Buffer.change fun b => { b with wpos := toSize (b.wpos + nbytes) }
    pure nbytes

/-- `buffer_ungetc`. -/
def ungetc (c : CInt) : OnBuffer CInt := do
  if (← Buffer.get).rpos = 0 then
    if (← policy.ensureCapacity 1) ≠ BUFFER_OK then pure BUFFER_ERROR
    else
      -- shift the whole data buffer by 1
      Buffer.store 1 (← Buffer.load 0 (← Buffer.get).wpos)
      Buffer.change fun b => { b with wpos := toSize (b.wpos + 1), rpos := toSize (b.rpos + 1) }
      Buffer.putBack c
  else Buffer.putBack c

/-- `buffer_putc`. -/
def putc (c : CInt) : OnBuffer CInt := do
  if (← policy.ensureCapacity 1) ≠ BUFFER_OK then pure BUFFER_ERROR
  else
    Buffer.store (← Buffer.get).wpos [ArgusPep.putc c]
    Buffer.change fun b => { b with wpos := toSize (b.wpos + 1) }
    pure c

theorem half_ensureCapacity : half.ensureCapacity = Buffer.ensureCapacity := rfl

theorem half_write : half.write = Buffer.write := rfl

theorem half_ungetc : half.ungetc = Buffer.ungetc := rfl

theorem half_putc : half.putc = Buffer.putc := rfl

end IncreasePolicy

/-! ## 2. The promise -/

/-- A buffer with its positions in order. The block, unless it is NULL, has `size` bytes. -/
structure OrderedBuffer extends Buffer where
  rpos_le : rpos ≤ wpos
  wpos_le : wpos ≤ size
  size_lt : size < 2 ^ 64
  block : ∀ bytes, data = some bytes → bytes.length = size

/-- The positions are in order, and `n` bytes fit behind the write position. -/
def Buffer.HasRoom (n : Nat) (b : Buffer) : Prop :=
  b.rpos ≤ b.wpos ∧ b.wpos ≤ b.size ∧ n ≤ b.size - b.wpos

/-- Whatever the allocator does: after `BUFFER_OK` there is room for the `n` bytes asked for, and
    no call that asks for them writes outside of the block. `buffer_ungetc` asks if nothing has been
    read. -/
structure CapacityThere (policy : IncreasePolicy) (b : Buffer) (n : Nat) : Prop where
  room : ∀ mem leftovers w',
    policy.ensureCapacity n ⟨b, mem, leftovers⟩ = .done BUFFER_OK w' → w'.buffer.HasRoom n
  write : ∀ src size count, toSize (size * count) = n → n ≤ src.length →
    ∀ mem leftovers, Defined (policy.write src size count) ⟨b, mem, leftovers⟩
  putc : n = 1 → ∀ c mem leftovers, Defined (policy.putc c) ⟨b, mem, leftovers⟩
  ungetc : n = 1 → b.rpos = 0 → ∀ c mem leftovers, Defined (policy.ungetc c) ⟨b, mem, leftovers⟩

/-! ## 3. Growing -/

theorem length_reallocated (block leftover : Bytes) (n : Nat) :
    (reallocated block leftover n).length = n := by
  unfold reallocated
  simp only [List.length_take, List.length_append, List.length_replicate]
  omega

namespace IncreasePolicy

variable {policy : IncreasePolicy}

theorem newSize1_lt (size : Nat) : policy.newSize1 size < 2 ^ 64 := by
  cases policy <;> exact Nat.mod_lt _ (by decide)

theorem newSize_lt (b : Buffer) (n : Nat) : policy.newSize b n < 2 ^ 64 := by
  have h0 : toSize (b.size + (n - toSize (b.size + 2 ^ 64 - b.wpos))) < 2 ^ 64 :=
    Nat.mod_lt _ (by decide)
  have h1 := policy.newSize1_lt b.size
  unfold newSize
  dsimp only
  split <;> assumption

/-- Without a wrap around, the new size is enough. -/
theorem le_newSize (b : OrderedBuffer) {n : Nat} (hgrow : b.size - b.wpos < n)
    (hn : b.wpos + n < 2 ^ 64) : b.wpos + n ≤ policy.newSize b.toBuffer n := by
  have hwpos := b.wpos_le
  have hsize := b.size_lt
  unfold newSize
  dsimp only
  rw [toSize_sub hwpos hsize, toSize_of_lt (by omega)]
  split <;> omega

/-- What `buffer_ensure_capacity` does: nothing; or the block grows, or it is lost. -/
theorem ensureCapacity_cases (n : Nat) (w : BufferWorld) :
    Returns (policy.ensureCapacity n) w fun c w' =>
      (c = BUFFER_OK ∧ n ≤ toSize (w.buffer.size + 2 ^ 64 - w.buffer.wpos) ∧
        w'.buffer = w.buffer) ∨
      (c = BUFFER_OK ∧ toSize (w.buffer.size + 2 ^ 64 - w.buffer.wpos) < n ∧
        ∃ block, block.length = policy.newSize w.buffer n ∧
          w'.buffer = { w.buffer with data := some block, size := policy.newSize w.buffer n }) ∨
      (c = BUFFER_ERROR ∧ w.mem.grants (policy.newSize w.buffer n) = false ∧
        w'.buffer = { w.buffer with data := none }) := by
  unfold ensureCapacity Returns
  rw [bind_get]
  dsimp only
  by_cases hgrow : toSize (w.buffer.size + 2 ^ 64 - w.buffer.wpos) < n
  · rw [if_pos hgrow]
    by_cases hgrants : w.mem.grants (policy.newSize w.buffer n) = true
    · have hrealloc : realloc w.buffer.data (policy.newSize w.buffer n) w =
          .done (some (reallocated (w.buffer.data.getD []) (w.leftovers.headD [])
            (policy.newSize w.buffer n)))
          ⟨w.buffer, w.mem.after (policy.newSize w.buffer n), w.leftovers.tail⟩ := if_pos hgrants
      rw [bind_done hrealloc]
      exact ⟨BUFFER_OK, _, rfl, .inr (.inl ⟨rfl, hgrow, _, length_reallocated _ _ _, rfl⟩)⟩
    · have hrealloc : realloc w.buffer.data (policy.newSize w.buffer n) w =
          .done none ⟨w.buffer, w.mem.after (policy.newSize w.buffer n), w.leftovers⟩ :=
        if_neg hgrants
      rw [bind_done hrealloc]
      exact ⟨BUFFER_ERROR, _, rfl, .inr (.inr ⟨rfl, Bool.eq_false_iff.mpr hgrants, rfl⟩)⟩
  · rw [if_neg hgrow]
    exact ⟨BUFFER_OK, _, rfl, .inl ⟨rfl, Nat.le_of_not_lt hgrow, rfl⟩⟩

end IncreasePolicy

/-- The buffer `b'` is `b` with a block that takes `n` more bytes. -/
structure Roomy (b : Buffer) (n : Nat) (b' : Buffer) : Prop where
  rpos : b'.rpos = b.rpos
  wpos : b'.wpos = b.wpos
  block : ∃ bytes, b'.data = some bytes ∧ bytes.length = b'.size
  fits : b.wpos + n ≤ b'.size
  size_lt : b'.size < 2 ^ 64

theorem ensureCapacity_grants {policy : IncreasePolicy} (b : OrderedBuffer) {n : Nat}
    (hn : b.wpos + n < 2 ^ 64) (hblock : b.data ≠ none ∨ b.size - b.wpos < n) (mem : Mem)
    (leftovers : List Bytes) :
    Returns (policy.ensureCapacity n) ⟨b.toBuffer, mem, leftovers⟩ fun c w' =>
      c = BUFFER_OK → Roomy b.toBuffer n w'.buffer := by
  refine (policy.ensureCapacity_cases n ⟨b.toBuffer, mem, leftovers⟩).mono fun c w' h hc => ?_
  rw [toSize_sub b.wpos_le b.size_lt] at h
  rcases h with ⟨-, hroom, hsame⟩ | ⟨-, hgrow, block, hlength, hgrown⟩ | ⟨herror, -⟩
  · rw [hsame]
    have hdata := hblock.resolve_right (Nat.not_lt.mpr hroom)
    obtain ⟨bytes, hbytes⟩ := Option.ne_none_iff_exists'.mp hdata
    have hfits : b.wpos + n ≤ b.size := Nat.add_le_of_le_sub' b.wpos_le hroom
    exact ⟨rfl, rfl, ⟨bytes, hbytes, b.block bytes hbytes⟩, hfits, b.size_lt⟩
  · rw [hgrown]
    exact ⟨rfl, rfl, ⟨block, rfl, hlength⟩, policy.le_newSize b hgrow hn, policy.newSize_lt _ _⟩
  · exact absurd (herror.symm.trans hc) (by decide)

/-! ## 4. Writing -/

section Steps

variable {α : Type} {w : BufferWorld} {Q : α → BufferWorld → Prop}

theorem returns_get {f : Buffer → OnBuffer α} (h : Returns (f w.buffer) w Q) :
    Returns (Buffer.get >>= f) w Q := h

theorem returns_change {g : Buffer → Buffer} {f : Unit → OnBuffer α}
    (h : Returns (f ()) { w with buffer := g w.buffer } Q) :
    Returns (Buffer.change g >>= f) w Q := h

end Steps

/-- Bytes within the block. -/
theorem store_within {w : BufferWorld} {block bytes : Bytes} {pos : Nat}
    (h : w.buffer.data = some block) (hpos : pos + bytes.length ≤ block.length) :
    Returns (Buffer.store pos bytes) w fun _ w' => ∃ block',
      block'.length = block.length ∧ w'.buffer = { w.buffer with data := some block' } := by
  unfold Buffer.store Returns
  rw [bind_get, h]
  dsimp only
  rw [if_pos hpos]
  refine ⟨(), _, rfl, block.take pos ++ bytes ++ block.drop (pos + bytes.length), ?_, rfl⟩
  simp only [List.length_append, List.length_take, List.length_drop]
  omega

theorem load_within {w : BufferWorld} {block : Bytes} {pos n : Nat}
    (h : w.buffer.data = some block) (hpos : pos + n ≤ block.length) :
    Returns (Buffer.load pos n) w fun bytes w' => bytes.length = n ∧ w' = w := by
  unfold Buffer.load Returns
  rw [bind_get, h]
  dsimp only
  rw [if_pos hpos]
  refine ⟨_, w, rfl, ?_, rfl⟩
  rw [List.length_take, List.length_drop]
  omega

section Writes

variable {policy : IncreasePolicy} {b : OrderedBuffer} {n : Nat}

/-- A call that leaves with an error, or goes on with a block that takes the bytes. -/
theorem returns_behind_growth {α : Type} {e : α} {f : OnBuffer α} (hn : b.wpos + n < 2 ^ 64)
    (hblock : b.data ≠ none ∨ b.size - b.wpos < n) {mem : Mem} {leftovers : List Bytes}
    (hf : ∀ w', Roomy b.toBuffer n w'.buffer → Returns f w' fun _ _ => True) :
    Returns (do
      if (← policy.ensureCapacity n) ≠ BUFFER_OK then pure e
      else f) ⟨b.toBuffer, mem, leftovers⟩ fun _ _ => True := by
  refine (ensureCapacity_grants b hn hblock mem leftovers).bind fun c w' h => ?_
  by_cases hc : c = BUFFER_OK
  · rw [if_neg (not_not_intro hc)]
    exact hf w' (h hc)
  · rw [if_pos hc]
    exact Returns.pure trivial

/-- The bytes behind the write position. -/
theorem append_within {α : Type} {a : α} {w : BufferWorld} (h : Roomy b.toBuffer n w.buffer)
    {bytes : Bytes} (hbytes : bytes.length = n) (f : Buffer → Buffer) :
    Returns (do
      Buffer.store (← Buffer.get).wpos bytes
      Buffer.change f
      pure a) w fun _ _ => True := by
  obtain ⟨block, hdata, hlength⟩ := h.block
  have hfits := h.fits
  refine returns_get ((store_within hdata (by rw [h.wpos]; omega)).bind fun _ w' _ => ?_)
  exact returns_change (Returns.pure trivial)

theorem write_within (hn : b.wpos + n < 2 ^ 64) (hblock : b.data ≠ none ∨ b.size - b.wpos < n)
    {src : Bytes} {size count : Nat} (hsize : toSize (size * count) = n) (hsrc : n ≤ src.length)
    (mem : Mem) (leftovers : List Bytes) :
    Defined (policy.write src size count) ⟨b.toBuffer, mem, leftovers⟩ := by
  unfold IncreasePolicy.write
  dsimp only
  rw [hsize]
  refine (returns_behind_growth hn hblock fun w' h => ?_).defined
  rw [if_neg (Nat.not_lt.mpr hsrc)]
  exact append_within h (by rw [List.length_take]; omega) _

theorem putc_within (hn : b.wpos + 1 < 2 ^ 64) (hblock : b.data ≠ none ∨ b.size - b.wpos < 1)
    (c : CInt) (mem : Mem) (leftovers : List Bytes) :
    Defined (policy.putc c) ⟨b.toBuffer, mem, leftovers⟩ :=
  (returns_behind_growth hn hblock fun _ h => append_within h rfl _).defined

/-- The shift moves `wpos` bytes up by one, and the byte put back is the first one. -/
theorem ungetc_within (hn : b.wpos + 1 < 2 ^ 64) (hblock : b.data ≠ none ∨ b.size - b.wpos < 1)
    (hrpos : b.rpos = 0) (c : CInt) (mem : Mem) (leftovers : List Bytes) :
    Defined (policy.ungetc c) ⟨b.toBuffer, mem, leftovers⟩ := by
  unfold IncreasePolicy.ungetc
  rw [Defined, bind_get, if_pos hrpos]
  refine (returns_behind_growth hn hblock fun w' h => ?_).defined
  obtain ⟨block, hdata, hlength⟩ := h.block
  have hfits := h.fits
  have hwpos := h.wpos
  refine returns_get ((load_within hdata (by omega)).bind fun bytes w₁ h₁ => ?_)
  obtain ⟨hbytes, rfl⟩ := h₁
  refine (store_within hdata (by omega)).bind fun _ w₂ h₂ => ?_
  obtain ⟨block', hlength', hbuffer⟩ := h₂
  refine returns_change (returns_change (returns_get ?_))
  rw [hbuffer]
  -- the read position goes to 1, and back
  have hback : toSize (toSize (w₁.buffer.rpos + 1) + 2 ^ 64 - 1) = 0 := by
    rw [h.rpos, hrpos]
    decide
  refine (store_within rfl ?_).bind fun _ _ _ => Returns.pure trivial
  show toSize (toSize (w₁.buffer.rpos + 1) + 2 ^ 64 - 1) + 1 ≤ block'.length
  rw [hback]
  omega

end Writes

/-! ## 5. When the promise is kept -/

section Promise

variable {policy : IncreasePolicy} {b : OrderedBuffer} {n : Nat}

theorem capacityThere_of (hn : b.wpos + n < 2 ^ 64)
    (hblock : b.data ≠ none ∨ b.size - b.wpos < n) : CapacityThere policy b.toBuffer n where
  room mem leftovers w' h := by
    have hgrants : Returns (policy.ensureCapacity n) _ _ :=
      ensureCapacity_grants b hn hblock mem leftovers
    obtain ⟨c, w₁, hrun, hroom⟩ := hgrants
    rw [h] at hrun
    cases hrun
    have hr := hroom rfl
    have hfits := hr.fits
    have hrpos := b.rpos_le
    rw [Buffer.HasRoom, hr.rpos, hr.wpos]
    omega
  write _ _ _ hsize hsrc mem leftovers := write_within hn hblock hsize hsrc mem leftovers
  putc h c mem leftovers := by
    subst h
    exact putc_within hn hblock c mem leftovers
  ungetc h hrpos c mem leftovers := by
    subst h
    exact ungetc_within hn hblock hrpos c mem leftovers

/-- No block is as large as the sum. -/
theorem not_capacityThere_of_wrap (hn : 2 ^ 64 ≤ b.wpos + n) :
    ¬CapacityThere policy b.toBuffer n := by
  intro h
  have hwpos := b.wpos_le
  have hsize := b.size_lt
  obtain ⟨c, w', hrun, hcases⟩ := policy.ensureCapacity_cases n ⟨b.toBuffer, Mem.unlimited, []⟩
  rw [toSize_sub b.wpos_le b.size_lt] at hcases
  rcases hcases with ⟨-, hroom, -⟩ | ⟨rfl, -, block, -, hgrown⟩ | ⟨-, hrefused, -⟩
  · omega
  · have hroom := (h.room _ _ _ hrun).2.2
    have hlt := policy.newSize_lt b.toBuffer n
    rw [hgrown] at hroom
    have hroom : n ≤ policy.newSize b.toBuffer n - b.wpos := hroom
    omega
  · cases hrefused

/-- What `memcpy` writes to, with room for the bytes and no block, is no memory. -/
theorem not_capacityThere_of_null (hnull : b.data = none) (hroom : n ≤ b.size - b.wpos) :
    ¬CapacityThere policy b.toBuffer n := by
  intro h
  have hsize := b.size_lt
  have hn : toSize (n * 1) = n := by rw [Nat.mul_one, toSize_of_lt (by omega)]
  have hwrite := h.write (List.replicate n 0) n 1 hn (List.length_replicate ..).ge
    Mem.unlimited []
  obtain ⟨c, w', hrun, hcases⟩ := policy.ensureCapacity_cases n ⟨b.toBuffer, Mem.unlimited, []⟩
  rw [toSize_sub b.wpos_le b.size_lt] at hcases
  rcases hcases with ⟨rfl, -, hsame⟩ | ⟨-, hgrow, -⟩ | ⟨-, hrefused, -⟩
  · refine hwrite w' ?_
    unfold IncreasePolicy.write
    rw [hn, bind_done hrun, if_neg (not_not_intro rfl),
      if_neg (Nat.not_lt.mpr (List.length_replicate ..).ge), bind_get]
    refine bind_fault ?_
    unfold Buffer.store
    rw [bind_get, hsame, hnull]
    rfl
  · omega
  · cases hrefused

end Promise

/-- **Granted capacity is there exactly where the end of the request is a `size_t`, and a block is
    there or has to be made.** -/
theorem capacityThere_iff (policy : IncreasePolicy) (b : OrderedBuffer) (n : Nat) :
    CapacityThere policy b.toBuffer n ↔
      b.wpos + n < 2 ^ 64 ∧ (b.data ≠ none ∨ b.size - b.wpos < n) := by
  constructor
  · intro h
    refine ⟨?_, ?_⟩
    · by_contra hn
      exact not_capacityThere_of_wrap (Nat.le_of_not_lt hn) h
    · by_contra hblock
      obtain ⟨hnull, hroom⟩ := not_or.mp hblock
      exact not_capacityThere_of_null (not_not.mp hnull) (Nat.le_of_not_lt hroom) h
  · intro h
    exact capacityThere_of h.1 h.2

/-- A buffer of 16 bytes, all of them written. -/
def sixteenWritten : OrderedBuffer where
  data := some (List.replicate 16 0)
  size := 16
  wpos := 16
  rpos := 0
  rpos_le := by decide
  wpos_le := by decide
  size_lt := by decide
  block _ h := by
    cases h
    rfl

/-- 2^64 - 8 more bytes for it: the sum is 8, the buffer grows to 25 bytes, and `BUFFER_OK`. -/
theorem capacity_wraps_around :
    IncreasePolicy.half.ensureCapacity (2 ^ 64 - 8) ⟨sixteenWritten.toBuffer, Mem.unlimited, []⟩ =
        .done BUFFER_OK ⟨⟨some (List.replicate 25 0), 25, 16, 0⟩, Mem.unlimited, []⟩ ∧
      ¬CapacityThere IncreasePolicy.half sixteenWritten.toBuffer (2 ^ 64 - 8) := by
  have hsize : IncreasePolicy.half.newSize sixteenWritten.toBuffer (2 ^ 64 - 8) = 25 := by decide
  refine ⟨?_, not_capacityThere_of_wrap (by decide)⟩
  unfold IncreasePolicy.ensureCapacity
  rw [bind_get, if_pos (by decide), hsize]
  rfl

end ArgusPep
