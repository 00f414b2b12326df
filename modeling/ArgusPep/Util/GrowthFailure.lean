/-
  File:      ArgusPep/Util/GrowthFailure.lean
  Subject:   What a buffer is after a growth that failed.

  `buffer_ensure_capacity` frees the block when `realloc` fails, and leaves the size and the
  positions as they were. The bytes are gone, and a later call that does not grow goes to NULL.

  * `Reached` -- the buffer of some calls after `buffer_create`, with any allocator;
  * `GrowthFails` -- a call that returns its error because it got no memory;
  * `LeavesAsWas` -- the same bytes and positions, and the same results of every later call;
  * `Reached.whole` -- the block of a buffer, unless it is NULL, has the buffer's size;
  * `growth_failure_iff` -- a failed growth leaves a buffer as it was only if it had no block.
-/
import ArgusPep.Util.Capacity

namespace ArgusPep

open Lib Run

/-! ## 1. Failures -/

/-- Some calls after `buffer_create` come to this state. -/
def Reached (w : BufferWorld) : Prop :=
  ∃ size mem b mem' leftovers ops results, Buffer.create size mem = (some b, mem') ∧
    runOps ops ⟨b, mem', leftovers⟩ = .done results w

/-- The bytes a call asks `buffer_ensure_capacity` for, if it does. -/
def BufferOp.demand (b : Buffer) : BufferOp → Option Nat
  | .putc _ => some 1
  | .write _ size count => some (toSize (size * count))
  | .ungetc _ => if b.rpos = 0 then some 1 else none
  | _ => none

/-- What a call returns that does not get them. -/
def BufferOp.error : BufferOp → BufferResult
  | .write _ _ _ => .size (sizeOfInt BUFFER_ERROR)
  | _ => .int BUFFER_ERROR

/-- The call returns its error, because the capacity it asks for was refused. -/
structure GrowthFails (op : BufferOp) (w w' : BufferWorld) : Prop where
  call : op.call w = .done op.error w'
  refused : ∃ n w₁, op.demand w.buffer = some n ∧
    Buffer.ensureCapacity n w = .done BUFFER_ERROR w₁

/-- The bytes not read. -/
def Buffer.unread (b : Buffer) : Bytes := ((b.data.getD []).drop b.rpos).take (b.wpos - b.rpos)

/-- What the calls return one after another; `none` where they come to something undefined. -/
def resultsOf (ops : List BufferOp) (w : BufferWorld) : Option (List BufferResult) :=
  match runOps ops w with
  | .done results _ => some results
  | _ => none

/-- The buffer `b'` is as good as `b`, whatever the allocator does from now on. -/
structure LeavesAsWas (b b' : Buffer) : Prop where
  unread : b'.unread = b.unread
  wpos : b'.wpos = b.wpos
  rpos : b'.rpos = b.rpos
  later : ∀ ops mem leftovers,
    resultsOf ops ⟨b', mem, leftovers⟩ = resultsOf ops ⟨b, mem, leftovers⟩

/-! ## 2. Blocks -/

/-- The block, unless it is NULL, has the size of the buffer. -/
def Buffer.Whole (b : Buffer) : Prop := ∀ block, b.data = some block → block.length = b.size

/-- Whole before, whole behind. -/
def KeepsWhole (w w' : BufferWorld) : Prop := w.buffer.Whole → w'.buffer.Whole

theorem keepsWhole : Path KeepsWhole := ⟨fun _ h => h, fun h₁ h₂ h => h₂ (h₁ h)⟩

theorem moves_get {α : Type} {f : Buffer → OnBuffer α} (hf : ∀ b, Moves KeepsWhole (f b)) :
    Moves KeepsWhole (Buffer.get >>= f) := fun w => hf w.buffer w

/-- The positions are not the block. -/
theorem moves_positions (f : Buffer → Buffer)
    (hf : ∀ b, (f b).data = b.data ∧ (f b).size = b.size) : Moves KeepsWhole (Buffer.change f) := by
  refine Moves.update fun w h block hblock => ?_
  show block.length = (f w.buffer).size
  rw [(hf w.buffer).2]
  exact h block ((hf w.buffer).1 ▸ hblock)

theorem load_moves (pos n : Nat) : Moves KeepsWhole (Buffer.load pos n) := by
  refine moves_get fun b => ?_
  split
  · exact keepsWhole.undefined
  · exact Moves.ite (keepsWhole.pure _) keepsWhole.undefined

theorem store_moves (pos : Nat) (bytes : Bytes) : Moves KeepsWhole (Buffer.store pos bytes) := by
  intro w
  cases hdata : w.buffer.data with
  | none =>
    unfold Buffer.store
    rw [Meets, bind_get, hdata]
    exact fun h => h
  | some block =>
    by_cases hpos : pos + bytes.length ≤ block.length
    · refine Returns.meets ((store_within hdata hpos).mono fun _ w' hw' h => ?_)
      obtain ⟨block', hlength, hbuffer⟩ := hw'
      rw [hbuffer]
      intro block'' hblock''
      cases hblock''
      exact hlength.trans (h block hdata)
    · unfold Buffer.store
      rw [Meets, bind_get, hdata]
      dsimp only
      rw [if_neg hpos]
      exact fun h => h

theorem ensureCapacity_moves (n : Nat) : Moves KeepsWhole (Buffer.ensureCapacity n) := by
  intro w
  rw [← IncreasePolicy.half_ensureCapacity]
  refine Returns.meets ((IncreasePolicy.half.ensureCapacity_cases n w).mono fun c w' hcases h => ?_)
  rcases hcases with ⟨-, -, hsame⟩ | ⟨-, -, block, hlength, hgrown⟩ | ⟨-, -, hlost⟩
  · rw [hsame]
    exact h
  · rw [hgrown]
    intro block' hblock'
    cases hblock'
    exact hlength
  · rw [hlost]
    exact fun _ hblock' => nomatch hblock'

theorem write_moves (src : Bytes) (size count : Nat) :
    Moves KeepsWhole (Buffer.write src size count) := by
  refine keepsWhole.bind (ensureCapacity_moves _) fun c => ?_
  refine Moves.ite (keepsWhole.pure _) (Moves.ite keepsWhole.undefined (moves_get fun b => ?_))
  refine keepsWhole.bind (store_moves _ _) fun _ => ?_
  exact keepsWhole.bind (moves_positions _ fun _ => ⟨rfl, rfl⟩) fun _ => keepsWhole.pure _

theorem read_moves (size count : Nat) : Moves KeepsWhole (Buffer.read size count) := by
  refine moves_get fun b => keepsWhole.bind (load_moves _ _) fun dst => ?_
  exact keepsWhole.bind (moves_positions _ fun _ => ⟨rfl, rfl⟩) fun _ => keepsWhole.pure _

theorem eof_moves : Moves KeepsWhole Buffer.eof := moves_get fun _ => keepsWhole.pure _

theorem getc_moves : Moves KeepsWhole Buffer.getc := by
  refine keepsWhole.bind eof_moves fun eof => Moves.ite (keepsWhole.pure _) (moves_get fun b => ?_)
  refine keepsWhole.bind (load_moves _ _) fun c => ?_
  exact keepsWhole.bind (moves_positions _ fun _ => ⟨rfl, rfl⟩) fun _ => keepsWhole.pure _

theorem putBack_moves (c : CInt) : Moves KeepsWhole (Buffer.putBack c) := by
  refine keepsWhole.bind (moves_positions _ fun _ => ⟨rfl, rfl⟩) fun _ => moves_get fun b => ?_
  exact keepsWhole.bind (store_moves _ _) fun _ => keepsWhole.pure _

theorem ungetc_moves (c : CInt) : Moves KeepsWhole (Buffer.ungetc c) := by
  refine moves_get fun b => Moves.ite ?_ (putBack_moves c)
  refine keepsWhole.bind (ensureCapacity_moves 1) fun _ => Moves.ite (keepsWhole.pure _) ?_
  refine moves_get fun b => keepsWhole.bind (load_moves _ _) fun bytes => ?_
  refine keepsWhole.bind (store_moves _ _) fun _ => ?_
  exact keepsWhole.bind (moves_positions _ fun _ => ⟨rfl, rfl⟩) fun _ => putBack_moves c

theorem putc_moves (c : CInt) : Moves KeepsWhole (Buffer.putc c) := by
  refine keepsWhole.bind (ensureCapacity_moves 1) fun _ => Moves.ite (keepsWhole.pure _) ?_
  refine moves_get fun b => keepsWhole.bind (store_moves _ _) fun _ => ?_
  exact keepsWhole.bind (moves_positions _ fun _ => ⟨rfl, rfl⟩) fun _ => keepsWhole.pure _

theorem rewind_moves : Moves KeepsWhole Buffer.rewind :=
  keepsWhole.bind (moves_positions _ fun _ => ⟨rfl, rfl⟩) fun _ => keepsWhole.pure _

theorem reset_moves : Moves KeepsWhole Buffer.reset := by
  refine keepsWhole.bind (moves_positions _ fun _ => ⟨rfl, rfl⟩) fun _ => moves_get fun b => ?_
  exact keepsWhole.bind (store_moves _ _) fun _ => keepsWhole.pure _

theorem length_moves : Moves KeepsWhole Buffer.length := moves_get fun _ => keepsWhole.pure _

/-- A call keeps the size of the block. -/
theorem call_moves (op : BufferOp) : Moves KeepsWhole op.call := by
  cases op with
  | putc c => exact keepsWhole.bind (putc_moves c) fun _ => keepsWhole.pure _
  | write src size count =>
    exact keepsWhole.bind (write_moves src size count) fun _ => keepsWhole.pure _
  | getc => exact keepsWhole.bind getc_moves fun _ => keepsWhole.pure _
  | read size count => exact keepsWhole.bind (read_moves size count) fun _ => keepsWhole.pure _
  | ungetc c => exact keepsWhole.bind (ungetc_moves c) fun _ => keepsWhole.pure _
  | rewind => exact keepsWhole.bind rewind_moves fun _ => keepsWhole.pure _
  | reset => exact keepsWhole.bind reset_moves fun _ => keepsWhole.pure _
  | length => exact keepsWhole.bind length_moves fun _ => keepsWhole.pure _
  | eof => exact keepsWhole.bind eof_moves fun _ => keepsWhole.pure _

/-- So does a sequence of calls. -/
theorem runOps_moves (ops : List BufferOp) : Moves KeepsWhole (runOps ops) := by
  induction ops with
  | nil => exact keepsWhole.pure _
  | cons op ops ih =>
    exact keepsWhole.bind (call_moves op) fun _ => keepsWhole.bind ih fun _ => keepsWhole.pure _

theorem create_whole {size : Nat} {mem mem' : Mem} {b : Buffer}
    (h : Buffer.create size mem = (some b, mem')) : b.Whole := by
  unfold Buffer.create at h
  dsimp only at h
  generalize (if size < 2 then 16 else size) = initial at h
  split at h
  · split at h
    · cases h
      intro block hblock
      cases hblock
      exact List.length_replicate ..
    · cases h
  · cases h

theorem Reached.whole {w : BufferWorld} (h : Reached w) : w.buffer.Whole := by
  obtain ⟨size, mem, b, mem', leftovers, ops, results, hcreate, hrun⟩ := h
  have hmoves := runOps_moves ops ⟨b, mem', leftovers⟩
  rw [Meets, hrun] at hmoves
  exact hmoves (create_whole hcreate)

/-! ## 3. After the failure -/

/-- A refused growth takes the block and nothing else. -/
theorem ensureCapacity_refused {n : Nat} {w w' : BufferWorld}
    (h : Buffer.ensureCapacity n w = .done BUFFER_ERROR w') :
    w'.buffer = { w.buffer with data := none } := by
  rw [← IncreasePolicy.half_ensureCapacity] at h
  obtain ⟨c, w₁, hrun, hcases⟩ := IncreasePolicy.half.ensureCapacity_cases n w
  rw [h] at hrun
  cases hrun
  rcases hcases with ⟨hok, -⟩ | ⟨hok, -⟩ | ⟨-, -, hlost⟩
  · exact absurd hok (by decide)
  · exact absurd hok (by decide)
  · exact hlost

section Refused

variable {w w₁ : BufferWorld}

theorem putc_refused (h : Buffer.ensureCapacity 1 w = .done BUFFER_ERROR w₁) (c : CInt) :
    Buffer.putc c w = .done BUFFER_ERROR w₁ := by
  unfold Buffer.putc
  rw [bind_done h]
  rfl

theorem write_refused {src : Bytes} {size count : Nat}
    (h : Buffer.ensureCapacity (toSize (size * count)) w = .done BUFFER_ERROR w₁) :
    Buffer.write src size count w = .done (sizeOfInt BUFFER_ERROR) w₁ := by
  unfold Buffer.write
  rw [bind_done h]
  rfl

theorem ungetc_refused (hrpos : w.buffer.rpos = 0)
    (h : Buffer.ensureCapacity 1 w = .done BUFFER_ERROR w₁) (c : CInt) :
    Buffer.ungetc c w = .done BUFFER_ERROR w₁ := by
  unfold Buffer.ungetc
  rw [bind_get, if_pos hrpos, bind_done h]
  rfl

/-- A call whose demand is refused returns its error at once. -/
theorem call_refused {op : BufferOp} {n : Nat} (hdemand : op.demand w.buffer = some n)
    (h : Buffer.ensureCapacity n w = .done BUFFER_ERROR w₁) : op.call w = .done op.error w₁ := by
  cases op with
  | putc c =>
    cases hdemand
    exact bind_done (putc_refused h c)
  | write src size count =>
    cases hdemand
    exact bind_done (write_refused h)
  | ungetc c =>
    have hdemand : (if w.buffer.rpos = 0 then some 1 else none) = some n := hdemand
    by_cases hrpos : w.buffer.rpos = 0
    · rw [if_pos hrpos] at hdemand
      cases hdemand
      exact bind_done (ungetc_refused hrpos h c)
    · rw [if_neg hrpos] at hdemand
      cases hdemand
  | _ => cases hdemand

end Refused

/-- So does a call that fails for it. -/
theorem GrowthFails.lost {op : BufferOp} {w w' : BufferWorld} (h : GrowthFails op w w') :
    w'.buffer = { w.buffer with data := none } := by
  obtain ⟨hcall, n, w₁, hdemand, hrefused⟩ := h
  have hw₁ := call_refused hdemand hrefused
  rw [hcall] at hw₁
  cases hw₁
  exact ensureCapacity_refused hrefused

/-- Without a block `buffer_reset` is undefined. -/
theorem reset_lost {b : Buffer} (hnull : b.data = none) (mem : Mem) (leftovers : List Bytes) :
    resultsOf [.reset] ⟨b, mem, leftovers⟩ = none := by
  unfold resultsOf runOps BufferOp.call Buffer.reset
  rw [bind_assoc, bind_assoc, bind_change, bind_assoc, bind_get, bind_assoc]
  unfold Buffer.store
  rw [bind_assoc, bind_get]
  rw [hnull]
  rfl

/-- With a whole block it is not. -/
theorem reset_whole {b : Buffer} {block : Bytes} (hdata : b.data = some block)
    (hlength : block.length = b.size) (mem : Mem) (leftovers : List Bytes) :
    resultsOf [.reset] ⟨b, mem, leftovers⟩ = some [.int BUFFER_OK] := by
  have hstored : Returns (Buffer.store 0 (List.replicate b.size 0))
      ⟨{ b with rpos := 0, wpos := 0 }, mem, leftovers⟩ fun _ _ => True :=
    (store_within hdata (by rw [List.length_replicate, hlength, Nat.zero_add])).mono
      fun _ _ _ => trivial
  obtain ⟨_, w', hstore, -⟩ := hstored
  have hreset : Buffer.reset ⟨b, mem, leftovers⟩ = .done BUFFER_OK w' := by
    unfold Buffer.reset
    rw [bind_change, bind_get, bind_done hstore]
    rfl
  have hcall : BufferOp.call .reset ⟨b, mem, leftovers⟩ = .done (.int BUFFER_OK) w' :=
    bind_done hreset
  unfold resultsOf runOps
  rw [bind_done hcall]
  rfl

/-- **A failed growth leaves a buffer as it was only if there was no block to lose.** -/
theorem growth_failure_iff {w w' : BufferWorld} {op : BufferOp} (hreached : Reached w)
    (hfails : GrowthFails op w w') : LeavesAsWas w.buffer w'.buffer ↔ w.buffer.data = none := by
  have hlost := hfails.lost
  constructor
  · intro h
    cases hdata : w.buffer.data with
    | none => rfl
    | some block =>
      have hlater := h.later [.reset] Mem.unlimited []
      rw [reset_whole hdata (hreached.whole block hdata),
        reset_lost (by rw [hlost])] at hlater
      cases hlater
  · intro hnull
    have hsame : w'.buffer = w.buffer := by
      rw [hlost, ← hnull]
    rw [hsame]
    exact ⟨rfl, rfl, rfl, fun _ _ _ => rfl⟩

/-- A buffer of two bytes, both written, and an allocator that refuses. -/
def twoWritten : BufferWorld := ⟨⟨some [1, 2], 2, 2, 0⟩, ⟨none, [false, false]⟩, []⟩

/-- The same after a `buffer_putc`. -/
def twoLost : BufferWorld := ⟨⟨none, 2, 2, 0⟩, ⟨none, [false]⟩, []⟩

/-- One more byte for two: refused. -/
theorem two_refused (data : Option Bytes) (script : List Bool) (c : CInt) :
    GrowthFails (.putc c) ⟨⟨data, 2, 2, 0⟩, ⟨none, false :: script⟩, []⟩
      ⟨⟨none, 2, 2, 0⟩, ⟨none, script⟩, []⟩ := by
  have hrefused : Buffer.ensureCapacity 1 ⟨⟨data, 2, 2, 0⟩, ⟨none, false :: script⟩, []⟩ =
      .done BUFFER_ERROR ⟨⟨none, 2, 2, 0⟩, ⟨none, script⟩, []⟩ := by
    unfold Buffer.ensureCapacity
    rw [bind_get, if_pos (by decide : toSize (2 + 2 ^ 64 - 2) < 1)]
    rfl
  exact ⟨call_refused rfl hrefused, 1, _, rfl, hrefused⟩

/-- Where a failed growth finds no block, there is none before and none behind. -/
theorem growth_failure_again : LeavesAsWas twoLost.buffer twoLost.buffer := by
  have hreached : Reached twoLost :=
    ⟨2, ⟨none, [true, true, false, false]⟩, _, _, [], [.write [1, 2] 1 2, .putc 3#32], _, rfl, rfl⟩
  exact (growth_failure_iff hreached (two_refused none [] 4#32)).mpr rfl

/-- The two bytes could be read before the `buffer_putc` that failed. Then `buffer_getc` goes to
    NULL. -/
theorem failed_putc_loses_bytes :
    Reached twoWritten ∧ GrowthFails (.putc 3#32) twoWritten twoLost ∧
      resultsOf [.getc] ⟨twoWritten.buffer, Mem.unlimited, []⟩ = some [.int 1#32] ∧
      resultsOf [.getc] ⟨twoLost.buffer, Mem.unlimited, []⟩ = none ∧
      ¬LeavesAsWas twoWritten.buffer twoLost.buffer := by
  have hreached : Reached twoWritten :=
    ⟨2, ⟨none, [true, true, false, false]⟩, _, _, [], [.write [1, 2] 1 2], _, rfl, rfl⟩
  refine ⟨hreached, two_refused (some [1, 2]) [false] 3#32, rfl, rfl, fun h => ?_⟩
  have hlater := h.later [.getc] Mem.unlimited []
  cases hlater

end ArgusPep
