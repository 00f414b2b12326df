/-
  File:      ArgusPep/Util/BufferQueue.lean
  Subject:   The memory buffer is a queue of bytes with push-back.

  * `BufferOp.queue` -- what a call means for the bytes read and the bytes not read (`Lib.Tape`);
  * `Buffer.Holds` -- a buffer that stands for such a queue: its block starts with the two parts,
    `rpos` is between them and `wpos` behind them;
  * `Backed` -- in a world whose allocations succeed;
  * `ensureCapacity_backed` -- growing keeps the queue and makes room;
  * `call_backed`, `runOps_backed` -- one call, and every sequence of calls.
-/
import ArgusPep.Util.Buffer
import ArgusPep.Lib.Tape

namespace ArgusPep

open Lib Run

/-! ## 1. The queue -/

/-- What a call returns and does, as far as the bytes are concerned. -/
def BufferOp.queue : BufferOp → Tape UInt8 → BufferResult × Tape UInt8
  | .putc c, t => (.int c, t.write [ArgusPep.putc c])
  | .write src _ _, t => (.size src.length, t.write src)
  | .getc, t => (.int (ArgusPep.getc t.unread).1, t.skip 1)
  | .read size count, t =>
    (.read (t.front (size * count)).length (t.front (size * count)), t.skip (size * count))
  | .ungetc c, t => (.int BUFFER_OK, t.pushBack (ArgusPep.putc c))
  | .rewind, t => (.int BUFFER_OK, t.rewind)
  | .reset, _ => (.int BUFFER_OK, Tape.empty)
  | .length, t => (.size t.unread.length, t)
  | .eof, t => (.bool t.unread.isEmpty, t)

/-- The calls one after another. -/
def runQueue : List BufferOp → Tape UInt8 → List BufferResult × Tape UInt8
  | [], t => ([], t)
  | op :: ops, t =>
    let (result, t) := op.queue t
    let (results, t) := runQueue ops t
    (result :: results, t)

/-- The bytes a call adds. -/
def BufferOp.added : BufferOp → Nat
  | .putc _ => 1
  | .write src _ _ => src.length
  | .ungetc _ => 1
  | _ => 0

/-- The sizes are those of the memory given: `src` has `size * count` bytes, and there are fewer
    than 2^63 of them. -/
def BufferOp.Sized : BufferOp → Prop
  | .write src size count => src.length = size * count
  | .read size count => size * count < 2 ^ 63
  | _ => True

/-! ## 2. The buffer that holds it -/

structure Buffer.Holds (b : Buffer) (t : Tape UInt8) (spare : Bytes) : Prop where
  data : b.data = some (t.consumed ++ t.unread ++ spare)
  size : b.size = (t.consumed ++ t.unread ++ spare).length
  wpos : b.wpos = t.consumed.length + t.unread.length
  rpos : b.rpos = t.consumed.length
  bound : b.size < 2 ^ 64

/-- The buffer holds the queue, and every allocation succeeds. -/
structure Backed (t : Tape UInt8) (w : BufferWorld) : Prop where
  mem : w.mem = Mem.unlimited
  holds : ∃ spare, w.buffer.Holds t spare

theorem toSize_of_lt {n : Nat} (h : n < 2 ^ 64) : toSize n = n := Nat.mod_eq_of_lt h

/-- A difference of two sizes. -/
theorem toSize_sub {m n : Nat} (h : n ≤ m) (hm : m < 2 ^ 64) : toSize (m + 2 ^ 64 - n) = m - n := by
  unfold toSize
  omega

section Memory

variable {α : Type} {w : BufferWorld} {before bytes behind : Bytes}

theorem bind_get (f : Buffer → OnBuffer α) (w : BufferWorld) :
    (Buffer.get >>= f) w = f w.buffer w := rfl

theorem bind_change (g : Buffer → Buffer) (f : Unit → OnBuffer α) (w : BufferWorld) :
    (Buffer.change g >>= f) w = f () { w with buffer := g w.buffer } := rfl

theorem load_append (h : w.buffer.data = some (before ++ bytes ++ behind)) {pos n : Nat}
    (hpos : pos = before.length) (hn : n = bytes.length) : Buffer.load pos n w = .done bytes w := by
  unfold Buffer.load
  rw [bind_get, h, hpos, hn]
  dsimp only
  rw [if_pos (by simp only [List.length_append]; omega), List.append_assoc, List.drop_left,
    List.take_left]
  rfl

theorem store_append (bytes' : Bytes) (h : w.buffer.data = some (before ++ bytes ++ behind))
    {k : Nat} (hk : k = before.length) (hn : bytes'.length = bytes.length) :
    Buffer.store k bytes' w =
      .done () { w with
        buffer := { w.buffer with data := some (before ++ bytes' ++ behind) } } := by
  unfold Buffer.store
  rw [bind_get, h, hk, hn]
  dsimp only
  rw [if_pos (by simp only [List.length_append]; omega), List.append_assoc before bytes,
    List.take_left, ← List.append_assoc before bytes, ← List.length_append, List.drop_left]
  rfl

end Memory

/-! ## 3. Growing -/

/-- A larger block starts with the old one. -/
theorem reallocated_grows (block leftover : Bytes) {n : Nat} (h : block.length ≤ n) :
    ∃ more, reallocated block leftover n = block ++ more ∧ (block ++ more).length = n := by
  refine ⟨(leftover ++ List.replicate n 0).take (n - block.length), ?_, ?_⟩
  · unfold reallocated
    rw [List.append_assoc, List.take_append, List.take_of_length_le h]
  · simp only [List.length_append, List.length_take, List.length_replicate]
    omega

/-- **Growing keeps the queue and makes room.** -/
theorem ensureCapacity_backed {t : Tape UInt8} {w : BufferWorld} (h : Backed t w) {n : Nat}
    (hn : w.buffer.wpos + n < 2 ^ 63) :
    Returns (Buffer.ensureCapacity n) w fun c w' => c = BUFFER_OK ∧ Backed t w' ∧
      w'.buffer.wpos = w.buffer.wpos ∧ w.buffer.wpos + n ≤ w'.buffer.size := by
  obtain ⟨hmem, spare, hb⟩ := h
  have hsize : w.buffer.size = w.buffer.wpos + spare.length := by
    rw [hb.size, hb.wpos]
    simp only [List.length_append]
  have hbound := hb.bound
  unfold Buffer.ensureCapacity Returns
  rw [bind_get]
  dsimp only
  rw [toSize_sub (by omega) hbound]
  by_cases hroom : w.buffer.size - w.buffer.wpos < n
  · rw [if_pos hroom, toSize_of_lt (by omega)]
    -- half as much again may wrap around; what is needed does not, and the larger one is taken
    have hnew1 : toSize (w.buffer.size + w.buffer.size / 2 + 1) < 2 ^ 64 :=
      Nat.mod_lt _ (by decide)
    generalize toSize (w.buffer.size + w.buffer.size / 2 + 1) = newSize1 at hnew1 ⊢
    generalize hnew : (if w.buffer.size + (n - (w.buffer.size - w.buffer.wpos)) < newSize1 then
      newSize1 else w.buffer.size + (n - (w.buffer.size - w.buffer.wpos))) = newSize
    have hlarge : w.buffer.wpos + n ≤ newSize ∧ w.buffer.size ≤ newSize ∧ newSize < 2 ^ 64 := by
      rw [← hnew]
      split <;> omega
    obtain ⟨more, hblock, hlength⟩ := reallocated_grows
      (t.consumed ++ t.unread ++ spare) (w.leftovers.headD []) (n := newSize) (by
        rw [← hb.size]
        exact hlarge.2.1)
    have hrealloc : realloc w.buffer.data newSize w =
        .done (some (t.consumed ++ t.unread ++ spare ++ more))
          { w with leftovers := w.leftovers.tail } := by
      unfold realloc
      rw [hmem, hb.data]
      simp only [Mem.grants_unlimited, Mem.after_unlimited, Option.getD_some, hblock, if_true]
    rw [bind_done hrealloc]
    refine ⟨BUFFER_OK, _, rfl, rfl, ⟨hmem, spare ++ more, ?_⟩, rfl, hlarge.1⟩
    refine ⟨?_, ?_, hb.wpos, hb.rpos, hlarge.2.2⟩
    · rw [← List.append_assoc]
    · rw [← List.append_assoc]
      exact hlength.symm
  · rw [if_neg hroom]
    exact ⟨BUFFER_OK, w, rfl, rfl, ⟨hmem, spare, hb⟩, rfl, by omega⟩

/-! ## 4. The calls -/

/-- The call returns `a` and leaves a buffer with the queue `t`. -/
def Leaves {α : Type} (m : OnBuffer α) (w : BufferWorld) (a : α) (t : Tape UInt8) : Prop :=
  ∃ w', m w = .done a w' ∧ Backed t w'

section Calls

variable {t : Tape UInt8} {w : BufferWorld}

/-- Bytes stored at the write position, which then moves behind them. -/
theorem append_backed (h : Backed t w) {bytes : Bytes} {α : Type} (a : α)
    (hroom : w.buffer.wpos + bytes.length ≤ w.buffer.size) :
    Leaves (do
      Buffer.store w.buffer.wpos bytes
      Buffer.change fun b => { b with wpos := toSize (b.wpos + bytes.length) }
      pure a) w a (t.write bytes) := by
  obtain ⟨hmem, spare, hb⟩ := h
  have hspare : bytes.length ≤ spare.length := by
    have hsize := hb.size
    simp only [List.length_append] at hsize
    have hwpos := hb.wpos
    omega
  have hdata : w.buffer.data =
      some (t.consumed ++ t.unread ++ spare.take bytes.length ++ spare.drop bytes.length) := by
    rw [hb.data, List.append_assoc _ (spare.take _), List.take_append_drop]
  have hwpos : w.buffer.wpos = (t.consumed ++ t.unread).length := by
    rw [hb.wpos, List.length_append]
  have hstore := store_append bytes hdata hwpos (by rw [List.length_take]; omega)
  unfold Leaves
  rw [bind_done hstore, bind_change]
  refine ⟨_, rfl, hmem, spare.drop bytes.length, ?_, ?_, ?_, hb.rpos, hb.bound⟩
  · show some _ = some (t.consumed ++ (t.unread ++ bytes) ++ spare.drop bytes.length)
    rw [List.append_assoc t.consumed t.unread bytes]
  · show w.buffer.size = (t.consumed ++ (t.unread ++ bytes) ++ spare.drop bytes.length).length
    rw [hb.size]
    simp only [List.length_append, List.length_drop]
    omega
  · show toSize (w.buffer.wpos + bytes.length) = t.consumed.length + (t.unread ++ bytes).length
    have hbound := hb.bound
    rw [toSize_of_lt (by omega), hb.wpos, List.length_append]
    omega

theorem putc_backed (h : Backed t w) (hw : w.buffer.wpos + 1 < 2 ^ 63) (c : CInt) :
    Leaves (Buffer.putc c) w c (t.write [ArgusPep.putc c]) := by
  obtain ⟨_, w₁, hensure, rfl, hbacked, hwpos, hroom⟩ := ensureCapacity_backed h hw
  rw [← hwpos] at hroom
  unfold Buffer.putc Leaves
  rw [bind_done hensure, if_neg (fun hne => hne rfl), bind_get]
  exact append_backed hbacked c hroom

theorem write_backed (h : Backed t w) {src : Bytes} {size count : Nat}
    (hsrc : src.length = size * count) (hw : w.buffer.wpos + src.length < 2 ^ 63) :
    Leaves (Buffer.write src size count) w src.length (t.write src) := by
  obtain ⟨_, w₁, hensure, rfl, hbacked, hwpos, hroom⟩ := ensureCapacity_backed h hw
  rw [← hwpos] at hroom
  unfold Buffer.write Leaves
  rw [← hsrc, toSize_of_lt (by omega), bind_done hensure, if_neg (fun hne => hne rfl),
    if_neg (Nat.lt_irrefl _), List.take_length, bind_get]
  exact append_backed hbacked src.length hroom

/-- The read position moves over the front of the queue. -/
theorem skip_holds {b : Buffer} {spare : Bytes} (h : b.Holds t spare) (n : Nat) :
    ({ b with rpos := toSize (b.rpos + (t.front n).length) } : Buffer).Holds (t.skip n) spare := by
  have hfront : (t.front n).length ≤ t.unread.length := List.length_take_le' _ _
  have hall : (t.skip n).consumed ++ (t.skip n).unread = t.consumed ++ t.unread := by
    unfold Tape.skip
    rw [List.append_assoc, List.take_append_drop]
  have hsize := h.size
  simp only [List.length_append] at hsize
  have hbound := h.bound
  have hrpos := h.rpos
  refine ⟨?_, ?_, ?_, ?_, h.bound⟩
  · rw [hall]
    exact h.data
  · rw [hall]
    exact h.size
  · rw [← List.length_append, hall, List.length_append]
    exact h.wpos
  · show toSize (b.rpos + (t.front n).length) = (t.consumed ++ t.unread.take n).length
    rw [toSize_of_lt (by omega), List.length_append, h.rpos]
    rfl

/-- The bytes at the read position are the front of the queue. -/
theorem load_front {spare : Bytes} (h : w.buffer.Holds t spare) {n k : Nat}
    (hk : k = (t.front n).length) : Buffer.load w.buffer.rpos k w = .done (t.front n) w := by
  have hdata : w.buffer.data = some (t.consumed ++ t.front n ++ (t.unread.drop n ++ spare)) := by
    rw [h.data, ← List.append_assoc, List.append_assoc t.consumed (t.front n)]
    exact congrArg (fun xs => some (t.consumed ++ xs ++ spare))
      (List.take_append_drop n t.unread).symm
  exact load_append hdata h.rpos hk

theorem available_eq {b : Buffer} {spare : Bytes} (h : b.Holds t spare) :
    toSize (b.wpos + 2 ^ 64 - b.rpos) = t.unread.length := by
  have hsize := h.size
  simp only [List.length_append] at hsize
  have hbound := h.bound
  have hwpos := h.wpos
  have hrpos := h.rpos
  rw [toSize_sub (by omega) (by omega)]
  omega

/-- As many bytes are read as are there, up to `n`. -/
theorem length_front (t : Tape UInt8) (n : Nat) :
    (if t.unread.length < n then t.unread.length else n) = (t.front n).length := by
  unfold Tape.front
  rw [List.length_take]
  split <;> omega

theorem read_backed (h : Backed t w) {size count : Nat} (hn : size * count < 2 ^ 63) :
    Leaves (Buffer.read size count) w
      ((t.front (size * count)).length, t.front (size * count)) (t.skip (size * count)) := by
  obtain ⟨hmem, spare, hb⟩ := h
  unfold Buffer.read Leaves
  rw [bind_get, available_eq hb, toSize_of_lt (n := size * count) (by omega), length_front,
    bind_done (load_front hb rfl), bind_change]
  exact ⟨_, rfl, hmem, spare, skip_holds hb _⟩

theorem eof_eq {spare : Bytes} (h : w.buffer.Holds t spare) :
    Buffer.eof w = .done t.unread.isEmpty w := by
  have hwpos := h.wpos
  have hrpos := h.rpos
  have heq : decide (w.buffer.wpos ≤ w.buffer.rpos) = t.unread.isEmpty := by
    cases hunread : t.unread with
    | nil =>
      rw [hunread] at hwpos
      exact decide_eq_true (by rw [hwpos, hrpos]; exact Nat.le_refl _)
    | cons b bs =>
      rw [hunread, List.length_cons] at hwpos
      exact decide_eq_false (by omega)
  unfold Buffer.eof
  rw [bind_get, heq]
  rfl

theorem getc_backed (h : Backed t w) :
    Leaves Buffer.getc w (ArgusPep.getc t.unread).1 (t.skip 1) := by
  obtain ⟨hmem, spare, hb⟩ := h
  unfold Buffer.getc Leaves
  rw [bind_done (eof_eq hb)]
  cases hunread : t.unread with
  | nil =>
    have hskip : t.skip 1 = t := by
      unfold Tape.skip
      rw [hunread, List.take_nil, List.drop_nil, List.append_nil, ← hunread]
    rw [hskip]
    exact ⟨w, rfl, hmem, spare, hb⟩
  | cons b bs =>
    have hfront : t.front 1 = [b] := by
      unfold Tape.front
      rw [hunread]
      rfl
    rw [if_neg (c := (b :: bs).isEmpty = true) Bool.false_ne_true, bind_get,
      bind_done (load_front hb (n := 1) (by rw [hfront]; rfl)), bind_change, hfront]
    have hholds := skip_holds hb 1
    rw [hfront] at hholds
    exact ⟨_, rfl, hmem, spare, hholds⟩

/-- One step back, and the byte in front of the read position. -/
theorem putBack_backed (h : Backed t w) (hconsumed : t.consumed ≠ []) (c : CInt) :
    Leaves (Buffer.putBack c) w BUFFER_OK (t.pushBack (ArgusPep.putc c)) := by
  obtain ⟨hmem, spare, hb⟩ := h
  have hlast : t.consumed.dropLast ++ [t.consumed.getLast hconsumed] = t.consumed :=
    List.dropLast_concat_getLast hconsumed
  have hlength : t.consumed.length = t.consumed.dropLast.length + 1 := by
    rw [← congrArg List.length hlast, List.length_append]
    rfl
  have hrpos : toSize (w.buffer.rpos + 2 ^ 64 - 1) = t.consumed.dropLast.length := by
    have hsize := hb.size
    simp only [List.length_append] at hsize
    have hbound := hb.bound
    have hr := hb.rpos
    rw [toSize_sub (by omega) (by omega)]
    omega
  have hdata : w.buffer.data = some (t.consumed.dropLast ++ [t.consumed.getLast hconsumed] ++
      (t.unread ++ spare)) := by
    rw [hlast, ← List.append_assoc]
    exact hb.data
  have hstore := store_append [ArgusPep.putc c] hdata rfl rfl
    (w := { w with buffer := { w.buffer with rpos := t.consumed.dropLast.length } })
  unfold Buffer.putBack Leaves
  rw [bind_change, bind_get, hrpos]
  refine ⟨_, bind_done hstore, hmem, spare, ?_, ?_, ?_, rfl, hb.bound⟩
  · show some _ = some (t.consumed.dropLast ++ ArgusPep.putc c :: t.unread ++ spare)
    simp only [List.append_assoc, List.cons_append, List.nil_append]
  · show w.buffer.size = (t.consumed.dropLast ++ ArgusPep.putc c :: t.unread ++ spare).length
    rw [hb.size]
    simp only [List.length_append, List.length_cons, hlength]
    omega
  · show w.buffer.wpos = t.consumed.dropLast.length + (ArgusPep.putc c :: t.unread).length
    rw [hb.wpos, hlength, List.length_cons]
    omega

/-- The whole block moved up by one byte: there is a byte in front of the queue. -/
theorem shift_backed (h : Backed t w) (hnone : t.consumed = [])
    (hroom : w.buffer.wpos + 1 ≤ w.buffer.size) :
    ∃ x w', Backed ⟨[x], t.unread⟩ w' ∧ ∀ {α : Type} (f : OnBuffer α),
      (do
        Buffer.store 1 (← Buffer.load 0 w.buffer.wpos)
        Buffer.change fun b => { b with wpos := toSize (b.wpos + 1), rpos := toSize (b.rpos + 1) }
        f) w = f w' := by
  obtain ⟨hmem, spare, hb⟩ := h
  have hdata : w.buffer.data = some ([] ++ t.unread ++ spare) := by
    rw [hb.data, hnone]
  have hwpos : w.buffer.wpos = t.unread.length := by
    rw [hb.wpos, hnone]
    exact Nat.zero_add _
  have hrpos : w.buffer.rpos = 0 := by
    rw [hb.rpos, hnone]
    rfl
  have hsize := hb.size
  have hbound := hb.bound
  rw [hnone, List.nil_append] at hsize
  have hload : Buffer.load 0 w.buffer.wpos w = .done t.unread w := load_append hdata rfl hwpos
  cases hblock : t.unread ++ spare with
  | nil =>
    rw [hblock] at hsize
    exact absurd (hsize ▸ hroom) (Nat.not_succ_le_zero _)
  | cons x block =>
    have hlength := congrArg List.length hblock
    rw [List.length_append, List.length_cons] at hlength
    rw [List.length_append] at hsize
    -- the first byte stays where it is
    have hshifted : w.buffer.data = some ([x] ++ block.take t.unread.length ++
        block.drop t.unread.length) := by
      rw [hdata, List.nil_append, hblock, List.append_assoc, List.take_append_drop]
      rfl
    have hstore := store_append t.unread hshifted (k := 1) rfl (by rw [List.length_take]; omega)
    let shifted : Buffer :=
      { w.buffer with
        data := some ([x] ++ t.unread ++ block.drop t.unread.length)
        wpos := toSize (w.buffer.wpos + 1)
        rpos := toSize (w.buffer.rpos + 1) }
    refine ⟨x, { w with buffer := shifted },
      ⟨hmem, block.drop t.unread.length, rfl, ?_, ?_, ?_, hbound⟩, fun f => ?_⟩
    · show w.buffer.size = ([x] ++ t.unread ++ block.drop t.unread.length).length
      simp only [List.length_append, List.length_drop, List.length_cons, List.length_nil]
      omega
    · show toSize (w.buffer.wpos + 1) = [x].length + t.unread.length
      rw [toSize_of_lt (by omega), hwpos, Nat.add_comm]
      rfl
    · show toSize (w.buffer.rpos + 1) = [x].length
      rw [hrpos]
      rfl
    · rw [bind_done hload, bind_done hstore, bind_change]

theorem ungetc_backed (h : Backed t w) (hw : w.buffer.wpos + 1 < 2 ^ 63) (c : CInt) :
    Leaves (Buffer.ungetc c) w BUFFER_OK (t.pushBack (ArgusPep.putc c)) := by
  unfold Buffer.ungetc Leaves
  rw [bind_get]
  by_cases hzero : w.buffer.rpos = 0
  · have hnone : t.consumed = [] := by
      obtain ⟨-, spare, hb⟩ := h
      exact List.eq_nil_of_length_eq_zero (by rw [← hb.rpos, hzero])
    obtain ⟨_, w₁, hensure, rfl, hbacked, hwpos, hroom⟩ := ensureCapacity_backed h hw
    rw [← hwpos] at hroom
    obtain ⟨x, w₂, hshifted, hshift⟩ := shift_backed hbacked hnone hroom
    rw [if_pos hzero, bind_done hensure, if_neg (fun hne => hne rfl), bind_get, hshift]
    obtain ⟨w₃, hput, hpushed⟩ := putBack_backed hshifted (List.cons_ne_nil _ _) c
    refine ⟨w₃, hput, ?_⟩
    unfold Tape.pushBack
    rw [hnone]
    exact hpushed
  · rw [if_neg hzero]
    refine putBack_backed h ?_ c
    intro hnone
    obtain ⟨-, spare, hb⟩ := h
    exact hzero (by rw [hb.rpos, hnone]; rfl)

theorem rewind_backed (h : Backed t w) : Leaves Buffer.rewind w BUFFER_OK t.rewind := by
  obtain ⟨hmem, spare, hb⟩ := h
  refine ⟨_, rfl, hmem, spare, hb.data, hb.size, ?_, rfl, hb.bound⟩
  show w.buffer.wpos = 0 + (t.consumed ++ t.unread).length
  rw [hb.wpos, List.length_append, Nat.zero_add]

theorem reset_backed (h : Backed t w) : Leaves Buffer.reset w BUFFER_OK Tape.empty := by
  obtain ⟨hmem, spare, hb⟩ := h
  have hdata : w.buffer.data = some ([] ++ (t.consumed ++ t.unread ++ spare) ++ []) := by
    rw [List.append_nil]
    exact hb.data
  have hstore := store_append (List.replicate w.buffer.size 0) hdata rfl
    (by rw [List.length_replicate, hb.size])
    (w := { w with buffer := { w.buffer with rpos := 0, wpos := 0 } })
  unfold Buffer.reset Leaves
  rw [bind_change, bind_get]
  refine ⟨_, bind_done hstore, hmem, List.replicate w.buffer.size 0, ?_, ?_, rfl, rfl, hb.bound⟩
  · exact congrArg some (List.append_nil _)
  · exact (List.length_replicate (n := w.buffer.size)).symm

theorem length_backed (h : Backed t w) : Leaves Buffer.length w t.unread.length t := by
  obtain ⟨hmem, spare, hb⟩ := h
  unfold Buffer.length Leaves
  rw [bind_get, available_eq hb]
  exact ⟨w, rfl, hmem, spare, hb⟩

/-- **One call: what the queue says.** -/
theorem call_backed {op : BufferOp} (h : Backed t w) (hop : op.Sized)
    (hw : t.consumed.length + t.unread.length + op.added < 2 ^ 63) :
    Leaves op.call w (op.queue t).1 (op.queue t).2 := by
  have hwpos : w.buffer.wpos = t.consumed.length + t.unread.length := by
    obtain ⟨-, spare, hb⟩ := h
    exact hb.wpos
  rw [← hwpos] at hw
  cases op with
  | putc c =>
    obtain ⟨w', hcall, hbacked⟩ := putc_backed h hw c
    exact ⟨w', bind_done hcall, hbacked⟩
  | write src size count =>
    obtain ⟨w', hcall, hbacked⟩ := write_backed h hop hw
    exact ⟨w', bind_done hcall, hbacked⟩
  | getc =>
    obtain ⟨w', hcall, hbacked⟩ := getc_backed h
    exact ⟨w', bind_done hcall, hbacked⟩
  | read size count =>
    obtain ⟨w', hcall, hbacked⟩ := read_backed h hop
    exact ⟨w', bind_done hcall, hbacked⟩
  | ungetc c =>
    obtain ⟨w', hcall, hbacked⟩ := ungetc_backed h hw c
    exact ⟨w', bind_done hcall, hbacked⟩
  | rewind =>
    obtain ⟨w', hcall, hbacked⟩ := rewind_backed h
    exact ⟨w', bind_done hcall, hbacked⟩
  | reset =>
    obtain ⟨w', hcall, hbacked⟩ := reset_backed h
    exact ⟨w', bind_done hcall, hbacked⟩
  | length =>
    obtain ⟨w', hcall, hbacked⟩ := length_backed h
    exact ⟨w', bind_done hcall, hbacked⟩
  | eof =>
    obtain ⟨hmem, spare, hb⟩ := h
    exact ⟨w, bind_done (eof_eq hb), hmem, spare, hb⟩

end Calls

/-! ## 5. Runs -/

/-- A call lets the queue grow by what it adds at most. -/
theorem queue_length (op : BufferOp) (t : Tape UInt8) :
    (op.queue t).2.consumed.length + (op.queue t).2.unread.length ≤
      t.consumed.length + t.unread.length + op.added := by
  cases op <;>
    simp only [BufferOp.queue, BufferOp.added, Tape.write, Tape.skip, Tape.pushBack, Tape.rewind,
      Tape.empty, List.length_append, List.length_take, List.length_drop, List.length_cons,
      List.length_nil, List.length_dropLast] <;> omega

theorem runQueue_length (ops : List BufferOp) (t : Tape UInt8) :
    (runQueue ops t).2.consumed.length + (runQueue ops t).2.unread.length ≤
      t.consumed.length + t.unread.length + (ops.map BufferOp.added).sum := by
  induction ops generalizing t with
  | nil => exact Nat.le_refl _
  | cons op ops ih =>
    have hop := queue_length op t
    have hops := ih (op.queue t).2
    rw [List.map_cons, List.sum_cons]
    show (runQueue ops (op.queue t).2).2.consumed.length +
      (runQueue ops (op.queue t).2).2.unread.length ≤ _
    omega

/-- **A sequence of calls: what the queue says.** -/
theorem runOps_backed {ops : List BufferOp} {t : Tape UInt8} {w : BufferWorld} (h : Backed t w)
    (hops : ∀ op ∈ ops, op.Sized)
    (hw : t.consumed.length + t.unread.length + (ops.map BufferOp.added).sum < 2 ^ 63) :
    Leaves (runOps ops) w (runQueue ops t).1 (runQueue ops t).2 := by
  induction ops generalizing t w with
  | nil => exact ⟨w, rfl, h⟩
  | cons op ops ih =>
    rw [List.map_cons, List.sum_cons] at hw
    obtain ⟨w₁, hcall, hbacked⟩ := call_backed h (hops op List.mem_cons_self) (by omega)
    have hlength := queue_length op t
    obtain ⟨w₂, hrun, hend⟩ := ih hbacked
      (fun op' hop => hops op' (List.mem_cons_of_mem _ hop)) (by omega)
    refine ⟨w₂, ?_, hend⟩
    unfold runOps
    rw [bind_done hcall, bind_done hrun]
    rfl

/-- A new buffer holds nothing. -/
theorem create_backed {size : Nat} (hsize : size < 2 ^ 64) (leftovers : List Bytes) :
    ∃ b, Buffer.create size Mem.unlimited = (some b, Mem.unlimited) ∧
      Backed Tape.empty ⟨b, Mem.unlimited, leftovers⟩ := by
  refine ⟨_, rfl, rfl, List.replicate (if size < 2 then 16 else size) 0, rfl, ?_, rfl, rfl, ?_⟩
  · exact (List.length_replicate (n := if size < 2 then 16 else size)).symm
  · show (if size < 2 then 16 else size) < 2 ^ 64
    split <;> omega

theorem Backed.positions {t : Tape UInt8} {w : BufferWorld} (h : Backed t w) :
    w.buffer.rpos ≤ w.buffer.wpos ∧ w.buffer.wpos ≤ w.buffer.size := by
  obtain ⟨-, spare, hb⟩ := h
  have hsize := hb.size
  simp only [List.length_append] at hsize
  have hwpos := hb.wpos
  have hrpos := hb.rpos
  exact ⟨by omega, by omega⟩

/-! ## 6. Transfers in pieces -/

/-- The bytes a `buffer_write` is given. -/
def BufferOp.source : BufferOp → Bytes
  | .write src _ _ => src
  | _ => []

/-- The bytes a `buffer_read` asks for. -/
def BufferOp.requested : BufferOp → Nat
  | .read size count => size * count
  | _ => 0

/-- The bytes a `buffer_read` gave. -/
def BufferResult.bytes : BufferResult → Bytes
  | .read _ dst => dst
  | _ => []

def BufferOp.IsWrite (op : BufferOp) : Prop := ∃ src size count, op = .write src size count

def BufferOp.IsRead (op : BufferOp) : Prop := ∃ size count, op = .read size count

/-- Writes one after another are one write of all their bytes. -/
theorem runQueue_writes {ops : List BufferOp} (h : ∀ op ∈ ops, op.IsWrite) (t : Tape UInt8) :
    (runQueue ops t).2 = t.write (ops.map BufferOp.source).flatten := by
  rw [← Tape.writes_eq, List.foldl_map]
  induction ops generalizing t with
  | nil => rfl
  | cons op ops ih =>
    obtain ⟨src, size, count, rfl⟩ := h op List.mem_cons_self
    exact ih (fun op' hop => h op' (List.mem_cons_of_mem _ hop)) _

/-- Reads one after another give what one read of all they ask for gives. -/
theorem runQueue_reads {ops : List BufferOp} (h : ∀ op ∈ ops, op.IsRead) (t : Tape UInt8) :
    ((runQueue ops t).1.map BufferResult.bytes).flatten =
      t.front (ops.map BufferOp.requested).sum := by
  rw [← Tape.takes_flatten]
  congr 1
  induction ops generalizing t with
  | nil => rfl
  | cons op ops ih =>
    obtain ⟨size, count, rfl⟩ := h op List.mem_cons_self
    exact congrArg (t.front (size * count) :: ·)
      (ih (fun op' hop => h op' (List.mem_cons_of_mem _ hop)) _)

/-- No read adds bytes. -/
theorem added_reads {ops : List BufferOp} (h : ∀ op ∈ ops, op.IsRead) :
    (ops.map BufferOp.added).sum = 0 := by
  induction ops with
  | nil => rfl
  | cons op ops ih =>
    obtain ⟨size, count, rfl⟩ := h op List.mem_cons_self
    rw [List.map_cons, List.sum_cons, ih fun op' hop => h op' (List.mem_cons_of_mem _ hop)]
    rfl

/-- **The memory buffer refines the queue**: from `buffer_create` on, every sequence of calls
    returns what the queue returns, with the positions in order and the queue in the block. However
    a transfer is then split into reads or into writes, the concatenation of the pieces counts. -/
theorem buffer_refines_queue {size : Nat} (hsize : size < 2 ^ 63) (leftovers : List Bytes)
    {ops : List BufferOp} (hops : ∀ op ∈ ops, op.Sized)
    (htotal : (ops.map BufferOp.added).sum < 2 ^ 63) :
    ∃ b w spare, Buffer.create size Mem.unlimited = (some b, Mem.unlimited) ∧
      runOps ops ⟨b, Mem.unlimited, leftovers⟩ = .done (runQueue ops Tape.empty).1 w ∧
      w.buffer.rpos ≤ w.buffer.wpos ∧ w.buffer.wpos ≤ w.buffer.size ∧
      w.buffer.Holds (runQueue ops Tape.empty).2 spare ∧
      (∀ reads : List BufferOp, (∀ op ∈ reads, op.IsRead ∧ op.Sized) →
        ∃ results w', runOps reads w = .done results w' ∧
          (results.map BufferResult.bytes).flatten =
            (runQueue ops Tape.empty).2.unread.take (reads.map BufferOp.requested).sum) ∧
      (∀ writes : List BufferOp, (∀ op ∈ writes, op.IsWrite ∧ op.Sized) →
        ((ops ++ writes).map BufferOp.added).sum < 2 ^ 63 →
        ∃ results w' spare', runOps writes w = .done results w' ∧
          w'.buffer.Holds ((runQueue ops Tape.empty).2.write
            (writes.map BufferOp.source).flatten) spare') := by
  obtain ⟨b, hcreate, hnew⟩ := create_backed (Nat.lt_trans hsize (by decide)) leftovers
  have hlength := runQueue_length ops Tape.empty
  simp only [Tape.empty, List.length_nil, Nat.zero_add] at hlength
  obtain ⟨w, hrun, hbacked⟩ := runOps_backed hnew hops (by
    simpa only [Tape.empty, List.length_nil, Nat.zero_add] using htotal)
  obtain ⟨hread, hwrite⟩ := hbacked.positions
  obtain ⟨hmem, spare, hb⟩ := hbacked
  refine ⟨b, w, spare, hcreate, hrun, hread, hwrite, hb, fun reads hreads => ?_,
    fun writes hwrites hmore => ?_⟩
  · obtain ⟨w', hrun', -⟩ := runOps_backed (t := (runQueue ops Tape.empty).2) ⟨hmem, spare, hb⟩
      (fun op hop => (hreads op hop).2) (by
        rw [added_reads fun op hop => (hreads op hop).1]
        exact Nat.lt_of_le_of_lt hlength htotal)
    exact ⟨_, w', hrun', runQueue_reads (fun op hop => (hreads op hop).1) _⟩
  · rw [List.map_append, List.sum_append] at hmore
    obtain ⟨w', hrun', -, spare', hb'⟩ := runOps_backed (t := (runQueue ops Tape.empty).2)
      ⟨hmem, spare, hb⟩ (fun op hop => (hwrites op hop).2) (by
        have hthere : (runQueue ops Tape.empty).2.consumed.length +
          (runQueue ops Tape.empty).2.unread.length ≤ (ops.map BufferOp.added).sum := hlength
        omega)
    rw [runQueue_writes (fun op hop => (hwrites op hop).1)] at hb'
    exact ⟨_, w', spare', hrun', hb'⟩

/-- A buffer of two bytes that grows, with a byte put back in front of the first. -/
theorem buffer_refines_queue_grown :
    ∃ b w, Buffer.create 2 Mem.unlimited = (some b, Mem.unlimited) ∧
      runOps [.write [1, 2, 3] 1 3, .ungetc 9#32, .getc, .getc, .rewind, .read 1 8]
          ⟨b, Mem.unlimited, [[7, 7]]⟩ =
        .done [.size 3, .int BUFFER_OK, .int 9#32, .int 1#32, .int BUFFER_OK,
          .read 4 [9, 1, 2, 3]] w := by
  have hops : ∀ op ∈ ([.write [1, 2, 3] 1 3, .ungetc 9#32, .getc, .getc, .rewind, .read 1 8] :
      List BufferOp), op.Sized := by
    intro op hop
    simp only [List.mem_cons, List.not_mem_nil, or_false] at hop
    rcases hop with rfl | rfl | rfl | rfl | rfl | rfl
    · exact (rfl : ([1, 2, 3] : Bytes).length = 1 * 3)
    · trivial
    · trivial
    · trivial
    · trivial
    · exact (by decide : 1 * 8 < 2 ^ 63)
  obtain ⟨b, w, -, hcreate, hrun, -⟩ :=
    buffer_refines_queue (by decide : 2 < 2 ^ 63) [[7, 7]] hops (by decide)
  exact ⟨b, w, hcreate, hrun⟩

end ArgusPep
