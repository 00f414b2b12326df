/-
  File:      ArgusPep/Util/Buffer.lean
  Subject:   The memory buffer of util/buffer.c: a growing block with a write and a read position.

  A buffer function is a run over `BufferWorld`: the buffer, the allocator, and what `realloc` finds
  behind the bytes it keeps (`leftovers`, zeros once they are used up). `size_t` arithmetic is
  modulo 2^64 (`toSize`). Access outside the block, or to a NULL block, is undefined.

  * `ensureCapacity`, `write`, `read`, `getc`, `ungetc`, `putc`, … -- the functions, under their
    names without `buffer_`;
  * `BufferOp.call`, `runOps` -- one call, and a sequence of calls.

  The buffer is not NULL, nor are `src` and `dst`; the file functions are left out.
-/
import ArgusPep.Lib.Run
import ArgusPep.Util.Bytes

namespace ArgusPep

open Lib Run

/-- A number as `size_t`. -/
def toSize (n : Nat) : Nat := n % 2 ^ 64

def BUFFER_OK : CInt := 0#32

/-- `BUFFER_ERROR`, which is -1. -/
def BUFFER_ERROR : CInt := 0xFFFFFFFF#32

structure Buffer where
  /-- The block; NULL after a `realloc` that failed. -/
  data : Option Bytes
  size : Nat
  wpos : Nat
  rpos : Nat
deriving DecidableEq

structure BufferWorld where
  buffer : Buffer
  mem : Mem
  leftovers : List Bytes

abbrev OnBuffer := Run BufferWorld

/-! ## 1. Memory -/

/-- The block `realloc` returns for `n` bytes. -/
def reallocated (block leftover : Bytes) (n : Nat) : Bytes :=
  (block ++ leftover ++ List.replicate n 0).take n

/-- `realloc` of the block: the new one, or NULL. The old one is then kept. -/
def realloc (block : Option Bytes) (n : Nat) : OnBuffer (Option Bytes) := fun w =>
  if w.mem.grants n then
    .done (some (reallocated (block.getD []) (w.leftovers.headD []) n))
      { w with mem := w.mem.after n, leftovers := w.leftovers.tail }
  else .done none { w with mem := w.mem.after n }

namespace Buffer

/-- The buffer's structure. -/
def get : OnBuffer Buffer := fun w => .done w.buffer w

def change (f : Buffer → Buffer) : OnBuffer Unit := update fun w => { w with buffer := f w.buffer }

/-- The `n` bytes at `pos` of the block. -/
def load (pos n : Nat) : OnBuffer Bytes := do
  match (← get).data with
  | none => undefined
  | some block => if pos + n ≤ block.length then pure ((block.drop pos).take n) else undefined

/-- Bytes into the block, from `pos` on. -/
def store (pos : Nat) (bytes : Bytes) : OnBuffer Unit := do
  match (← get).data with
  | none => undefined
  | some block =>
    if pos + bytes.length ≤ block.length then
      change fun b =>
        { b with data := some (block.take pos ++ bytes ++ block.drop (pos + bytes.length)) }
    else undefined

/-! ## 2. The functions -/

/-- `buffer_create`. -/
def create (size : Nat) (mem : Mem) : Option Buffer × Mem :=
  if mem.grants 32 then
    let size := if size < 2 then 16 else size
    let mem := mem.after 32
    if mem.grants size then (some ⟨some (List.replicate size 0), size, 0, 0⟩, mem.after size)
    else (none, mem.after size)
  else (none, mem.after 32)

/-- `buffer_ensure_capacity`: the buffer grows by half, or to what is needed where that is more. -/
def ensureCapacity (size : Nat) : OnBuffer CInt := do
  let b ← get
  let available := toSize (b.size + 2 ^ 64 - b.wpos)
  if available < size then
    let newSize0 := toSize (b.size + (size - available))
    let newSize1 := toSize (b.size + b.size / 2 + 1)
    let newSize := if newSize0 < newSize1 then newSize1 else newSize0
    match ← realloc b.data newSize with
    | none =>
      change fun b => { b with data := none }
      pure BUFFER_ERROR
    | some block =>
      change fun b => { b with data := some block, size := newSize }
      pure BUFFER_OK
  else pure BUFFER_OK

/-- `buffer_write` of `size * count` bytes from `src`. -/
def write (src : Bytes) (size count : Nat) : OnBuffer Nat := do
  let nbytes := toSize (size * count)
  if (← ensureCapacity nbytes) ≠ BUFFER_OK then pure (sizeOfInt BUFFER_ERROR)
  else if src.length < nbytes then undefined
  else
    store (← get).wpos (src.take nbytes)
    change fun b => { b with wpos := toSize (b.wpos + nbytes) }
    pure nbytes

/-- `buffer_read`: the number of bytes read, and the bytes. -/
def read (size count : Nat) : OnBuffer (Nat × Bytes) := do
  let b ← get
  let available := toSize (b.wpos + 2 ^ 64 - b.rpos)
  let nbytes := if available < toSize (size * count) then available else toSize (size * count)
  let dst ← load b.rpos nbytes
  change fun b => { b with rpos := toSize (b.rpos + nbytes) }
  pure (nbytes, dst)

/-- `buffer_eof`. -/
def eof : OnBuffer Bool := do
  let b ← get
  pure (decide (b.wpos ≤ b.rpos))

/-- `buffer_getc`. -/
def getc : OnBuffer CInt := do
  if ← eof then pure BUFFER_EOF
  else
    let c ← load (← get).rpos 1
    change fun b => { b with rpos := toSize (b.rpos + 1) }
    pure (UInt8.int (c.headD 0))

/-- What `buffer_ungetc` does behind a successful shift: the byte goes in front of `rpos`. -/
def putBack (c : CInt) : OnBuffer CInt := do
  change fun b => { b with rpos := toSize (b.rpos + 2 ^ 64 - 1) }
  store (← get).rpos [ArgusPep.putc c]
  pure BUFFER_OK

/-- `buffer_ungetc`. -/
def ungetc (c : CInt) : OnBuffer CInt := do
  if (← get).rpos = 0 then
    if (← ensureCapacity 1) ≠ BUFFER_OK then pure BUFFER_ERROR
    else
      -- shift the whole data buffer by 1
      store 1 (← load 0 (← get).wpos)
      change fun b => { b with wpos := toSize (b.wpos + 1), rpos := toSize (b.rpos + 1) }
      putBack c
  else putBack c

/-- `buffer_putc`. -/
def putc (c : CInt) : OnBuffer CInt := do
  if (← ensureCapacity 1) ≠ BUFFER_OK then pure BUFFER_ERROR
  else
    store (← get).wpos [ArgusPep.putc c]
    change fun b => { b with wpos := toSize (b.wpos + 1) }
    pure c

/-- `buffer_rewind`. -/
def rewind : OnBuffer CInt := do
  change fun b => { b with rpos := 0 }
  pure BUFFER_OK

/-- `buffer_reset`: the positions, and zeros all over the block. -/
def reset : OnBuffer CInt := do
  change fun b => { b with rpos := 0, wpos := 0 }
  store 0 (List.replicate (← get).size 0)
  pure BUFFER_OK

/-- `buffer_length`. -/
def length : OnBuffer Nat := do
  let b ← get
  pure (toSize (b.wpos + 2 ^ 64 - b.rpos))

end Buffer

/-! ## 3. Calls -/

/-- A call on a buffer, with its arguments. -/
inductive BufferOp where
  | putc (c : CInt)
  | write (src : Bytes) (size count : Nat)
  | getc
  | read (size count : Nat)
  | ungetc (c : CInt)
  | rewind
  | reset
  | length
  | eof

/-- What a call returns. -/
inductive BufferResult where
  | int (n : CInt)
  | size (n : Nat)
  /-- A size, and the bytes written to `dst`. -/
  | read (n : Nat) (dst : Bytes)
  | bool (b : Bool)
deriving DecidableEq

def BufferOp.call : BufferOp → OnBuffer BufferResult
  | .putc c => do pure (.int (← Buffer.putc c))
  | .write src size count => do pure (.size (← Buffer.write src size count))
  | .getc => do pure (.int (← Buffer.getc))
  | .read size count => do
    let (n, dst) ← Buffer.read size count
    pure (.read n dst)
  | .ungetc c => do pure (.int (← Buffer.ungetc c))
  | .rewind => do pure (.int (← Buffer.rewind))
  | .reset => do pure (.int (← Buffer.reset))
  | .length => do pure (.size (← Buffer.length))
  | .eof => do pure (.bool (← Buffer.eof))

/-- The calls one after another, with what each returns. -/
def runOps : List BufferOp → OnBuffer (List BufferResult)
  | [] => pure []
  | op :: ops => do
    let result ← op.call
    let results ← runOps ops
    pure (result :: results)

end ArgusPep
