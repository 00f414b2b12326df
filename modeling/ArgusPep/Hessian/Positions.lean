/-
  File:      ArgusPep/Hessian/Positions.lean
  Subject:   Where `hessian_string_serialize` reads its string.

  The number of chunks comes from `utf8_strlen`, which counts the bytes that are not continuation
  bytes, with an `int` for the index; the end of a chunk comes from the lengths the lead bytes
  announce, without a look at the bytes skipped. On a text that is not UTF-8 the two drift apart.

  * `Access` -- what is noted: indices of `utf8_strlen`, bytes read, positions reached, ranges handed
    to `buffer_write`;
  * `hessianStringTraced` -- the serializer with these notes; `lifts_hessianStringTraced` says that
    it is the serializer;
  * `wholeChars` -- the characters that are there with all the bytes they announce;
  * `utf8StrlenTraced_good`, `utf8StrlenTraced_bad` -- `utf8_strlen` stays inside, or not;
  * `chunkEndTraced_good`, `chunkEndTraced_bad` -- one chunk stays inside, or not;
  * **`stringSerialize_inside_iff`** -- the string is not left exactly when it has fewer than 2^31
    bytes and its full chunks have enough whole characters;
  * `lively_hessianStringSerialize` -- the loops end on every string.
-/
import ArgusPep.Hessian.Wire

namespace ArgusPep

open Lib Run Utf8

/-! ## 1. The serializer with its accesses -/

inductive Access where
  /-- `s[i]` is looked at by `utf8_strlen`, whose `i` is an `int`. -/
  | index (i : Nat)
  /-- `self->string[pos]` is read. -/
  | byte (pos : Nat)
  /-- `pos` behind a round of the inner loop. -/
  | position (pos : Nat)
  /-- `n` bytes from `pos` on are handed to `buffer_write`. -/
  | range (pos n : Nat)
  /-- `str_l - pos` is computed. -/
  | rest (pos : Nat)
deriving DecidableEq

/-- The access is inside a string of `strL` bytes, its terminating zero included where the source
    looks for the end. -/
def Access.Inside (strL : Nat) : Access → Prop
  | .index i => i ≤ strL ∧ i ≤ INT_MAX
  | .byte pos => pos < strL
  | .position pos => pos ≤ strL
  | .range pos n => pos + n ≤ strL
  | .rest pos => pos ≤ strL

/-- A serializer that notes its accesses. -/
abbrev Traced (α : Type) := Run (Bytes × List Access) α

def noteAccess (a : Access) : Traced Unit := update fun s => (s.1, s.2 ++ [a])

/-- `countUtf8`: the index a round goes on to is looked at next. -/
def countUtf8Traced : (s : Bytes) → (i j : Nat) → Traced Nat
  | [], _, j => pure j
  | b :: bs, i, j => do
    noteAccess (.index (i + 1))
    let i ← next INT_MAX i
    countUtf8Traced bs i (if b &&& 0xC0 ≠ 0x80 then j + 1 else j)

/-- `utf8Strlen`. -/
def utf8StrlenTraced (s : Bytes) : Traced Nat := do
  noteAccess (.index 0)
  countUtf8Traced s 0 0

/-- `chunkEnd`. -/
def chunkEndTraced (array : Bytes) : (fuel nUtf8s pos : Nat) → Traced Nat
  | 0, _, _ => outOfFuel
  | fuel + 1, nUtf8s, pos =>
    if nUtf8s < HESSIAN_CHUNK_SIZE then do
      noteAccess (.byte pos)
      match array[pos]? with
      | none => undefined
      | some byte =>
        if byte &&& 0xC0 ≠ 0x80 then
          if byte &&& 0xE0 = 0xC0 then do
            noteAccess (.position (pos + 2))
            chunkEndTraced array fuel (nUtf8s + 1) (pos + 2)
          else if byte &&& 0xF0 = 0xE0 then do
            noteAccess (.position (pos + 3))
            chunkEndTraced array fuel (nUtf8s + 1) (pos + 3)
          else if byte &&& 0xF0 = 0xF0 then do
            noteAccess (.position (pos + 4))
            chunkEndTraced array fuel (nUtf8s + 1) (pos + 4)
          else do
            noteAccess (.position (pos + 1))
            chunkEndTraced array fuel (nUtf8s + 1) (pos + 1)
        else do
          noteAccess (.position (pos + 1))
          chunkEndTraced array fuel nUtf8s (pos + 1)
    else pure pos

/-- `textChunks`. -/
def textChunksTraced (cls : HessianClass) (array : Bytes) :
    (fuel utf8L pos : Nat) → Traced (Nat × Nat)
  | 0, _, _ => outOfFuel
  | fuel + 1, utf8L, pos =>
    if utf8L > HESSIAN_CHUNK_SIZE then do
      onFst (bufferPutc (Char.int cls.chunkTag))
      onFst (putSize16 HESSIAN_CHUNK_SIZE)
      let stop ← chunkEndTraced array (array.length + 1) 0 pos
      noteAccess (.range pos (stop - pos))
      onFst (bufferWriteAt array pos (stop - pos))
      textChunksTraced cls array fuel (utf8L - HESSIAN_CHUNK_SIZE) stop
    else pure (utf8L, pos)

/-- `hessianStringSerialize`. -/
def hessianStringTraced (cls : HessianClass) (self : CString) : Traced Unit := do
  let array := self.bytes ++ [0]
  let strL := self.bytes.length
  let utf8L ← utf8StrlenTraced self.bytes
  let left ← textChunksTraced cls array (utf8L + 1) utf8L 0
  onFst (bufferPutc (Char.int cls.tag))
  onFst (putSize16 left.1)
  noteAccess (.rest left.2)
  if left.2 ≤ strL then do
    noteAccess (.range left.2 (strL - left.2))
    onFst (bufferWriteAt array left.2 (strL - left.2))
  else undefined

theorem lifts_noteAccess {a : Access} {g : Unit → Traced α} {m : Writer α}
    (h : Lifts Prod.fst (g ()) m) : Lifts Prod.fst (noteAccess a >>= g) m := by
  refine Lifts.ghost ?_ h
  exact fun _ => rfl

theorem lifts_countUtf8Traced : ∀ (s : Bytes) (i j : Nat),
    Lifts Prod.fst (countUtf8Traced s i j) (countUtf8 s i j)
  | [], _, j => Lifts.pure j
  | _ :: bs, _, _ =>
    lifts_noteAccess (Lifts.next.bind fun i => lifts_countUtf8Traced bs i _)

theorem lifts_chunkEndTraced (array : Bytes) : ∀ fuel nUtf8s pos : Nat,
    Lifts Prod.fst (chunkEndTraced array fuel nUtf8s pos) (chunkEnd array fuel nUtf8s pos) := by
  intro fuel
  induction fuel with
  | zero => exact fun _ _ => Lifts.outOfFuel
  | succ fuel ih =>
    intro nUtf8s pos
    refine .ite (lifts_noteAccess ?_) (Lifts.pure pos)
    cases array[pos]? with
    | none => exact Lifts.undefined
    | some byte =>
      refine .ite (.ite (lifts_noteAccess (ih _ _)) ?_) (lifts_noteAccess (ih _ _))
      exact .ite (lifts_noteAccess (ih _ _))
        (.ite (lifts_noteAccess (ih _ _)) (lifts_noteAccess (ih _ _)))

theorem lifts_textChunksTraced (cls : HessianClass) (array : Bytes) : ∀ fuel utf8L pos : Nat,
    Lifts Prod.fst (textChunksTraced cls array fuel utf8L pos)
      (textChunks cls array fuel utf8L pos) := by
  intro fuel
  induction fuel with
  | zero => exact fun _ _ => Lifts.outOfFuel
  | succ fuel ih =>
    intro utf8L pos
    refine .ite ((lifts_onFst _).bind fun _ => (lifts_onFst _).bind fun _ => ?_)
      (Lifts.pure _)
    refine (lifts_chunkEndTraced array _ _ _).bind fun stop => lifts_noteAccess ?_
    exact (lifts_onFst _).bind fun _ => ih _ _

/-- **The notes change nothing.** -/
theorem lifts_hessianStringTraced (cls : HessianClass) (self : CString) :
    Lifts Prod.fst (hessianStringTraced cls self) (hessianStringSerialize cls self) := by
  refine (lifts_noteAccess (lifts_countUtf8Traced _ _ _)).bind fun utf8L => ?_
  refine (lifts_textChunksTraced cls _ _ _ _).bind fun left => ?_
  refine (lifts_onFst _).bind fun _ => (lifts_onFst _).bind fun _ => lifts_noteAccess ?_
  exact .ite (lifts_noteAccess (lifts_onFst _)) Lifts.undefined

/-! ## 2. Whole characters -/

/-- The characters whose bytes are all there, scanned by the lengths the lead bytes announce up to
    the first one that goes on behind the end. -/
def wholeChars : Bytes → Nat
  | [] => 0
  | b :: bs =>
    if trail b ≤ bs.length then wholeChars (bs.drop (trail b)) + (if Cont b then 0 else 1) else 0
termination_by bs => bs.length
decreasing_by
  rw [List.length_drop, List.length_cons]
  omega

/-- The rounds of the outer loop. -/
def fullChunks (utf8L : Nat) : Nat := (utf8L - 1) / HESSIAN_CHUNK_SIZE

theorem wholeChars_nil : wholeChars [] = 0 := by rw [wholeChars]

theorem fullChunks_more {utf8L : Nat} (h : utf8L > HESSIAN_CHUNK_SIZE) :
    fullChunks utf8L = fullChunks (utf8L - HESSIAN_CHUNK_SIZE) + 1 := by
  unfold fullChunks HESSIAN_CHUNK_SIZE at *
  omega

theorem fullChunks_last {utf8L : Nat} (h : ¬utf8L > HESSIAN_CHUNK_SIZE) : fullChunks utf8L = 0 := by
  unfold fullChunks HESSIAN_CHUNK_SIZE at *
  omega

/-- Whole characters from a position on: one round of the inner loop. -/
theorem wholeChars_drop {bytes : Bytes} {pos : Nat} {b : UInt8} (h : bytes[pos]? = some b) :
    wholeChars (bytes.drop pos) = if pos + (1 + trail b) ≤ bytes.length then
      wholeChars (bytes.drop (pos + (1 + trail b))) + (if Cont b then 0 else 1) else 0 := by
  obtain ⟨hlt, hb⟩ := List.getElem?_eq_some_iff.mp h
  rw [List.drop_eq_getElem_cons hlt, hb, wholeChars, List.drop_drop, List.length_drop]
  have hiff : trail b ≤ bytes.length - (pos + 1) ↔ pos + (1 + trail b) ≤ bytes.length := by omega
  rw [show pos + 1 + trail b = pos + (1 + trail b) by omega]
  exact if_congr hiff rfl rfl

/-! ## 3. The count and one chunk -/

/-- Every access noted is inside. -/
def Good (strL : Nat) (s : Bytes × List Access) : Prop := ∀ a ∈ s.2, a.Inside strL

theorem good_note {strL : Nat} {s : Bytes × List Access} {a : Access} :
    Good strL (s.1, s.2 ++ [a]) ↔ Good strL s ∧ a.Inside strL := by
  unfold Good
  rw [List.forall_mem_append, List.forall_mem_singleton]

theorem bad_note {strL : Nat} {s : Bytes × List Access} {a : Access} (h : ¬a.Inside strL) :
    ¬Good strL (s.1, s.2 ++ [a]) := fun hgood => h (good_note.mp hgood).2

theorem inside_range {strL pos n : Nat} : (Access.range pos n).Inside strL ↔ pos + n ≤ strL :=
  Iff.rfl

theorem inside_position {strL pos : Nat} : (Access.position pos).Inside strL ↔ pos ≤ strL := Iff.rfl

/-- Notes are only added. -/
def Later (s t : Bytes × List Access) : Prop := s.2 <+: t.2

theorem later_path : Path Later := ⟨fun _ => List.prefix_refl _, List.IsPrefix.trans⟩

theorem Later.good {strL : Nat} {s t : Bytes × List Access} (h : Later s t) (hs : ¬Good strL s) :
    ¬Good strL t := fun ht => hs fun a ha => ht a (h.subset ha)

theorem moves_noteAccess (a : Access) : Moves Later (noteAccess a) :=
  Moves.update fun _ => List.prefix_append _ _

/-- From a state with an access outside, a run ends in such a state. -/
theorem Moves.bad {α : Type} {strL : Nat} {m : Traced α} (hm : Moves Later m)
    {s : Bytes × List Access} (hs : ¬Good strL s) :
    Meets m s (fun _ t => ¬Good strL t) (fun t => ¬Good strL t) :=
  (hm s).mono (fun _ _ h => h.good hs) fun _ h => h.good hs

/-- **A string of fewer than 2^31 bytes is counted inside.** -/
theorem countUtf8Traced_good {strL : Nat} : ∀ {bs : Bytes} {i : Nat}, i + bs.length ≤ strL →
    i + bs.length ≤ INT_MAX → ∀ (j : Nat) (s : Bytes × List Access), Good strL s →
    Returns (countUtf8Traced bs i j) s fun n t => n = j + leads bs ∧ Good strL t
  | [], _, _, _, _, s, hs => ⟨_, s, rfl, rfl, hs⟩
  | b :: bs, i, hin, hmax, j, s, hs => by
    rw [List.length_cons] at hin hmax
    have hnote : (Access.index (i + 1)).Inside strL := ⟨by omega, by omega⟩
    have hgood : Good strL (s.1, s.2 ++ [.index (i + 1)]) := good_note.mpr ⟨hs, hnote⟩
    have hrest : i + 1 + bs.length ≤ strL := by omega
    have hint : i + 1 + bs.length ≤ INT_MAX := by omega
    unfold countUtf8Traced leads
    rw [next_of_lt (by omega : i < INT_MAX), pure_bind]
    refine (countUtf8Traced_good hrest hint _ _ hgood).mono fun n t h => ⟨?_, h.2⟩
    rw [h.1]
    by_cases hb : Cont b
    · rw [if_neg (not_not.mpr ((and_C0_eq_80 b).mpr hb)), if_pos hb]
    · rw [if_pos (fun e => hb ((and_C0_eq_80 b).mp e)), if_neg hb, Nat.add_right_comm, Nat.add_assoc]

theorem moves_countUtf8Traced : ∀ (bs : Bytes) (i j : Nat), Moves Later (countUtf8Traced bs i j)
  | [], _, j => later_path.pure j
  | _ :: bs, _, _ => later_path.bind (moves_noteAccess _) fun _ =>
      later_path.bind (.ite (later_path.pure _) later_path.undefined) fun _ =>
        moves_countUtf8Traced bs _ _

/-- **On a longer one the index leaves the range of an `int`.** -/
theorem countUtf8Traced_bad {strL : Nat} : ∀ {bs : Bytes} {i : Nat}, i ≤ INT_MAX →
    INT_MAX < i + bs.length → ∀ (j : Nat) (s : Bytes × List Access),
    Meets (countUtf8Traced bs i j) s (fun _ t => ¬Good strL t) fun t => ¬Good strL t
  | [], _, hi, hlong, _, _ => absurd hlong (Nat.not_lt.mpr hi)
  | b :: bs, i, hi, hlong, j, s => by
    rw [List.length_cons] at hlong
    rcases Nat.lt_or_eq_of_le hi with hlt | rfl
    · unfold countUtf8Traced
      rw [next_of_lt hlt, pure_bind]
      exact countUtf8Traced_bad hlt (by omega) _ _
    · have hout : ¬(Access.index (INT_MAX + 1)).Inside strL := fun h => Nat.not_succ_le_self _ h.2
      unfold countUtf8Traced
      rw [next_of_le (Nat.le_refl INT_MAX)]
      exact Moves.bad (later_path.undefined (α := Nat)) (bad_note (s := s) hout)

theorem utf8StrlenTraced_good {text : CString} (h : text.FitsInt) (s : Bytes × List Access)
    (hs : Good text.bytes.length s) : Returns (utf8StrlenTraced text.bytes) s fun n t =>
      n = leads text.bytes ∧ Good text.bytes.length t := by
  have hnote : (Access.index 0).Inside text.bytes.length := ⟨Nat.zero_le _, Nat.zero_le _⟩
  have hgood : Good text.bytes.length (s.1, s.2 ++ [.index 0]) := good_note.mpr ⟨hs, hnote⟩
  have hfits : 0 + text.bytes.length ≤ INT_MAX := by
    rw [Nat.zero_add]
    exact h
  refine (countUtf8Traced_good (Nat.le_of_eq (Nat.zero_add _)) hfits 0 _ hgood).mono ?_
  intro n t hn
  exact ⟨by rw [hn.1, Nat.zero_add], hn.2⟩

theorem utf8StrlenTraced_bad {text : CString} (h : ¬text.FitsInt) (s : Bytes × List Access) :
    Meets (utf8StrlenTraced text.bytes) s (fun _ t => ¬Good text.bytes.length t)
      fun t => ¬Good text.bytes.length t := by
  have hlong : INT_MAX < 0 + text.bytes.length := by
    rw [Nat.zero_add]
    exact Nat.lt_of_not_le h
  exact countUtf8Traced_bad (Nat.zero_le _) hlong 0 _

/-- A round of the inner loop. -/
theorem chunkEndTraced_round {array : Bytes} {fuel n pos : Nat} {b : UInt8}
    (hn : n < HESSIAN_CHUNK_SIZE) (hb : array[pos]? = some b) :
    chunkEndTraced array (fuel + 1) n pos = (do
      noteAccess (.byte pos)
      noteAccess (.position (pos + (1 + trail b)))
      chunkEndTraced array fuel (n + (if Cont b then 0 else 1)) (pos + (1 + trail b))) := by
  rw [chunkEndTraced, if_pos hn, hb]
  refine congrArg (noteAccess (.byte pos) >>= fun _ => ·) ?_
  exact pass_lead (fun n k => noteAccess (.position (pos + k)) >>= fun _ =>
    chunkEndTraced array fuel n (pos + k)) n b

theorem moves_onFst {α : Type} (m : Writer α) : Moves Later (onFst m) := by
  intro s
  unfold Meets onFst
  cases m s.1 with
  | stuck => trivial
  | _ => exact List.prefix_refl _

theorem moves_chunkEndTraced (array : Bytes) : ∀ fuel n pos : Nat,
    Moves Later (chunkEndTraced array fuel n pos) := by
  intro fuel
  induction fuel with
  | zero => exact fun _ _ _ => Meets.outOfFuel
  | succ fuel ih =>
    intro n pos
    by_cases hn : n < HESSIAN_CHUNK_SIZE
    · cases hb : array[pos]? with
      | none =>
        rw [chunkEndTraced, if_pos hn, hb]
        exact later_path.bind (moves_noteAccess _) fun _ => later_path.undefined
      | some b =>
        rw [chunkEndTraced_round hn hb]
        exact later_path.bind (moves_noteAccess _) fun _ =>
          later_path.bind (moves_noteAccess _) fun _ => ih _ _
    · rw [chunkEndTraced, if_neg hn]
      exact later_path.pure _

section Chunk

variable {bytes : Bytes}

/-- The byte at a position inside the string, or its terminator. -/
theorem getElem?_array {pos : Nat} (h : pos ≤ bytes.length) :
    (∃ b, bytes[pos]? = some b ∧ (bytes ++ [0])[pos]? = some b) ∨
    (pos = bytes.length ∧ (bytes ++ [0])[pos]? = some 0) := by
  rcases Nat.lt_or_eq_of_le h with hlt | rfl
  · exact .inl ⟨_, List.getElem?_eq_getElem hlt,
      (List.getElem?_append_left hlt).trans (List.getElem?_eq_getElem hlt)⟩
  · exact .inr ⟨rfl, List.getElem?_concat_length⟩

/-- **A chunk with enough whole characters** in front of it ends inside the string. -/
theorem chunkEndTraced_good : ∀ {fuel n pos : Nat}, n ≤ HESSIAN_CHUNK_SIZE → pos ≤ bytes.length →
    bytes.length < pos + fuel → HESSIAN_CHUNK_SIZE ≤ n + wholeChars (bytes.drop pos) →
    ∀ s, Good bytes.length s → Returns (chunkEndTraced (bytes ++ [0]) fuel n pos) s
      fun stop t => Good bytes.length t ∧ pos ≤ stop ∧ stop ≤ bytes.length ∧
        wholeChars (bytes.drop stop) + HESSIAN_CHUNK_SIZE = n + wholeChars (bytes.drop pos)
  | 0, n, pos, _, hpos, hfuel, _, _, _ => absurd hfuel (by omega)
  | fuel + 1, n, pos, hn, hpos, hfuel, hwhole, s, hs => by
    by_cases hlt : n < HESSIAN_CHUNK_SIZE
    · rcases getElem?_array hpos with ⟨b, hb, harray⟩ | ⟨rfl, -⟩
      · have hround := wholeChars_drop hb
        by_cases hnext : pos + (1 + trail b) ≤ bytes.length
        · rw [if_pos hnext] at hround
          have hle : n + (if Cont b then 0 else 1) ≤ HESSIAN_CHUNK_SIZE := by
            split <;> omega
          rw [chunkEndTraced_round hlt harray]
          have hbyte : (Access.byte pos).Inside bytes.length := by
            show pos < bytes.length
            omega
          have hgood := good_note.mpr ⟨good_note.mpr ⟨hs, hbyte⟩, inside_position.mpr hnext⟩
          refine (chunkEndTraced_good hle hnext (by omega) (by omega) _ hgood).mono ?_
          intro stop t ht
          exact ⟨ht.1, by omega, ht.2.2.1, by omega⟩
        · rw [if_neg hnext] at hround
          omega
      · rw [List.drop_length, wholeChars_nil] at hwhole
        omega
    · rw [chunkEndTraced, if_neg hlt]
      exact ⟨pos, s, rfl, hs, Nat.le_refl _, hpos, by omega⟩

/-- **A chunk without** leaves the string. -/
theorem chunkEndTraced_bad : ∀ {fuel n pos : Nat}, pos ≤ bytes.length →
    n + wholeChars (bytes.drop pos) < HESSIAN_CHUNK_SIZE → ∀ s,
    Meets (chunkEndTraced (bytes ++ [0]) fuel n pos) s (fun _ t => ¬Good bytes.length t)
      fun t => ¬Good bytes.length t
  | 0, _, _, _, _, _ => Meets.outOfFuel
  | fuel + 1, n, pos, hpos, hwhole, s => by
    have hlt : n < HESSIAN_CHUNK_SIZE := by omega
    rcases getElem?_array hpos with ⟨b, hb, harray⟩ | ⟨rfl, harray⟩
    · have hround := wholeChars_drop hb
      rw [chunkEndTraced_round hlt harray]
      by_cases hnext : pos + (1 + trail b) ≤ bytes.length
      · rw [if_pos hnext] at hround
        exact chunkEndTraced_bad hnext (by omega) _
      · exact Moves.bad (moves_chunkEndTraced _ _ _ _) (bad_note (s := (_, _)) hnext)
    · rw [chunkEndTraced_round hlt harray]
      exact Moves.bad (later_path.bind (moves_noteAccess _) fun _ =>
        moves_chunkEndTraced _ _ _ _) (bad_note (a := .byte bytes.length) (Nat.lt_irrefl _))

/-! ## 4. A whole string -/

/-- A part without accesses returns with the notes as they are. -/
theorem returns_onFst {m : Writer Unit} {w : Bytes} (h : Writes m w) (s : Bytes × List Access) :
    Returns (onFst m) s fun _ t => t.2 = s.2 := by
  refine ⟨(), (s.1 ++ w, s.2), ?_, rfl⟩
  unfold onFst
  rw [h s.1]

theorem returns_writeAt {array : Bytes} {pos n : Nat} (h : pos + n ≤ array.length)
    (s : Bytes × List Access) :
    Returns (onFst (bufferWriteAt array pos n)) s fun _ t => t.2 = s.2 := by
  unfold bufferWriteAt
  rw [if_pos h]
  exact returns_onFst (writes_write _) s

theorem Good.of_eq {strL : Nat} {s t : Bytes × List Access} (h : Good strL s) (he : t.2 = s.2) :
    Good strL t := by
  unfold Good
  rwa [he]

theorem moves_textChunksTraced (cls : HessianClass) (array : Bytes) : ∀ fuel utf8L pos : Nat,
    Moves Later (textChunksTraced cls array fuel utf8L pos) := by
  intro fuel
  induction fuel with
  | zero => exact fun _ _ _ => Meets.outOfFuel
  | succ fuel ih =>
    intro utf8L pos
    refine .ite (later_path.bind (moves_onFst _) fun _ => ?_) (later_path.pure _)
    refine later_path.bind (moves_onFst _) fun _ => ?_
    refine later_path.bind (moves_chunkEndTraced _ _ _ _) fun stop => ?_
    exact later_path.bind (moves_noteAccess _) fun _ =>
      later_path.bind (moves_onFst _) fun _ => ih _ _

/-- What a round of the outer loop does behind its chunk. -/
theorem writeAt_inside {pos stop : Nat} (hpos : pos ≤ stop) (hstop : stop ≤ bytes.length) :
    pos + (stop - pos) ≤ bytes.length ∧ pos + (stop - pos) ≤ (bytes ++ [0]).length := by
  rw [List.length_append]
  omega

/-- **The full chunks stay inside** where there are enough whole characters for all of them. -/
theorem textChunksTraced_good (cls : HessianClass) {fuel utf8L pos : Nat} (hfuel : utf8L < fuel)
    (hpos : pos ≤ bytes.length)
    (hwhole : fullChunks utf8L * HESSIAN_CHUNK_SIZE ≤ wholeChars (bytes.drop pos))
    (s : Bytes × List Access) (hs : Good bytes.length s) :
    Returns (textChunksTraced cls (bytes ++ [0]) fuel utf8L pos) s
      fun left t => Good bytes.length t ∧ left.2 ≤ bytes.length := by
  induction fuel generalizing utf8L pos s with
  | zero => exact absurd hfuel (Nat.not_lt_zero _)
  | succ fuel ih =>
    by_cases hmore : utf8L > HESSIAN_CHUNK_SIZE
    · have hsize : 0 < HESSIAN_CHUNK_SIZE := by decide
      rw [fullChunks_more hmore, Nat.succ_mul] at hwhole
      rw [textChunksTraced, if_pos hmore]
      refine (returns_onFst (writes_putc _) s).bind fun _ t ht => ?_
      refine (returns_onFst (writes_putSize16 _) t).bind fun _ u hu => ?_
      have hgood := (hs.of_eq ht).of_eq hu
      have hlen : bytes.length < pos + ((bytes ++ [0]).length + 1) := by
        rw [List.length_append]
        omega
      refine (chunkEndTraced_good (Nat.zero_le _) hpos hlen (by omega) u hgood).bind ?_
      intro stop v hv
      obtain ⟨hgood, hle, hstop, hleft⟩ := hv
      obtain ⟨hrange, harray⟩ := writeAt_inside hle hstop
      have hnoted : Good bytes.length (v.1, v.2 ++ [.range pos (stop - pos)]) :=
        good_note.mpr ⟨hgood, hrange⟩
      refine (returns_writeAt harray (v.1, v.2 ++ [.range pos (stop - pos)])).bind fun _ w hw => ?_
      exact ih (by omega) hstop (by omega) w (hnoted.of_eq hw)
    · rw [textChunksTraced, if_neg hmore]
      exact ⟨_, s, rfl, hs, hpos⟩

/-- **Otherwise they leave the string.** -/
theorem textChunksTraced_bad (cls : HessianClass) {fuel utf8L pos : Nat}
    (hpos : pos ≤ bytes.length)
    (hwhole : wholeChars (bytes.drop pos) < fullChunks utf8L * HESSIAN_CHUNK_SIZE)
    (s : Bytes × List Access) (hs : Good bytes.length s) :
    Meets (textChunksTraced cls (bytes ++ [0]) fuel utf8L pos) s
      (fun _ t => ¬Good bytes.length t) fun t => ¬Good bytes.length t := by
  induction fuel generalizing utf8L pos s with
  | zero => exact Meets.outOfFuel
  | succ fuel ih =>
    have hmore : utf8L > HESSIAN_CHUNK_SIZE := by
      by_contra hmore
      rw [fullChunks_last hmore, Nat.zero_mul] at hwhole
      exact Nat.not_lt_zero _ hwhole
    rw [fullChunks_more hmore, Nat.succ_mul] at hwhole
    rw [textChunksTraced, if_pos hmore]
    refine (returns_onFst (writes_putc _) s).meets.bind fun _ t ht => ?_
    refine (returns_onFst (writes_putSize16 _) t).meets.bind fun _ u hu => ?_
    have hgood := (hs.of_eq ht).of_eq hu
    by_cases hchunk : HESSIAN_CHUNK_SIZE ≤ wholeChars (bytes.drop pos)
    · have hlen : bytes.length < pos + ((bytes ++ [0]).length + 1) := by
        rw [List.length_append]
        omega
      refine (chunkEndTraced_good (Nat.zero_le _) hpos hlen (by omega) u hgood).meets.bind ?_
      intro stop v hv
      obtain ⟨hgood, hle, hstop, hleft⟩ := hv
      obtain ⟨hrange, harray⟩ := writeAt_inside hle hstop
      have hnoted : Good bytes.length (v.1, v.2 ++ [.range pos (stop - pos)]) :=
        good_note.mpr ⟨hgood, hrange⟩
      refine (returns_writeAt harray (v.1, v.2 ++ [.range pos (stop - pos)])).meets.bind ?_
      intro _ w hw
      exact ih hstop (by omega) w (hnoted.of_eq hw)
    · refine (chunkEndTraced_bad hpos (by omega) u).bind fun stop v hv => ?_
      refine Moves.bad ?_ hv
      exact later_path.bind (moves_noteAccess _) fun _ =>
        later_path.bind (moves_onFst _) fun _ => moves_textChunksTraced _ _ _ _ _

end Chunk

/-- No access leaves the string, wherever the run ends. -/
def StaysInside (cls : HessianClass) (self : CString) : Prop :=
  ∀ out, match hessianStringTraced cls self (out, []) with
    | .done _ s => Good self.bytes.length s
    | .failed s => Good self.bytes.length s
    | .fault s => Good self.bytes.length s
    | .stuck => False

/-- The full chunks of the string have their characters, each with all its bytes. -/
def ChunksWhole (self : CString) : Prop :=
  fullChunks (leads self.bytes) * HESSIAN_CHUNK_SIZE ≤ wholeChars self.bytes

theorem hessianStringTraced_good (cls : HessianClass) {self : CString} (hfits : self.FitsInt)
    (hwhole : ChunksWhole self) (out : Bytes) :
    Returns (hessianStringTraced cls self) (out, []) fun _ t => Good self.bytes.length t := by
  have hstart : Good self.bytes.length (out, []) := fun _ h => absurd h List.not_mem_nil
  refine (utf8StrlenTraced_good hfits _ hstart).bind ?_
  intro utf8L s hs
  obtain ⟨rfl, hgood⟩ := hs
  refine (textChunksTraced_good cls (Nat.lt_succ_self _) (Nat.zero_le _) hwhole _ hgood).bind ?_
  intro left t ht
  obtain ⟨hgood, hpos⟩ := ht
  refine (returns_onFst (writes_putc _) t).bind fun _ u hu => ?_
  refine (returns_onFst (writes_putSize16 _) u).bind fun _ v hv => ?_
  have hrest : Good self.bytes.length (v.1, v.2 ++ [.rest left.2]) :=
    good_note.mpr ⟨(hgood.of_eq hu).of_eq hv, hpos⟩
  obtain ⟨hrange, harray⟩ := writeAt_inside hpos (Nat.le_refl self.bytes.length)
  have hnoted := good_note.mpr ⟨hrest, inside_range.mpr hrange⟩
  show Returns (if left.2 ≤ self.bytes.length then _ else undefined) _ _
  rw [if_pos hpos]
  exact (returns_writeAt harray _).mono fun _ w hw => hnoted.of_eq hw

/-- Behind the full chunks, the notes are only added to. -/
theorem moves_lastChunk (cls : HessianClass) (self : CString) (left : Nat × Nat) :
    Moves Later (do
      onFst (bufferPutc (Char.int cls.tag))
      onFst (putSize16 left.1)
      noteAccess (.rest left.2)
      if left.2 ≤ self.bytes.length then do
        noteAccess (.range left.2 (self.bytes.length - left.2))
        onFst (bufferWriteAt (self.bytes ++ [0]) left.2 (self.bytes.length - left.2))
      else undefined : Traced Unit) := by
  refine later_path.bind (moves_onFst _) fun _ => later_path.bind (moves_onFst _) fun _ => ?_
  refine later_path.bind (moves_noteAccess _) fun _ => .ite ?_ later_path.undefined
  exact later_path.bind (moves_noteAccess _) fun _ => moves_onFst _

theorem hessianStringTraced_long (cls : HessianClass) {self : CString} (hlong : ¬self.FitsInt)
    (out : Bytes) : Meets (hessianStringTraced cls self) (out, [])
      (fun _ t => ¬Good self.bytes.length t) fun t => ¬Good self.bytes.length t :=
  (utf8StrlenTraced_bad hlong _).bind fun _ _ hs => Moves.bad
    (later_path.bind (moves_textChunksTraced cls _ _ _ _) (moves_lastChunk cls self)) hs

theorem hessianStringTraced_bad (cls : HessianClass) {self : CString} (hfits : self.FitsInt)
    (hwhole : ¬ChunksWhole self) (out : Bytes) : Meets (hessianStringTraced cls self) (out, [])
      (fun _ t => ¬Good self.bytes.length t) fun t => ¬Good self.bytes.length t := by
  have hstart : Good self.bytes.length (out, []) := fun _ h => absurd h List.not_mem_nil
  refine (utf8StrlenTraced_good hfits _ hstart).meets.bind ?_
  intro utf8L s hs
  obtain ⟨rfl, hgood⟩ := hs
  have hfew := Nat.lt_of_not_le hwhole
  exact (textChunksTraced_bad cls (Nat.zero_le _) hfew _ hgood).bind fun left t ht =>
    Moves.bad (moves_lastChunk cls self left) ht

/-- A run that ends with an access outside does not stay inside. -/
theorem not_staysInside {cls : HessianClass} {self : CString}
    (hbad : Meets (hessianStringTraced cls self) ([], [])
      (fun _ t => ¬Good self.bytes.length t) fun t => ¬Good self.bytes.length t) :
    ¬StaysInside cls self := by
  intro hinside
  have hgood := hinside []
  unfold Meets at hbad
  revert hbad hgood
  cases hessianStringTraced cls self ([], []) with
  | stuck => exact fun _ h => h
  | _ => exact fun hbad hgood => hbad hgood

/-- A string whose full chunks have not enough whole characters is left. -/
theorem not_staysInside_chunks (cls : HessianClass) {self : CString} (hfits : self.FitsInt)
    (hwhole : ¬ChunksWhole self) : ¬StaysInside cls self :=
  not_staysInside (hessianStringTraced_bad cls hfits hwhole [])

/-- **The serializer of a string stays inside the string** exactly when the string has fewer than
    2^31 bytes and its whole characters fill its full chunks. -/
theorem stringSerialize_inside_iff (cls : HessianClass) (self : CString) :
    StaysInside cls self ↔ self.FitsInt ∧ ChunksWhole self := by
  constructor
  · intro hinside
    have hfits : self.FitsInt := by
      by_contra hlong
      exact not_staysInside (hessianStringTraced_long cls hlong []) hinside
    refine ⟨hfits, ?_⟩
    by_contra hwhole
    exact not_staysInside_chunks cls hfits hwhole hinside
  · intro h out
    obtain ⟨hfits, hwhole⟩ := h
    obtain ⟨_, t, hrun, hgood⟩ := hessianStringTraced_good cls hfits hwhole out
    rw [hrun]
    exact hgood

/-! ## 5. A character cut off -/

/-- 32766 letters, then the first byte of a character of four bytes and a letter: 32768 bytes that
    are not continuation bytes. -/
def cutCharacter : CString where
  bytes := List.replicate 32766 0x61 ++ [0xF0, 0x61]
  nulFree := by
    intro h
    rcases List.mem_append.mp h with h | h
    · exact absurd (List.eq_of_mem_replicate h) (by decide)
    · exact absurd h (by decide)

theorem wholeChars_letters (n : Nat) (rest : Bytes) :
    wholeChars (List.replicate n 0x61 ++ rest) = n + wholeChars rest := by
  induction n with
  | zero => rw [List.replicate_zero, List.nil_append, Nat.zero_add]
  | succ n ih =>
    rw [List.replicate_succ, List.cons_append, wholeChars,
      show trail 0x61 = 0 by decide, if_pos (Nat.zero_le _), if_neg (by decide), List.drop_zero, ih]
    omega

/-- The string has one full chunk, and one whole character less than the chunk takes. -/
theorem stringSerialize_leaves_cutCharacter :
    leads cutCharacter.bytes = 32768 ∧ wholeChars cutCharacter.bytes = 32766 ∧
      ¬StaysInside hessianStringClass cutCharacter := by
  have hcount : leads cutCharacter.bytes = 32768 := by
    unfold cutCharacter
    rw [leads_append, leads_replicate (by decide), show leads [0xF0, 0x61] = 2 by decide]
  have hwhole : wholeChars cutCharacter.bytes = 32766 := by
    unfold cutCharacter
    rw [wholeChars_letters, wholeChars, if_neg (by decide)]
  have hfits : cutCharacter.FitsInt := by
    have hlen : cutCharacter.bytes.length = 32768 := by
      unfold cutCharacter
      rw [List.length_append, List.length_replicate]
      rfl
    unfold CString.FitsInt
    rw [hlen]
    decide
  have hchunk : ¬ChunksWhole cutCharacter := by
    unfold ChunksWhole
    rw [hcount, hwhole]
    decide
  exact ⟨hcount, hwhole, not_staysInside_chunks hessianStringClass hfits hchunk⟩

/-! ## 6. The loops end -/

theorem lively_utf8Strlen (text : CString) (out : Bytes) :
    Lively (utf8Strlen text.bytes : Writer Nat) out := by
  by_cases h : text.FitsInt
  · rw [utf8Strlen_fits h]
    exact .done rfl
  · rw [utf8Strlen_long h]
    exact lively_undefined out

theorem lively_chunkEnd {array : Bytes} {fuel n pos : Nat} (hfuel : array.length < pos + fuel)
    (hsome : 0 < fuel) (out : Bytes) : Lively (chunkEnd array fuel n pos) out := by
  induction fuel generalizing n pos with
  | zero => exact absurd hsome (Nat.lt_irrefl 0)
  | succ fuel ih =>
    by_cases hn : n < HESSIAN_CHUNK_SIZE
    · cases hb : array[pos]? with
      | none =>
        rw [chunkEnd, if_pos hn, hb]
        exact lively_undefined out
      | some b =>
        obtain ⟨hpos, -⟩ := List.getElem?_eq_some_iff.mp hb
        rw [chunkEnd_round hn hb]
        exact ih (by omega) (by omega)
    · rw [chunkEnd, if_neg hn]
      exact .done rfl

theorem lively_bufferWriteAt (array : Bytes) (pos n : Nat) (out : Bytes) :
    Lively (bufferWriteAt array pos n) out := by
  unfold bufferWriteAt
  split
  · exact .done rfl
  · exact lively_undefined out

theorem lively_textChunks (cls : HessianClass) (array : Bytes) {fuel utf8L pos : Nat}
    (hfuel : utf8L < fuel) (out : Bytes) : Lively (textChunks cls array fuel utf8L pos) out := by
  induction fuel generalizing utf8L pos out with
  | zero => exact absurd hfuel (Nat.not_lt_zero _)
  | succ fuel ih =>
    have hsize : 0 < HESSIAN_CHUNK_SIZE := by decide
    unfold textChunks
    split
    · refine Lively.bind (.done rfl) fun _ out _ => Lively.bind (.done rfl) fun _ out _ => ?_
      refine (lively_chunkEnd (by omega) (Nat.succ_pos _) out).bind fun stop out _ => ?_
      exact (lively_bufferWriteAt _ _ _ out).bind fun _ out _ => ih (by omega) out
    · exact .done rfl

/-- **The serializer of a string comes to an end**, on every string. -/
theorem lively_hessianStringSerialize (cls : HessianClass) (self : CString) (out : Bytes) :
    Lively (hessianStringSerialize cls self) out := by
  refine (lively_utf8Strlen self out).bind fun utf8L out _ => ?_
  refine (lively_textChunks cls _ (Nat.lt_succ_self _) out).bind fun left out _ => ?_
  refine Lively.bind (.done rfl) fun _ out _ => Lively.bind (.done rfl) fun _ out _ => ?_
  show Lively (if left.2 ≤ self.bytes.length then _ else undefined) out
  split
  · exact lively_bufferWriteAt _ _ _ out
  · exact lively_undefined out

end ArgusPep
