/-
  File:      ArgusPep/Hessian/Ledger.lean
  Subject:   The deserializers with a ledger of what becomes of the bytes they read.

  A run over `Reader × Ledger` that, on the reader, is the deserializer of Deserialize.lean
  (`lifts_..`): no decision depends on the ledger. Every byte read is `spent` first; where a string,
  a binary, a type or an url gets its bytes, `put` enters them as `kept`, and those that were
  BUFFER_EOF as `eofs`. `lengths` are the places where two length bytes are read, `demands` those
  of the types, urls and binary chunks that are stored, with the state before the read.

  * `unmetered` -- a part that puts nothing anywhere;
  * `readTextMetered`, `stringChunksMetered`, … -- the functions, under their names;
  * `lifts_hessianDeserialize` -- the whole decode.
-/
import ArgusPep.Hessian.Deserialize
import Mathlib.Algebra.Ring.Nat

namespace ArgusPep

open Lib Run Reading

/-! ## 1. The ledger -/

/-- The length that two `buffer_getc` results give. -/
def lengthAt (unread : Bytes) : Nat := size16 (getc unread).1 (getc (getc unread).2).1

/-- The bytes that as many UTF-8 characters are. -/
def textAsked (unread : Bytes) : Nat :=
  (utf8Chars (lengthAt unread) (getc (getc unread).2).2).1.length

/-- A length is about to be read, and then as many bytes as it asks for, whether the input has them
    or not. -/
structure Demand where
  /-- The unread input, the two length bytes being next. -/
  unread : Bytes
  /-- The bytes read before, without those that are in a string, a binary, a type or an url. -/
  overhead : Nat
  /-- Whether the length counts characters, as that of a type or an url, or bytes. -/
  ofChars : Bool

namespace Demand

def asked (d : Demand) : Nat := if d.ofChars then textAsked d.unread else lengthAt d.unread

/-- The bytes asked for that the input has. -/
def given (d : Demand) : Nat := min d.asked (d.unread.length - 2)

/-- The bytes asked for that it lacks. -/
def lacking (d : Demand) : Nat := d.asked - (d.unread.length - 2)

/-- No more is asked for than the input has, and than was read before and not stored. -/
def Covered (d : Demand) : Prop := d.asked ≤ d.unread.length + d.overhead

end Demand

/-- The bytes that demands were given. -/
def givenBy (demands : List Demand) : Nat := (demands.map Demand.given).sum

/-- The bytes that the input lacked for them. -/
def lackedBy (demands : List Demand) : Nat := (demands.map Demand.lacking).sum

structure Ledger where
  /-- The unread input wherever a two-byte length is read, the latest first. -/
  lengths : List Bytes
  /-- What the binaries, types and urls that were stored asked for. -/
  demands : List Demand
  /-- Bytes of the input that were put into a string, a binary, a type or an url. -/
  kept : Nat
  /-- End-of-file results that were: they are zero bytes there. -/
  eofs : Nat
  /-- Bytes of the input that were read and put nowhere. -/
  spent : Nat

def Ledger.new : Ledger := ⟨[], [], 0, 0, 0⟩

/-- The bytes of all strings, binaries, types and urls. -/
def Ledger.stored (l : Ledger) : Nat := l.kept + l.eofs

abbrev Metered (α : Type) := Run (Reader × Ledger) α

/-- The ledger after the reader went from `s` to `t`. -/
def Ledger.spend (l : Ledger) (s t : Reader) : Ledger :=
  { l with spent := l.spent + (s.input.length - t.input.length) }

/-- A part that puts nothing anywhere. -/
def unmetered {α : Type} (m : Reading α) : Metered α := fun (s, l) =>
  match m s with
  | .done a t => .done a (t, l.spend s t)
  | .failed t => .failed (t, l.spend s t)
  | .fault t => .fault (t, l.spend s t)
  | .stuck => .stuck

/-- Two length bytes are about to be read. -/
def noteLength : Metered Unit :=
  update fun (s, l) => (s, { l with lengths := s.input :: l.lengths })

/-- `n` bytes are put somewhere, what the demands lacked being no bytes of the input. -/
def put (n : Nat) (demands : List Demand) : Metered Unit := update fun (s, l) =>
  (s, { l with
    demands := demands ++ l.demands
    kept := l.kept + (n - lackedBy demands)
    eofs := l.eofs + lackedBy demands
    spent := l.spent - (n - lackedBy demands) })

/-! ## 2. The scalar classes -/

/-- The array of a type or an url. -/
def readTextMetered : Metered (Option Bytes) := do
  noteLength
  let (s, l) ← read
  let utf8 ← unmetered readText
  match utf8 with
  | none => pure none
  | some array =>
    put array.length [⟨s.input, l.spent, true⟩]
    pure (some array)

def stringChunksMetered (cls : HessianClass) :
    (fuel : Nat) → (tag : CInt) → CString → Metered CString
  | 0, _, _ => outOfFuel
  | fuel + 1, tag, sb => do
    unmetered (visit fun s => .readChunk s.input s.mem)
    noteLength
    match ← unmetered readText with
    | none => undefined
    | some utf8 =>
      if tag = Char.int cls.chunkTag then do
        let tag ← unmetered bufferGetc
        stringChunksMetered cls fuel tag (sb.append (CString.ofArray utf8))
      else pure (sb.append (CString.ofArray utf8))

def hessianStringMetered (cls : HessianClass) (tag : CInt) : Metered CString :=
  if tag ≠ Char.int cls.tag ∧ tag ≠ Char.int cls.chunkTag then fail
  else do
    if ← unmetered (bufferCreate (if tag = Char.int cls.chunkTag then HESSIAN_CHUNK_SIZE else 32))
    then
      let (s, _) ← read
      let sb ← stringChunksMetered cls (s.input.length + 2) tag .empty
      if ← unmetered (calloc (sb.bytes.length + 1)) then
        put sb.bytes.length []
        pure sb
      else fail
    else fail

/-- `demands`: the chunks so far. What they were given is in the buffer, and will be stored. -/
def binaryGetChunksMetered (cls : HessianClass) :
    (fuel : Nat) → (tag : CInt) → BinaryBuffer → (demands : List Demand) →
      Metered (BinaryBuffer × List Demand)
  | 0, _, _, _ => outOfFuel
  | fuel + 1, tag, buf, demands => do
    noteLength
    let (s, l) ← read
    let buf ← unmetered (readBytes buf)
    let demands := ⟨s.input, l.spent - givenBy demands, false⟩ :: demands
    if tag = Char.int cls.chunkTag then do
      let tag ← unmetered bufferGetc
      binaryGetChunksMetered cls fuel tag buf demands
    else pure (buf, demands)

def hessianBinaryMetered (cls : HessianClass) (tag : CInt) : Metered Bytes :=
  if tag ≠ Char.int cls.tag ∧ tag ≠ Char.int cls.chunkTag then fail
  else do
    let created ←
      unmetered (bufferCreate (if tag = Char.int cls.chunkTag then HESSIAN_CHUNK_SIZE else 32))
    let (s, _) ← read
    let (buf, demands) ← binaryGetChunksMetered cls (s.input.length + 2) tag
      (if created then .holding [] else .absent) []
    match buf with
    | .holding data => do
      if ← unmetered (calloc data.length) then
        put data.length demands
        pure data
      else fail
    | .absent => do if ← unmetered (calloc 0) then pure [] else fail
    | .lost => do
      unmetered (visit fun s => .copyLost s.mem)
      if ← unmetered (calloc 0) then undefined else fail

def hessianRemoteMetered (cls : HessianClass) (tag : CInt) :
    Metered (Option CString × Option CString) :=
  if tag ≠ Char.int cls.tag then fail
  else do
    let typeTag ← unmetered bufferGetc
    if typeTag ≠ Char.int 't' then fail
    else do
      let type ← readTextMetered
      let urlTag ← unmetered bufferGetc
      if urlTag ≠ Char.int 'S' then fail
      else do
        let url ← readTextMetered
        pure (type.map CString.ofArray, url.map CString.ofArray)

/-! ## 3. Containers -/

def getOptionalTypeMetered (nextTag : CInt) : Metered (Option CString × CInt) :=
  if nextTag = Char.int 't' then do
    match ← readTextMetered with
    | none => fail
    | some type =>
      let nextTag ← unmetered bufferGetc
      pure (some (CString.ofArray type), nextTag)
  else pure (none, nextTag)

def hessianListMetered (elementsLoop : CInt → Metered (List HessianObject))
    (cls : HessianClass) (tag : CInt) : Metered (Option CString × List HessianObject) :=
  if tag ≠ Char.int cls.tag then fail
  else do
    if ← unmetered llistCreate then
      let nextTag ← unmetered bufferGetc
      let (type, nextTag) ← getOptionalTypeMetered nextTag
      let nextTag ← unmetered (getOptionalLength nextTag)
      let refs ← elementsLoop nextTag
      if ← unmetered llistCreate then
        unmetered (linkElements refs.length refs)
        pure (type, refs)
      else do
        unmetered (deleteElements refs)
        fail
    else fail

def hessianMapMetered (pairsLoop : CInt → Metered (List (HessianObject × HessianObject)))
    (cls : HessianClass) (tag : CInt) :
    Metered (Option CString × List (HessianObject × HessianObject)) :=
  if tag ≠ Char.int cls.tag then fail
  else do
    if ← unmetered llistCreate then
      let nextTag ← unmetered bufferGetc
      let (type, nextTag) ← getOptionalTypeMetered nextTag
      let refs ← pairsLoop nextTag
      if ← unmetered llistCreate then
        unmetered (linkPairs refs)
        pure (type, refs)
      else do
        unmetered (deletePairs refs)
        fail
    else fail

def deserializeAsMetered (elementsLoop : CInt → Metered (List HessianObject))
    (pairsLoop : CInt → Metered (List (HessianObject × HessianObject)))
    (cls : HessianClass) (tag : CInt) : Metered HessianObject :=
  match cls.type with
  | .null => do
    unmetered (hessianNullDeserialize cls tag)
    pure .null
  | .boolean => do pure (.boolean (← unmetered (hessianBooleanDeserialize cls tag)))
  | .integer => do pure (.integer (← unmetered (hessianIntegerDeserialize cls tag)))
  | .ref => do pure (.ref (← unmetered (hessianIntegerDeserialize cls tag)))
  | .long => do pure (.long (← unmetered (hessianLongDeserialize cls tag)))
  | .date => do pure (.date (← unmetered (hessianLongDeserialize cls tag)))
  | .double => do pure (.double (← unmetered (hessianLongDeserialize cls tag)))
  | .string => do pure (.string (← hessianStringMetered cls tag))
  | .xml => do pure (.xml (← hessianStringMetered cls tag))
  | .binary => do pure (.binary (← hessianBinaryMetered cls tag))
  | .remote => do
    let (type, url) ← hessianRemoteMetered cls tag
    pure (.remote type url)
  | .list => do
    let (type, elements) ← hessianListMetered elementsLoop cls tag
    pure (.list type elements)
  | .map => do
    let (type, pairs) ← hessianMapMetered pairsLoop cls tag
    pure (.map type pairs)
  | .unknown => fail

mutual
def hessianDeserializeTagMetered : (fuel : Nat) → (tag : CInt) → Metered HessianObject
  | 0, _ => outOfFuel
  | fuel + 1, tag =>
    match getclass (gettype tag) with
    | none => fail
    | some cls => do
      if ← unmetered (calloc cls.size) then
        deserializeAsMetered (listElementsMetered fuel cls []) (mapPairsMetered fuel cls []) cls tag
      else fail

def listElementsMetered : (fuel : Nat) → HessianClass → (refs : List HessianObject) →
    (nextTag : CInt) → Metered (List HessianObject)
  | 0, _, _, _ => outOfFuel
  | fuel + 1, cls, refs, nextTag =>
    if nextTag = Char.int cls.chunkTag ∨ nextTag = BUFFER_EOF then pure refs
    else do
      let o ← (hessianDeserializeTagMetered fuel nextTag).onFailure
        (unmetered (deleteElements refs))
      if ← unmetered llistAdd then
        let nextTag ← unmetered bufferGetc
        listElementsMetered fuel cls (refs ++ [o]) nextTag
      else do
        unmetered (hessianDelete o)
        unmetered (deleteElements refs)
        fail

def mapPairsMetered : (fuel : Nat) → HessianClass →
    (refs : List (HessianObject × HessianObject)) → (nextTag : CInt) →
    Metered (List (HessianObject × HessianObject))
  | 0, _, _, _ => outOfFuel
  | fuel + 1, cls, refs, nextTag =>
    if nextTag = Char.int cls.chunkTag ∨ nextTag = BUFFER_EOF then pure refs
    else do
      let key ← (hessianDeserializeTagMetered fuel nextTag).onFailure (unmetered (deletePairs refs))
      let nextTag ← unmetered bufferGetc
      let value ← (hessianDeserializeTagMetered fuel nextTag).onFailure (unmetered (do
        hessianDelete key
        deletePairs refs))
      if ← unmetered (calloc 16) then
        if ← unmetered llistAdd then
          let nextTag ← unmetered bufferGetc
          mapPairsMetered fuel cls (refs ++ [(key, value)]) nextTag
        else do
          unmetered (hessianDelete key)
          unmetered (hessianDelete value)
          unmetered (deletePairs refs)
          fail
      else do
        unmetered (hessianDelete key)
        unmetered (hessianDelete value)
        unmetered (deletePairs refs)
        fail
end

def hessianDeserializeMetered : Metered HessianObject := do
  let tag ← unmetered bufferGetc
  let (s, _) ← read
  let object ← hessianDeserializeTagMetered (2 * s.input.length + 2) tag
  pure object.resolved

/-! ## 4. On the reader nothing has changed -/

section Lifts

variable {α : Type}

theorem lifts_unmetered (m : Reading α) : Lifts Prod.fst (unmetered m) m := by
  intro h
  obtain ⟨s, l⟩ := h
  unfold unmetered
  dsimp only
  cases m s <;> rfl

/-- Notes in the ledger are invisible to the reader. -/
theorem lifts_noteLength {g : Unit → Metered α} {m : Reading α} (h : Lifts Prod.fst (g ()) m) :
    Lifts Prod.fst (noteLength >>= g) m := by
  refine Lifts.ghost ?_ h
  intro h
  obtain ⟨s, l⟩ := h
  rfl

theorem lifts_put {n : Nat} {demands : List Demand} {g : Unit → Metered α} {m : Reading α}
    (h : Lifts Prod.fst (g ()) m) : Lifts Prod.fst (put n demands >>= g) m := by
  refine Lifts.ghost ?_ h
  intro h
  obtain ⟨s, l⟩ := h
  rfl

theorem lifts_readText : Lifts Prod.fst readTextMetered readText := by
  have hsame : readText = readText >>= pure := (bind_pure readText).symm
  rw [hsame]
  refine lifts_noteLength (Lifts.look ?_)
  intro h
  obtain ⟨s, l⟩ := h
  refine (lifts_unmetered readText).bind fun utf8 => ?_
  cases utf8 with
  | none => exact Lifts.pure _
  | some array => exact lifts_put (Lifts.pure _)

theorem lifts_stringChunks (cls : HessianClass) (fuel : Nat) (tag : CInt) (sb : CString) :
    Lifts Prod.fst (stringChunksMetered cls fuel tag sb) (stringChunks cls fuel tag sb) := by
  induction fuel generalizing tag sb with
  | zero => exact Lifts.outOfFuel
  | succ fuel ih =>
    unfold stringChunksMetered stringChunks
    refine (lifts_unmetered _).bind fun _ => lifts_noteLength ?_
    refine (lifts_unmetered readText).bind fun utf8 => ?_
    cases utf8 with
    | none => exact Lifts.undefined
    | some utf8 => exact .ite ((lifts_unmetered _).bind fun tag => ih tag _) (Lifts.pure _)

theorem lifts_hessianString (cls : HessianClass) (tag : CInt) :
    Lifts Prod.fst (hessianStringMetered cls tag) (hessianStringDeserialize cls tag) := by
  refine .ite Lifts.fail ((lifts_unmetered _).bind fun created => .ite ?_ Lifts.fail)
  refine Lifts.read fun s => (lifts_stringChunks cls _ tag .empty).bind fun sb => ?_
  exact (lifts_unmetered _).bind fun granted => .ite (lifts_put (Lifts.pure _)) Lifts.fail

/-- The loop of a binary, without its demands. -/
theorem lifts_binaryGetChunks (cls : HessianClass) (fuel : Nat) (tag : CInt) (buf : BinaryBuffer)
    (demands : List Demand) {g : BinaryBuffer × List Demand → Metered α}
    {h : BinaryBuffer → Reading α} (hg : ∀ buf demands, Lifts Prod.fst (g (buf, demands)) (h buf)) :
    Lifts Prod.fst (binaryGetChunksMetered cls fuel tag buf demands >>= g)
      (binaryGetChunks cls fuel tag buf >>= h) := by
  induction fuel generalizing tag buf demands with
  | zero => exact Lifts.outOfFuel.bind fun p => hg p.1 p.2
  | succ fuel ih =>
    unfold binaryGetChunksMetered binaryGetChunks
    simp only [bind_assoc]
    refine lifts_noteLength (Lifts.look ?_)
    intro h
    obtain ⟨s, l⟩ := h
    refine (lifts_unmetered _).bind fun buf => ?_
    by_cases hchunk : tag = Char.int cls.chunkTag
    · rw [if_pos hchunk, if_pos hchunk, bind_assoc, bind_assoc]
      exact (lifts_unmetered _).bind fun tag => ih tag buf _
    · rw [if_neg hchunk, if_neg hchunk, pure_bind, pure_bind]
      exact hg buf _

theorem lifts_hessianBinary (cls : HessianClass) (tag : CInt) :
    Lifts Prod.fst (hessianBinaryMetered cls tag) (hessianBinaryDeserialize cls tag) := by
  refine .ite Lifts.fail ((lifts_unmetered _).bind fun created => Lifts.read fun s => ?_)
  refine lifts_binaryGetChunks cls _ tag _ [] fun buf demands => ?_
  cases buf with
  | holding data =>
    exact (lifts_unmetered _).bind fun granted => .ite (lifts_put (Lifts.pure _)) Lifts.fail
  | absent => exact (lifts_unmetered _).bind fun granted => .ite (Lifts.pure _) Lifts.fail
  | lost =>
    exact (lifts_unmetered _).bind fun _ => (lifts_unmetered _).bind fun granted =>
      .ite Lifts.undefined Lifts.fail

theorem lifts_hessianRemote (cls : HessianClass) (tag : CInt) :
    Lifts Prod.fst (hessianRemoteMetered cls tag) (hessianRemoteDeserialize cls tag) := by
  refine .ite Lifts.fail ((lifts_unmetered _).bind fun typeTag => .ite Lifts.fail ?_)
  refine lifts_readText.bind fun type => (lifts_unmetered _).bind fun urlTag => ?_
  exact .ite Lifts.fail (lifts_readText.bind fun url => Lifts.pure _)

theorem lifts_getOptionalType (nextTag : CInt) :
    Lifts Prod.fst (getOptionalTypeMetered nextTag) (getOptionalType nextTag) := by
  refine .ite (lifts_readText.bind fun type => ?_) (Lifts.pure _)
  cases type with
  | none => exact Lifts.fail
  | some type => exact (lifts_unmetered _).bind fun _ => Lifts.pure _

theorem lifts_hessianList {loop : CInt → Metered (List HessianObject)}
    {loop' : CInt → Reading (List HessianObject)}
    (hloop : ∀ tag, Lifts Prod.fst (loop tag) (loop' tag)) (cls : HessianClass) (tag : CInt) :
    Lifts Prod.fst (hessianListMetered loop cls tag) (hessianListDeserialize loop' cls tag) := by
  refine .ite Lifts.fail ((lifts_unmetered _).bind fun created => .ite ?_ Lifts.fail)
  refine (lifts_unmetered _).bind fun nextTag => (lifts_getOptionalType _).bind fun type => ?_
  refine (lifts_unmetered _).bind fun nextTag => (hloop _).bind fun refs => ?_
  refine (lifts_unmetered _).bind fun created => .ite ?_ ?_
  · exact (lifts_unmetered _).bind fun _ => Lifts.pure _
  · exact (lifts_unmetered _).bind fun _ => Lifts.fail

theorem lifts_hessianMap {loop : CInt → Metered (List (HessianObject × HessianObject))}
    {loop' : CInt → Reading (List (HessianObject × HessianObject))}
    (hloop : ∀ tag, Lifts Prod.fst (loop tag) (loop' tag)) (cls : HessianClass) (tag : CInt) :
    Lifts Prod.fst (hessianMapMetered loop cls tag) (hessianMapDeserialize loop' cls tag) := by
  refine .ite Lifts.fail ((lifts_unmetered _).bind fun created => .ite ?_ Lifts.fail)
  refine (lifts_unmetered _).bind fun nextTag => (lifts_getOptionalType _).bind fun type => ?_
  refine (hloop _).bind fun refs => (lifts_unmetered _).bind fun created => .ite ?_ ?_
  · exact (lifts_unmetered _).bind fun _ => Lifts.pure _
  · exact (lifts_unmetered _).bind fun _ => Lifts.fail

theorem lifts_deserializeAs {elements : CInt → Metered (List HessianObject)}
    {elements' : CInt → Reading (List HessianObject)}
    {pairs : CInt → Metered (List (HessianObject × HessianObject))}
    {pairs' : CInt → Reading (List (HessianObject × HessianObject))}
    (helements : ∀ tag, Lifts Prod.fst (elements tag) (elements' tag))
    (hpairs : ∀ tag, Lifts Prod.fst (pairs tag) (pairs' tag)) (cls : HessianClass) (tag : CInt) :
    Lifts Prod.fst (deserializeAsMetered elements pairs cls tag)
      (deserializeAs elements' pairs' cls tag) := by
  unfold deserializeAsMetered deserializeAs
  cases cls.type with
  | null => exact (lifts_unmetered _).bind fun _ => Lifts.pure _
  | boolean => exact (lifts_unmetered _).bind fun _ => Lifts.pure _
  | integer => exact (lifts_unmetered _).bind fun _ => Lifts.pure _
  | ref => exact (lifts_unmetered _).bind fun _ => Lifts.pure _
  | long => exact (lifts_unmetered _).bind fun _ => Lifts.pure _
  | date => exact (lifts_unmetered _).bind fun _ => Lifts.pure _
  | double => exact (lifts_unmetered _).bind fun _ => Lifts.pure _
  | string => exact (lifts_hessianString cls tag).bind fun _ => Lifts.pure _
  | xml => exact (lifts_hessianString cls tag).bind fun _ => Lifts.pure _
  | binary => exact (lifts_hessianBinary cls tag).bind fun _ => Lifts.pure _
  | remote => exact (lifts_hessianRemote cls tag).bind fun _ => Lifts.pure _
  | list => exact (lifts_hessianList helements cls tag).bind fun _ => Lifts.pure _
  | map => exact (lifts_hessianMap hpairs cls tag).bind fun _ => Lifts.pure _
  | unknown => exact Lifts.fail

mutual
theorem lifts_hessianDeserializeTag : ∀ (fuel : Nat) (tag : CInt),
    Lifts Prod.fst (hessianDeserializeTagMetered fuel tag) (hessianDeserializeTag fuel tag)
  | 0, _ => Lifts.outOfFuel
  | fuel + 1, tag => by
    unfold hessianDeserializeTagMetered hessianDeserializeTag
    cases getclass (gettype tag) with
    | none => exact Lifts.fail
    | some cls =>
      refine (lifts_unmetered _).bind fun granted => .ite ?_ Lifts.fail
      exact lifts_deserializeAs (lifts_listElements fuel cls []) (lifts_mapPairs fuel cls []) cls tag

theorem lifts_listElements : ∀ (fuel : Nat) (cls : HessianClass) (refs : List HessianObject)
    (nextTag : CInt), Lifts Prod.fst (listElementsMetered fuel cls refs nextTag)
      (listElements fuel cls refs nextTag)
  | 0, _, _, _ => Lifts.outOfFuel
  | fuel + 1, cls, refs, nextTag => by
    unfold listElementsMetered listElements
    refine .ite (Lifts.pure _) ?_
    refine ((lifts_hessianDeserializeTag fuel nextTag).onFailure (lifts_unmetered _)).bind
      fun o => (lifts_unmetered _).bind fun added => .ite ?_ ?_
    · exact (lifts_unmetered _).bind fun nextTag => lifts_listElements fuel cls _ nextTag
    · exact (lifts_unmetered _).bind fun _ => (lifts_unmetered _).bind fun _ => Lifts.fail

theorem lifts_mapPairs : ∀ (fuel : Nat) (cls : HessianClass)
    (refs : List (HessianObject × HessianObject)) (nextTag : CInt),
    Lifts Prod.fst (mapPairsMetered fuel cls refs nextTag) (mapPairs fuel cls refs nextTag)
  | 0, _, _, _ => Lifts.outOfFuel
  | fuel + 1, cls, refs, nextTag => by
    unfold mapPairsMetered mapPairs
    refine .ite (Lifts.pure _) ?_
    refine ((lifts_hessianDeserializeTag fuel nextTag).onFailure (lifts_unmetered _)).bind
      fun key => (lifts_unmetered _).bind fun nextTag => ?_
    refine ((lifts_hessianDeserializeTag fuel nextTag).onFailure (lifts_unmetered _)).bind
      fun value => ?_
    have hclean : Lifts Prod.fst
        (do
          unmetered (hessianDelete key)
          unmetered (hessianDelete value)
          unmetered (deletePairs refs)
          fail : Metered (List (HessianObject × HessianObject)))
        (do
          hessianDelete key
          hessianDelete value
          deletePairs refs
          fail) :=
      (lifts_unmetered _).bind fun _ => (lifts_unmetered _).bind fun _ =>
        (lifts_unmetered _).bind fun _ => Lifts.fail
    refine (lifts_unmetered _).bind fun granted => .ite ?_ hclean
    refine (lifts_unmetered _).bind fun added => .ite ?_ hclean
    exact (lifts_unmetered _).bind fun nextTag => lifts_mapPairs fuel cls _ nextTag
end

/-- **With the ledger or without, the decode is the same.** -/
theorem lifts_hessianDeserialize : Lifts Prod.fst hessianDeserializeMetered hessianDeserialize := by
  refine (lifts_unmetered _).bind fun tag => Lifts.read fun s => ?_
  exact (lifts_hessianDeserializeTag _ tag).bind fun object => Lifts.pure _

end Lifts

end ArgusPep
