/-
  File:      ArgusPep/Hessian/Stored.lean
  Subject:   How many bytes a decode stores, against the bytes it consumes.

  * `HessianObject.payload` -- the bytes of all strings, xmls, binaries, types and urls of an object;
  * `carries_hessianDeserializeTag` -- the ledger has them all;
  * `decodeEnd` -- the reader and the ledger at the end of a decode, successful or not;
  * `Covered` -- every length has its two bytes, and asks for no more than is left and was spent;
  * `storesNoMore_iff` -- so exactly, no more is stored than consumed and every length fits 16 bits;
  * `covered_of_unread` -- a decode that leaves something unread is covered, and so is that of an
    encoding with something behind it, `covered_of_encoding`.
-/
import ArgusPep.Hessian.Payload
import ArgusPep.Hessian.Survival
import ArgusPep.Hessian.Grammar

namespace ArgusPep

open Lib Run Reading

/-! ## 1. The payload of an object -/

namespace HessianObject

/-- The bytes of a type or an url. -/
def textPayload (text : Option CString) : Nat := (text.map fun s => s.bytes.length).getD 0

mutual
/-- The bytes of all strings, xmls, binaries, types and urls of the object. -/
def payload : HessianObject → Nat
  | .string s => s.bytes.length
  | .xml s => s.bytes.length
  | .binary data => data.length
  | .remote type url => textPayload type + textPayload url
  | .list type elements => textPayload type + payloadOf elements
  | .map type pairs => textPayload type + payloadOfPairs pairs
  | _ => 0

def payloadOf : List HessianObject → Nat
  | [] => 0
  | object :: rest => object.payload + payloadOf rest

def payloadOfPairs : List (HessianObject × HessianObject) → Nat
  | [] => 0
  | (key, value) :: rest => key.payload + value.payload + payloadOfPairs rest
end

theorem payloadOf_concat (refs : List HessianObject) (o : HessianObject) :
    payloadOf (refs ++ [o]) = payloadOf refs + o.payload := by
  induction refs with
  | nil =>
    show o.payload + 0 = 0 + o.payload
    omega
  | cons r refs ih =>
    show r.payload + payloadOf (refs ++ [o]) = r.payload + payloadOf refs + o.payload
    omega

theorem payloadOfPairs_concat (refs : List (HessianObject × HessianObject))
    (key value : HessianObject) :
    payloadOfPairs (refs ++ [(key, value)]) =
      payloadOfPairs refs + (key.payload + value.payload) := by
  induction refs with
  | nil =>
    show key.payload + value.payload + 0 = 0 + (key.payload + value.payload)
    omega
  | cons r refs ih =>
    obtain ⟨k, v⟩ := r
    show k.payload + v.payload + payloadOfPairs (refs ++ [(key, value)]) =
      k.payload + v.payload + payloadOfPairs refs + (key.payload + value.payload)
    omega

end HessianObject

open HessianObject

/-! ## 2. Runs that store what they return -/

/-- With `k` bytes stored before, a run that returns has stored what the value has in it. -/
def Carries {α : Type} (k : Nat) (size : α → Nat) (m : Metered α) : Prop :=
  ∀ p, Meets m p (fun a q => p.2.stored + size a ≤ q.2.stored + k) fun _ => True

section Carries

variable {α β : Type} {k : Nat} {size : α → Nat} {size' : β → Nat}

theorem Carries.pure {a : α} (h : size a ≤ k) : Carries k size (Pure.pure a) :=
  fun _ => Meets.pure (Nat.add_le_add_left h _)

theorem Carries.fail : Carries k size fail := fun _ => Meets.fail trivial

theorem Carries.undefined : Carries k size undefined := fun _ => Meets.undefined trivial

theorem Carries.outOfFuel : Carries k size outOfFuel := fun _ => Meets.outOfFuel

theorem Carries.bind {m : Metered α} {f : α → Metered β} (hm : Carries k size m)
    (hf : ∀ a, Carries (size a) size' (f a)) : Carries k size' (m >>= f) :=
  fun p => (hm p).bind fun a q hq => (hf a q).mono (fun b r hr => by omega) fun _ h => h

theorem Carries.ite {c : Prop} [Decidable c] {m n : Metered α} (hm : Carries k size m)
    (hn : Carries k size n) : Carries k size (if c then m else n) :=
  fun p => Meets.ite (fun _ => hm p) fun _ => hn p

theorem Carries.onFailure {m : Metered α} {c : Metered Unit} (hm : Carries k size m)
    (hc : ∀ p, Meets c p (fun _ _ => True) fun _ => True) : Carries k size (m.onFailure c) :=
  fun p => (hm p).onFailure fun q _ => hc q

theorem Carries.look {f : Reader × Ledger → Metered β} (hf : ∀ p, Carries k size' (f p)) :
    Carries k size' (read >>= f) := fun p => hf p p

/-- A part that stores nothing is passed by. -/
theorem Carries.skip (m : Reading α) {f : α → Metered β} (hf : ∀ a, Carries k size' (f a)) :
    Carries k size' (unmetered m >>= f) := by
  have hstill : Carries k (fun _ => k) (unmetered m) := by
    intro h
    obtain ⟨s, l⟩ := h
    unfold Meets unmetered
    dsimp only
    cases m s with
    | done a t => exact Nat.le_refl _
    | failed t => trivial
    | fault t => trivial
    | stuck => trivial
  exact hstill.bind hf

theorem meets_any (m : Reading α) (p : Reader × Ledger) :
    Meets (unmetered m) p (fun _ _ => True) fun _ => True := by
  unfold Meets
  cases unmetered m p <;> trivial

theorem carries_put (n : Nat) (demands : List Demand) :
    Carries k (fun _ => k + n) (put n demands) := by
  intro p
  refine Meets.update ?_
  show p.2.kept + p.2.eofs + (k + n) ≤
    p.2.kept + (n - lackedBy demands) + (p.2.eofs + lackedBy demands) + k
  omega

theorem carries_noteLength : Carries k (fun _ => k) noteLength :=
  fun _ => Meets.update (Nat.le_refl _)

end Carries

/-! ## 3. The deserializers do -/

section Stored

variable {k : Nat}

theorem carries_readText :
    Carries k (fun utf8 => k + textPayload (utf8.map CString.ofArray)) readTextMetered := by
  refine carries_noteLength.bind fun _ => Carries.look fun p => Carries.skip readText fun utf8 => ?_
  cases utf8 with
  | none => exact Carries.pure (Nat.le_refl _)
  | some array =>
    exact (carries_put _ _).bind fun _ => Carries.pure (Nat.add_le_add_left
      (CString.ofArray_length_le _) _)

theorem carries_stringChunks (cls : HessianClass) (fuel : Nat) (tag : CInt) (sb : CString) :
    Carries k (fun _ => k) (stringChunksMetered cls fuel tag sb) := by
  induction fuel generalizing tag sb with
  | zero => exact Carries.outOfFuel
  | succ fuel ih =>
    unfold stringChunksMetered
    refine Carries.skip _ fun _ => carries_noteLength.bind fun _ => Carries.skip _ fun utf8 => ?_
    cases utf8 with
    | none => exact Carries.undefined
    | some utf8 =>
      exact Carries.ite (Carries.skip _ fun tag => ih tag _) (Carries.pure (Nat.le_refl _))

theorem carries_hessianString (cls : HessianClass) (tag : CInt) :
    Carries k (fun s => k + s.bytes.length) (hessianStringMetered cls tag) := by
  refine Carries.ite Carries.fail (Carries.skip _ fun created => Carries.ite ?_ Carries.fail)
  refine Carries.look fun p => (carries_stringChunks cls _ tag .empty).bind fun sb => ?_
  refine Carries.skip _ fun granted => Carries.ite ?_ Carries.fail
  exact (carries_put _ []).bind fun _ => Carries.pure (Nat.le_refl _)

theorem carries_binaryGetChunks (cls : HessianClass) (fuel : Nat) (tag : CInt) (buf : BinaryBuffer)
    (demands : List Demand) :
    Carries k (fun _ => k) (binaryGetChunksMetered cls fuel tag buf demands) := by
  induction fuel generalizing tag buf demands with
  | zero => exact Carries.outOfFuel
  | succ fuel ih =>
    unfold binaryGetChunksMetered
    refine carries_noteLength.bind fun _ => Carries.look fun p => Carries.skip _ fun buf => ?_
    exact Carries.ite (Carries.skip _ fun tag => ih tag _ _) (Carries.pure (Nat.le_refl _))

theorem carries_hessianBinary (cls : HessianClass) (tag : CInt) :
    Carries k (fun data => k + data.length) (hessianBinaryMetered cls tag) := by
  refine Carries.ite Carries.fail (Carries.skip _ fun created => Carries.look fun p => ?_)
  refine (carries_binaryGetChunks cls _ tag _ []).bind fun got => ?_
  obtain ⟨buf, demands⟩ := got
  cases buf with
  | holding data =>
    refine Carries.skip _ fun granted => Carries.ite ?_ Carries.fail
    exact (carries_put _ _).bind fun _ => Carries.pure (Nat.le_refl _)
  | absent =>
    exact Carries.skip _ fun granted => Carries.ite (Carries.pure (Nat.le_refl _)) Carries.fail
  | lost =>
    exact Carries.skip _ fun _ => Carries.skip _ fun granted =>
      Carries.ite Carries.undefined Carries.fail

theorem carries_hessianRemote (cls : HessianClass) (tag : CInt) :
    Carries k (fun text => k + textPayload text.1 + textPayload text.2)
      (hessianRemoteMetered cls tag) := by
  refine Carries.ite Carries.fail (Carries.skip _ fun typeTag => Carries.ite Carries.fail ?_)
  refine carries_readText.bind fun type => Carries.skip _ fun urlTag =>
    Carries.ite Carries.fail ?_
  exact carries_readText.bind fun url => Carries.pure (Nat.le_refl _)

theorem carries_getOptionalType (nextTag : CInt) :
    Carries k (fun type => k + textPayload type.1) (getOptionalTypeMetered nextTag) := by
  refine Carries.ite (carries_readText.bind fun type => ?_) (Carries.pure (Nat.le_refl _))
  cases type with
  | none => exact Carries.fail
  | some type => exact Carries.skip _ fun nextTag => Carries.pure (Nat.le_refl _)

theorem carries_hessianList {loop : CInt → Metered (List HessianObject)}
    (hloop : ∀ k tag, Carries k (fun refs => k + payloadOf refs) (loop tag)) (cls : HessianClass)
    (tag : CInt) : Carries k (fun list => k + textPayload list.1 + payloadOf list.2)
      (hessianListMetered loop cls tag) := by
  refine Carries.ite Carries.fail (Carries.skip _ fun created => Carries.ite ?_ Carries.fail)
  refine Carries.skip _ fun nextTag => (carries_getOptionalType _).bind fun type =>
    Carries.skip _ fun nextTag => (hloop _ _).bind fun refs => Carries.skip _ fun created => ?_
  refine Carries.ite ?_ (Carries.skip _ fun _ => Carries.fail)
  exact Carries.skip _ fun _ => Carries.pure (Nat.le_refl _)

theorem carries_hessianMap {loop : CInt → Metered (List (HessianObject × HessianObject))}
    (hloop : ∀ k tag, Carries k (fun refs => k + payloadOfPairs refs) (loop tag))
    (cls : HessianClass) (tag : CInt) :
    Carries k (fun map => k + textPayload map.1 + payloadOfPairs map.2)
      (hessianMapMetered loop cls tag) := by
  refine Carries.ite Carries.fail (Carries.skip _ fun created => Carries.ite ?_ Carries.fail)
  refine Carries.skip _ fun nextTag => (carries_getOptionalType _).bind fun type =>
    (hloop _ _).bind fun refs => Carries.skip _ fun created => ?_
  refine Carries.ite ?_ (Carries.skip _ fun _ => Carries.fail)
  exact Carries.skip _ fun _ => Carries.pure (Nat.le_refl _)

theorem carries_deserializeAs {elements : CInt → Metered (List HessianObject)}
    {pairs : CInt → Metered (List (HessianObject × HessianObject))}
    (helements : ∀ k tag, Carries k (fun refs => k + payloadOf refs) (elements tag))
    (hpairs : ∀ k tag, Carries k (fun refs => k + payloadOfPairs refs) (pairs tag))
    (cls : HessianClass) (tag : CInt) :
    Carries k (fun o => k + o.payload) (deserializeAsMetered elements pairs cls tag) := by
  have scalar : ∀ {α : Type} (m : Reading α) {f : α → HessianObject}, (∀ a, (f a).payload = 0) →
      Carries k (fun o => k + o.payload) (unmetered m >>= fun a => pure (f a)) := by
    intro α m f h
    refine Carries.skip m fun a => Carries.pure ?_
    rw [h a]
    exact Nat.le_refl k
  unfold deserializeAsMetered
  cases cls.type with
  | null => exact scalar _ fun _ => rfl
  | boolean => exact scalar _ fun _ => rfl
  | integer => exact scalar _ fun _ => rfl
  | ref => exact scalar _ fun _ => rfl
  | long => exact scalar _ fun _ => rfl
  | date => exact scalar _ fun _ => rfl
  | double => exact scalar _ fun _ => rfl
  | string => exact (carries_hessianString cls tag).bind fun _ => Carries.pure (Nat.le_refl _)
  | xml => exact (carries_hessianString cls tag).bind fun _ => Carries.pure (Nat.le_refl _)
  | binary => exact (carries_hessianBinary cls tag).bind fun _ => Carries.pure (Nat.le_refl _)
  | remote =>
    refine (carries_hessianRemote cls tag).bind fun text => Carries.pure ?_
    exact Nat.le_of_eq (Nat.add_assoc _ _ _).symm
  | list =>
    refine (carries_hessianList helements cls tag).bind fun list => Carries.pure ?_
    exact Nat.le_of_eq (Nat.add_assoc _ _ _).symm
  | map =>
    refine (carries_hessianMap hpairs cls tag).bind fun map => Carries.pure ?_
    exact Nat.le_of_eq (Nat.add_assoc _ _ _).symm
  | unknown => exact Carries.fail

mutual
theorem carries_hessianDeserializeTag : ∀ (fuel : Nat) (k : Nat) (tag : CInt),
    Carries k (fun o => k + o.payload) (hessianDeserializeTagMetered fuel tag)
  | 0, _, _ => Carries.outOfFuel
  | fuel + 1, k, tag => by
    unfold hessianDeserializeTagMetered
    cases getclass (gettype tag) with
    | none => exact Carries.fail
    | some cls =>
      refine Carries.skip _ fun granted =>
        Carries.ite (carries_deserializeAs ?_ ?_ cls tag) Carries.fail
      · exact fun k tag => carries_listElements fuel k cls [] tag
      · exact fun k tag => carries_mapPairs fuel k cls [] tag

theorem carries_listElements : ∀ (fuel : Nat) (k : Nat) (cls : HessianClass)
    (refs : List HessianObject) (nextTag : CInt),
    Carries (k + payloadOf refs) (fun refs => k + payloadOf refs)
      (listElementsMetered fuel cls refs nextTag)
  | 0, _, _, _, _ => Carries.outOfFuel
  | fuel + 1, k, cls, refs, nextTag => by
    unfold listElementsMetered
    refine Carries.ite (Carries.pure (Nat.le_refl _)) ?_
    refine ((carries_hessianDeserializeTag fuel _ nextTag).onFailure (meets_any _)).bind
      fun o => Carries.skip _ fun added => Carries.ite (Carries.skip _ fun nextTag => ?_) ?_
    · have hloop := carries_listElements fuel k cls (refs ++ [o]) nextTag
      rwa [payloadOf_concat, ← Nat.add_assoc] at hloop
    · exact Carries.skip _ fun _ => Carries.skip _ fun _ => Carries.fail

theorem carries_mapPairs : ∀ (fuel : Nat) (k : Nat) (cls : HessianClass)
    (refs : List (HessianObject × HessianObject)) (nextTag : CInt),
    Carries (k + payloadOfPairs refs) (fun refs => k + payloadOfPairs refs)
      (mapPairsMetered fuel cls refs nextTag)
  | 0, _, _, _, _ => Carries.outOfFuel
  | fuel + 1, k, cls, refs, nextTag => by
    unfold mapPairsMetered
    refine Carries.ite (Carries.pure (Nat.le_refl _)) ?_
    refine ((carries_hessianDeserializeTag fuel _ nextTag).onFailure (meets_any _)).bind
      fun key => Carries.skip _ fun nextTag => ?_
    refine ((carries_hessianDeserializeTag fuel _ nextTag).onFailure (meets_any _)).bind
      fun value => ?_
    have hclean : Carries (k + payloadOfPairs refs + key.payload + value.payload)
        (fun refs => k + payloadOfPairs refs)
        (do
          unmetered (hessianDelete key)
          unmetered (hessianDelete value)
          unmetered (deletePairs refs)
          fail : Metered (List (HessianObject × HessianObject))) :=
      Carries.skip _ fun _ => Carries.skip _ fun _ => Carries.skip _ fun _ => Carries.fail
    refine Carries.skip _ fun granted => Carries.ite ?_ hclean
    refine Carries.skip _ fun added => Carries.ite (Carries.skip _ fun nextTag => ?_) hclean
    have hloop := carries_mapPairs fuel k cls (refs ++ [(key, value)]) nextTag
    rwa [payloadOfPairs_concat, ← Nat.add_assoc, ← Nat.add_assoc] at hloop
end

/-- What a decode returns was stored, as it was before its Refs were resolved. -/
theorem hessianDeserialize_payload (p : Reader × Ledger) :
    Meets hessianDeserializeMetered p
      (fun o q => ∃ object : HessianObject, o = object.resolved ∧
        p.2.stored + object.payload ≤ q.2.stored) fun _ => True := by
  have hsplit : hessianDeserializeMetered =
      (unmetered bufferGetc >>= fun tag => read >>= fun r =>
        hessianDeserializeTagMetered (2 * r.1.input.length + 2) tag) >>= fun object =>
          Pure.pure object.resolved := by
    rw [bind_assoc]
    refine congrArg (unmetered bufferGetc >>= ·) (funext fun tag => ?_)
    rw [bind_assoc]
  have htag : Carries 0 (fun o : HessianObject => 0 + o.payload)
      (unmetered bufferGetc >>= fun tag => read >>= fun r =>
        hessianDeserializeTagMetered (2 * r.1.input.length + 2) tag) :=
    Carries.skip bufferGetc fun tag => Carries.look fun r =>
      carries_hessianDeserializeTag (2 * r.1.input.length + 2) 0 tag
  rw [hsplit]
  refine (htag p).bind fun object q hq => Meets.pure ⟨object, rfl, ?_⟩
  dsimp only at hq
  omega

end Stored

/-! ## 4. The whole decode -/

theorem lively_hessianDeserializeMetered (p : Reader × Ledger) :
    Lively hessianDeserializeMetered p :=
  lifts_hessianDeserialize.lively (lively_hessianDeserialize p.1)

/-- The reader and the ledger at the end of a decode. -/
def decodeEnd (input : Bytes) (mem : Mem) : Reader × Ledger :=
  (hessianDeserializeMetered (Reader.start input mem, Ledger.new)).last
    (lively_hessianDeserializeMetered _)

/-- The reader is where `hessian_deserialize` leaves it. -/
theorem decodeEnd_reader (input : Bytes) (mem : Mem) :
    (decodeEnd input mem).1 =
      (hessianDeserialize (Reader.start input mem)).last (lively_hessianDeserialize _) :=
  lifts_hessianDeserialize.last _ _

/-- The bytes a decode consumes. -/
def consumed (input : Bytes) (mem : Mem) : Nat :=
  input.length - (decodeEnd input mem).1.input.length

/-- A decode stores no more than it consumes, and the lengths it reads fit 16 bits. -/
def StoresNoMore (input : Bytes) (mem : Mem) : Prop :=
  (∀ unread ∈ (decodeEnd input mem).2.lengths, lengthAt unread ≤ 65535) ∧
    (decodeEnd input mem).2.stored ≤ consumed input mem

/-- Every length that is read has both its bytes in the input, and what is stored of a binary, a
    type or an url was covered where its length was read. -/
def Covered (input : Bytes) (mem : Mem) : Prop :=
  LengthsThere (decodeEnd input mem).2 ∧ ∀ d ∈ (decodeEnd input mem).2.demands, d.Covered

/-- A length fits 16 bits exactly when both its bytes are there. -/
theorem lengthAt_le_iff (unread : Bytes) : lengthAt unread ≤ 65535 ↔ 2 ≤ unread.length := by
  have hmax : PTRDIFF_MAX = 9223372036854775807 := rfl
  cases unread with
  | nil =>
    have heof : PTRDIFF_MAX < lengthAt [] := size16_eof_eof
    refine ⟨fun h => ?_, fun h => by cases h⟩
    omega
  | cons b16 unread =>
    cases unread with
    | nil =>
      have heof : PTRDIFF_MAX < lengthAt [b16] := size16_eof b16
      refine ⟨fun h => ?_, fun h => ?_⟩
      · omega
      · rw [List.length_singleton] at h
        omega
    | cons b8 rest =>
      have hlength : lengthAt (b16 :: b8 :: rest) = b16.toNat * 256 + b8.toNat := size16_int b16 b8
      have h16 := b16.toNat_lt
      have h8 := b8.toNat_lt
      refine ⟨fun _ => ?_, fun _ => ?_⟩
      · rw [List.length_cons, List.length_cons]
        omega
      · omega

/-- **A decode stores no more than it consumes exactly when every length is there and covered**,
    whatever the input and the allocator are, and however the decode ends. -/
theorem storesNoMore_iff (input : Bytes) (mem : Mem) :
    StoresNoMore input mem ↔ Covered input mem := by
  have hbalanced : Balanced (Reader.start input mem, Ledger.new) (decodeEnd input mem) :=
    balanced_hessianDeserialize.last (lively_hessianDeserializeMetered _)
  have hbooks : (decodeEnd input mem).2.kept + (decodeEnd input mem).2.spent +
      (decodeEnd input mem).1.input.length = 0 + 0 + input.length := hbalanced.books
  have hstored : (decodeEnd input mem).2.stored ≤ consumed input mem ↔
      (decodeEnd input mem).2.eofs ≤ (decodeEnd input mem).2.spent := by
    unfold Ledger.stored consumed
    omega
  have haccounted : Accounted (decodeEnd input mem) := hbalanced.accounted fun _ => .nil
  have hlengths : (∀ unread ∈ (decodeEnd input mem).2.lengths, lengthAt unread ≤ 65535) ↔
      LengthsThere (decodeEnd input mem).2 :=
    forall₂_congr fun unread _ => lengthAt_le_iff unread
  unfold StoresNoMore Covered
  rw [hstored, hlengths]
  exact and_congr_right fun hthere => (haccounted hthere).covered_iff.symm

/-- A binary of five bytes that the input lacks: five zero bytes for three. -/
theorem stores_more_than_consumed :
    ¬ StoresNoMore [Char.byte 'B', 0, 5] Mem.unlimited := by
  intro h
  have hstored : (5 : Nat) ≤ 3 := h.2
  omega

/-! ## 5. Decodes that leave something unread -/

/-- The input is at its end, or every length so far was there. -/
def Attended (p : Reader × Ledger) : Prop := p.1.input = [] ∨ LengthsThere p.2

/-- Only a length at the end of the input is not there. -/
structure Attends (p q : Reader × Ledger) : Prop where
  shorter : Shorter p.1 q.1
  attended : Attended p → Attended q

theorem path_attends : Path Attends where
  refl p := ⟨path_shorter.refl p.1, id⟩
  trans h h' := ⟨path_shorter.trans h.shorter h'.shorter, h'.attended ∘ h.attended⟩

/-- The end of the input is kept, and so are the lengths if none is noted. -/
theorem attends_of_lengths {p q : Reader × Ledger} (hshorter : Shorter p.1 q.1)
    (hlengths : q.2.lengths = p.2.lengths) : Attends p q := by
  refine ⟨hshorter, fun hp => hp.imp (fun hend => ?_) fun hthere => ?_⟩
  · unfold Shorter at hshorter
    rw [hend] at hshorter
    exact List.eq_nil_of_length_eq_zero (Nat.le_zero.mp hshorter)
  · unfold LengthsThere
    rw [hlengths]
    exact hthere

/-- The input of `p` is the latest length of `q`, and both its bytes were read, if they are there. -/
theorem attends_of_length {p q : Reader × Ledger} (hread : LengthRead p.1 q.1)
    (hlengths : q.2.lengths = p.1.input :: p.2.lengths) : Attends p q := by
  refine ⟨hread.shorter, fun hp => ?_⟩
  unfold LengthRead at hread
  by_cases hthere : 2 ≤ p.1.input.length
  · refine .inr fun unread hmem => ?_
    rw [hlengths] at hmem
    rcases List.mem_cons.mp hmem with rfl | hmem
    · exact hthere
    · refine hp.resolve_left (fun hend => ?_) unread hmem
      rw [hend, List.length_nil] at hthere
      omega
  · refine .inl (List.eq_nil_of_length_eq_zero ?_)
    omega

section Attends

variable {α : Type}

theorem meets_unmetered_lengths {m : Reading α} {p : Reader × Ledger} {Q : α → Reader → Prop}
    {E : Reader → Prop} (h : Meets m p.1 Q E) :
    Meets (unmetered m) p (fun a q => Q a q.1 ∧ q.2.lengths = p.2.lengths)
      fun q => E q.1 ∧ q.2.lengths = p.2.lengths := by
  obtain ⟨s, l⟩ := p
  unfold Meets unmetered at *
  dsimp only at *
  cases hm : m s with
  | done a t =>
    rw [hm] at h
    exact ⟨h, rfl⟩
  | failed t =>
    rw [hm] at h
    exact ⟨h, rfl⟩
  | fault t =>
    rw [hm] at h
    exact ⟨h, rfl⟩
  | stuck => trivial

theorem attends_unmetered {m : Reading α} (h : Moves Shorter m) : Moves Attends (unmetered m) :=
  fun p => (meets_unmetered_lengths (h p.1)).mono (fun _ _ hq => attends_of_lengths hq.1 hq.2)
    fun _ hq => attends_of_lengths hq.1 hq.2

theorem attends_put (n : Nat) (demands : List Demand) : Moves Attends (put n demands) :=
  fun p => Meets.update (attends_of_lengths (path_shorter.refl p.1) rfl)

/-- What was noted before is read first. -/
def ReadsLength (q r : Reader × Ledger) : Prop :=
  ∃ u : Reader × Ledger, LengthRead q.1 u.1 ∧ u.2.lengths = q.2.lengths ∧ Attends u r

theorem readsLength_unmetered {β : Type} {m : Reading α} {f : α → Metered β}
    (hm : ∀ (s : Reader) {E : Reader → Prop}, Meets m s (fun _ => LengthRead s) E)
    (hf : ∀ a, Moves Attends (f a)) : Moves ReadsLength (unmetered m >>= f) := fun q =>
  (meets_unmetered_lengths (hm q.1 (E := fun _ => False))).andThen (fun _ h => h.1.elim)
    fun a u hu => (hf a u).mono (fun _ _ hr => ⟨u, hu.1, hu.2, hr⟩) fun _ hr => ⟨u, hu.1, hu.2, hr⟩

theorem attends_noteLength {m : Metered α} (hm : Moves ReadsLength m) :
    Moves Attends (noteLength >>= fun _ => m) := by
  intro p
  refine Meets.bind (Q := fun _ q => q.1 = p.1 ∧ q.2.lengths = p.1.input :: p.2.lengths)
    (Meets.update ⟨rfl, rfl⟩) fun _ q hq => ?_
  have hall : ∀ r, ReadsLength q r → Attends p r := fun r hr => by
    obtain ⟨u, hread, hlengths, hu⟩ := hr
    exact path_attends.trans (attends_of_length (hq.1 ▸ hread) (hlengths.trans hq.2)) hu
  exact (hm q).mono (fun _ r hr => hall r hr) hall

theorem attends_readText : Moves Attends readTextMetered := by
  refine attends_noteLength fun q => Meets.look ?_
  refine readsLength_unmetered
    (fun s _ => (readText_meets s).mono (fun _ _ h => h.1) fun _ h => h) (fun utf8 => ?_) q
  cases utf8 with
  | none => exact path_attends.pure _
  | some array => exact path_attends.bind (attends_put _ _) fun _ => path_attends.pure _

theorem attends_stringChunks (cls : HessianClass) (fuel : Nat) (tag : CInt) (sb : CString) :
    Moves Attends (stringChunksMetered cls fuel tag sb) := by
  induction fuel generalizing tag sb with
  | zero => exact fun _ => Meets.outOfFuel
  | succ fuel ih =>
    unfold stringChunksMetered
    refine path_attends.bind (attends_unmetered (shorter_visit _)) fun _ =>
      attends_noteLength (readsLength_unmetered
        (fun s _ => (readText_meets s).mono (fun _ _ h => h.1) fun _ h => h) fun utf8 => ?_)
    cases utf8 with
    | none => exact path_attends.undefined
    | some array =>
      exact .ite (path_attends.bind (attends_unmetered shorter_bufferGetc) fun tag => ih tag _)
        (path_attends.pure _)

theorem attends_hessianString (cls : HessianClass) (tag : CInt) :
    Moves Attends (hessianStringMetered cls tag) := by
  refine .ite path_attends.fail (path_attends.bind
    (attends_unmetered (shorter_bufferCreate _)) fun created => .ite ?_ path_attends.fail)
  refine path_attends.bind path_attends.read fun p => path_attends.bind
    (attends_stringChunks cls _ tag .empty) fun sb => path_attends.bind
      (attends_unmetered (shorter_calloc _)) fun granted => .ite ?_ path_attends.fail
  exact path_attends.bind (attends_put _ _) fun _ => path_attends.pure _

theorem attends_binaryGetChunks (cls : HessianClass) (fuel : Nat) (tag : CInt)
    (buf : BinaryBuffer) (demands : List Demand) :
    Moves Attends (binaryGetChunksMetered cls fuel tag buf demands) := by
  induction fuel generalizing tag buf demands with
  | zero => exact fun _ => Meets.outOfFuel
  | succ fuel ih =>
    unfold binaryGetChunksMetered
    refine attends_noteLength fun q => Meets.look ?_
    refine readsLength_unmetered
      (fun s _ => (readBytes_meets buf s).mono (fun _ _ h => h.1) fun _ h => h) (fun buf' => ?_) q
    exact .ite (path_attends.bind (attends_unmetered shorter_bufferGetc) fun tag => ih tag _ _)
      (path_attends.pure _)

theorem attends_hessianBinary (cls : HessianClass) (tag : CInt) :
    Moves Attends (hessianBinaryMetered cls tag) := by
  refine .ite path_attends.fail (path_attends.bind
    (attends_unmetered (shorter_bufferCreate _)) fun created => path_attends.bind
      path_attends.read fun p => path_attends.bind (attends_binaryGetChunks cls _ tag _ [])
        fun got => ?_)
  obtain ⟨buf, demands⟩ := got
  cases buf with
  | holding data =>
    refine path_attends.bind (attends_unmetered (shorter_calloc _)) fun granted =>
      .ite ?_ path_attends.fail
    exact path_attends.bind (attends_put _ _) fun _ => path_attends.pure _
  | absent =>
    exact path_attends.bind (attends_unmetered (shorter_calloc 0)) fun granted =>
      .ite (path_attends.pure _) path_attends.fail
  | lost =>
    exact path_attends.bind (attends_unmetered (shorter_visit _)) fun _ =>
      path_attends.bind (attends_unmetered (shorter_calloc 0)) fun granted =>
        .ite path_attends.undefined path_attends.fail

end Attends

/-- **A decode that leaves something unread has every length there and covered.** -/
theorem covered_of_unread {input : Bytes} {mem : Mem} (hleft : (decodeEnd input mem).1.input ≠ []) :
    Covered input mem := by
  have hattends : Attends (Reader.start input mem, Ledger.new) (decodeEnd input mem) :=
    (moves_hessianDeserialize ⟨path_attends, attends_unmetered, attends_readText,
      attends_hessianString, attends_hessianBinary⟩).last (lively_hessianDeserializeMetered _)
  have hbalanced : Balanced (Reader.start input mem, Ledger.new) (decodeEnd input mem) :=
    balanced_hessianDeserialize.last (lively_hessianDeserializeMetered _)
  have hthere : LengthsThere (decodeEnd input mem).2 :=
    (hattends.attended (.inr fun _ h => absurd h List.not_mem_nil)).resolve_left hleft
  have hsettled := hbalanced.accounted (fun _ => .nil) hthere
  refine ⟨hthere, hsettled.covered_iff.mpr ?_⟩
  rw [(hsettled.none_lacking hleft).1]
  exact Nat.zero_le _

/-- **So has the decode of an encoding with something behind it**, if there is memory. -/
theorem covered_of_encoding {tree : HessianObject} {w rest : Bytes} {mem : Mem}
    (h : Encoding tree w) (hrest : rest ≠ []) (hs : (Reader.start (w ++ rest) mem).Ample) :
    Covered (w ++ rest) mem := by
  obtain ⟨o, t, hrun, -, hleft, -⟩ := reads_of_encoding h _ rest hs rfl
  have hmeets : Meets hessianDeserialize (Reader.start (w ++ rest) mem)
      (fun _ u => u.input ≠ []) fun _ => False := by
    unfold Meets
    rw [hrun]
    exact fun hend => hrest (hleft.symm.trans hend)
  refine covered_of_unread ?_
  rw [decodeEnd_reader]
  exact hmeets.last _ (fun _ _ h => h) fun _ h => h.elim

end ArgusPep
