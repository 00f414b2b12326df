/-
  File:      ArgusPep/Hessian/CutTrees.lean
  Subject:   The trees whose bytes can be cut nowhere without `hessian_deserialize` returning NULL.

  Any tree `hessian_serialize` writes, of any texts, and any answers of the allocator.

  * `Appends m` -- a serializer leaves what was written before it;
  * `appends_hessianSerialize` -- **every serializer appends**, by the classes of the tree;
  * `HessianObject.CutsNoticed` -- the trees: Null, the Booleans, and remotes of a few types;
  * `not_cutsRejected_of_tagged` -- the bytes of any other tree go on behind a tag, at which
    `hessian_deserialize` returns an object or crashes when it stands alone (`lone_tag`);
  * `cutsRejected_remote_iff` -- a cut remote is returned exactly if an 'S' is next behind its type;
  * **`cutsRejected_iff`** -- NULL is returned for every cut of the bytes of a tree exactly if the
    tree is `CutsNoticed`.
-/
import ArgusPep.Hessian.Truncation
import ArgusPep.Hessian.Acceptance

namespace ArgusPep

open Lib Run Utf8 Reading

/-! ## 1. Serializers append -/

/-- What was written before the run of `m` stays in front of what it writes. -/
abbrev Appends {α : Type} (m : Writer α) : Prop := Moves (fun v w : Bytes => v <+: w) m

theorem path_appends : Path fun v w : Bytes => v <+: w :=
  ⟨fun _ => List.prefix_rfl, fun h h' => h.trans h'⟩

theorem appends_putc (c : CInt) : Appends (bufferPutc c) :=
  Moves.update fun out => List.prefix_append out _

theorem appends_write (bs : Bytes) : Appends (bufferWrite bs) :=
  Moves.update fun out => List.prefix_append out _

theorem appends_writeAt (array : Bytes) (pos n : Nat) : Appends (bufferWriteAt array pos n) :=
  .ite (appends_write _) path_appends.undefined

theorem appends_putSize16 (l : Nat) : Appends (putSize16 l) :=
  path_appends.bind (appends_putc _) fun _ => appends_putc _

theorem appends_putInt32 (value : CInt) : Appends (putInt32 value) :=
  path_appends.bind (appends_putc _) fun _ => path_appends.bind (appends_putc _) fun _ =>
    path_appends.bind (appends_putc _) fun _ => appends_putc _

theorem appends_next (max i : Nat) : Appends (next max i : Writer Nat) :=
  .ite (path_appends.pure _) path_appends.undefined

theorem appends_countUtf8 : ∀ (s : Bytes) (i j : Nat), Appends (countUtf8 s i j : Writer Nat)
  | [], _, j => path_appends.pure j
  | _ :: s, i, _ => path_appends.bind (appends_next INT_MAX i) fun i => appends_countUtf8 s i _

theorem appends_utf8Strlen (s : Bytes) : Appends (utf8Strlen s : Writer Nat) :=
  appends_countUtf8 s 0 0

theorem appends_chunkEnd (array : Bytes) : ∀ fuel nUtf8s pos,
    Appends (chunkEnd array fuel nUtf8s pos)
  | 0, _, _ => fun _ => Meets.outOfFuel
  | fuel + 1, nUtf8s, pos => by
    have ih := appends_chunkEnd array fuel
    unfold chunkEnd
    refine .ite ?_ (path_appends.pure pos)
    cases array[pos]? with
    | none => exact path_appends.undefined
    | some byte =>
      exact .ite (.ite (ih _ _) (.ite (ih _ _) (.ite (ih _ _) (ih _ _)))) (ih _ _)

theorem appends_textChunks (cls : HessianClass) (array : Bytes) : ∀ fuel utf8L pos,
    Appends (textChunks cls array fuel utf8L pos)
  | 0, _, _ => fun _ => Meets.outOfFuel
  | fuel + 1, utf8L, pos => by
    unfold textChunks
    refine .ite ?_ (path_appends.pure _)
    exact path_appends.bind (appends_putc _) fun _ =>
      path_appends.bind (appends_putSize16 _) fun _ =>
      path_appends.bind (appends_chunkEnd array _ _ _) fun stop =>
      path_appends.bind (appends_writeAt array _ _) fun _ =>
        appends_textChunks cls array fuel _ stop

/-- The final chunk of a text. -/
theorem appends_lastChunk (cls : HessianClass) (self : CString) (utf8L pos : Nat) : Appends (do
    bufferPutc (Char.int cls.tag)
    putSize16 utf8L
    if pos ≤ self.bytes.length then
      bufferWriteAt (self.bytes ++ [0]) pos (self.bytes.length - pos)
    else undefined) :=
  path_appends.bind (appends_putc _) fun _ => path_appends.bind (appends_putSize16 _) fun _ =>
    .ite (appends_writeAt _ _ _) path_appends.undefined

theorem appends_hessianStringSerialize (cls : HessianClass) (self : CString) :
    Appends (hessianStringSerialize cls self) :=
  path_appends.bind (appends_utf8Strlen _) fun _ =>
    path_appends.bind (appends_textChunks cls _ _ _ _) fun rest =>
      appends_lastChunk cls self rest.1 rest.2

theorem appends_putText (tag : Char) (text : CString) : Appends (putText tag text) :=
  path_appends.bind (appends_utf8Strlen _) fun _ => path_appends.bind (appends_putc _) fun _ =>
    path_appends.bind (appends_putSize16 _) fun _ => appends_write _

theorem appends_putType : ∀ type : Option CString, Appends (putType type)
  | some text => appends_putText 't' text
  | none => path_appends.pure ()

theorem appends_putLength (n : Nat) : Appends (putLength n) :=
  .ite (path_appends.bind (appends_putc _) fun _ => appends_putInt32 _) (path_appends.pure ())

theorem Writes.appends {m : Writer Unit} {w : Bytes} (h : Writes m w) : Appends m := by
  intro out
  unfold Meets
  rw [h out]
  exact List.prefix_append out w

theorem appends_hessianRemoteSerialize (cls : HessianClass) : ∀ type url : Option CString,
    Appends (hessianRemoteSerialize cls type url)
  | some type, some url => path_appends.bind (appends_putc _) fun _ =>
      path_appends.bind (appends_putText 't' type) fun _ => appends_putText 'S' url
  | some _, none | none, _ => path_appends.undefined

mutual
/-- **Every serializer appends.** -/
theorem appends_hessianSerialize : ∀ o : HessianObject, Appends (hessianSerialize o)
  | .null => by rw [hessianSerialize]; exact appends_putc _
  | .boolean _ => by rw [hessianSerialize]; exact appends_putc _
  | .integer value | .ref value => by
    rw [hessianSerialize]
    exact (writes_integer _ value).appends
  | .long value | .date value | .double value => by
    rw [hessianSerialize]
    exact (writes_long _ value).appends
  | .string self | .xml self => by
    rw [hessianSerialize]
    exact appends_hessianStringSerialize _ self
  | .binary data => by
    rw [hessianSerialize]
    exact (writes_binary _ data).appends
  | .remote type url => by
    rw [hessianSerialize]
    exact appends_hessianRemoteSerialize _ type url
  | .list type elements => by
    rw [hessianSerialize]
    exact path_appends.bind (appends_putc _) fun _ =>
      path_appends.bind (appends_putType type) fun _ =>
      path_appends.bind (appends_putLength _) fun _ =>
      path_appends.bind (appends_serializeElements elements 0) fun _ => appends_putc _
  | .map type pairs => by
    rw [hessianSerialize]
    exact path_appends.bind (appends_putc _) fun _ =>
      path_appends.bind (appends_putType type) fun _ =>
      path_appends.bind (appends_serializePairs pairs 0) fun _ => appends_putc _

theorem appends_serializeElements : ∀ (elements : List HessianObject) (i : Nat),
    Appends (serializeElements elements i)
  | [], _ => path_appends.pure ()
  | o :: rest, i => by
    rw [serializeElements]
    exact path_appends.bind (appends_hessianSerialize o) fun _ =>
      path_appends.bind (appends_next INT_MAX i) fun i => appends_serializeElements rest i

theorem appends_serializePairs : ∀ (pairs : List (HessianObject × HessianObject)) (i : Nat),
    Appends (serializePairs pairs i)
  | [], _ => path_appends.pure ()
  | (key, value) :: rest, i => by
    rw [serializePairs]
    exact path_appends.bind (appends_hessianSerialize key) fun _ =>
      path_appends.bind (appends_hessianSerialize value) fun _ =>
      path_appends.bind (appends_next INT_MAX i) fun i => appends_serializePairs rest i
end

theorem appends_done {α : Type} {m : Writer α} (hm : Appends m) {v w : Bytes} {a : α}
    (h : m v = .done a w) : v <+: w := by
  have hv := hm v
  unfold Meets at hv
  rw [h] at hv
  exact hv

/-! ## 2. Trees behind a tag -/

/-- For no cut of the bytes `w`, and with no answers of the allocator, anything but NULL is
    returned. -/
def CutsRejected (w : Bytes) : Prop :=
  ∀ (answers : List Bool) (n : Nat), n < w.length →
    ∃ t, hessianDeserialize (Reader.start (w.take n) (Mem.bounded answers)) = .failed t

/-- The tags that ask for more bytes, and not for a 't'. -/
def openTags : List Char := ['I', 'R', 'L', 'd', 'D', 'S', 's', 'X', 'x', 'B', 'b', 'V', 'M']

/-- One of these tags, alone, is a number or an empty container; the texts and binaries pass a NULL
    pointer on. -/
theorem lone_tag : ∀ tag ∈ openTags,
    (hessianDeserialize (Reader.start [Char.byte tag] (Mem.bounded []))).hasFailed = false := by
  have hall : (openTags.all fun tag =>
      !(hessianDeserialize (Reader.start [Char.byte tag] (Mem.bounded []))).hasFailed) = true := by
    decide +kernel
  exact fun tag htag => (Bool.not_eq_true' _).mp (List.all_eq_true.mp hall tag htag)

/-- Bytes that go on behind one of the tags. -/
def Tagged (w : Bytes) : Prop := ∃ tag ∈ openTags, ∃ x, x ≠ [] ∧ w = Char.byte tag :: x

theorem not_cutsRejected_of_tagged {w : Bytes} (h : Tagged w) : ¬CutsRejected w := by
  obtain ⟨tag, htag, x, hx, rfl⟩ := h
  intro hcuts
  have hlen : 1 < (Char.byte tag :: x).length := Nat.succ_lt_succ (List.length_pos_iff.mpr hx)
  obtain ⟨t, hfail⟩ := hcuts [] 1 hlen
  have hlone := lone_tag tag htag
  rw [show [Char.byte tag] = (Char.byte tag :: x).take 1 from rfl, hfail] at hlone
  cases hlone

/-- A tag that is written, and a byte behind it. -/
theorem tagged_of_prefix {tag : Char} (htag : tag ∈ openTags) {v w : Bytes} {b : UInt8}
    (hv : [Char.byte tag] <+: v) (hw : v ++ [b] <+: w) : Tagged w := by
  obtain ⟨y, rfl⟩ := hv
  obtain ⟨z, rfl⟩ := hw
  exact ⟨tag, htag, y ++ ([b] ++ z), by simp, by simp⟩

theorem tagged_of_done_text {cls : HessianClass} (htag : cls.tag ∈ openTags)
    (hchunk : cls.chunkTag ∈ openTags) {self : CString} {w : Bytes}
    (h : hessianStringSerialize cls self [] = .done () w) : Tagged w := by
  have hchunks {fuel utf8L pos : Nat} {rest : Nat × Nat} {v : Bytes}
      (hrun : textChunks cls (self.bytes ++ [0]) fuel utf8L pos [] = .done rest v) :
      v = [] ∨ [Char.byte cls.chunkTag] <+: v := by
    cases fuel with
    | zero => cases hrun
    | succ fuel =>
      unfold textChunks at hrun
      split at hrun
      · refine .inr ?_
        obtain ⟨_, _, hputc, hrun⟩ := bind_eq_done hrun
        cases hputc
        rw [← putc_char]
        refine appends_done ?_ hrun
        exact path_appends.bind (appends_putSize16 _) fun _ =>
          path_appends.bind (appends_chunkEnd _ _ _ _) fun stop =>
          path_appends.bind (appends_writeAt _ _ _) fun _ => appends_textChunks cls _ fuel _ stop
      · cases hrun
        exact .inl rfl
  have hfits := fitsInt_of_text h
  unfold hessianStringSerialize at h
  rw [utf8Strlen_fits hfits, pure_bind] at h
  obtain ⟨rest, v, hrun, h⟩ := bind_eq_done h
  obtain ⟨_, _, hputc, h⟩ := bind_eq_done h
  cases hputc
  obtain ⟨_, _, hsize, h⟩ := bind_eq_done h
  cases hsize
  have hw := appends_done (.ite (appends_writeAt _ _ _) path_appends.undefined) h
  rcases hchunks hrun with rfl | hv
  · rw [putc_char] at hw
    exact tagged_of_prefix htag List.prefix_rfl ((List.prefix_append ([_] ++ [_]) _).trans hw)
  · refine tagged_of_prefix hchunk hv (b := putc (Char.int cls.tag)) ?_
    exact ((List.prefix_append _ _).trans (List.prefix_append _ _)).trans hw

/-- A container: its tag, and `z` behind everything else. -/
theorem tagged_of_done_container {α : Type} {tag : Char} (htag : tag ∈ openTags)
    {m : Writer α} (hm : Appends m) {c : CInt} {w : Bytes}
    (h : (bufferPutc (Char.int tag) >>= fun _ => m >>= fun _ => bufferPutc c) [] = .done () w) :
    Tagged w := by
  obtain ⟨_, _, hputc, h⟩ := bind_eq_done h
  cases hputc
  obtain ⟨_, v, hrun, h⟩ := bind_eq_done h
  cases h
  refine tagged_of_prefix htag (v := v) ?_ List.prefix_rfl
  rw [← putc_char]
  exact appends_done hm hrun

/-! ## 3. Remotes -/

/-- An 'S' is next, and more stands behind it. -/
def UrlFollows (y : Bytes) : Prop := ∃ z, z ≠ [] ∧ y = Char.byte 'S' :: z

/-- The length in front of a text. -/
def announced (v : Bytes) : Nat := size16 (getc v).1 (getc (v.drop 1)).1

theorem getc_snd : ∀ v : Bytes, (getc v).2 = v.drop 1
  | [] => rfl
  | _ :: _ => rfl

/-- Of a length in a type or an url the lowest sixteen bits are read. -/
theorem announced_size16Bytes (n : Nat) (v : Bytes) : announced (size16Bytes n ++ v) = n % 65536 := by
  show size16 (UInt8.int (.ofNat (n / 256))) (UInt8.int (.ofNat n)) = _
  rw [size16_int, UInt8.toNat_ofNat', UInt8.toNat_ofNat']
  omega

/-- `utf8_bgets` reads so many characters, or nothing when its buffer is refused. -/
theorem returns_utf8Bgets (n : Nat) (s : Reader) : Returns (utf8Bgets n) s fun _ t =>
    t.input = s.input ∨ t.input = (utf8Chars n s.input).2 := by
  have hcreate : Returns (bufferCreate n) s fun _ t => t.input = s.input := by
    refine Returns.bind (P := fun _ t => t.input = s.input) ⟨_, _, rfl, rfl⟩ fun granted t ht => ?_
    cases granted with
    | false => exact .pure ht
    | true => exact ⟨_, _, rfl, ht⟩
  refine hcreate.bind fun created t ht => ?_
  cases created with
  | false => exact .pure (.inl ht)
  | true =>
    refine Returns.bind (P := fun _ u => u.input = (utf8Chars n s.input).2)
      ⟨_, _, rfl, by rw [ht]⟩ fun array u hu => ?_
    refine Returns.bind (P := fun _ u => u.input = (utf8Chars n s.input).2)
      ⟨_, _, rfl, hu⟩ fun granted u hu => ?_
    cases granted with
    | false => exact .pure (.inr hu)
    | true => exact .pure (.inr hu)

theorem readText_eq (s : Reader) :
    readText s = utf8Bgets (announced s.input) { s with input := s.input.drop 2 } := by
  show (bufferGetc >>= fun b16 => bufferGetc >>= fun b8 => utf8Bgets (size16 b16 b8)) s = _
  unfold bufferGetc
  rw [take_bind, take_bind]
  dsimp only
  rw [getc_snd, getc_snd, List.drop_drop]
  rfl

theorem returns_readText (s : Reader) : Returns readText s fun _ t => t.input = s.input.drop 2 ∨
    t.input = (utf8Chars (announced s.input) (s.input.drop 2)).2 := by
  have h := returns_utf8Bgets (announced s.input) { s with input := s.input.drop 2 }
  unfold Returns at h ⊢
  rw [readText_eq]
  exact h

section Remote

variable {s t : Reader} {v z : Bytes} {type : Option Bytes}

/-- Behind the type there is no 'S'. -/
theorem remote_failed (hs : s.input = Char.byte 't' :: v)
    (hread : readText { s with input := v } = .done type t)
    (hurl : ∀ z, t.input ≠ Char.byte 'S' :: z) :
    ∃ u, hessianRemoteDeserialize hessianRemoteClass (Char.int 'r') s = .failed u := by
  have htag : (getc t.input).1 ≠ Char.int 'S' := by
    intro h
    cases hinput : t.input with
    | nil =>
      rw [hinput] at h
      exact absurd h (by decide)
    | cons b z =>
      rw [hinput] at h
      exact hurl z (by rw [hinput, byte_of_int (by decide) h])
  refine ⟨{ t with input := (getc t.input).2 }, ?_⟩
  unfold hessianRemoteDeserialize bufferGetc
  rw [if_neg (not_not.mpr rfl), take_bind, hs]
  simp only [getc_cons, int_byte (show 't'.toNat < 256 by decide), ne_eq, not_true, if_false]
  rw [bind_done hread, take_bind]
  simp only [if_pos htag]
  rfl

/-- Behind the type there is an 'S': whatever follows is taken for the url. -/
theorem remote_returns (hs : s.input = Char.byte 't' :: v)
    (hread : readText { s with input := v } = .done type t) (hurl : t.input = Char.byte 'S' :: z) :
    Returns (hessianRemoteDeserialize hessianRemoteClass (Char.int 'r')) s fun _ _ => True := by
  obtain ⟨url, u, hrun, -⟩ := returns_readText { t with input := z }
  refine ⟨(type.map CString.ofArray, url.map CString.ofArray), u, ?_, trivial⟩
  unfold hessianRemoteDeserialize bufferGetc
  rw [if_neg (not_not.mpr rfl), take_bind, hs]
  simp only [getc_cons, int_byte (show 't'.toNat < 256 by decide), ne_eq, not_true, if_false]
  rw [bind_done hread, take_bind, hurl]
  simp only [getc_cons, int_byte (show 'S'.toNat < 256 by decide), not_true, if_false]
  rw [bind_done hrun]
  rfl

end Remote

/-- A message with the tag of a remote. -/
theorem hessianDeserialize_remote {mem : Mem} (x : Bytes) :
    hessianDeserialize (Reader.start (Char.byte 'r' :: x) mem)
      = (calloc hessianRemoteClass.size >>= fun granted =>
          if granted then
            hessianRemoteDeserialize hessianRemoteClass (Char.int 'r') >>= fun texts =>
              pure (HessianObject.remote texts.1 texts.2)
          else fail) ⟨x, mem, []⟩ := by
  have htag (fuel : Nat) : hessianDeserializeTag (fuel + 1) (Char.int 'r')
      = calloc hessianRemoteClass.size >>= fun granted =>
          if granted then
            hessianRemoteDeserialize hessianRemoteClass (Char.int 'r') >>= fun texts =>
              pure (HessianObject.remote texts.1 texts.2)
          else fail := by
    rw [hessianDeserializeTag]
    rfl
  unfold hessianDeserialize bufferGetc
  rw [take_bind, Reader.start]
  dsimp only
  rw [getc_cons, int_byte (by decide)]
  show (hessianDeserializeTag (2 * x.length + 1 + 1) (Char.int 'r') >>= fun object =>
    pure object.resolved) ⟨x, mem, []⟩ = _
  rw [htag, calloc_bind, bind_apply, calloc_bind]
  dsimp only
  cases mem.grants hessianRemoteClass.size with
  | false => rfl
  | true =>
    rw [if_pos rfl, bind_apply]
    cases hessianRemoteDeserialize hessianRemoteClass (Char.int 'r')
      ⟨x, mem.after hessianRemoteClass.size, []⟩ <;> rfl

/-- A remote message that was cut, or that was not, is a remote if its class reads one. -/
theorem remote_message_failed {mem : Mem} {x : Bytes}
    (h : ∀ s : Reader, s.input = x →
      ∃ u, hessianRemoteDeserialize hessianRemoteClass (Char.int 'r') s = .failed u) :
    ∃ t, hessianDeserialize (Reader.start (Char.byte 'r' :: x) mem) = .failed t := by
  rw [hessianDeserialize_remote, calloc_bind]
  split
  · obtain ⟨u, hrun⟩ := h ⟨x, mem.after hessianRemoteClass.size, []⟩ rfl
    exact ⟨u, by rw [bind_apply, hrun]⟩
  · exact ⟨_, rfl⟩

theorem remote_message_returns {mem : Mem} {x : Bytes}
    (hmem : mem.grants hessianRemoteClass.size = true)
    (h : Returns (hessianRemoteDeserialize hessianRemoteClass (Char.int 'r'))
      ⟨x, mem.after hessianRemoteClass.size, []⟩ fun _ _ => True) :
    ∃ o t, hessianDeserialize (Reader.start (Char.byte 'r' :: x) mem) = .done o t := by
  obtain ⟨texts, t, hrun, -⟩ := h
  refine ⟨.remote texts.1 texts.2, t, ?_⟩
  rw [hessianDeserialize_remote, calloc_bind]
  dsimp only
  rw [hmem, if_pos rfl, bind_done hrun]
  rfl

/-- No tag, no object. -/
theorem eof_message_failed (mem : Mem) :
    ∃ t, hessianDeserialize (Reader.start [] mem) = .failed t := ⟨_, rfl⟩

/-- What stands behind the length of the type of a remote. -/
def behindTypeLength (type url : CString) : Bytes := type.bytes ++ textField 'S' url

/-- The type is followed by the tag of an url: where it is read, or where its buffer is refused. -/
def RemoteReturns (type url : CString) : Prop :=
  UrlFollows (behindTypeLength type url) ∨
    UrlFollows (utf8Chars (leads type.bytes % 65536) (behindTypeLength type url)).2

theorem append_drop_ne_nil {y : Bytes} {k : Nat} (hk : k < y.length) (z : Bytes) :
    z ++ y.drop k ≠ [] := by
  intro h
  have hdrop := List.drop_eq_nil_iff.mp (List.append_eq_nil_iff.mp h).2
  omega

/-- A beginning of `y` with an 'S' in front is one of an 'S' and more. -/
theorem urlFollows_of_take {y z : Bytes} {k : Nat} (hk : k < y.length)
    (h : y.take k = Char.byte 'S' :: z) : UrlFollows y := by
  refine ⟨z ++ y.drop k, append_drop_ne_nil hk z, ?_⟩
  rw [← List.cons_append, ← h, List.take_append_drop]

/-- So is what `utf8_bgets` leaves of it. -/
theorem urlFollows_of_chars {y z : Bytes} {k n : Nat} (hk : k < y.length)
    (h : (utf8Chars n (y.take k)).2 = Char.byte 'S' :: z) : UrlFollows (utf8Chars n y).2 := by
  have hread := utf8Chars_exact n (y.take k) (by rw [h]; exact List.cons_ne_nil _ _)
  rw [h] at hread
  have hy : y = (utf8Chars n (y.take k)).1 ++ (Char.byte 'S' :: (z ++ y.drop k)) := by
    rw [← List.cons_append, ← List.append_assoc, hread, List.take_append_drop]
  have hleft := utf8Chars_characters (characters_utf8Chars n (y.take k))
    (Char.byte 'S' :: (z ++ y.drop k))
  rw [← hy] at hleft
  rw [hleft]
  exact ⟨z ++ y.drop k, append_drop_ne_nil hk z, rfl⟩

section RemoteCuts

variable (type url : CString)

/-- The bytes of a remote. -/
def remoteBytes : Bytes :=
  Char.byte 'r' :: Char.byte 't' :: (size16Bytes (leads type.bytes) ++ behindTypeLength type url)

theorem behindTypeLength_pos : 0 < (behindTypeLength type url).length := by
  unfold behindTypeLength
  rw [List.length_append, textField_eq, List.length_cons]
  omega

theorem length_remoteBytes :
    (remoteBytes type url).length = 4 + (behindTypeLength type url).length := by
  unfold remoteBytes
  rw [List.length_cons, List.length_cons, List.length_append, size16Bytes_length]
  omega

/-- Without an 'S' behind its type, no cut of a remote is returned. -/
theorem cutsRejected_remote (h : ¬RemoteReturns type url) : CutsRejected (remoteBytes type url) := by
  intro answers n hn
  rw [length_remoteBytes] at hn
  have hpos := behindTypeLength_pos type url
  obtain _ | _ | k := n
  · exact eof_message_failed _
  · refine remote_message_failed fun s hs => ⟨{ s with input := (getc s.input).2 }, ?_⟩
    unfold hessianRemoteDeserialize bufferGetc
    rw [if_neg (not_not.mpr rfl), take_bind, hs]
    rfl
  · refine remote_message_failed fun s hs => ?_
    obtain ⟨text, t, hread, hleft⟩ := returns_readText { s with
      input := (size16Bytes (leads type.bytes) ++ behindTypeLength type url).take k }
    refine remote_failed hs hread fun z hz => h ?_
    dsimp only at hleft
    rw [hz] at hleft
    have hdrop : ((size16Bytes (leads type.bytes) ++ behindTypeLength type url).take k).drop 2
        = (behindTypeLength type url).take (k - 2) := by
      rw [List.drop_take]
      rfl
    rw [hdrop] at hleft
    rcases hleft with hleft | hleft
    · exact .inl (urlFollows_of_take (by omega) hleft.symm)
    · refine .inr ?_
      have hk : 2 < k := by
        by_contra hle
        rw [Nat.sub_eq_zero_of_le (Nat.le_of_not_lt hle), List.take_zero, utf8Chars_nil] at hleft
        cases hleft
      obtain ⟨j, rfl⟩ : ∃ j, k = 2 + j := ⟨k - 2, by omega⟩
      rw [take_append_of_ge (by rw [size16Bytes_length]; omega), size16Bytes_length,
        announced_size16Bytes, Nat.add_sub_cancel_left] at hleft
      exact urlFollows_of_chars (by omega) hleft.symm

variable {type url}

/-- The cut at which this much of the type and the url is left is not rejected, where the tag of the
    url is what `utf8_bgets` leaves. -/
theorem remote_cut_returned {answers : List Bool} {x : Bytes} {k : Nat}
    (hx : (behindTypeLength type url).take k = x) (hk : k < (behindTypeLength type url).length)
    (hgrants : answers.headD true = true) {text : Option Bytes} {t : Reader}
    (hread : readText ⟨size16Bytes (leads type.bytes) ++ x, Mem.bounded answers.tail, []⟩
      = .done text t) (hleft : t.input = [Char.byte 'S']) : ¬CutsRejected (remoteBytes type url) := by
  intro hcuts
  have hsize : hessianRemoteClass.size ≤ PTRDIFF_MAX := by decide
  have htake : (remoteBytes type url).take (4 + k) = Char.byte 'r' :: Char.byte 't' ::
      (size16Bytes (leads type.bytes) ++ x) := by
    rw [← hx, show 4 + k = k + 2 + 1 + 1 by omega]
    rfl
  obtain ⟨u, hfail⟩ := hcuts answers (4 + k) (by rw [length_remoteBytes]; omega)
  have hmem : (Mem.bounded answers).grants hessianRemoteClass.size = true := by
    rw [Mem.grants_bounded hsize, hgrants]
  obtain ⟨o, u', hdone⟩ := remote_message_returns hmem (x := Char.byte 't' ::
    (size16Bytes (leads type.bytes) ++ x)) (remote_returns rfl
      (by rw [Mem.after_bounded hsize]; exact hread) hleft)
  rw [htake, hdone] at hfail
  cases hfail

/-- With the buffer of the type refused, nothing of it is read. -/
theorem remote_returned_refused (h : UrlFollows (behindTypeLength type url)) :
    ¬CutsRejected (remoteBytes type url) := by
  obtain ⟨z, hz, hx⟩ := h
  have hlen : 1 < (behindTypeLength type url).length := by
    rw [hx]
    exact Nat.succ_lt_succ (List.length_pos_iff.mpr hz)
  have hread := readText_eq
    ⟨size16Bytes (leads type.bytes) ++ [Char.byte 'S'], Mem.bounded [false], []⟩
  rw [announced_size16Bytes] at hread
  obtain ⟨mem, hbuffer⟩ := @bufferCreate_refused
    ⟨[Char.byte 'S'], Mem.bounded [false], []⟩ [false] (leads type.bytes % 65536) rfl (.inr rfl)
  have hnone : utf8Bgets (leads type.bytes % 65536) ⟨[Char.byte 'S'], Mem.bounded [false], []⟩
      = .done none ⟨[Char.byte 'S'], mem, []⟩ := by
    unfold utf8Bgets
    exact bind_done hbuffer
  exact @remote_cut_returned type url [true, false] [Char.byte 'S'] 1 (by rw [hx]; rfl) hlen rfl _ _
    (hread.trans hnone) rfl

/-- With everything granted, the characters that are announced are read. -/
theorem remote_returned_granted
    (h : UrlFollows (utf8Chars (leads type.bytes % 65536) (behindTypeLength type url)).2) :
    ¬CutsRejected (remoteBytes type url) := by
  obtain ⟨z, hz, hx⟩ := h
  let array := (utf8Chars (leads type.bytes % 65536) (behindTypeLength type url)).1
  have hchars : Characters (leads type.bytes % 65536) array := characters_utf8Chars _ _
  have hsplit : array ++ Char.byte 'S' :: z = behindTypeLength type url := by
    rw [← hx]
    exact utf8Chars_exact _ _ (by rw [hx]; exact List.cons_ne_nil _ _)
  have hlen : array.length + 1 < (behindTypeLength type url).length := by
    rw [← hsplit, List.length_append, List.length_cons]
    exact Nat.add_lt_add_left (Nat.succ_lt_succ (List.length_pos_iff.mpr hz)) _
  have htake : (behindTypeLength type url).take (array.length + 1) = array ++ [Char.byte 'S'] := by
    rw [← hsplit, List.take_length_add_append]
    rfl
  have hread := readText_eq
    ⟨size16Bytes (leads type.bytes) ++ (array ++ [Char.byte 'S']), Mem.bounded [], []⟩
  rw [announced_size16Bytes] at hread
  have hgranted := @utf8Bgets_granted
    ⟨array ++ [Char.byte 'S'], Mem.bounded [], []⟩ [] (leads type.bytes % 65536) rfl
    (Nat.mod_lt _ (by decide)) rfl
  have hleft := utf8Chars_characters hchars [Char.byte 'S']
  exact @remote_cut_returned type url [] _ _ htake hlen rfl _ _ (hread.trans hgranted)
    (congrArg Prod.snd hleft)

/-- **Every cut of a remote is answered with NULL exactly if none is returned**, with the buffer of
    its type refused or with everything granted. -/
theorem cutsRejected_remote_iff : CutsRejected (remoteBytes type url) ↔ ¬RemoteReturns type url :=
  ⟨fun hcuts h => h.elim (fun h => remote_returned_refused h hcuts) fun h =>
    remote_returned_granted h hcuts, cutsRejected_remote type url⟩

end RemoteCuts

/-! ## 4. All trees -/

/-- The trees whose bytes can be cut nowhere without a NULL. -/
def HessianObject.CutsNoticed : HessianObject → Prop
  -- one byte: the only cut is in front of it
  | .null => True
  | .boolean _ => True
  | .remote (some type) (some url) => ¬RemoteReturns type url
  | _ => False

/-- **NULL is returned for every cut of the bytes of a tree exactly if the tree is Null, a Boolean,
    or a remote whose type `utf8_bgets` reads and skips so that no 'S' is next.** -/
theorem cutsRejected_iff {o : HessianObject} {w : Bytes} (hw : hessianSerialize o [] = .done () w) :
    CutsRejected w ↔ o.CutsNoticed := by
  have hone {b : UInt8} : CutsRejected [b] := by
    intro answers n hn
    obtain rfl : n = 0 := Nat.lt_one_iff.mp hn
    exact eof_message_failed _
  have hopen (h : Tagged w) : CutsRejected w ↔ False :=
    iff_false_intro (not_cutsRejected_of_tagged h)
  have hvalue {m : Writer Unit} {tag : Char} {x : Bytes} (htag : tag ∈ openTags)
      (hrun : m [] = .done () w) (hm : Writes m (Char.byte tag :: x)) (hx : x ≠ []) :
      CutsRejected w ↔ False := by
    rw [hm []] at hrun
    cases hrun
    exact hopen ⟨tag, htag, x, hx, rfl⟩
  cases o with
  | null =>
    rw [hessianSerialize] at hw
    cases hw
    exact iff_true_intro hone
  | boolean value =>
    rw [hessianSerialize] at hw
    cases hw
    exact iff_true_intro hone
  | integer value =>
    rw [hessianSerialize] at hw
    exact hvalue (by decide) hw (writes_integer hessianIntegerClass value) (List.cons_ne_nil _ _)
  | ref value =>
    rw [hessianSerialize] at hw
    exact hvalue (by decide) hw (writes_integer hessianRefClass value) (List.cons_ne_nil _ _)
  | long value =>
    rw [hessianSerialize] at hw
    exact hvalue (by decide) hw (writes_long hessianLongClass value) (List.cons_ne_nil _ _)
  | date value =>
    rw [hessianSerialize] at hw
    exact hvalue (by decide) hw (writes_long hessianDateClass value) (List.cons_ne_nil _ _)
  | double value =>
    rw [hessianSerialize] at hw
    exact hvalue (by decide) hw (writes_long hessianDoubleClass value) (List.cons_ne_nil _ _)
  | string self =>
    rw [hessianSerialize] at hw
    exact hopen (tagged_of_done_text (by decide) (by decide) hw)
  | xml self =>
    rw [hessianSerialize] at hw
    exact hopen (tagged_of_done_text (by decide) (by decide) hw)
  | binary data =>
    rw [hessianSerialize] at hw
    have htag : chunkHead hessianBinaryClass data ∈ openTags := by
      unfold chunkHead
      split <;> decide
    have hbody : chunkBody hessianBinaryClass id data ≠ [] := by
      unfold chunkBody
      split <;> exact List.cons_ne_nil _ _
    exact hvalue htag hw (writes_binary hessianBinaryClass data) hbody
  | remote type url =>
    rw [hessianSerialize] at hw
    obtain ⟨htype, hurl⟩ := fitsInt_of_remote hw
    cases type with
    | none => cases hw
    | some type =>
      cases url with
      | none => cases hw
      | some url =>
        have hwrites := writes_remote hessianRemoteClass (htype type rfl) (hurl url rfl)
        obtain rfl : w = remoteBytes type url := by
          have hrun := hw.symm.trans (hwrites [])
          injection hrun
        exact cutsRejected_remote_iff
  | list type elements =>
    have hlist : hessianSerialize (.list type elements) = (bufferPutc (Char.int 'V') >>= fun _ =>
        (putType type >>= fun _ => putLength elements.length >>= fun _ =>
          serializeElements elements 0) >>= fun _ => bufferPutc (Char.int 'z')) := by
      rw [hessianSerialize]
      simp only [bind_assoc]
      rfl
    rw [hlist] at hw
    refine hopen (tagged_of_done_container (by decide) ?_ hw)
    exact path_appends.bind (appends_putType type) fun _ =>
      path_appends.bind (appends_putLength _) fun _ => appends_serializeElements elements 0
  | map type pairs =>
    have hmap : hessianSerialize (.map type pairs) = (bufferPutc (Char.int 'M') >>= fun _ =>
        (putType type >>= fun _ => serializePairs pairs 0) >>= fun _ =>
          bufferPutc (Char.int 'z')) := by
      rw [hessianSerialize]
      simp only [bind_assoc]
      rfl
    rw [hmap] at hw
    refine hopen (tagged_of_done_container (by decide) ?_ hw)
    exact path_appends.bind (appends_putType type) fun _ => appends_serializePairs pairs 0

end ArgusPep
