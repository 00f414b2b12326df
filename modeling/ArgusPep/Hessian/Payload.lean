/-
  File:      ArgusPep/Hessian/Payload.lean
  Subject:   The books of a decode: what it puts into strings, binaries, types and urls, against
             what it reads.

  * `Shorter` -- the unread input does not grow, along every deserializer (`shorter_..`);
  * `utf8Chars_eq_bytesGetc`, `readText_meets` -- an array holds the next bytes of the input, and a
    zero byte for each that the input lacks;
  * `Settled` -- at most the last demand lacks something, and then the input is at its end;
  * `Balanced` -- the books: every byte read is spent or kept, and the demands stay settled;
  * `moves_hessianDeserialize` -- what the parts of a decode keep, the decode keeps (`PartsMove`);
  * `balanced_hessianDeserialize` -- so it keeps the books, however it ends.
-/
import ArgusPep.Hessian.Ledger
import ArgusPep.Hessian.SafeSteps

namespace ArgusPep

open Lib Run Reading

/-! ## 1. The input gets shorter -/

/-- The unread input of `t` is no longer than that of `s`. -/
def Shorter (s t : Reader) : Prop := t.input.length ≤ s.input.length

theorem path_shorter : Path Shorter := ⟨fun _ => Nat.le_refl _, fun hst htu => Nat.le_trans htu hst⟩

section Shorter

variable {α : Type}

theorem shorter_take {f : Bytes → α × Bytes} (h : ∀ input, (f input).2.length ≤ input.length) :
    Moves Shorter (Reading.take f) := fun s => h s.input

theorem shorter_calloc (n : Nat) : Moves Shorter (Reading.calloc n) := fun _ => Nat.le_refl _

theorem shorter_visit (step : Reader → Step) : Moves Shorter (visit step) :=
  fun _ => Nat.le_refl _

theorem shorter_bufferGetc : Moves Shorter bufferGetc := shorter_take getc_length

theorem shorter_bufferCreate (n : Nat) : Moves Shorter (bufferCreate n) :=
  path_shorter.bind (shorter_calloc _) fun _ => .ite (shorter_calloc _) (path_shorter.pure _)

theorem shorter_getInt32 : Moves Shorter getInt32 :=
  path_shorter.bind shorter_bufferGetc fun _ => path_shorter.bind shorter_bufferGetc fun _ =>
    path_shorter.bind shorter_bufferGetc fun _ => path_shorter.bind shorter_bufferGetc fun _ =>
      path_shorter.pure _

theorem shorter_hessianInteger (cls : HessianClass) (tag : CInt) :
    Moves Shorter (hessianIntegerDeserialize cls tag) := .ite path_shorter.fail shorter_getInt32

theorem shorter_bufferGetc64 : Moves Shorter bufferGetc64 :=
  path_shorter.bind shorter_bufferGetc fun _ => path_shorter.pure _

theorem shorter_hessianLong (cls : HessianClass) (tag : CInt) :
    Moves Shorter (hessianLongDeserialize cls tag) :=
  .ite path_shorter.fail
    (path_shorter.bind shorter_bufferGetc64 fun _ => path_shorter.bind shorter_bufferGetc64 fun _ =>
      path_shorter.bind shorter_bufferGetc64 fun _ => path_shorter.bind shorter_bufferGetc64
        fun _ => path_shorter.bind shorter_bufferGetc64 fun _ => path_shorter.bind
          shorter_bufferGetc64 fun _ => path_shorter.bind shorter_bufferGetc64 fun _ =>
            path_shorter.bind shorter_bufferGetc64 fun _ => path_shorter.pure _)

theorem shorter_hessianBoolean (cls : HessianClass) (tag : CInt) :
    Moves Shorter (hessianBooleanDeserialize cls tag) := .ite path_shorter.fail (path_shorter.pure _)

theorem shorter_hessianNull (cls : HessianClass) (tag : CInt) :
    Moves Shorter (hessianNullDeserialize cls tag) := .ite path_shorter.fail (path_shorter.pure _)

theorem shorter_getOptionalLength (nextTag : CInt) : Moves Shorter (getOptionalLength nextTag) :=
  .ite (path_shorter.bind shorter_getInt32 fun _ => shorter_bufferGetc) (path_shorter.pure _)

theorem shorter_runAll : ∀ {acts : List (Reading Unit)}, (∀ act ∈ acts, Moves Shorter act) →
    Moves Shorter (runAll acts)
  | [], _ => path_shorter.pure _
  | act :: _, h => path_shorter.bind (h act List.mem_cons_self) fun _ =>
    shorter_runAll fun a ha => h a (List.mem_cons_of_mem _ ha)

theorem shorter_llistDeleteElements (n : Nat) (dangling : Bool) {deletes : List (Reading Unit)}
    (h : ∀ act ∈ deletes, Moves Shorter act) :
    Moves Shorter (llistDeleteElements n dangling deletes) :=
  path_shorter.bind (shorter_visit _) fun _ => .ite path_shorter.undefined
    (path_shorter.bind (shorter_calloc _) fun _ => .ite (shorter_runAll h)
      (.ite (path_shorter.pure _) path_shorter.undefined))

theorem shorter_addPointers : ∀ pointers : List Nat, Moves Shorter (addPointers pointers)
  | [] => path_shorter.pure _
  | _ :: rest => path_shorter.bind (shorter_calloc _) fun _ => .ite
    (path_shorter.bind (shorter_addPointers rest) fun _ => path_shorter.pure _)
    (shorter_addPointers rest)

mutual
theorem shorter_hessianDelete : ∀ o : HessianObject, Moves Shorter (hessianDelete o)
  | .list _ elements => by
    unfold hessianDelete
    exact shorter_llistDeleteElements _ _ fun act hact =>
      shorter_deletesOf elements act (mem_of_mem_linked hact)
  | .map _ pairs => by
    unfold hessianDelete
    refine path_shorter.bind (shorter_calloc _) fun _ => .ite ?_ (path_shorter.pure _)
    refine path_shorter.bind (shorter_addPointers _) fun added => ?_
    exact shorter_llistDeleteElements _ _ fun act hact =>
      shorter_deletesOfPairs pairs act (mem_of_mem_linked hact)
  | .null | .boolean _ | .integer _ | .long _ | .double _ | .date _ | .string _ | .xml _
  | .binary _ | .remote _ _ | .ref _ => by
    unfold hessianDelete
    exact path_shorter.pure _

theorem shorter_deletesOf : ∀ (elements : List HessianObject), ∀ act ∈ deletesOf elements,
    Moves Shorter act
  | [], _, h => absurd h List.not_mem_nil
  | object :: rest, act, h => by
    unfold deletesOf at h
    rcases List.mem_cons.mp h with e | h
    · exact e ▸ shorter_hessianDelete object
    · exact shorter_deletesOf rest act h

theorem shorter_deletesOfPairs : ∀ (pairs : List (HessianObject × HessianObject)),
    ∀ act ∈ deletesOfPairs pairs, Moves Shorter act
  | [], _, h => absurd h List.not_mem_nil
  | (key, value) :: rest, act, h => by
    unfold deletesOfPairs at h
    rcases List.mem_cons.mp h with e | h
    · exact e ▸ shorter_hessianDelete key
    rcases List.mem_cons.mp h with e | h
    · exact e ▸ shorter_hessianDelete value
    · exact shorter_deletesOfPairs rest act h
end

theorem shorter_deleteElements (refs : List HessianObject) : Moves Shorter (deleteElements refs) :=
  shorter_llistDeleteElements _ _ (shorter_deletesOf refs)

theorem shorter_deletePairs (refs : List (HessianObject × HessianObject)) :
    Moves Shorter (deletePairs refs) := shorter_llistDeleteElements _ _ (shorter_deletesOfPairs refs)

theorem shorter_linkElements (n : Nat) (refs : List HessianObject) :
    Moves Shorter (linkElements n refs) := by
  induction refs with
  | nil => exact path_shorter.pure _
  | cons _ rest ih =>
    exact path_shorter.bind (shorter_visit _) fun _ => .ite path_shorter.undefined
      (path_shorter.bind (shorter_calloc _) fun _ => .ite ih path_shorter.undefined)

theorem shorter_linkPairs : ∀ refs : List (HessianObject × HessianObject),
    Moves Shorter (linkPairs refs)
  | [] => path_shorter.pure _
  | _ :: rest => path_shorter.bind (shorter_calloc _) fun _ => .ite (shorter_linkPairs rest)
    path_shorter.fail

end Shorter

/-! ## 2. What an array is made of -/

theorem bytesGetc_one (input : Bytes) :
    bytesGetc 1 input = ([putc (getc input).1], (getc input).2) := by
  cases input with
  | nil => decide
  | cons b input =>
    have hnone : 1 - (b :: input).length = 0 := by
      rw [List.length_cons]
      omega
    unfold bytesGetc
    rw [getc_cons, putc_int, hnone]
    rfl

/-- So many bytes, then so many more. -/
theorem bytesGetc_add (m n : Nat) (input : Bytes) :
    bytesGetc (m + n) input = ((bytesGetc m input).1 ++ (bytesGetc n (input.drop m)).1,
      (bytesGetc n (input.drop m)).2) := by
  unfold bytesGetc
  refine Prod.ext ?_ List.drop_drop.symm
  dsimp only
  rw [List.length_drop]
  rcases Nat.le_total m input.length with hle | hle
  · rw [Nat.sub_eq_zero_of_le hle, List.replicate_zero, List.append_nil, List.take_add,
      List.append_assoc, Nat.sub_sub_right _ hle, Nat.add_comm m n]
  · rw [List.drop_eq_nil_of_le hle, List.take_nil, List.nil_append, List.take_of_length_le hle,
      List.take_of_length_le (Nat.le_trans hle (Nat.le_add_right m n)), List.append_assoc,
      ← List.replicate_add]
    congr 2
    omega

/-- The array of `utf8_bgets` is the next bytes of the input, with a zero for each that it lacks. -/
theorem utf8Chars_eq_bytesGetc : ∀ (n : Nat) (input : Bytes),
    ∃ m, utf8Chars n input = bytesGetc m input
  | 0, input => ⟨0, by
    unfold bytesGetc
    rw [Nat.zero_sub]
    rfl⟩
  | n + 1, input => by
    obtain ⟨m, hm⟩ := utf8Chars_eq_bytesGetc n
      (bytesGetc (mbytes (getc input).1) (getc input).2).2
    refine ⟨1 + (mbytes (getc input).1 + m), ?_⟩
    have hhead := bytesGetc_one input
    have hdrop : input.drop 1 = (getc input).2 := congrArg Prod.snd hhead
    rw [bytesGetc_add, hhead, hdrop, bytesGetc_add]
    unfold utf8Chars
    dsimp only
    rw [hm]
    rfl

theorem bytesGetc_fst_length (n : Nat) (input : Bytes) : (bytesGetc n input).1.length = n := by
  unfold bytesGetc
  simp only [List.length_append, List.length_take, List.length_replicate]
  omega

/-- What `strlen` counts of them is in the input. -/
theorem ofArray_bytesGetc_length (n : Nat) (input : Bytes) :
    (CString.ofArray (bytesGetc n input).1).bytes.length ≤ min n input.length := by
  show (List.takeWhile _ (input.take n ++ List.replicate _ 0)).length ≤ _
  rw [List.takeWhile_append, ← List.length_take]
  split
  · have hzero : List.takeWhile (· != 0) (List.replicate (n - input.length) (0 : UInt8)) = [] := by
      cases n - input.length <;> rfl
    rw [hzero, List.append_nil]
  · exact (List.takeWhile_prefix _).length_le

/-- The two length bytes, as far as they are there. -/
theorem getc_getc_length (input : Bytes) : (getc (getc input).2).2.length = input.length - 2 := by
  cases input with
  | nil => rfl
  | cons b16 input =>
    cases input with
    | nil => rfl
    | cons b8 input => rfl

/-- What a text asked of the input and took, and what `strlen` will count of it. -/
structure TextRead (s : Reader) (array : Bytes) (t : Reader) : Prop where
  asked : array.length = textAsked s.input
  left : t.input.length = s.input.length - 2 - array.length
  counted : (CString.ofArray array).bytes.length ≤ min array.length (s.input.length - 2)

section Inputs

variable {E : Reader → Prop}

theorem meets_getc (s : Reader) :
    Meets bufferGetc s (fun c t => c = (getc s.input).1 ∧ t.input = (getc s.input).2) E :=
  ⟨rfl, rfl⟩

theorem meets_utf8Chars (n : Nat) (s : Reader) :
    Meets (Reading.take (utf8Chars n)) s
      (fun array t => array = (utf8Chars n s.input).1 ∧ t.input = (utf8Chars n s.input).2) E :=
  ⟨rfl, rfl⟩

theorem meets_calloc (n : Nat) (s : Reader) :
    Meets (Reading.calloc n) s (fun _ t => t.input = s.input) E := Eq.refl s.input

theorem meets_bufferCreate (n : Nat) (s : Reader) :
    Meets (bufferCreate n) s (fun _ t => t.input = s.input) E := by
  refine (meets_calloc 32 s).bind fun created t ht => Meets.ite (fun _ => ?_) fun _ => ?_
  · exact (meets_calloc _ t).mono (fun _ _ hu => hu.trans ht) fun _ hE => hE
  · exact Meets.pure ht

end Inputs

/-- Two length bytes are read, if they are there, and maybe more. -/
def LengthRead (s t : Reader) : Prop := t.input.length ≤ s.input.length - 2

theorem LengthRead.shorter {s t : Reader} (h : LengthRead s t) : Shorter s t :=
  Nat.le_trans h (Nat.sub_le _ _)

theorem readText_meets (s : Reader) {E : Reader → Prop} :
    Meets readText s
      (fun utf8 t => LengthRead s t ∧ ∀ array, utf8 = some array → TextRead s array t) E := by
  let rest := (getc (getc s.input).2).2
  have hrest : rest.length = s.input.length - 2 := getc_getc_length s.input
  have hshort : ∀ {t : Reader} (m : Nat), t.input = rest.drop m → LengthRead s t := by
    intro t m ht
    unfold LengthRead
    rw [ht, List.length_drop, hrest]
    omega
  have hnone : ∀ {t : Reader} (m : Nat), t.input = rest.drop m →
      LengthRead s t ∧ ∀ array, (none : Option Bytes) = some array → TextRead s array t :=
    fun m ht => ⟨hshort m ht, fun array harray => by cases harray⟩
  refine (meets_getc s).bind fun b16 t ht => (meets_getc t).bind fun b8 t' ht' => ?_
  have hstart : t'.input = rest := by
    rw [ht'.2, ht.2]
  refine (meets_bufferCreate _ t').bind fun created t hcreated =>
    Meets.ite (fun _ => ?_) fun _ => Meets.pure (hnone 0 (hcreated.trans hstart))
  obtain ⟨m, hm⟩ := utf8Chars_eq_bytesGetc (size16 b16 b8) rest
  have hasked : textAsked s.input = m := by
    show (utf8Chars (lengthAt s.input) rest).1.length = m
    have hlength : lengthAt s.input = size16 b16 b8 := by
      rw [ht'.1, ht.2, ht.1]
      rfl
    rw [hlength, hm, bytesGetc_fst_length]
  refine (meets_utf8Chars _ t).bind fun array u hu => ?_
  rw [hcreated.trans hstart, hm] at hu
  obtain ⟨rfl, hu⟩ := hu
  refine (meets_calloc _ u).bind fun granted v hv => ?_
  have hend : v.input = rest.drop m := hv.trans hu
  refine Meets.ite (fun _ => Meets.pure ⟨hshort m hend, fun array harray => ?_⟩)
    fun _ => Meets.pure (hnone m hend)
  cases harray
  refine ⟨?_, ?_, ?_⟩
  · rw [bytesGetc_fst_length, hasked]
  · rw [bytesGetc_fst_length, hend, List.length_drop, hrest]
  · rw [bytesGetc_fst_length, ← hrest]
    exact ofArray_bytesGetc_length m rest

/-! ## 3. Demands -/

/-- At most the last of the demands lacks something. Then the input is at its end, and nothing was
    spent since but the two length bytes. -/
structure Settled (demands : List Demand) (eofs : Nat) (input : Bytes) (spent : Nat) : Prop where
  each : ∀ d ∈ demands, d.lacking = 0 ∨ input = [] ∧ d.lacking = eofs ∧ d.overhead + 2 = spent
  last : eofs = 0 ∨ ∃ d ∈ demands, d.lacking = eofs
  there : ∀ d ∈ demands, 2 ≤ d.unread.length

namespace Settled

variable {demands : List Demand} {eofs spent : Nat} {input : Bytes}

theorem nil : Settled [] 0 input spent :=
  ⟨fun _ h => absurd h List.not_mem_nil, .inl rfl, fun _ h => absurd h List.not_mem_nil⟩

/-- **What is lacking is covered exactly when every demand is.** -/
theorem covered_iff (h : Settled demands eofs input spent) :
    (∀ d ∈ demands, d.Covered) ↔ eofs ≤ spent := by
  refine ⟨fun hcovered => ?_, fun hle d hd => ?_⟩
  · rcases h.last with hzero | ⟨d, hd, hlacking⟩
    · omega
    · have hthere := h.there d hd
      have hasked : d.asked ≤ d.unread.length + d.overhead := hcovered d hd
      have hshort : d.asked - (d.unread.length - 2) = eofs := hlacking
      rcases h.each d hd with hnone | ⟨_, _, hspent⟩ <;> omega
  · have hthere := h.there d hd
    show d.asked ≤ d.unread.length + d.overhead
    rcases h.each d hd with hnone | ⟨_, hlacking, hspent⟩
    · have hshort : d.asked - (d.unread.length - 2) = 0 := hnone
      omega
    · have hshort : d.asked - (d.unread.length - 2) = eofs := hlacking
      omega

/-- While there is input, nothing was lacking. -/
theorem none_lacking (h : Settled demands eofs input spent) (hinput : input ≠ []) :
    eofs = 0 ∧ ∀ d ∈ demands, d.lacking = 0 := by
  have hnone : ∀ d ∈ demands, d.lacking = 0 := fun d hd =>
    (h.each d hd).resolve_right fun hlast => hinput hlast.1
  refine ⟨?_, hnone⟩
  rcases h.last with hzero | ⟨d, hd, hlacking⟩
  · exact hzero
  · exact hlacking.symm.trans (hnone d hd)

/-- What else is read may be spent. -/
theorem spend (h : Settled demands eofs input spent) {input' : Bytes} {spent' : Nat}
    (hinput : input'.length ≤ input.length) (hspent : input = [] → spent' = spent) :
    Settled demands eofs input' spent' := by
  refine ⟨fun d hd => ?_, h.last, h.there⟩
  rcases h.each d hd with hnone | ⟨hend, hlacking, hlast⟩
  · exact .inl hnone
  · subst hend
    exact .inr ⟨List.eq_nil_of_length_eq_zero (Nat.le_zero.mp hinput), hlacking,
      hlast.trans (hspent rfl).symm⟩

/-- A length is read, and what it asks for. -/
theorem ask {d : Demand} (h : Settled demands eofs d.unread d.overhead)
    (hthere : 2 ≤ d.unread.length) (hleft : input.length = d.unread.length - 2 - d.asked) :
    Settled (d :: demands) (lackedBy (d :: demands)) input (d.overhead + 2) := by
  have hunread : d.unread ≠ [] := by
    intro hend
    rw [hend, List.length_nil] at hthere
    omega
  obtain ⟨-, hnone⟩ := h.none_lacking hunread
  have hsum : (demands.map Demand.lacking).sum = 0 :=
    List.sum_eq_zero_iff_forall_eq_nat.mpr (List.forall_mem_map.mpr hnone)
  have hlacked : lackedBy (d :: demands) = d.lacking := by
    show d.lacking + (demands.map Demand.lacking).sum = d.lacking
    rw [hsum, Nat.add_zero]
  rw [hlacked]
  refine ⟨fun e he => ?_, .inr ⟨d, List.mem_cons_self, rfl⟩, fun e he => ?_⟩
  · rcases List.mem_cons.mp he with rfl | he
    · by_cases henough : e.asked ≤ e.unread.length - 2
      · exact .inl (Nat.sub_eq_zero_of_le henough)
      · refine .inr ⟨List.eq_nil_of_length_eq_zero ?_, rfl, rfl⟩
        omega
    · exact .inl (hnone e he)
  · rcases List.mem_cons.mp he with rfl | he
    · exact hthere
    · exact h.there e he

/-- Demands of the rest of the input are entered. -/
theorem enter (h : Settled demands eofs input spent) (hinput : input ≠ []) {later : List Demand}
    {lacked spent' : Nat} {input' : Bytes} (hlater : Settled later lacked input' spent') :
    Settled (later ++ demands) (eofs + lacked) input' spent' := by
  obtain ⟨hzero, hnone⟩ := h.none_lacking hinput
  subst hzero
  rw [Nat.zero_add]
  refine ⟨fun d hd => ?_, ?_, fun d hd => ?_⟩
  · rcases List.mem_append.mp hd with hd | hd
    · exact hlater.each d hd
    · exact .inl (hnone d hd)
  · refine hlater.last.imp_right fun hlast => ?_
    obtain ⟨d, hd, hlacking⟩ := hlast
    exact ⟨d, List.mem_append_left _ hd, hlacking⟩
  · rcases List.mem_append.mp hd with hd | hd
    · exact hlater.there d hd
    · exact h.there d hd

end Settled

/-! ## 4. The books -/

/-- Every length so far has both its bytes in the input. -/
def LengthsThere (l : Ledger) : Prop := ∀ unread ∈ l.lengths, 2 ≤ unread.length

/-- The demands of the ledger are settled, if its lengths are there. -/
def Accounted (p : Reader × Ledger) : Prop :=
  LengthsThere p.2 → Settled p.2.demands p.2.eofs p.1.input p.2.spent

/-- From `p` to `q` bytes were read and put nowhere. -/
structure Spends (p q : Reader × Ledger) : Prop where
  demands : q.2.demands = p.2.demands
  kept : q.2.kept = p.2.kept
  eofs : q.2.eofs = p.2.eofs
  lengths : ∀ unread ∈ p.2.lengths, unread ∈ q.2.lengths
  spent : q.2.spent + q.1.input.length = p.2.spent + p.1.input.length
  shorter : Shorter p.1 q.1

/-- Every byte read from `p` to `q` is spent or kept, and every demand accounted for. -/
structure Balanced (p q : Reader × Ledger) : Prop where
  books : q.2.kept + q.2.spent + q.1.input.length = p.2.kept + p.2.spent + p.1.input.length
  accounted : Accounted p → Accounted q
  shorter : Shorter p.1 q.1

theorem path_spends : Path Spends where
  refl _ := ⟨rfl, rfl, rfl, fun _ h => h, rfl, Nat.le_refl _⟩
  trans h h' := ⟨h'.demands.trans h.demands, h'.kept.trans h.kept, h'.eofs.trans h.eofs,
    fun unread hm => h'.lengths unread (h.lengths unread hm), h'.spent.trans h.spent,
    Nat.le_trans h'.shorter h.shorter⟩

theorem path_balanced : Path Balanced where
  refl _ := ⟨rfl, fun h => h, Nat.le_refl _⟩
  trans h h' := ⟨h'.books.trans h.books, fun hp => h'.accounted (h.accounted hp),
    Nat.le_trans h'.shorter h.shorter⟩

theorem Spends.lengthsThere {p q : Reader × Ledger} (h : Spends p q) (hq : LengthsThere q.2) :
    LengthsThere p.2 := fun unread hm => hq unread (h.lengths unread hm)

/-- At the end of the input nothing more is spent. -/
theorem Spends.spent_eq {p q : Reader × Ledger} (h : Spends p q) (hend : p.1.input = []) :
    q.2.spent = p.2.spent := by
  have hspent := h.spent
  have hshorter : q.1.input.length ≤ p.1.input.length := h.shorter
  rw [hend, List.length_nil] at hspent hshorter
  omega

theorem Spends.balanced {p q : Reader × Ledger} (h : Spends p q) : Balanced p q := by
  have hkept := h.kept
  have hspent := h.spent
  refine ⟨by omega, fun hp hq => ?_, h.shorter⟩
  rw [h.demands, h.eofs]
  exact (hp (h.lengthsThere hq)).spend h.shorter h.spent_eq

/-- The demands made from `p` to `r`, and not entered yet. -/
structure Demanded (p r : Reader × Ledger) (demands : List Demand) : Prop where
  spends : Spends p r
  fits : givenBy demands + r.1.input.length ≤ p.1.input.length
  within : ∀ d ∈ demands, d.unread.length ≤ p.1.input.length
  settled : LengthsThere r.2 →
    Settled demands (lackedBy demands) r.1.input (r.2.spent - givenBy demands)

namespace Demanded

variable {p r r' : Reader × Ledger} {demands : List Demand}

theorem start (p : Reader × Ledger) : Demanded p p [] where
  spends := path_spends.refl p
  fits := Nat.le_of_eq (Nat.zero_add _)
  within _ h := absurd h List.not_mem_nil
  settled _ := Settled.nil

theorem spend (h : Demanded p r demands) (hspends : Spends r r') : Demanded p r' demands where
  spends := path_spends.trans h.spends hspends
  fits := Nat.le_trans (Nat.add_le_add_left hspends.shorter _) h.fits
  within := h.within
  settled hr' := by
    refine (h.settled (hspends.lengthsThere hr')).spend hspends.shorter fun hend => ?_
    rw [hspends.spent_eq hend]

/-- A length is read where `r` is, and what it asks for. -/
theorem ask (h : Demanded p r demands) (hspends : Spends r r') (hnoted : r.1.input ∈ r'.2.lengths)
    {d : Demand} (hunread : d.unread = r.1.input)
    (hoverhead : d.overhead = r.2.spent - givenBy demands)
    (hleft : r'.1.input.length = d.unread.length - 2 - d.asked) : Demanded p r' (d :: demands) := by
  have hfits := h.fits
  have hspent : r.2.spent + r.1.input.length = p.2.spent + p.1.input.length := h.spends.spent
  have hspent' : r'.2.spent + r'.1.input.length = r.2.spent + r.1.input.length := hspends.spent
  have hshorter : r'.1.input.length ≤ r.1.input.length := hspends.shorter
  have hgiven : givenBy (d :: demands) = min d.asked (d.unread.length - 2) + givenBy demands := rfl
  rw [← hunread] at hspent hspent' hshorter hnoted
  refine ⟨path_spends.trans h.spends hspends, ?_, fun e he => ?_, fun hr' => ?_⟩
  · rw [← hunread] at hfits
    omega
  · rcases List.mem_cons.mp he with rfl | he
    · rw [hunread]
      exact h.spends.shorter
    · exact h.within e he
  · have hthere := hr' _ hnoted
    have hbefore := h.settled (hspends.lengthsThere hr')
    rw [← hunread, ← hoverhead] at hbefore
    have hrest : r'.2.spent - givenBy (d :: demands) = d.overhead + 2 := by
      rw [← hunread] at hfits
      omega
    rw [hrest]
    exact hbefore.ask hthere hleft

end Demanded

section Books

variable {α : Type}

/-- A part that puts nothing spends what it reads. -/
theorem meets_unmetered {m : Reading α} {p : Reader × Ledger} {Q : α → Reader → Prop}
    (h : Meets m p.1 Q (Shorter p.1)) (hQ : ∀ a t, Q a t → Shorter p.1 t) :
    Meets (unmetered m) p (fun a q => Spends p q ∧ Q a q.1) (Spends p) := by
  obtain ⟨s, l⟩ := p
  have hspend : ∀ {t : Reader}, Shorter s t → Spends (s, l) (t, l.spend s t) := by
    intro t ht
    refine ⟨rfl, rfl, rfl, fun _ h => h, ?_, ht⟩
    show l.spent + (s.input.length - t.input.length) + t.input.length = l.spent + s.input.length
    unfold Shorter at ht
    omega
  unfold Meets unmetered at *
  dsimp only at *
  cases hm : m s with
  | done a t =>
    rw [hm] at h
    exact ⟨hspend (hQ a t h), h⟩
  | failed t =>
    rw [hm] at h
    exact hspend h
  | fault t =>
    rw [hm] at h
    exact hspend h
  | stuck => trivial

theorem spends_unmetered {m : Reading α} (h : Moves Shorter m) : Moves Spends (unmetered m) :=
  fun p => (meets_unmetered (h p.1) fun _ _ ht => ht).mono (fun _ _ hq => hq.1) fun _ hq => hq

theorem balanced_unmetered {m : Reading α} (h : Moves Shorter m) : Moves Balanced (unmetered m) :=
  fun p => (spends_unmetered h p).mono (fun _ _ hq => hq.balanced) fun _ hq => hq.balanced

/-- A length is noted where it is read. -/
theorem meets_noteLength (p : Reader × Ledger) {E : Reader × Ledger → Prop} :
    Meets noteLength p (fun _ q => Spends p q ∧ q.1.input ∈ q.2.lengths) E :=
  Meets.update ⟨⟨rfl, rfl, rfl, fun _ h => List.mem_cons_of_mem _ h, rfl, Nat.le_refl _⟩,
    List.mem_cons_self⟩

/-- What is put was read before. -/
theorem put_balanced {p q : Reader × Ledger} (h : Spends p q) {n : Nat}
    (hn : n + q.1.input.length ≤ p.1.input.length) {Q : Unit → Reader × Ledger → Prop}
    (hQ : ∀ u, Balanced p u → Q () u) {E : Reader × Ledger → Prop} : Meets (put n []) q Q E := by
  have hspent := h.spent
  refine Meets.update (hQ _ ⟨?_, fun hp hu => ?_, h.shorter⟩)
  · have hkept := h.kept
    show q.2.kept + n + (q.2.spent - n) + q.1.input.length = _
    omega
  · show Settled q.2.demands q.2.eofs q.1.input (q.2.spent - n)
    rw [h.demands, h.eofs]
    refine (hp (h.lengthsThere hu)).spend h.shorter fun hend => ?_
    rw [hend, List.length_nil] at hn hspent
    omega

/-- What is put was read before, as much of it as the demands were given. -/
theorem put_demanded {p q : Reader × Ledger} {demands : List Demand} (h : Demanded p q demands)
    (hne : demands ≠ []) {n : Nat} (hn : n = givenBy demands + lackedBy demands)
    {Q : Unit → Reader × Ledger → Prop} (hQ : ∀ u, Balanced p u → Q () u)
    {E : Reader × Ledger → Prop} : Meets (put n demands) q Q E := by
  have hput : n - lackedBy demands = givenBy demands := by omega
  have hspent := h.spends.spent
  have hfits := h.fits
  unfold put
  rw [hput]
  refine Meets.update (hQ _ ⟨?_, fun hp hu => ?_, h.spends.shorter⟩)
  · have hkept := h.spends.kept
    dsimp only
    omega
  · have hsettled := h.settled hu
    show Settled (demands ++ q.2.demands) (q.2.eofs + lackedBy demands) q.1.input
      (q.2.spent - givenBy demands)
    rw [h.spends.demands, h.spends.eofs]
    refine (hp (h.spends.lengthsThere hu)).enter ?_ hsettled
    obtain ⟨d, hd⟩ := List.exists_mem_of_ne_nil demands hne
    have hthere := hsettled.there d hd
    have hwithin := h.within d hd
    intro hend
    rw [hend, List.length_nil] at hwithin
    omega

theorem balanced_readText : Moves Balanced readTextMetered := by
  intro p
  refine (meets_noteLength p).bind fun _ q hq => Meets.look ?_
  refine (meets_unmetered (readText_meets q.1) fun _ _ h => h.1.shorter).andThen
    (fun _ h => (path_spends.trans hq.1 h).balanced) fun utf8 u hu => ?_
  cases utf8 with
  | none => exact Meets.pure (path_spends.trans hq.1 hu.1).balanced
  | some array =>
    have htext := hu.2.2 array rfl
    have hleft : u.1.input.length = q.1.input.length - 2 - textAsked q.1.input := by
      rw [← htext.asked]
      exact htext.left
    have hdemanded : Demanded p u [⟨q.1.input, q.2.spent, true⟩] :=
      ((Demanded.start p).spend hq.1).ask hu.1 (hu.1.lengths _ hq.2) rfl rfl hleft
    refine Meets.bind (put_demanded hdemanded (List.cons_ne_nil _ _) ?_ fun v hv => hv)
      fun _ v hv => Meets.pure hv
    have htotal : array.length = min (textAsked q.1.input) (q.1.input.length - 2) +
        (textAsked q.1.input - (q.1.input.length - 2)) := by
      rw [htext.asked]
      omega
    exact htotal

/-! ## 5. Strings and binaries -/

/-- The string buffer grows by no more than the input shrinks. -/
theorem stringChunks_meets (cls : HessianClass) (fuel : Nat) (tag : CInt) (sb : CString)
    (p : Reader × Ledger) :
    Meets (stringChunksMetered cls fuel tag sb) p
      (fun sb' q => Spends p q ∧
        sb'.bytes.length + q.1.input.length ≤ sb.bytes.length + p.1.input.length) (Spends p) := by
  induction fuel generalizing tag sb p with
  | zero => exact Meets.outOfFuel
  | succ fuel ih =>
    unfold stringChunksMetered
    refine (spends_unmetered (shorter_visit _) p).bind fun _ q hq => ?_
    refine (meets_noteLength q).bind fun _ r hnoted => ?_
    have hr : Spends p r := path_spends.trans hq hnoted.1
    refine (meets_unmetered (readText_meets r.1) fun _ _ h => h.1.shorter).andThen
      (fun _ h => path_spends.trans hr h) fun utf8 t ht => ?_
    have hspends : Spends p t := path_spends.trans hr ht.1
    cases utf8 with
    | none => exact Meets.undefined hspends
    | some array =>
      have htext := ht.2.2 array rfl
      have hleft := htext.left
      have hcounted := htext.counted
      have hshorter : r.1.input.length ≤ p.1.input.length := hr.shorter
      have hgrown : (sb.append (CString.ofArray array)).bytes.length + t.1.input.length ≤
          sb.bytes.length + p.1.input.length := by
        rw [CString.append_bytes, List.length_append]
        omega
      refine Meets.ite (fun _ => ?_) fun _ => Meets.pure ⟨hspends, hgrown⟩
      refine (spends_unmetered shorter_bufferGetc t).andThen (fun _ h => path_spends.trans hspends h)
        fun tag u hu => ?_
      have hless : u.1.input.length ≤ t.1.input.length := hu.shorter
      refine (ih tag _ u).mono (fun sb' v hv => ?_) fun _ h =>
        path_spends.trans (path_spends.trans hspends hu) h
      exact ⟨path_spends.trans (path_spends.trans hspends hu) hv.1, by omega⟩

theorem balanced_hessianString (cls : HessianClass) (tag : CInt) :
    Moves Balanced (hessianStringMetered cls tag) := by
  refine .ite path_balanced.fail (path_balanced.bind
    (balanced_unmetered (shorter_bufferCreate _)) fun created => .ite ?_ path_balanced.fail)
  intro p
  refine Meets.look ?_
  refine (stringChunks_meets cls _ tag .empty p).andThen (fun _ h => h.balanced) fun sb q hq => ?_
  refine (spends_unmetered (shorter_calloc _) q).andThen
    (fun _ h => (path_spends.trans hq.1 h).balanced) fun granted u hu => ?_
  have hspends : Spends p u := path_spends.trans hq.1 hu
  refine Meets.ite (fun _ => ?_) fun _ => Meets.fail hspends.balanced
  refine Meets.bind (put_balanced hspends ?_ fun v hv => hv) fun _ v hv => Meets.pure hv
  have hsb : sb.bytes.length + q.1.input.length ≤ 0 + p.1.input.length := hq.2
  have hless : u.1.input.length ≤ q.1.input.length := hu.shorter
  omega

/-- A chunk adds to the buffer what its length asks for. -/
theorem readBytes_meets (buf : BinaryBuffer) (s : Reader) {E : Reader → Prop} :
    Meets (readBytes buf) s
      (fun buf' t => LengthRead s t ∧ t.input.length = s.input.length - 2 - lengthAt s.input ∧
        ∀ data', buf' = .holding data' → ∃ data, buf = .holding data ∧
          data'.length = data.length + lengthAt s.input) E := by
  let rest := (getc (getc s.input).2).2
  have hrest : rest.length = s.input.length - 2 := getc_getc_length s.input
  refine (meets_getc s).bind fun b16 t ht => (meets_getc t).bind fun b8 t' ht' => ?_
  have hstart : t'.input = rest := by
    rw [ht'.2, ht.2]
  have hsize : size16 b16 b8 = lengthAt s.input := by
    rw [ht'.1, ht.2, ht.1]
    rfl
  rw [hsize]
  refine Meets.look ?_
  refine Meets.bind (Q := fun _ v => v.input = rest.drop (lengthAt s.input))
    (Meets.update (congrArg (List.drop _) hstart)) fun _ v hv => Meets.pure ⟨?_, ?_, ?_⟩
  · unfold LengthRead
    rw [hv, List.length_drop, hrest]
    omega
  · rw [hv, List.length_drop, hrest]
  · intro data' hdata'
    unfold BinaryBuffer.putAll at hdata'
    cases buf with
    | absent => cases hdata'
    | lost => cases hdata'
    | holding data =>
      refine ⟨data, rfl, ?_⟩
      dsimp only at hdata'
      split at hdata'
      · cases hdata'
      · cases hdata'
        rw [List.length_append, bytesGetc_fst_length]

/-- The buffer holds what the demands were given, and a zero byte for each that they lacked. -/
def Filled (buf : BinaryBuffer) (demands : List Demand) : Prop :=
  ∀ data, buf = .holding data → data.length = givenBy demands + lackedBy demands

/-- At the end of the loop the buffer holds what all chunks asked for. -/
theorem binaryGetChunks_meets (cls : HessianClass) (fuel : Nat) (tag : CInt) (buf : BinaryBuffer)
    (demands : List Demand) {p r : Reader × Ledger} (h : Demanded p r demands)
    (hfilled : Filled buf demands) :
    Meets (binaryGetChunksMetered cls fuel tag buf demands) r
      (fun got q => Demanded p q got.2 ∧ got.2 ≠ [] ∧ Filled got.1 got.2) (Spends p) := by
  induction fuel generalizing tag buf demands r with
  | zero => exact Meets.outOfFuel
  | succ fuel ih =>
    unfold binaryGetChunksMetered
    refine (meets_noteLength r).bind fun _ q hq => Meets.look ?_
    have hq' : Demanded p q demands := h.spend hq.1
    refine (meets_unmetered (readBytes_meets buf q.1) fun _ _ h => h.1.shorter).andThen
      (fun _ hfault => path_spends.trans hq'.spends hfault) fun buf' u hu => ?_
    obtain ⟨hspends, -, hleft, hgrown⟩ := hu
    have hdemanded : Demanded p u (⟨q.1.input, q.2.spent - givenBy demands, false⟩ :: demands) :=
      hq'.ask hspends (hspends.lengths _ hq.2) rfl rfl hleft
    have hfilled' : Filled buf' (⟨q.1.input, q.2.spent - givenBy demands, false⟩ :: demands) := by
      intro data' hdata'
      obtain ⟨data, hdata, hlength⟩ := hgrown data' hdata'
      have hbefore := hfilled data hdata
      show data'.length = min (lengthAt q.1.input) (q.1.input.length - 2) + givenBy demands +
        (lengthAt q.1.input - (q.1.input.length - 2) + lackedBy demands)
      omega
    refine Meets.ite (fun _ => ?_) fun _ =>
      Meets.pure ⟨hdemanded, List.cons_ne_nil _ _, hfilled'⟩
    refine (spends_unmetered shorter_bufferGetc u).andThen
      (fun _ hfault => path_spends.trans hdemanded.spends hfault) fun tag v hv => ?_
    exact ih tag buf' _ (hdemanded.spend hv) hfilled'

theorem balanced_hessianBinary (cls : HessianClass) (tag : CInt) :
    Moves Balanced (hessianBinaryMetered cls tag) := by
  refine .ite path_balanced.fail (path_balanced.bind
    (balanced_unmetered (shorter_bufferCreate _)) fun created => ?_)
  intro p
  refine Meets.look ?_
  have hempty : Filled (if created then .holding [] else .absent) [] := by
    intro data hdata
    split at hdata
    · cases hdata
      rfl
    · cases hdata
  refine (binaryGetChunks_meets cls _ tag _ [] (Demanded.start p) hempty).andThen
    (fun _ h => h.balanced) fun got q hq => ?_
  obtain ⟨buf, demands⟩ := got
  obtain ⟨hdemanded, hne, hfilled⟩ := hq
  have hafter : ∀ {u : Reader × Ledger}, Spends q u → Balanced p u :=
    fun hu => (path_spends.trans hdemanded.spends hu).balanced
  cases buf with
  | absent =>
    refine (spends_unmetered (shorter_calloc 0) q).andThen (fun _ h => hafter h) fun granted u hu =>
      Meets.ite (fun _ => Meets.pure (hafter hu)) fun _ => Meets.fail (hafter hu)
  | lost =>
    refine (spends_unmetered (shorter_visit _) q).andThen (fun _ h => hafter h) fun _ u hu => ?_
    refine (spends_unmetered (shorter_calloc 0) u).andThen
      (fun _ h => hafter (path_spends.trans hu h)) fun granted v hv => ?_
    exact Meets.ite (fun _ => Meets.undefined (hafter (path_spends.trans hu hv)))
      fun _ => Meets.fail (hafter (path_spends.trans hu hv))
  | holding data =>
    refine (spends_unmetered (shorter_calloc _) q).andThen (fun _ h => hafter h)
      fun granted u hu => Meets.ite (fun _ => ?_) fun _ => Meets.fail (hafter hu)
    exact Meets.bind (put_demanded (hdemanded.spend hu) hne (hfilled data rfl) fun v hv => hv)
      fun _ v hv => Meets.pure hv

end Books

/-! ## 6. The whole decode -/

/-- The parts of a decode that write to the ledger move along `R`, and so does what only reads. -/
structure PartsMove (R : Reader × Ledger → Reader × Ledger → Prop) : Prop where
  path : Path R
  unmetered : ∀ {α : Type} {m : Reading α}, Moves Shorter m → Moves R (unmetered m)
  text : Moves R readTextMetered
  string : ∀ cls tag, Moves R (hessianStringMetered cls tag)
  binary : ∀ cls tag, Moves R (hessianBinaryMetered cls tag)

section Decode

variable {R : Reader × Ledger → Reader × Ledger → Prop} (hR : PartsMove R)

include hR

theorem moves_hessianRemote (cls : HessianClass) (tag : CInt) :
    Moves R (hessianRemoteMetered cls tag) :=
  .ite hR.path.fail (hR.path.bind (hR.unmetered shorter_bufferGetc) fun _ =>
    .ite hR.path.fail (hR.path.bind hR.text fun _ => hR.path.bind
      (hR.unmetered shorter_bufferGetc) fun _ => .ite hR.path.fail
        (hR.path.bind hR.text fun _ => hR.path.pure _)))

theorem moves_getOptionalType (nextTag : CInt) :
    Moves R (getOptionalTypeMetered nextTag) := by
  refine .ite (hR.path.bind hR.text fun type => ?_) (hR.path.pure _)
  cases type with
  | none => exact hR.path.fail
  | some type =>
    exact hR.path.bind (hR.unmetered shorter_bufferGetc) fun _ => hR.path.pure _

theorem moves_hessianList {loop : CInt → Metered (List HessianObject)}
    (hloop : ∀ tag, Moves R (loop tag)) (cls : HessianClass) (tag : CInt) :
    Moves R (hessianListMetered loop cls tag) := by
  refine .ite hR.path.fail (hR.path.bind (hR.unmetered (shorter_calloc 24))
    fun created => .ite ?_ hR.path.fail)
  refine hR.path.bind (hR.unmetered shorter_bufferGetc) fun nextTag =>
    hR.path.bind (moves_getOptionalType hR _) fun type => hR.path.bind
      (hR.unmetered (shorter_getOptionalLength _)) fun nextTag =>
        hR.path.bind (hloop _) fun refs =>
          hR.path.bind (hR.unmetered (shorter_calloc 24)) fun created => .ite ?_ ?_
  · exact hR.path.bind (hR.unmetered (shorter_linkElements _ _)) fun _ =>
      hR.path.pure _
  · exact hR.path.bind (hR.unmetered (shorter_deleteElements _)) fun _ =>
      hR.path.fail

theorem moves_hessianMap {loop : CInt → Metered (List (HessianObject × HessianObject))}
    (hloop : ∀ tag, Moves R (loop tag)) (cls : HessianClass) (tag : CInt) :
    Moves R (hessianMapMetered loop cls tag) := by
  refine .ite hR.path.fail (hR.path.bind (hR.unmetered (shorter_calloc 24))
    fun created => .ite ?_ hR.path.fail)
  refine hR.path.bind (hR.unmetered shorter_bufferGetc) fun nextTag =>
    hR.path.bind (moves_getOptionalType hR _) fun type => hR.path.bind (hloop _)
      fun refs => hR.path.bind (hR.unmetered (shorter_calloc 24)) fun created =>
        .ite ?_ ?_
  · exact hR.path.bind (hR.unmetered (shorter_linkPairs _)) fun _ =>
      hR.path.pure _
  · exact hR.path.bind (hR.unmetered (shorter_deletePairs _)) fun _ =>
      hR.path.fail

theorem moves_deserializeAs {elements : CInt → Metered (List HessianObject)}
    {pairs : CInt → Metered (List (HessianObject × HessianObject))}
    (helements : ∀ tag, Moves R (elements tag))
    (hpairs : ∀ tag, Moves R (pairs tag)) (cls : HessianClass) (tag : CInt) :
    Moves R (deserializeAsMetered elements pairs cls tag) := by
  have scalar : ∀ {α : Type} {m : Reading α} {f : α → HessianObject}, Moves Shorter m →
      Moves R (unmetered m >>= fun a => pure (f a)) :=
    fun h => hR.path.bind (hR.unmetered h) fun _ => hR.path.pure _
  unfold deserializeAsMetered
  cases cls.type with
  | null => exact scalar (shorter_hessianNull cls tag)
  | boolean => exact scalar (shorter_hessianBoolean cls tag)
  | integer => exact scalar (shorter_hessianInteger cls tag)
  | ref => exact scalar (shorter_hessianInteger cls tag)
  | long => exact scalar (shorter_hessianLong cls tag)
  | date => exact scalar (shorter_hessianLong cls tag)
  | double => exact scalar (shorter_hessianLong cls tag)
  | string =>
    exact hR.path.bind (hR.string cls tag) fun _ => hR.path.pure _
  | xml => exact hR.path.bind (hR.string cls tag) fun _ => hR.path.pure _
  | binary =>
    exact hR.path.bind (hR.binary cls tag) fun _ => hR.path.pure _
  | remote =>
    exact hR.path.bind (moves_hessianRemote hR cls tag) fun _ => hR.path.pure _
  | list =>
    exact hR.path.bind (moves_hessianList hR helements cls tag) fun _ => hR.path.pure _
  | map => exact hR.path.bind (moves_hessianMap hR hpairs cls tag) fun _ => hR.path.pure _
  | unknown => exact hR.path.fail

mutual
theorem moves_hessianDeserializeTag : ∀ (fuel : Nat) (tag : CInt),
    Moves R (hessianDeserializeTagMetered fuel tag)
  | 0, _ => fun _ => Meets.outOfFuel
  | fuel + 1, tag => by
    unfold hessianDeserializeTagMetered
    cases getclass (gettype tag) with
    | none => exact hR.path.fail
    | some cls =>
      refine hR.path.bind (hR.unmetered (shorter_calloc _)) fun granted => .ite
        (moves_deserializeAs hR ?_ ?_ cls tag) hR.path.fail
      · exact moves_listElements fuel cls []
      · exact moves_mapPairs fuel cls []

theorem moves_listElements : ∀ (fuel : Nat) (cls : HessianClass) (refs : List HessianObject)
    (nextTag : CInt), Moves R (listElementsMetered fuel cls refs nextTag)
  | 0, _, _, _ => fun _ => Meets.outOfFuel
  | fuel + 1, cls, refs, nextTag => by
    unfold listElementsMetered
    have hdelete := hR.unmetered (shorter_deleteElements refs)
    refine .ite (hR.path.pure _) ?_
    refine hR.path.bind
      (hR.path.onFailure (moves_hessianDeserializeTag fuel nextTag) hdelete) fun o =>
        hR.path.bind (hR.unmetered (shorter_calloc 16)) fun added => .ite ?_ ?_
    · exact hR.path.bind (hR.unmetered shorter_bufferGetc) fun nextTag =>
        moves_listElements fuel cls _ nextTag
    · exact hR.path.bind (hR.unmetered (shorter_hessianDelete o)) fun _ =>
        hR.path.bind hdelete fun _ => hR.path.fail

theorem moves_mapPairs : ∀ (fuel : Nat) (cls : HessianClass)
    (refs : List (HessianObject × HessianObject)) (nextTag : CInt),
    Moves R (mapPairsMetered fuel cls refs nextTag)
  | 0, _, _, _ => fun _ => Meets.outOfFuel
  | fuel + 1, cls, refs, nextTag => by
    unfold mapPairsMetered
    have hdelete := shorter_deletePairs refs
    refine .ite (hR.path.pure _) ?_
    refine hR.path.bind
      (hR.path.onFailure (moves_hessianDeserializeTag fuel nextTag)
        (hR.unmetered hdelete)) fun key =>
      hR.path.bind (hR.unmetered shorter_bufferGetc) fun nextTag => ?_
    have hboth := path_shorter.bind (shorter_hessianDelete key) fun _ => hdelete
    refine hR.path.bind
      (hR.path.onFailure (moves_hessianDeserializeTag fuel nextTag)
        (hR.unmetered hboth)) fun value => ?_
    have hclean : Moves R
        (do
          unmetered (hessianDelete key)
          unmetered (hessianDelete value)
          unmetered (deletePairs refs)
          fail : Metered (List (HessianObject × HessianObject))) :=
      hR.path.bind (hR.unmetered (shorter_hessianDelete key)) fun _ =>
        hR.path.bind (hR.unmetered (shorter_hessianDelete value)) fun _ =>
          hR.path.bind (hR.unmetered hdelete) fun _ => hR.path.fail
    refine hR.path.bind (hR.unmetered (shorter_calloc 16)) fun granted => .ite ?_ hclean
    refine hR.path.bind (hR.unmetered (shorter_calloc 16)) fun added => .ite ?_ hclean
    exact hR.path.bind (hR.unmetered shorter_bufferGetc) fun nextTag =>
      moves_mapPairs fuel cls _ nextTag
end

/-- **A decode moves along what its parts move along.** -/
theorem moves_hessianDeserialize : Moves R hessianDeserializeMetered := by
  refine hR.path.bind (hR.unmetered shorter_bufferGetc) fun tag => hR.path.bind
    hR.path.read fun p => ?_
  exact hR.path.bind (moves_hessianDeserializeTag hR _ tag) fun _ => hR.path.pure _

end Decode

/-- **The books of a decode balance.** -/
theorem balanced_hessianDeserialize : Moves Balanced hessianDeserializeMetered :=
  moves_hessianDeserialize ⟨path_balanced, balanced_unmetered, balanced_readText,
    balanced_hessianString, balanced_hessianBinary⟩

end ArgusPep
