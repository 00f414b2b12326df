/-
  File:      ArgusPep/Util/Base64Digits.lean
  Subject:   `base64_decode` on texts with any bytes in them.

  `strchr` finds the zero byte behind the table: a zero byte is kept, as the 65th digit. Every other
  byte outside the alphabet is dropped.

  * `alphabetDigits` -- the digits of a text, the alphabet being that of the standard;
  * `decodeGroups_bytes` -- on digits alone the groups of the decoder are the standard ones;
  * `odd`, `decodeDigits_zero₀`, … -- a zero byte counts as the digit zero, and makes the digit
    before it in its group odd;
  * **`base64Decode_standard_iff`** -- the texts that are decoded as the standard says: those with
    no zero byte, and a few with one.
-/
import ArgusPep.Lib.Sextets
import ArgusPep.Util.Base64

namespace ArgusPep

open Lib.Sextets

/-! ## 1. Digits of the alphabet -/

/-- The digits of a text. -/
def alphabetDigits (w : Bytes) : List Digit := w.filterMap digit?

/-- The text without the bytes outside the alphabet. -/
def alphabetOnly (w : Bytes) : Bytes := w.filter fun c => (digit? c).isSome

theorem base64Digit_byte : ∀ d : Digit, base64Digit d.byte = char d := by decide +kernel

/-- The table of the code is the alphabet, but for the zero behind it. -/
theorem base64Index_eq (c : UInt8) :
    base64Index c = if c = 0 then some 64 else (digit? c).map Digit.byte := by
  by_cases hzero : c = 0
  · subst hzero
    decide
  rw [if_neg hzero]
  cases hd : digit? c with
  | some d =>
    have hsmall : ∀ d : Digit, d.byte &&& 0xC0 = 0 := by decide +kernel
    rw [char_of_digit? hd, ← base64Digit_byte, index_digit (hsmall d)]
    rfl
  | none =>
    have htable : ∀ e ∈ base64Table, digit? e ≠ none := by decide +kernel
    have hmem : c ∉ base64Table ++ [0] := by
      intro hmem
      rcases List.mem_append.mp hmem with hmem | hmem
      · exact htable c hmem hd
      · exact hzero (List.mem_singleton.mp hmem)
    unfold base64Index
    rw [List.idxOf?_eq_none_iff.mpr hmem]
    rfl

theorem digits_of_no_zero {w : Bytes} (h : 0 ∉ w) :
    digits w = (alphabetDigits w).map Digit.byte := by
  induction w with
  | nil => rfl
  | cons c w ih =>
    rw [List.mem_cons, not_or] at h
    have hc : base64Index c = (digit? c).map Digit.byte := by
      rw [base64Index_eq, if_neg fun e => h.1 e.symm]
    unfold digits alphabetDigits at ih ⊢
    rw [List.filterMap_cons, List.filterMap_cons, hc]
    cases digit? c with
    | none => exact ih h.2
    | some d => exact congrArg (d.byte :: ·) (ih h.2)

theorem alphabetDigits_only (w : Bytes) : alphabetDigits (alphabetOnly w) = alphabetDigits w := by
  unfold alphabetDigits alphabetOnly
  rw [List.filterMap_filter]
  refine congrArg (List.filterMap · w) (funext fun c => ?_)
  cases digit? c <;> rfl

theorem no_zero_alphabetOnly (w : Bytes) : 0 ∉ alphabetOnly w := by
  intro h
  exact absurd (List.mem_filter.mp h).2 (by decide)

/-! ## 2. Groups -/

theorem shiftRight_byte (d : Digit) {k : Nat} (h : k < 8) :
    d.byte >>> UInt8.ofNat k = UInt8.ofNat (d.val / 2 ^ k) := by
  have hval : d.byte.toNat = d.val := Nat.mod_eq_of_lt (Nat.lt_trans d.isLt (by decide))
  rw [shiftRight_eq _ h, hval]

theorem first_byte (a b : Digit) :
    a.byte <<< 2 ||| b.byte >>> 4 = UInt8.ofNat (a.val * 4 + b.val / 16) := by
  have ha : a.byte <<< 2 = UInt8.ofNat (a.val * 2 ^ 2) := ofNat_shiftLeft a.val (by decide)
  have hb : b.byte >>> 4 = UInt8.ofNat (b.val / 2 ^ 4) := shiftRight_byte b (by decide)
  rw [ha, hb]
  exact ofNat_or_of_lt a.val (by omega)

theorem second_byte (a b : Digit) :
    a.byte <<< 4 ||| b.byte >>> 2 = UInt8.ofNat (a.val * 16 + b.val / 4) := by
  have ha : a.byte <<< 4 = UInt8.ofNat (a.val * 2 ^ 4) := ofNat_shiftLeft a.val (by decide)
  have hb : b.byte >>> 2 = UInt8.ofNat (b.val / 2 ^ 2) := shiftRight_byte b (by decide)
  rw [ha, hb]
  exact ofNat_or_of_lt a.val (by omega)

/-- The mask of the decoder takes nothing away: the shift leaves two bits. -/
theorem shiftLeft_and_C0 (b : UInt8) : (b <<< 6) &&& (0xC0 : UInt8) = b <<< 6 := by
  rw [UInt8.and_comm]
  exact UInt8.neg_one_shiftLeft_and_shiftLeft (a := b) (b := 6)

theorem third_byte (a b : Digit) :
    ((a.byte <<< 6) &&& 0xC0) ||| b.byte = UInt8.ofNat (a.val * 64 + b.val) := by
  have ha : a.byte <<< 6 = UInt8.ofNat (a.val * 2 ^ 6) := ofNat_shiftLeft a.val (by decide)
  rw [shiftLeft_and_C0, ha]
  exact ofNat_or_of_lt a.val (by omega)

theorem decodeblock_bytes (a b c d : Digit) :
    decodeblock a.byte b.byte c.byte d.byte = bytes (word [a, b, c, d]) := by
  rw [bytes_word, ← first_byte, ← second_byte, ← third_byte]
  rfl

/-- On digits alone the groups of the decoder are the standard ones. -/
theorem decodeGroups_bytes : ∀ ds : List Digit, decodeGroups (ds.map Digit.byte) = decode ds
  | [] => decode_nil.symm
  | [a] => (decode_one a).symm
  | [a, b] => congrArg (List.take 1) (decodeblock_bytes a b 0 0)
  | [a, b, c] => congrArg (List.take 2) (decodeblock_bytes a b c 0)
  | a :: b :: c :: d :: ds => by
    have hgroup : decodeDigits [a.byte, b.byte, c.byte, d.byte] = group [a, b, c, d] :=
      congrArg (List.take 3) (decodeblock_bytes a b c d)
    show decodeDigits [a.byte, b.byte, c.byte, d.byte] ++ decodeGroups (ds.map Digit.byte)
      = group [a, b, c, d] ++ decode ds
    rw [hgroup, decodeGroups_bytes ds]

/-! ## 3. A zero byte -/

/-- The digit with its last bit set. -/
def odd (d : Digit) : Digit := ⟨d.val / 2 * 2 + 1, by omega⟩

theorem odd_eq_iff (d : Digit) : odd d = d ↔ d.val % 2 = 1 := by
  rw [Fin.ext_iff]
  show d.val / 2 * 2 + 1 = d.val ↔ _
  omega

theorem odd_byte (d : Digit) : (odd d).byte = d.byte ||| 1 := by
  have hodd : (odd d).byte = UInt8.ofNat (d.val / 2 * 2 ^ 1) ||| 1 :=
    (ofNat_or_of_lt (i := 1) (n := 1) (d.val / 2) (by decide)).symm
  have hd : d.byte = UInt8.ofNat (d.val / 2 * 2 ^ 1) ||| UInt8.ofNat (d.val % 2) := by
    rw [ofNat_or_of_lt (d.val / 2) (by omega)]
    exact congrArg UInt8.ofNat (by omega)
  have hlast : UInt8.ofNat (d.val % 2) ||| 1 = 1 := by
    rcases Nat.mod_two_eq_zero_or_one d.val with h | h <;> rw [h] <;> rfl
  rw [hodd, hd, UInt8.or_assoc, hlast]

/-- The bit that makes a digit odd, with the digit moved into its byte. -/
theorem odd_shift (d : Digit) (k : UInt8) :
    d.byte <<< k ||| 1 <<< k = (odd d).byte <<< k := by
  rw [odd_byte, UInt8.shiftLeft_or]

/-- A zero byte as the first of its group is the digit zero. -/
theorem decodeDigits_zero₀ (x y z : Digit) :
    decodeDigits [64, x.byte, y.byte, z.byte] = group [0, x, y, z] := by
  have hzero : (64 : UInt8) <<< 2 = Digit.byte 0 <<< 2 := by decide
  have hblock : decodeblock 64 x.byte y.byte z.byte
      = decodeblock (Digit.byte 0) x.byte y.byte z.byte := by
    unfold decodeblock
    rw [hzero]
  exact congrArg (List.take 3) (hblock.trans (decodeblock_bytes 0 x y z))

/-- Behind another digit it makes that one odd, too: the seventh bit lands on its last. -/
theorem decodeDigits_zero₁ (p x y : Digit) :
    decodeDigits [p.byte, 64, x.byte, y.byte] = group [odd p, 0, x, y] := by
  have hp : p.byte <<< 2 ||| (64 : UInt8) >>> 4 = (odd p).byte <<< 2 ||| Digit.byte 0 >>> 4 :=
    (odd_shift p 2).trans UInt8.or_zero.symm
  have hblock : decodeblock p.byte 64 x.byte y.byte
      = decodeblock (odd p).byte (Digit.byte 0) x.byte y.byte :=
    congrArg (· :: _) hp
  exact congrArg (List.take 3) (hblock.trans (decodeblock_bytes (odd p) 0 x y))

theorem decodeDigits_zero₂ (p q x : Digit) :
    decodeDigits [p.byte, q.byte, 64, x.byte] = group [p, odd q, 0, x] := by
  have hp : p.byte <<< 2 ||| q.byte >>> 4 = p.byte <<< 2 ||| (odd q).byte >>> 4 := by
    rw [first_byte, first_byte]
    exact congrArg UInt8.ofNat (by show _ = p.val * 4 + (q.val / 2 * 2 + 1) / 16; omega)
  have hq : q.byte <<< 4 ||| (64 : UInt8) >>> 2 = (odd q).byte <<< 4 ||| Digit.byte 0 >>> 2 :=
    (odd_shift q 4).trans UInt8.or_zero.symm
  have hblock : decodeblock p.byte q.byte 64 x.byte
      = decodeblock p.byte (odd q).byte (Digit.byte 0) x.byte := by
    unfold decodeblock
    rw [hp, hq]
    rfl
  exact congrArg (List.take 3) (hblock.trans (decodeblock_bytes p (odd q) 0 x))

theorem decodeDigits_zero₃ (p q r : Digit) :
    decodeDigits [p.byte, q.byte, r.byte, 64] = group [p, q, odd r, 0] := by
  have hq : q.byte <<< 4 ||| r.byte >>> 2 = q.byte <<< 4 ||| (odd r).byte >>> 2 := by
    rw [second_byte, second_byte]
    exact congrArg UInt8.ofNat (by show _ = q.val * 16 + (r.val / 2 * 2 + 1) / 4; omega)
  have hr : ((r.byte <<< 6) &&& (0xC0 : UInt8)) ||| (64 : UInt8)
      = (((odd r).byte <<< 6) &&& (0xC0 : UInt8)) ||| Digit.byte 0 := by
    rw [shiftLeft_and_C0, shiftLeft_and_C0]
    exact (odd_shift r 6).trans UInt8.or_zero.symm
  have hblock : decodeblock p.byte q.byte r.byte 64
      = decodeblock p.byte q.byte (odd r).byte (Digit.byte 0) := by
    unfold decodeblock
    rw [hq, hr]
  exact congrArg (List.take 3) (hblock.trans (decodeblock_bytes p q (odd r) 0))

/-- A zero byte between the digits `pre` and `post` is lost: behind it there are only `A`s, and the
    digit it makes odd is odd, or not in its group. -/
def Lost (pre post : List Digit) : Prop :=
  (∀ d ∈ post, d.val = 0) ∧
    (post = [] ∨ pre.length % 4 = 0 ∨ ∃ d, pre.getLast? = some d ∧ d.val % 2 = 1)

/-- Whole groups in front do not matter. -/
theorem lost_group (p q r s : Digit) (pre post : List Digit) :
    Lost (p :: q :: r :: s :: pre) post ↔ Lost pre post := by
  unfold Lost
  refine and_congr_right fun _ => or_congr_right ?_
  have hlen : (p :: q :: r :: s :: pre).length % 4 = pre.length % 4 := by
    simp only [List.length_cons]
    omega
  rw [hlen]
  cases pre with
  | nil => simp
  | cons t pre =>
    simp only [List.getLast?_cons_cons]

/-- Within a group, with digits behind. -/
theorem lost_within {pre post : List Digit} {last : Digit} (hlast : pre.getLast? = some last)
    (hpre : pre.length % 4 ≠ 0) (hpost : post ≠ []) :
    Lost pre post ↔ (∀ d ∈ post, d = 0) ∧ last.val % 2 = 1 := by
  unfold Lost
  simp [hlast, hpre, hpost, Fin.val_eq_zero_iff]

/-- A zero byte as the first of a group, with digits behind. -/
theorem decodeGroups_zero₀ : ∀ post : List Digit, post.length % 4 = 0 →
    decodeGroups (64 :: post.map Digit.byte) = decode (0 :: post)
  | [], _ => (decode_one 0).symm
  | [_], h | [_, _], h => absurd h (by simp)
  | x :: y :: z :: post, _ => by
    show decodeDigits [64, x.byte, y.byte, z.byte] ++ decodeGroups (post.map Digit.byte)
      = group [0, x, y, z] ++ decode post
    rw [decodeDigits_zero₀, decodeGroups_bytes]

/-- **One zero byte among whole groups of digits goes unnoticed exactly if it is lost.** -/
theorem decodeGroups_zero : ∀ pre post : List Digit, (pre.length + post.length) % 4 = 0 →
    (decodeGroups (pre.map Digit.byte ++ 64 :: post.map Digit.byte) = decode (pre ++ post) ↔
      Lost pre post)
  | p :: q :: r :: s :: pre, post, h => by
    have hlen : (pre.length + post.length) % 4 = 0 := by
      simp only [List.length_cons] at h
      omega
    have hgroup : decodeDigits [p.byte, q.byte, r.byte, s.byte] = group [p, q, r, s] :=
      congrArg (List.take 3) (decodeblock_bytes p q r s)
    rw [lost_group, ← decodeGroups_zero pre post hlen]
    show decodeDigits [p.byte, q.byte, r.byte, s.byte] ++ _ = group [p, q, r, s] ++ _ ↔ _
    rw [hgroup, List.append_cancel_left_eq]
    exact Iff.rfl
  | [], post, h => by
    rw [List.length_nil, Nat.zero_add] at h
    have hshift := decode_shift post 0 h
    rw [← decodeGroups_zero₀ post h] at hshift
    exact hshift.trans ⟨fun hall =>
      ⟨fun d hd => Fin.val_eq_zero_iff.mpr (hall d hd), .inr (.inl rfl)⟩,
      fun hlost d hd => Fin.val_eq_zero_iff.mp (hlost.1 d hd)⟩
  | [p], x :: y :: z :: post, h => by
    have hlen : post.length % 4 = 0 := by
      simp only [List.length_cons, List.length_nil] at h
      omega
    show decodeDigits [p.byte, 64, x.byte, y.byte] ++ decodeGroups ((z :: post).map Digit.byte)
      = group [p, x, y, z] ++ decode post ↔ _
    rw [decodeDigits_zero₁, decodeGroups_bytes, group_append_inj, decode_shift post z hlen,
      odd_eq_iff]
    rw [lost_within rfl (by simp) (List.cons_ne_nil _ _), List.forall_mem_cons,
      List.forall_mem_cons, List.forall_mem_cons]
    constructor
    · intro heq
      obtain ⟨⟨hodd, rfl, rfl, rfl⟩, hall⟩ := heq
      exact ⟨⟨rfl, rfl, rfl, hall⟩, hodd⟩
    · intro hlost
      obtain ⟨⟨rfl, rfl, rfl, hall⟩, hodd⟩ := hlost
      exact ⟨⟨hodd, rfl, rfl, rfl⟩, hall⟩
  | [p, q], x :: y :: post, h => by
    have hlen : post.length % 4 = 0 := by
      simp only [List.length_cons, List.length_nil] at h
      omega
    show decodeDigits [p.byte, q.byte, 64, x.byte] ++ decodeGroups ((y :: post).map Digit.byte)
      = group [p, q, x, y] ++ decode post ↔ _
    rw [decodeDigits_zero₂, decodeGroups_bytes, group_append_inj, decode_shift post y hlen,
      odd_eq_iff, lost_within rfl (by simp) (List.cons_ne_nil _ _), List.forall_mem_cons,
      List.forall_mem_cons]
    constructor
    · intro heq
      obtain ⟨⟨_, hodd, rfl, rfl⟩, hall⟩ := heq
      exact ⟨⟨rfl, rfl, hall⟩, hodd⟩
    · intro hlost
      obtain ⟨⟨rfl, rfl, hall⟩, hodd⟩ := hlost
      exact ⟨⟨rfl, hodd, rfl, rfl⟩, hall⟩
  | [p, q, r], x :: post, h => by
    have hlen : post.length % 4 = 0 := by
      simp only [List.length_cons, List.length_nil] at h
      omega
    show decodeDigits [p.byte, q.byte, r.byte, 64] ++ decodeGroups ((x :: post).map Digit.byte)
      = group [p, q, r, x] ++ decode post ↔ _
    rw [decodeDigits_zero₃, decodeGroups_bytes, group_append_inj, decode_shift post x hlen,
      odd_eq_iff, lost_within rfl (by simp) (List.cons_ne_nil _ _), List.forall_mem_cons]
    constructor
    · intro heq
      obtain ⟨⟨_, _, hodd, rfl⟩, hall⟩ := heq
      exact ⟨⟨rfl, hall⟩, hodd⟩
    · intro hlost
      obtain ⟨⟨rfl, hall⟩, hodd⟩ := hlost
      exact ⟨⟨rfl, rfl, hodd, rfl⟩, hall⟩
  | [p], [], h | [p], [_], h | [p], [_, _], h | [p, q], [], h | [p, q], [_], h | [p, q, r], [], h =>
    absurd h (by simp)

/-! ## 4. Any text -/

/-- Three bytes for a group, and one byte less than digits for what is left. -/
theorem decodeGroups_length : ∀ ds : List UInt8,
    (decodeGroups ds).length = ds.length / 4 * 3 + (ds.length % 4 - 1)
  | [] | [_] | [_, _] | [_, _, _] => by simp [decodeGroups, decodeDigits, decodeblock]
  | d0 :: d1 :: d2 :: d3 :: ds => by
    have ih := decodeGroups_length ds
    show (decodeDigits [d0, d1, d2, d3] ++ decodeGroups ds).length = _
    have hgroup : (decodeDigits [d0, d1, d2, d3]).length = 3 := rfl
    rw [List.length_append, hgroup, ih]
    simp only [List.length_cons]
    omega

/-- What the decoder keeps: the digits, and the zero bytes. -/
theorem digits_length (w : Bytes) :
    (digits w).length = (alphabetDigits w).length + w.count 0 := by
  induction w with
  | nil => rfl
  | cons c w ih =>
    unfold digits alphabetDigits at ih ⊢
    rw [List.filterMap_cons, List.filterMap_cons, base64Index_eq]
    by_cases hc : c = 0
    · subst hc
      have hdigit : digit? 0 = none := by decide
      rw [if_pos rfl, hdigit, List.count_cons_self]
      simp only [List.length_cons]
      omega
    · rw [if_neg hc, List.count_cons_of_ne hc]
      cases digit? c with
      | none => exact ih
      | some d =>
        simp only [Option.map_some, List.length_cons]
        omega

/-- No zero byte, or one that is lost among whole groups of digits. -/
def ZerosLost (w : Bytes) : Prop :=
  0 ∉ w ∨ ∃ pre post, w = pre ++ 0 :: post ∧ 0 ∉ pre ∧ 0 ∉ post ∧
    (alphabetDigits w).length % 4 = 0 ∧ Lost (alphabetDigits pre) (alphabetDigits post)

/-- A text with one zero byte. -/
theorem digits_one_zero {pre post : Bytes} (hpre : 0 ∉ pre) (hpost : 0 ∉ post) :
    digits (pre ++ 0 :: post) = (alphabetDigits pre).map Digit.byte
      ++ 64 :: (alphabetDigits post).map Digit.byte := by
  rw [digits_append, digits_of_no_zero hpre, ← digits_of_no_zero hpost]
  rfl

theorem alphabetDigits_one_zero (pre post : Bytes) :
    alphabetDigits (pre ++ 0 :: post) = alphabetDigits pre ++ alphabetDigits post :=
  List.filterMap_append

/-- The groups of a text are those of its digits exactly if it has no zero byte that counts. -/
theorem decodeGroups_digits_iff (w : Bytes) :
    decodeGroups (digits w) = decode (alphabetDigits w) ↔ ZerosLost w := by
  constructor
  · intro h
    -- a zero byte in excess makes the output longer, but for one behind whole groups
    have hlen := congrArg List.length h
    rw [← decodeGroups_bytes, decodeGroups_length, decodeGroups_length, digits_length,
      List.length_map] at hlen
    by_cases hzero : 0 ∈ w
    swap
    · exact .inl hzero
    have hcount := List.count_pos_iff.mpr hzero
    obtain ⟨pre, post, rfl, hpre⟩ := List.eq_append_cons_of_mem hzero
    have hcounts : (pre ++ 0 :: post).count 0 = post.count 0 + 1 := by
      rw [List.count_append, List.count_eq_zero_of_not_mem hpre, List.count_cons_self,
        Nat.zero_add]
    have hpost : 0 ∉ post := List.count_eq_zero.mp (by omega)
    have hgroups : (alphabetDigits (pre ++ 0 :: post)).length % 4 = 0 := by omega
    refine .inr ⟨pre, post, rfl, hpre, hpost, hgroups, ?_⟩
    rw [digits_one_zero hpre hpost, alphabetDigits_one_zero] at h
    rw [alphabetDigits_one_zero, List.length_append] at hgroups
    exact (decodeGroups_zero _ _ hgroups).mp h
  · intro h
    rcases h with hzero | ⟨pre, post, rfl, hpre, hpost, hgroups, hlost⟩
    · rw [digits_of_no_zero hzero, decodeGroups_bytes]
    · rw [alphabetDigits_one_zero, List.length_append] at hgroups
      rw [digits_one_zero hpre hpost, alphabetDigits_one_zero]
      exact (decodeGroups_zero _ _ hgroups).mpr hlost

theorem base64Decode_eq (w outbuf : Bytes) :
    base64Decode w outbuf = some ([], outbuf ++ decodeGroups (digits w)) :=
  base64DecodeLoop_groups w.length w outbuf (Nat.le_refl _)

/-- **A text is decoded like its bytes of the alphabet, and as the standard says, exactly if it has
    no zero byte that counts.** -/
theorem base64Decode_standard_iff (w outbuf : Bytes) :
    (base64Decode w outbuf = base64Decode (alphabetOnly w) outbuf ∧
      base64Decode w outbuf = some ([], outbuf ++ decode (alphabetDigits w))) ↔ ZerosLost w := by
  have honly : digits (alphabetOnly w) = (alphabetDigits w).map Digit.byte := by
    rw [digits_of_no_zero (no_zero_alphabetOnly w), alphabetDigits_only]
  rw [base64Decode_eq, base64Decode_eq, honly, decodeGroups_bytes, and_self,
    ← decodeGroups_digits_iff]
  constructor
  · intro h
    exact List.append_cancel_left (Prod.mk.inj (Option.some.inj h)).2
  · intro h
    rw [h]

/-- A zero byte between two digits makes one byte more. -/
theorem base64Decode_zero_kept : base64Decode [Char.byte 'Q', 0, Char.byte 'Q'] []
    ≠ base64Decode (alphabetOnly [Char.byte 'Q', 0, Char.byte 'Q']) [] := by
  decide

end ArgusPep
