/-
  File:      ArgusPep/Lib/Utf8.lean
  Subject:   The shape of UTF-8: one lead byte a character, and continuation bytes behind it.

  * `Cont`, `trail` -- the continuation bytes, and how many of them a lead byte announces;
  * `Sequence` -- the bytes of one character: a lead byte and its continuation bytes;
  * `encode`, `ascii` -- the bytes of a text; the text of bytes below `0x80`;
  * `leads`, `dropChars` -- how many bytes are not continuation bytes: the characters of a text;
    and what is left of it behind some of them;
  * `and_C0_eq_80`, … -- the bit masks by which programs tell lead bytes apart, as ranges.
-/
import Mathlib.Algebra.Group.Nat.Defs

namespace Lib.Utf8

/-! ## 1. One character -/

/-- A continuation byte, `10xxxxxx`. -/
def Cont (b : UInt8) : Prop := 0x80 ≤ b.toNat ∧ b.toNat < 0xC0

instance (b : UInt8) : Decidable (Cont b) := inferInstanceAs (Decidable (_ ∧ _))

/-- The number of continuation bytes a lead byte announces. -/
def trail (lead : UInt8) : Nat :=
  if lead.toNat < 0xC0 then 0
  else if lead.toNat < 0xE0 then 1
  else if lead.toNat < 0xF0 then 2
  else 3

/-- The bytes of the character `c`: a lead byte and the continuation bytes it announces. -/
structure Sequence (c : Char) (lead : UInt8) (tail : List UInt8) : Prop where
  bytes : String.utf8EncodeChar c = lead :: tail
  lead_not_cont : ¬ Cont lead
  lead_lt : lead.toNat < 0xF8
  tail_cont : ∀ b ∈ tail, Cont b
  tail_length : tail.length = trail lead
  /-- The lead bytes `0xD0` to `0xDF` are those of U+0400 to U+07FF. -/
  upper_two_byte : 0xD0 ≤ lead.toNat ∧ lead.toNat < 0xE0 ↔ 0x400 ≤ c.toNat ∧ c.toNat < 0x800

private theorem cont_ofNat (v : Nat) : Cont (UInt8.ofNat (v % 0x40 + 0x80)) := by
  unfold Cont
  rw [UInt8.toNat_ofNat']
  omega

theorem exists_sequence (c : Char) : ∃ lead tail, Sequence c lead tail := by
  have hc : c.toNat = c.val.toNat := rfl
  by_cases h1 : c.val.toNat ≤ 0x7F
  · refine ⟨.ofNat c.val.toNat, [], ⟨?_, ?_, ?_, ?_, ?_, ?_⟩⟩
    · simp only [String.utf8EncodeChar, h1, if_true]
    all_goals simp only [Cont, trail, UInt8.toNat_ofNat', List.length_nil, List.not_mem_nil]
    · omega
    · omega
    · exact nofun
    · rw [if_pos (by omega)]
    · omega
  by_cases h2 : c.val.toNat ≤ 0x7FF
  · refine ⟨.ofNat (c.val.toNat / 64 % 0x20 + 0xc0), [.ofNat (c.val.toNat % 0x40 + 0x80)],
      ⟨?_, ?_, ?_, ?_, ?_, ?_⟩⟩
    · simp only [String.utf8EncodeChar, h1, h2, if_true, if_false]
    · simp only [Cont, UInt8.toNat_ofNat']; omega
    · simp only [UInt8.toNat_ofNat']; omega
    · simp only [List.mem_singleton, forall_eq]; exact cont_ofNat _
    · simp only [trail, UInt8.toNat_ofNat', List.length_singleton]
      rw [if_neg (by omega), if_pos (by omega)]
    · simp only [UInt8.toNat_ofNat']; omega
  by_cases h3 : c.val.toNat ≤ 0xFFFF
  · refine ⟨.ofNat (c.val.toNat / 4096 % 0x10 + 0xe0),
      [.ofNat (c.val.toNat / 64 % 0x40 + 0x80), .ofNat (c.val.toNat % 0x40 + 0x80)],
      ⟨?_, ?_, ?_, ?_, ?_, ?_⟩⟩
    · simp only [String.utf8EncodeChar, h1, h2, h3, if_true, if_false]
    · simp only [Cont, UInt8.toNat_ofNat']; omega
    · simp only [UInt8.toNat_ofNat']; omega
    · simp only [List.mem_cons, List.not_mem_nil, or_false, forall_eq_or_imp, forall_eq]
      exact ⟨cont_ofNat _, cont_ofNat _⟩
    · simp only [trail, UInt8.toNat_ofNat', List.length_cons, List.length_nil]
      rw [if_neg (by omega), if_neg (by omega), if_pos (by omega)]
    · simp only [UInt8.toNat_ofNat']; omega
  · refine ⟨.ofNat (c.val.toNat / 262144 % 0x08 + 0xf0),
      [.ofNat (c.val.toNat / 4096 % 0x40 + 0x80), .ofNat (c.val.toNat / 64 % 0x40 + 0x80),
        .ofNat (c.val.toNat % 0x40 + 0x80)], ⟨?_, ?_, ?_, ?_, ?_, ?_⟩⟩
    · simp only [String.utf8EncodeChar, h1, h2, h3, if_false]
    · simp only [Cont, UInt8.toNat_ofNat']; omega
    · simp only [UInt8.toNat_ofNat']; omega
    · simp only [List.mem_cons, List.not_mem_nil, or_false, forall_eq_or_imp, forall_eq]
      exact ⟨cont_ofNat _, cont_ofNat _, cont_ofNat _⟩
    · simp only [trail, UInt8.toNat_ofNat', List.length_cons, List.length_nil]
      rw [if_neg (by omega), if_neg (by omega), if_neg (by omega)]
    · simp only [UInt8.toNat_ofNat']; omega

/-! ## 2. A text -/

/-- The bytes of a text. -/
def encode (cs : List Char) : List UInt8 := cs.flatMap String.utf8EncodeChar

@[simp] theorem encode_nil : encode [] = [] := rfl

theorem encode_cons (c : Char) (cs : List Char) :
    encode (c :: cs) = String.utf8EncodeChar c ++ encode cs := List.flatMap_cons

theorem encode_append (cs ds : List Char) : encode (cs ++ ds) = encode cs ++ encode ds :=
  List.flatMap_append

theorem Sequence.encode_cons {c : Char} {lead : UInt8} {tail : List UInt8}
    (h : Sequence c lead tail) (cs : List Char) :
    encode (c :: cs) = lead :: (tail ++ encode cs) := by
  rw [Utf8.encode_cons, h.bytes, List.cons_append]

/-- The bytes `0xF8` to `0xFF` occur in no text. -/
theorem lt_of_mem_encode : ∀ {cs : List Char} {b : UInt8}, b ∈ encode cs → b.toNat < 0xF8
  | [], _, h => nomatch h
  | c :: cs, b, h => by
    obtain ⟨lead, tail, hc⟩ := exists_sequence c
    rw [hc.encode_cons] at h
    rcases List.mem_cons.mp h with rfl | h
    · exact hc.lead_lt
    rcases List.mem_append.mp h with h | h
    · have := (hc.tail_cont b h).2
      omega
    · exact lt_of_mem_encode h

/-- A character has at most four bytes. -/
theorem length_encode_le : ∀ cs : List Char, (encode cs).length ≤ 4 * cs.length
  | [] => Nat.le_refl _
  | c :: cs => by
    obtain ⟨lead, tail, hc⟩ := exists_sequence c
    have ih := length_encode_le cs
    have htail : tail.length ≤ 3 := by
      rw [hc.tail_length]
      unfold trail
      split
      · omega
      · split
        · omega
        · split <;> omega
    rw [hc.encode_cons, List.length_cons, List.length_append, List.length_cons]
    omega

theorem encode_ne_nil {cs : List Char} (h : cs ≠ []) : encode cs ≠ [] := by
  cases cs with
  | nil => exact absurd rfl h
  | cons c cs =>
    obtain ⟨lead, tail, hc⟩ := exists_sequence c
    rw [hc.encode_cons]
    exact List.cons_ne_nil _ _

/-- The characters whose codes are the bytes. -/
def ascii (bs : List UInt8) : List Char := bs.map fun b => Char.ofNat b.toNat

theorem toNat_ascii {b : UInt8} (h : b.toNat < 0x80) : (Char.ofNat b.toNat).toNat = b.toNat := by
  have hvalid : b.toNat.isValidChar := .inl (by omega)
  unfold Char.ofNat
  rw [dif_pos hvalid]
  rfl

/-- Bytes below `0x80` are a text of as many characters. -/
theorem encode_ascii : ∀ {bs : List UInt8}, (∀ b ∈ bs, b.toNat < 0x80) → encode (ascii bs) = bs
  | [], _ => rfl
  | b :: bs, h => by
    have hb := h b List.mem_cons_self
    have hval : (Char.ofNat b.toNat).val.toNat = b.toNat := toNat_ascii hb
    have hle : b.toNat ≤ 0x7F := by omega
    have hchar : String.utf8EncodeChar (Char.ofNat b.toNat) = [b] := by
      simp only [String.utf8EncodeChar, hval, hle, if_true, UInt8.ofNat_toNat]
    unfold ascii
    rw [List.map_cons, encode_cons, hchar]
    exact congrArg (b :: ·) (encode_ascii fun d hd => h d (List.mem_cons_of_mem _ hd))

/-! ## 3. Counting characters -/

/-- How many bytes are not continuation bytes. -/
def leads : List UInt8 → Nat
  | [] => 0
  | b :: bs => if Cont b then leads bs else leads bs + 1

@[simp] theorem leads_nil : leads [] = 0 := rfl

theorem leads_append : ∀ bs ds : List UInt8, leads (bs ++ ds) = leads bs + leads ds
  | [], ds => by rw [List.nil_append, leads_nil, Nat.zero_add]
  | b :: bs, ds => by
    simp only [List.cons_append, leads, leads_append bs ds]
    split <;> omega

theorem leads_cont : ∀ {bs : List UInt8}, (∀ b ∈ bs, Cont b) → leads bs = 0
  | [], _ => rfl
  | b :: bs, h => by
    rw [leads, if_pos (h b List.mem_cons_self)]
    exact leads_cont fun d hd => h d (List.mem_cons_of_mem _ hd)

theorem leads_le_length : ∀ bs : List UInt8, leads bs ≤ bs.length
  | [] => Nat.le_refl _
  | b :: bs => by
    have := leads_le_length bs
    simp only [leads, List.length_cons]
    split <;> omega

theorem leads_replicate {b : UInt8} (h : ¬ Cont b) : ∀ n, leads (List.replicate n b) = n
  | 0 => rfl
  | n + 1 => by rw [List.replicate_succ, leads, if_neg h, leads_replicate h n]

/-- A text has one lead byte a character. -/
theorem leads_encode : ∀ cs : List Char, leads (encode cs) = cs.length
  | [] => rfl
  | c :: cs => by
    obtain ⟨lead, tail, hc⟩ := exists_sequence c
    rw [hc.encode_cons, leads, if_neg hc.lead_not_cont, leads_append, leads_cont hc.tail_cont,
      leads_encode cs, List.length_cons, Nat.zero_add]

/-- What is left of a text behind `n` characters. -/
def dropChars : (n : Nat) → List UInt8 → List UInt8
  | _, [] => []
  | 0, b :: bs => if Cont b then dropChars 0 bs else b :: bs
  | n + 1, b :: bs => if Cont b then dropChars (n + 1) bs else dropChars n bs

theorem dropChars_cont (n : Nat) (ds : List UInt8) : ∀ {bs : List UInt8}, (∀ b ∈ bs, Cont b) →
    dropChars n (bs ++ ds) = dropChars n ds
  | [], _ => rfl
  | b :: bs, h => by
    have ih := dropChars_cont n ds fun d hd => h d (List.mem_cons_of_mem b hd)
    cases n with
    | zero => rw [List.cons_append, dropChars, if_pos (h b List.mem_cons_self), ih]
    | succ n => rw [List.cons_append, dropChars, if_pos (h b List.mem_cons_self), ih]

theorem dropChars_encode : ∀ (n : Nat) (cs : List Char),
    dropChars n (encode cs) = encode (cs.drop n)
  | 0, [] => rfl
  | _ + 1, [] => rfl
  | 0, c :: cs => by
    obtain ⟨lead, tail, hc⟩ := exists_sequence c
    rw [List.drop_zero, hc.encode_cons, dropChars, if_neg hc.lead_not_cont]
  | n + 1, c :: cs => by
    obtain ⟨lead, tail, hc⟩ := exists_sequence c
    rw [hc.encode_cons, dropChars, if_neg hc.lead_not_cont, dropChars_cont n _ hc.tail_cont,
      dropChars_encode n cs, List.drop_succ_cons]

/-! ## 4. Masks -/

/-- A fact about bytes, checked on all of them. -/
theorem forall_byte {P : UInt8 → Prop} (h : ∀ n < 256, P (UInt8.ofNat n)) (b : UInt8) :
    P b := by
  have hb := h b.toNat b.toNat_lt
  rwa [UInt8.ofNat_toNat] at hb

theorem and_C0_eq_80 (b : UInt8) : b &&& 0xC0 = 0x80 ↔ Cont b :=
  forall_byte (P := fun b => b &&& 0xC0 = 0x80 ↔ Cont b) (by decide +kernel) b

theorem and_C0_eq_C0 (b : UInt8) : b &&& 0xC0 = 0xC0 ↔ 0xC0 ≤ b.toNat :=
  forall_byte (P := fun b => b &&& 0xC0 = 0xC0 ↔ 0xC0 ≤ b.toNat) (by decide +kernel) b

theorem and_E0_eq_C0 (b : UInt8) : b &&& 0xE0 = 0xC0 ↔ 0xC0 ≤ b.toNat ∧ b.toNat < 0xE0 :=
  forall_byte (P := fun b => b &&& 0xE0 = 0xC0 ↔ 0xC0 ≤ b.toNat ∧ b.toNat < 0xE0)
    (by decide +kernel) b

theorem and_F0_eq_C0 (b : UInt8) : b &&& 0xF0 = 0xC0 ↔ 0xC0 ≤ b.toNat ∧ b.toNat < 0xD0 :=
  forall_byte (P := fun b => b &&& 0xF0 = 0xC0 ↔ 0xC0 ≤ b.toNat ∧ b.toNat < 0xD0)
    (by decide +kernel) b

theorem and_F0_eq_E0 (b : UInt8) : b &&& 0xF0 = 0xE0 ↔ 0xE0 ≤ b.toNat ∧ b.toNat < 0xF0 :=
  forall_byte (P := fun b => b &&& 0xF0 = 0xE0 ↔ 0xE0 ≤ b.toNat ∧ b.toNat < 0xF0)
    (by decide +kernel) b

theorem and_F0_eq_F0 (b : UInt8) : b &&& 0xF0 = 0xF0 ↔ 0xF0 ≤ b.toNat :=
  forall_byte (P := fun b => b &&& 0xF0 = 0xF0 ↔ 0xF0 ≤ b.toNat) (by decide +kernel) b

/-- The tests by which a program passes over a byte and the bytes it announces: `f` gets the
    characters passed and the bytes. -/
theorem pass_lead {α : Type} (f : Nat → Nat → α) (n : Nat) (b : UInt8) :
    (if b &&& 0xC0 ≠ 0x80 then
      if b &&& 0xE0 = 0xC0 then f (n + 1) 2
      else if b &&& 0xF0 = 0xE0 then f (n + 1) 3
      else if b &&& 0xF0 = 0xF0 then f (n + 1) 4
      else f (n + 1) 1
    else f n 1) = f (n + (if Cont b then 0 else 1)) (1 + trail b) := by
  unfold trail
  by_cases hcont : Cont b
  · have hlt := hcont
    unfold Cont at hlt
    rw [if_neg (not_not_intro ((and_C0_eq_80 b).mpr hcont)), if_pos hlt.2, if_pos hcont]
    rfl
  have hC0 : b &&& 0xC0 ≠ 0x80 := fun e => hcont ((and_C0_eq_80 b).mp e)
  rw [if_pos hC0, if_neg hcont]
  unfold Cont at hcont
  by_cases h2 : b &&& 0xE0 = 0xC0
  · have := (and_E0_eq_C0 b).mp h2
    rw [if_pos h2, if_neg (by omega), if_pos this.2]
  have h2' := mt (and_E0_eq_C0 b).mpr h2
  by_cases h3 : b &&& 0xF0 = 0xE0
  · have := (and_F0_eq_E0 b).mp h3
    rw [if_neg h2, if_pos h3, if_neg (by omega), if_neg (by omega), if_pos this.2]
  have h3' := mt (and_F0_eq_E0 b).mpr h3
  by_cases h4 : b &&& 0xF0 = 0xF0
  · have := (and_F0_eq_F0 b).mp h4
    rw [if_neg h2, if_neg h3, if_pos h4, if_neg (by omega), if_neg (by omega), if_neg (by omega)]
  have h4' := mt (and_F0_eq_F0 b).mpr h4
  rw [if_neg h2, if_neg h3, if_neg h4, if_pos (by omega)]

end Lib.Utf8
