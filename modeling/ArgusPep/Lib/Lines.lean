/-
  File:      ArgusPep/Lib/Lines.lean
  Subject:   Texts in lines that CR LF ends.

  * `joinLines`, `splitLines`, `withoutBreaks` -- a text from its lines, its lines, and the text
    with each CR LF removed;
  * `cutLines` -- blocks put on lines: a line ends behind the block that brings it to a length, and
    at the end;
  * `cutLines_flatten` -- the lines are the blocks, in their order;
  * `cutLines_bounded_iff` -- blocks of one size stay within the length exactly if it is a multiple
    of their size, or all of them fit on one line.
-/
import Mathlib.Logic.Basic

namespace Lib.Lines

/-! ## 1. Lines -/

def CR : UInt8 := 13
def LF : UInt8 := 10

def crlf : List UInt8 := [CR, LF]

def joinLines (lines : List (List UInt8)) : List UInt8 := lines.flatMap (· ++ crlf)

/-- The lines that are ended, and what is left behind them; `line` is the start of the first. -/
def splitLines (line : List UInt8) : List UInt8 → List (List UInt8) × List UInt8
  | [] => ([], line)
  | [c] => ([], line ++ [c])
  | c :: d :: w =>
    if c = CR ∧ d = LF then
      let (lines, left) := splitLines [] w
      (line :: lines, left)
    else splitLines (line ++ [c]) (d :: w)

def withoutBreaks : List UInt8 → List UInt8
  | [] => []
  | [c] => [c]
  | c :: d :: w => if c = CR ∧ d = LF then withoutBreaks w else c :: withoutBreaks (d :: w)

theorem splitLines_cons {c : UInt8} (h : c ≠ CR) (line w : List UInt8) :
    splitLines line (c :: w) = splitLines (line ++ [c]) w := by
  cases w with
  | nil => rw [splitLines, splitLines]
  | cons d w => rw [splitLines, if_neg fun hc => h hc.1]

theorem withoutBreaks_cons {c : UInt8} (h : c ≠ CR) (w : List UInt8) :
    withoutBreaks (c :: w) = c :: withoutBreaks w := by
  cases w with
  | nil => rw [withoutBreaks, withoutBreaks]
  | cons d w => rw [withoutBreaks, if_neg fun hc => h hc.1]

/-- A line without CR in front of a text. -/
theorem splitLines_line {l : List UInt8} (h : CR ∉ l) (line w : List UInt8) :
    splitLines line (l ++ crlf ++ w)
      = ((line ++ l) :: (splitLines [] w).1, (splitLines [] w).2) := by
  induction l generalizing line with
  | nil =>
    show splitLines line (CR :: LF :: w) = _
    rw [splitLines, if_pos ⟨rfl, rfl⟩, List.append_nil]
  | cons c l ih =>
    rw [List.mem_cons, not_or] at h
    rw [List.cons_append, List.cons_append, splitLines_cons (Ne.symm h.1), ih h.2,
      List.append_assoc, List.singleton_append]

theorem withoutBreaks_line {l : List UInt8} (h : CR ∉ l) (w : List UInt8) :
    withoutBreaks (l ++ crlf ++ w) = l ++ withoutBreaks w := by
  induction l with
  | nil =>
    show withoutBreaks (CR :: LF :: w) = _
    rw [withoutBreaks, if_pos ⟨rfl, rfl⟩]
    rfl
  | cons c l ih =>
    rw [List.mem_cons, not_or] at h
    rw [List.cons_append, List.cons_append, withoutBreaks_cons (Ne.symm h.1), ih h.2]
    rfl

/-- Lines without CR are the lines of the text put together from them, and nothing is left. -/
theorem splitLines_join {lines : List (List UInt8)} (h : ∀ l ∈ lines, CR ∉ l) :
    splitLines [] (joinLines lines) = (lines, []) := by
  induction lines with
  | nil => rfl
  | cons l lines ih =>
    obtain ⟨hl, h⟩ := List.forall_mem_cons.mp h
    show splitLines [] (l ++ crlf ++ joinLines lines) = _
    rw [splitLines_line hl, ih h]
    rfl

theorem withoutBreaks_join {lines : List (List UInt8)} (h : ∀ l ∈ lines, CR ∉ l) :
    withoutBreaks (joinLines lines) = lines.flatten := by
  induction lines with
  | nil => rfl
  | cons l lines ih =>
    obtain ⟨hl, h⟩ := List.forall_mem_cons.mp h
    show withoutBreaks (l ++ crlf ++ joinLines lines) = _
    rw [withoutBreaks_line hl, ih h]
    rfl

/-! ## 2. Blocks on lines -/

/-- The blocks, behind what is on the line already. -/
def cutLines (size : Nat) (line : List UInt8) : List (List UInt8) → List (List UInt8)
  | [] => []
  | block :: blocks =>
    if (line ++ block).length ≥ size ∨ blocks = [] then
      (line ++ block) :: cutLines size [] blocks
    else cutLines size (line ++ block) blocks

variable {size k : Nat}

/-- The lines are the blocks, in their order. -/
theorem cutLines_flatten (size : Nat) : ∀ (blocks : List (List UInt8)) (line : List UInt8),
    blocks ≠ [] ∨ line = [] → (cutLines size line blocks).flatten = line ++ blocks.flatten
  | [], line, h => by
    rw [h.resolve_left fun h => h rfl]
    rfl
  | block :: blocks, line, _ => by
    rw [cutLines]
    split
    · rw [List.flatten_cons, cutLines_flatten size blocks [] (.inr rfl), List.nil_append,
        List.append_assoc, List.flatten_cons]
    · rename_i h
      rw [cutLines_flatten size blocks (line ++ block) (.inl fun e => h (.inr e)),
        List.append_assoc, List.flatten_cons]

theorem flatten_length_of_size {blocks : List (List UInt8)} (h : ∀ b ∈ blocks, b.length = k) :
    blocks.flatten.length = k * blocks.length := by
  induction blocks with
  | nil => rfl
  | cons b blocks ih =>
    obtain ⟨hb, h⟩ := List.forall_mem_cons.mp h
    rw [List.flatten_cons, List.length_append, ih h, hb, List.length_cons, Nat.mul_succ,
      Nat.add_comm]

/-- Where the length is a multiple of the block's, no line is longer. -/
theorem cutLines_le_of_dvd (hdvd : k ∣ size) (hpos : 0 < size) :
    ∀ (blocks : List (List UInt8)) (line : List UInt8), (∀ b ∈ blocks, b.length = k) →
      k ∣ line.length → line.length < size → ∀ l ∈ cutLines size line blocks, l.length ≤ size
  | [], _, _, _, _ => fun _ h => absurd h List.not_mem_nil
  | block :: blocks, line, hblocks, hline, hlt => by
    obtain ⟨hblock, hblocks⟩ := List.forall_mem_cons.mp hblocks
    have hnext : k ∣ (line ++ block).length := by
      rw [List.length_append, hblock]
      exact Nat.dvd_add hline (Nat.dvd_refl k)
    have hfits : (line ++ block).length ≤ size := by
      obtain ⟨i, hi⟩ := hline
      obtain ⟨j, rfl⟩ := hdvd
      rw [hi] at hlt
      rw [List.length_append, hblock, hi, ← Nat.mul_succ]
      exact Nat.mul_le_mul_left k (Nat.lt_of_mul_lt_mul_left hlt)
    rw [cutLines]
    split
    · intro l hl
      rcases List.mem_cons.mp hl with rfl | hl
      · exact hfits
      · exact cutLines_le_of_dvd hdvd hpos blocks [] hblocks (Nat.dvd_zero k) hpos l hl
    · rename_i h
      exact cutLines_le_of_dvd hdvd hpos blocks (line ++ block) hblocks hnext
        (Nat.lt_of_not_le fun hle => h (.inl hle))

/-- Where it is none, blocks that do not fit on one line make a longer one. -/
theorem exists_long_line (hdvd : ¬ k ∣ size) :
    ∀ (blocks : List (List UInt8)) (line : List UInt8), (∀ b ∈ blocks, b.length = k) →
      k ∣ line.length → blocks ≠ [] → size < line.length + k * blocks.length →
      ∃ l ∈ cutLines size line blocks, size < l.length
  | [], _, _, _, h, _ => absurd rfl h
  | block :: blocks, line, hblocks, hline, _, hlong => by
    obtain ⟨hblock, hblocks⟩ := List.forall_mem_cons.mp hblocks
    have hlength : (line ++ block).length = line.length + k := by
      rw [List.length_append, hblock]
    have hnext : k ∣ (line ++ block).length := by
      rw [hlength]
      exact Nat.dvd_add hline (Nat.dvd_refl k)
    rw [List.length_cons, Nat.mul_succ] at hlong
    rw [cutLines]
    split
    · rename_i h
      refine ⟨line ++ block, List.mem_cons_self, ?_⟩
      rcases h with hge | rfl
      · exact Nat.lt_of_le_of_ne hge fun e => hdvd (e ▸ hnext)
      · rw [List.length_nil, Nat.mul_zero] at hlong
        omega
    · rename_i h
      exact exists_long_line hdvd blocks (line ++ block) hblocks hnext (fun e => h (.inr e))
        (by omega)

/-- **Blocks of one size stay within a length exactly if it is a multiple of their size, or all of
    them fit on one line.** -/
theorem cutLines_bounded_iff (hsize : 0 < size) {blocks : List (List UInt8)}
    (hblocks : ∀ b ∈ blocks, b.length = k) :
    (∀ l ∈ cutLines size [] blocks, l.length ≤ size) ↔ k ∣ size ∨ k * blocks.length ≤ size := by
  constructor
  · intro h
    by_cases hdvd : k ∣ size
    · exact .inl hdvd
    refine .inr (Nat.le_of_not_lt fun hlt => ?_)
    have hne : blocks ≠ [] := by
      intro e
      obtain rfl := e
      exact Nat.not_lt_zero _ hlt
    obtain ⟨l, hl, hlong⟩ := exists_long_line hdvd blocks [] hblocks (Nat.dvd_zero k) hne
      (by rwa [List.length_nil, Nat.zero_add])
    exact absurd (h l hl) (Nat.not_le_of_lt hlong)
  · intro h l hl
    rcases h with hdvd | hfit
    · exact cutLines_le_of_dvd hdvd hsize blocks [] hblocks (Nat.dvd_zero k) hsize l hl
    · have hflat := cutLines_flatten size blocks [] (.inr rfl)
      have hle := (List.sublist_flatten_of_mem hl).length_le
      rw [hflat, List.nil_append, flatten_length_of_size hblocks] at hle
      exact Nat.le_trans hle hfit

end Lib.Lines
