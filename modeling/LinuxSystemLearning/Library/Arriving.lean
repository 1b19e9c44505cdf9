import LinuxSystemLearning.Library.Incremental

/-!
# Frames on their way

What has arrived of a stream of frames at some moment: the first of them whole, and the
beginning of the next one.
-/

set_option autoImplicit false

namespace LinuxSystemLearning.Incremental

universe u v w x

variable {α : Type u} {β : Type v} {γ : Type w} {ε : Type x}

/-- The frames of the first `n` items have arrived, and `left` of the next one. -/
structure Arrived (encode : β → List α) (items : List β) (bytes : List α) (n : Nat)
    (left : List α) : Prop where
  within : n ≤ items.length
  bytes : bytes = ((items.take n).map encode).flatten ++ left
  begun : ∀ item, items[n]? = some item → left <+: encode item ∧ left ≠ encode item
  ended : n = items.length → left = []

variable {encode : β → List α} {items : List β} {bytes left : List α} {n : Nat}

theorem Arrived.cons {item : β} (arrived : Arrived encode items bytes n left) :
    Arrived encode (item :: items) (encode item ++ bytes) (n + 1) left where
  within := Nat.succ_le_succ arrived.within
  bytes := by
    rw [arrived.bytes, List.take_succ_cons, List.map_cons, List.flatten_cons, List.append_assoc]
  begun := arrived.begun
  ended all := arrived.ended (Nat.succ.inj all)

theorem Arrived.map {δ : Type x} {f : δ → β} {origins : List δ}
    (arrived : Arrived encode (origins.map f) bytes n left) :
    Arrived (fun origin => encode (f origin)) origins bytes n left where
  within := List.length_map f ▸ arrived.within
  bytes := by
    rw [arrived.bytes, ← List.map_take, List.map_map]
    rfl
  begun origin here := arrived.begun (f origin) (by rw [List.getElem?_map, here, Option.map_some])
  ended all := arrived.ended (all.trans (List.length_map f).symm)

/-! ## What a receiver makes of it -/

variable {decoder : Decoder α β ε} {serve : β → Except ε (List γ)} {reply : β → List γ}

theorem SelfDelimiting.take (framed : SelfDelimiting decoder serve encode reply items) (n : Nat) :
    SelfDelimiting decoder serve encode reply (items.take n) where
  taken item member := framed.taken item (List.mem_of_mem_take member)
  served item member := framed.served item (List.mem_of_mem_take member)

theorem Arrived.stalled (arrived : Arrived encode items bytes n left)
    (framed : SelfDelimiting decoder serve encode reply items) :
    decoder.decode left = .stall := by
  cases here : items[n]? with
  | none =>
      have all : n = items.length :=
        Nat.le_antisymm arrived.within (List.getElem?_eq_none_iff.mp here)
      rw [arrived.ended all]
      exact decoder.stall_nil
  | some item =>
      obtain ⟨begun, notWhole⟩ := arrived.begun item here
      exact framed.stalled_of_begun (List.mem_of_getElem? here) begun notWhole

/-- A receiver has handed out the items whose frames have arrived and keeps the beginning of
the next one, however the bytes were cut. -/
theorem Arrived.feed (arrived : Arrived encode items bytes n left)
    (framed : SelfDelimiting decoder serve encode reply items) {chunks : List (List α)}
    (cut : chunks.flatten = bytes) :
    chunks.foldl (Session.feed decoder.decode serve) .start =
      ⟨bytes, left, items.take n, ((items.take n).map reply).flatten, true⟩ := by
  have fed := (framed.take n).feed_append _ (arrived.stalled framed) chunks
    (cut.trans arrived.bytes)
  rw [fed, cut]

end LinuxSystemLearning.Incremental
