import Mowang.Base.Codec

/-!
# `Base.PrefixFree` — encodings that end where they end

An encoding is prefix-free on some values if what stands behind the encoding of one of them cannot be taken for a part of
it. Then the encoded values and the rest can both be told from a text.

## Contents
- `PrefixFree`; `PrefixFree.of_length`, `PrefixFree.flatMap`, `PrefixFree.counted`.
-/

variable {V W : Type} {α : Type}

/-- The value and the rest can be told from a text. -/
def PrefixFree (enc : V → List α) (P : V → Prop) : Prop :=
  ∀ ⦃v w : V⦄ ⦃s t : List α⦄, P v → P w → enc v ++ s = enc w ++ t → v = w ∧ s = t

namespace PrefixFree

/-- Encodings of one length. -/
theorem of_length {enc : V → List α} {P : V → Prop} {len : Nat} (hlen : ∀ v, P v → (enc v).length = len)
    (hinj : ∀ v w, P v → P w → enc v = enc w → v = w) : PrefixFree enc P := by
  intro v w s t hv hw h
  obtain ⟨henc, hrest⟩ := List.append_inj h ((hlen v hv).trans (hlen w hw).symm)
  exact ⟨hinj v w hv hw henc, hrest⟩

/-- Lists that go through the same types. -/
theorem flatMap {enc : V → List α} {T : V → W} {P : V → Prop} (h : ∀ x, PrefixFree enc fun v => T v = x ∧ P v)
    {vs ws : List V} (hvs : ∀ v ∈ vs, P v) (hws : ∀ w ∈ ws, P w) (htypes : vs.map T = ws.map T) {s t : List α}
    (heq : vs.flatMap enc ++ s = ws.flatMap enc ++ t) : vs = ws ∧ s = t := by
  induction vs generalizing ws with
  | nil =>
      obtain rfl := List.map_eq_nil_iff.mp htypes.symm
      exact ⟨rfl, heq⟩
  | cons v vs ih =>
      obtain ⟨w, ws, rfl, htype, hrestType⟩ := List.map_eq_cons_iff.mp htypes.symm
      rw [List.flatMap_cons, List.flatMap_cons, List.append_assoc, List.append_assoc] at heq
      obtain ⟨hv, hvs⟩ := List.forall_mem_cons.mp hvs
      obtain ⟨hw, hrest⟩ := List.forall_mem_cons.mp hws
      obtain ⟨rfl, hmore⟩ := h (T v) ⟨rfl, hv⟩ ⟨htype, hw⟩ heq
      obtain ⟨rfl, hst⟩ := ih hvs hrest hrestType.symm hmore
      exact ⟨rfl, hst⟩

/-- Lists of elements that are told from each other, of the same length. -/
theorem flatMap_of_length {enc : V → List α} {P : V → Prop} (h : PrefixFree enc P) {vs ws : List V}
    (hvs : ∀ v ∈ vs, P v) (hws : ∀ w ∈ ws, P w) (hlen : vs.length = ws.length) {s t : List α}
    (heq : vs.flatMap enc ++ s = ws.flatMap enc ++ t) : vs = ws ∧ s = t := by
  induction vs generalizing ws with
  | nil =>
      obtain rfl := List.length_eq_zero_iff.mp hlen.symm
      exact ⟨rfl, heq⟩
  | cons v vs ih =>
      obtain ⟨w, ws, rfl⟩ := List.exists_cons_of_length_eq_add_one hlen.symm
      rw [List.flatMap_cons, List.flatMap_cons, List.append_assoc, List.append_assoc] at heq
      obtain ⟨hv, hvs⟩ := List.forall_mem_cons.mp hvs
      obtain ⟨hw, hrest⟩ := List.forall_mem_cons.mp hws
      obtain ⟨rfl, hmore⟩ := h hv hw heq
      obtain ⟨rfl, hst⟩ := ih hvs hrest (Nat.succ_inj.mp hlen) hmore
      exact ⟨rfl, hst⟩

/-- A count in front of elements that are told from each other. -/
theorem counted {enc : V → List UInt8} {P : V → Prop} (h : PrefixFree enc P) :
    PrefixFree (Block.counted enc) fun vs => vs.length < 65536 ∧ ∀ v ∈ vs, P v := by
  rintro vs ws s t ⟨hvlen, hvs⟩ ⟨hwlen, hws⟩ heq
  rw [Block.counted, Block.counted, List.append_assoc, List.append_assoc] at heq
  obtain ⟨hcount, heq⟩ := List.append_inj heq (by rw [LittleEndian.leBytes_length, LittleEndian.leBytes_length])
  have hlen := congrArg LittleEndian.ofLe hcount
  rw [LittleEndian.ofLe_leBytes_of_lt hvlen, LittleEndian.ofLe_leBytes_of_lt hwlen] at hlen
  exact h.flatMap_of_length hvs hws hlen heq

end PrefixFree
