import Mowang.Base.Block
import Mowang.Base.LittleEndian
import Mathlib.Data.List.Induction
import Mathlib.Data.List.TakeWhile

/-!
# `Base.Codec` — sequential writers and readers over a block

A writer appends at an index and moves it, a reader reads at an index and moves it; both are `none` on
an access outside the block. `Emits w bs` says that `w` is the writer of exactly `bs`, in and out of
bounds. `Decodes b r enc fits den` says that `r` reads back exactly the encodings that lie wholly inside
`b`: it accepts nothing else (`sound`) and misses none of them (`complete`). Both compose along
sequences that carry their 16-bit element count in front (`counted`).

## Contents
- `Has` — a byte string stands at an offset; `writeBytes`, `readBlock`, `readCell`, `readU16`.
- `Emits`: `Emits.bind`, `emits_writeElems`, `emits_writeCounted`.
- `Decodes`, `Accumulates`: `Accumulates.foldlM`, `decodes_readBlock`, `decodes_readCell`, `Decodes.counted`.
-/

open LittleEndian

namespace Block

variable {α : Type} {n : Nat}

/-- `bs` stands at `off`. -/
def Has (b : Block α n) (off : Nat) (bs : List α) : Prop :=
  off + bs.length ≤ n ∧ b.slice off bs.length = bs

theorem has_nil {b : Block α n} {off : Nat} : b.Has off [] ↔ off ≤ n := by
  simp [Has]

theorem has_append {b : Block α n} {off : Nat} {xs ys : List α} :
    b.Has off (xs ++ ys) ↔ b.Has off xs ∧ b.Has (off + xs.length) ys := by
  unfold Has
  rw [List.length_append, slice_append]
  constructor
  · rintro ⟨hle, heq⟩
    have hlen : (b.slice off xs.length).length = xs.length := slice_length (by omega)
    obtain ⟨hx, hy⟩ := List.append_inj heq hlen
    exact ⟨⟨by omega, hx⟩, by omega, hy⟩
  · rintro ⟨⟨_, hx⟩, hle, hy⟩
    exact ⟨by omega, by rw [hx, hy]⟩

theorem has_cells (b : Block α n) : b.Has 0 b.cells := by
  refine ⟨by rw [b.size_eq, Nat.zero_add], ?_⟩
  rw [slice, List.drop_zero, List.take_length]

theorem Has.inj {b : Block α n} {off : Nat} {xs ys : List α} (hx : b.Has off xs) (hy : b.Has off ys)
    (hlen : xs.length = ys.length) : xs = ys := by
  rw [← hx.2, ← hy.2, hlen]

/-! ## Writing in sequence -/

/-- Write `bs` at `i` and move behind it. -/
def writeBytes (bs : List α) (b : Block α n) (i : Nat) : Option (Block α n × Nat) :=
  (b.write? i bs).map fun b => (b, i + bs.length)

theorem writeBytes_nil {b : Block α n} {i : Nat} (hi : i ≤ n) : writeBytes [] b i = some (b, i) := by
  have hself : b.write i [] (by simpa using hi) = b := by
    cases b
    simp [write]
  rw [writeBytes, write?_eq (by simpa using hi), hself]
  rfl

/-- Two writes behind one another are one. -/
theorem writeBytes_append (xs ys : List α) (b : Block α n) (i : Nat) :
    (writeBytes xs b i).bind (fun (b, i) => writeBytes ys b i) = writeBytes (xs ++ ys) b i := by
  by_cases hx : i + xs.length ≤ n
  · rw [writeBytes, write?_eq hx]
    by_cases hy : i + xs.length + ys.length ≤ n
    · have hxy : i + (xs ++ ys).length ≤ n := by rw [List.length_append]; omega
      simp only [Option.map_some, Option.bind_some, writeBytes]
      rw [write?_eq hy, write?_eq hxy, write_write, List.length_append, Nat.add_assoc]
    · simp only [Option.map_some, Option.bind_some, writeBytes]
      rw [write?_eq_none (by omega), write?_eq_none (by rw [List.length_append]; omega)]
      rfl
  · simp only [writeBytes]
    rw [write?_eq_none (by omega), write?_eq_none (by rw [List.length_append]; omega)]
    rfl

/-- `w` writes exactly `bs`, and is `none` when `bs` does not fit. -/
def Emits (w : Block α n → Nat → Option (Block α n × Nat)) (bs : List α) : Prop :=
  ∀ b i, i ≤ n → w b i = writeBytes bs b i

theorem emits_writeBytes (bs : List α) : Emits (n := n) (writeBytes bs) bs := fun _ _ _ => rfl

/-- A writer behind a writer writes the concatenation. -/
theorem Emits.bind {w₁ w₂ : Block α n → Nat → Option (Block α n × Nat)} {xs ys : List α}
    (h₁ : Emits w₁ xs) (h₂ : Emits w₂ ys) :
    Emits (fun b i => (w₁ b i).bind fun (b, i) => w₂ b i) (xs ++ ys) := by
  intro b i hi
  rw [← writeBytes_append]
  simp only [h₁ b i hi]
  by_cases hx : i + xs.length ≤ n
  · simp only [writeBytes, write?_eq hx, Option.map_some, Option.bind_some]
    exact h₂ _ _ hx
  · simp only [writeBytes, write?_eq_none (Nat.lt_of_not_le hx), Option.map_none, Option.bind_none]

/-- Run `elem 0 … elem (len - 1)` in order. -/
def writeElems (elem : Nat → Block α n → Nat → Option (Block α n × Nat)) (b : Block α n) (i : Nat) :
    Nat → Option (Block α n × Nat)
  | 0       => some (b, i)
  | len + 1 => (writeElems elem b i len).bind fun (b, i) => elem len b i

theorem emits_writeElems {V : Type} {elem : Nat → Block α n → Nat → Option (Block α n × Nat)}
    {enc : V → List α} {vs : List V}
    (h : ∀ k (hk : k < vs.length), Emits (elem k) (enc vs[k])) :
    Emits (fun b i => writeElems elem b i vs.length) (vs.flatMap enc) := by
  have hrun : ∀ k ≤ vs.length,
      Emits (fun b i => writeElems elem b i k) ((vs.take k).flatMap enc) := by
    intro k
    induction k with
    | zero => exact fun _ b i hi => (writeBytes_nil hi).symm
    | succ k ih =>
        intro hk
        have hstep := (ih (Nat.le_of_succ_le hk)).bind (h k hk)
        have hcat : (vs.take (k + 1)).flatMap enc = (vs.take k).flatMap enc ++ enc vs[k] := by
          rw [List.take_add_one, List.getElem?_eq_getElem hk, List.flatMap_append]
          simp
        rw [hcat]
        exact hstep
  have hall := hrun vs.length (Nat.le_refl _)
  rwa [List.take_length] at hall

/-- The encoding of a sequence: a 16-bit element count, then the elements. -/
def counted {V : Type} (enc : V → List UInt8) (vs : List V) : List UInt8 :=
  leBytes 2 vs.length ++ vs.flatMap enc

/-- Write the count `len`, then the elements. -/
def writeCounted (len : Nat) (elem : Nat → Block UInt8 n → Nat → Option (Block UInt8 n × Nat))
    (b : Block UInt8 n) (i : Nat) : Option (Block UInt8 n × Nat) :=
  (writeBytes (leBytes 2 len) b i).bind fun (b, i) => writeElems elem b i len

theorem emits_writeCounted {V : Type}
    {elem : Nat → Block UInt8 n → Nat → Option (Block UInt8 n × Nat)} {enc : V → List UInt8} {vs : List V}
    (h : ∀ k (hk : k < vs.length), Emits (elem k) (enc vs[k])) :
    Emits (writeCounted vs.length elem) (counted enc vs) :=
  (emits_writeBytes _).bind (emits_writeElems h)

/-- What a writer that stays inside has done. -/
theorem writeBytes_spec {bs : List α} {b : Block α n} {i : Nat} (h : i + bs.length ≤ n) :
    ∃ b', writeBytes bs b i = some (b', i + bs.length) ∧ b'.Has i bs ∧
      ∀ o l, o + l ≤ i → b'.slice o l = b.slice o l := by
  refine ⟨b.write i bs h, ?_, ⟨h, slice_write_self h⟩, fun o l ho => slice_write_before h ho⟩
  rw [writeBytes, write?_eq h]
  rfl

theorem writeBytes_eq_none {bs : List α} {b : Block α n} {i : Nat} (h : n < i + bs.length) :
    writeBytes bs b i = none := by
  rw [writeBytes, write?_eq_none h]
  rfl

/-! ## Reading in sequence -/

/-- Read `len` cells at `i` and move behind them. -/
def readBlock (b : Block α n) (len i : Nat) : Option (Block α len × Nat) :=
  if h : i + len ≤ n then some (⟨b.slice i len, slice_length h⟩, i + len) else none

/-- Read one cell. -/
def readCell (b : Block α n) (i : Nat) : Option (α × Nat) := b.cells[i]?.map fun c => (c, i + 1)

/-- Read a 16-bit count. -/
def readU16 (b : Block UInt8 n) (i : Nat) : Option (Nat × Nat) :=
  (b.readBlock 2 i).map fun (bs, i) => (ofLe bs.cells, i)

/-- The cells at `i` before the first zero, which has to lie inside the block. -/
def readCStr (b : Block UInt8 n) (i : Nat) : Option (List UInt8) :=
  let rest := b.cells.drop i
  let s := rest.takeWhile (· ≠ 0)
  if s.length < rest.length then some s else none

/-- Read `len` elements, pushing each into the accumulator before the next is read. -/
def readElems {X A : Type} (elem : Nat → Option (X × Nat)) (push : A → X → Option A) (a : A) (i : Nat) :
    Nat → Option (A × Nat)
  | 0       => some (a, i)
  | len + 1 =>
      (readElems elem push a i len).bind fun (a, i) =>
      (elem i).bind fun (x, i) => (push a x).map fun a => (a, i)

/-- Read a count, then that many elements. -/
def readCounted {X A : Type} (b : Block UInt8 n) (elem : Nat → Option (X × Nat)) (push : A → X → Option A)
    (a : A) (i : Nat) : Option (A × Nat) :=
  (readU16 b i).bind fun (len, i) => readElems elem push a i len

/-- `r` reads exactly the encodings of the values that `fits` admits, as objects that denote them. -/
structure Decodes {V X : Type} (b : Block α n) (r : Nat → Option (X × Nat)) (enc : V → List α)
    (fits : V → Prop) (den : X → V → Prop) : Prop where
  sound : ∀ {i x j}, i ≤ n → r i = some (x, j) →
    ∃ v, den x v ∧ fits v ∧ b.Has i (enc v) ∧ j = i + (enc v).length
  complete : ∀ {i v}, b.Has i (enc v) → fits v → ∃ x, r i = some (x, i + (enc v).length) ∧ den x v

/-- `push` appends one value to the contents of an accumulator, up to `cap` of them. -/
structure Accumulates {V X A : Type} (push : A → X → Option A) (den : X → V → Prop)
    (holds : A → List V → Prop) (cap : Nat) : Prop where
  sound : ∀ {a a' x vs v}, holds a vs → den x v → push a x = some a' →
    vs.length < cap ∧ holds a' (vs ++ [v])
  complete : ∀ {a x vs v}, holds a vs → den x v → vs.length < cap →
    ∃ a', push a x = some a' ∧ holds a' (vs ++ [v])

/-- Pushing a whole list succeeds for up to `cap` values. -/
theorem Accumulates.foldlM {V A : Type} {push : A → V → Option A} {holds : A → List V → Prop} {cap : Nat}
    (hp : Accumulates push (fun x v => x = v) holds cap) {a₀ : A} (h₀ : holds a₀ []) {vs : List V}
    (hcap : vs.length ≤ cap) : ∃ a, vs.foldlM push a₀ = some a ∧ holds a vs := by
  induction vs using List.reverseRecOn with
  | nil => exact ⟨a₀, rfl, h₀⟩
  | append_singleton vs v ih =>
      rw [List.length_append, List.length_singleton] at hcap
      obtain ⟨a, ha, hholds⟩ := ih (Nat.le_of_succ_le hcap)
      obtain ⟨a', ha', hholds'⟩ := hp.complete hholds rfl hcap
      refine ⟨a', ?_, hholds'⟩
      rw [List.foldlM_append, ha]
      simpa using ha'

/-- Beyond `cap` it does not. -/
theorem Accumulates.foldlM_sound {V A : Type} {push : A → V → Option A} {holds : A → List V → Prop} {cap : Nat}
    (hp : Accumulates push (fun x v => x = v) holds cap) {a₀ a : A} (h₀ : holds a₀ []) {vs : List V}
    (h : vs.foldlM push a₀ = some a) : vs.length ≤ cap ∧ holds a vs := by
  induction vs using List.reverseRecOn generalizing a with
  | nil =>
      cases h
      exact ⟨Nat.zero_le _, h₀⟩
  | append_singleton vs v ih =>
      rw [List.foldlM_append] at h
      obtain ⟨a₁, h₁, h⟩ := Option.bind_eq_some_iff.mp h
      obtain ⟨_, hholds⟩ := ih h₁
      have hpush : push a₁ v = some a := by simpa using h
      obtain ⟨hlt, hholds'⟩ := hp.sound hholds rfl hpush
      exact ⟨by rw [List.length_append, List.length_singleton]; exact hlt, hholds'⟩

/-- Reading through an embedding of the values and a wrapper around the objects. -/
theorem Decodes.map {V W X Y : Type} {b : Block α n} {r : Nat → Option (X × Nat)} {enc : V → List α}
    {fits : V → Prop} {den : X → V → Prop} (h : Decodes b r enc fits den) {enc' : W → List α}
    {fits' : W → Prop} {den' : Y → W → Prop} (f : V → W) (g : X → Y) (henc : ∀ v, enc' (f v) = enc v)
    (hfits : ∀ w, fits' w ↔ ∃ v, w = f v ∧ fits v) (hden : ∀ {x v}, fits v → den x v → den' (g x) (f v)) :
    Decodes b (fun i => (r i).map fun (x, i) => (g x, i)) enc' fits' den' where
  sound := by
    intro i y j hi hr
    obtain ⟨⟨x, k⟩, hx, heq⟩ := Option.map_eq_some_iff.mp hr
    cases heq
    obtain ⟨v, hd, hf, hhas, hj⟩ := h.sound hi hx
    exact ⟨f v, hden hf hd, (hfits _).mpr ⟨v, rfl, hf⟩, (henc v).symm ▸ hhas, by rw [henc]; exact hj⟩
  complete := by
    intro i w hhas hw
    obtain ⟨v, rfl, hf⟩ := (hfits w).mp hw
    rw [henc] at hhas ⊢
    obtain ⟨x, hx, hd⟩ := h.complete hhas hf
    exact ⟨g x, by rw [hx]; rfl, hden hf hd⟩

/-- Another description of the same values, and a weaker one of the objects read. -/
theorem Decodes.imp {V X : Type} {b : Block α n} {r : Nat → Option (X × Nat)} {enc : V → List α}
    {fits fits' : V → Prop} {den den' : X → V → Prop} (h : Decodes b r enc fits den)
    (hfits : ∀ v, fits' v ↔ fits v) (hden : ∀ {x v}, fits v → den x v → den' x v) :
    Decodes b r enc fits' den' := by
  have hmap : Decodes b (fun i => (r i).map fun (x, i) => (id x, i)) enc fits' den' :=
    h.map id id (fun _ => rfl)
      (fun w => (hfits w).trans ⟨fun hw => ⟨w, rfl, hw⟩, fun ⟨_, hv, hf⟩ => hv ▸ hf⟩) hden
  simpa using hmap

/-- A fixed number of cells. -/
theorem decodes_readBlock (b : Block α n) (len : Nat) :
    Decodes b (b.readBlock len) Block.cells (fun _ => True) (fun x bs => x = bs) where
  sound := by
    intro i x j _ hr
    by_cases hin : i + len ≤ n
    · rw [readBlock, dif_pos hin, Option.some.injEq, Prod.mk.injEq] at hr
      obtain ⟨rfl, rfl⟩ := hr
      have hlen : (b.slice i len).length = len := slice_length hin
      refine ⟨_, rfl, trivial, ⟨?_, ?_⟩, ?_⟩
      · rw [hlen]
        exact hin
      · rw [hlen]
      · rw [hlen]
    · simp [readBlock, hin] at hr
  complete := by
    rintro i ⟨cells, rfl⟩ ⟨hin, hsl⟩ _
    exact ⟨_, dif_pos hin, by simp only [mk.injEq]; exact hsl⟩

theorem decodes_readCell (b : Block α n) :
    Decodes b (b.readCell) (fun c => [c]) (fun _ => True) (fun x c => x = c) where
  sound := by
    intro i x j _ hr
    obtain ⟨c, hc, heq⟩ := Option.map_eq_some_iff.mp hr
    cases heq
    have hlt : i < n := by
      rw [← b.size_eq]
      exact (List.getElem?_eq_some_iff.mp hc).1
    refine ⟨x, rfl, trivial, ⟨hlt, ?_⟩, rfl⟩
    rw [List.length_singleton, slice, List.take_one, List.head?_drop, hc]
    rfl
  complete := by
    rintro i c ⟨_, hsl⟩ _
    rw [List.length_singleton, slice, List.take_one, List.head?_drop] at hsl
    refine ⟨c, ?_, rfl⟩
    cases hc : b.cells[i]? with
    | none => simp [hc] at hsl
    | some c' =>
        rw [hc] at hsl
        cases hsl
        rw [readCell, hc]
        rfl

theorem readBlock_eq_some {b : Block α n} {len i : Nat} {x : Block α len} {j : Nat} :
    b.readBlock len i = some (x, j) ↔ b.Has i x.cells ∧ j = i + len := by
  constructor
  · intro h
    have hi : i ≤ n := by
      by_contra hi
      simp [readBlock, show ¬ i + len ≤ n by omega] at h
    obtain ⟨_, rfl, _, hhas, hj⟩ := (decodes_readBlock b len).sound hi h
    exact ⟨hhas, by rw [hj, x.size_eq]⟩
  · rintro ⟨hhas, rfl⟩
    obtain ⟨_, hr, rfl⟩ := (decodes_readBlock b len).complete hhas trivial
    rw [hr, size_eq]

theorem readCell_eq_some {b : Block α n} {i : Nat} {c : α} {j : Nat} :
    b.readCell i = some (c, j) ↔ b.Has i [c] ∧ j = i + 1 := by
  constructor
  · intro h
    have hi : i ≤ n := by
      by_contra hi
      have hout : b.cells[i]? = none := List.getElem?_eq_none (by rw [b.size_eq]; omega)
      simp [readCell, hout] at h
    obtain ⟨_, rfl, _, hhas, hj⟩ := (decodes_readCell b).sound hi h
    exact ⟨hhas, hj⟩
  · rintro ⟨hhas, rfl⟩
    obtain ⟨_, hr, rfl⟩ := (decodes_readCell b).complete hhas trivial
    exact hr

theorem decodes_readU16 (b : Block UInt8 n) :
    Decodes b (readU16 b) (leBytes 2) (fun len => len < 65536) (fun x len => x = len) where
  sound := by
    intro i x j hi hr
    obtain ⟨⟨bs, k⟩, hb, heq⟩ := Option.map_eq_some_iff.mp hr
    obtain ⟨_, rfl, _, hhas, rfl⟩ := (decodes_readBlock b 2).sound hi hb
    cases heq
    have hback : leBytes 2 (ofLe bs.cells) = bs.cells := by
      have h := leBytes_ofLe bs.cells
      rwa [bs.size_eq] at h
    have hlt : ofLe bs.cells < 256 ^ 2 := by
      have h := ofLe_lt bs.cells
      rwa [bs.size_eq] at h
    exact ⟨_, rfl, hlt, hback.symm ▸ hhas, by rw [hback]⟩
  complete := by
    intro i len hb hlt
    obtain ⟨_, hr, rfl⟩ :=
      (decodes_readBlock b 2).complete (v := ⟨leBytes 2 len, leBytes_length 2 len⟩) hb trivial
    exact ⟨_, by rw [readU16, hr]; rfl, ofLe_leBytes_of_lt hlt⟩

theorem Has.drop_eq {b : Block α n} {i : Nat} {xs : List α} (h : b.Has i xs) :
    b.cells.drop i = xs ++ b.cells.drop (i + xs.length) := by
  have hsplit := List.take_append_drop xs.length (b.cells.drop i)
  rw [List.drop_drop] at hsplit
  rw [← hsplit, show (b.cells.drop i).take xs.length = xs from h.2]

theorem has_of_drop_eq {b : Block α n} {i : Nat} {xs t : List α} (hi : i ≤ n)
    (h : b.cells.drop i = xs ++ t) : b.Has i xs := by
  have hlen : (b.cells.drop i).length = xs.length + t.length := by rw [h, List.length_append]
  rw [List.length_drop, b.size_eq] at hlen
  exact ⟨by omega, by rw [slice, h, List.take_left']; rfl⟩

/-- A C string is read exactly where one stands with its terminator inside the block. -/
theorem readCStr_eq_some {b : Block UInt8 n} {i : Nat} {s : List UInt8} :
    b.readCStr i = some s ↔ 0 ∉ s ∧ b.Has i (s ++ [0]) := by
  constructor
  · intro h
    simp only [readCStr, Option.ite_none_right_eq_some, Option.some.injEq] at h
    obtain ⟨hlt, rfl⟩ := h
    refine ⟨fun hmem => by simpa using List.mem_takeWhile_imp hmem, ?_⟩
    have hi : i ≤ n := by
      have hpos := Nat.lt_of_le_of_lt (Nat.zero_le _) hlt
      rw [List.length_drop, b.size_eq] at hpos
      omega
    have hsplit := List.takeWhile_append_dropWhile (p := (· ≠ 0)) (l := b.cells.drop i)
    cases htail : (b.cells.drop i).dropWhile (· ≠ 0) with
    | nil =>
        rw [htail, List.append_nil] at hsplit
        rw [hsplit] at hlt
        exact absurd hlt (Nat.lt_irrefl _)
    | cons c t =>
        have hc : c = 0 := by
          have hhead := List.head?_dropWhile_not (fun x : UInt8 => decide (x ≠ 0)) (b.cells.drop i)
          rw [htail] at hhead
          simpa using hhead
        subst hc
        refine has_of_drop_eq (t := t) hi ?_
        rw [List.append_assoc, List.singleton_append, ← htail]
        exact hsplit.symm
  · rintro ⟨hmem, hhas⟩
    have hdrop := hhas.drop_eq
    rw [List.append_assoc, List.singleton_append] at hdrop
    have htake : (b.cells.drop i).takeWhile (· ≠ 0) = s := by
      rw [hdrop, List.takeWhile_append_of_pos, List.takeWhile_cons_of_neg (by simp), List.append_nil]
      intro c hc
      simp only [ne_eq, decide_not, Bool.not_eq_eq_eq_not, Bool.not_true, decide_eq_false_iff_not]
      rintro rfl
      exact hmem hc
    simp only [readCStr, htake, Option.ite_none_right_eq_some, and_true]
    rw [hdrop, List.length_append, List.length_cons]
    omega

section Counted

variable {V X A : Type} {b : Block UInt8 n} {elem : Nat → Option (X × Nat)} {enc : V → List UInt8}
  {fits : V → Prop} {den : X → V → Prop} {push : A → X → Option A} {holds : A → List V → Prop} {cap : Nat}

/-- What the element loop has read and pushed after `len` elements. -/
theorem Decodes.elems_sound (he : Decodes b elem enc fits den) (hp : Accumulates push den holds cap)
    {a₀ : A} (h₀ : holds a₀ []) {i : Nat} (hi : i ≤ n) {len : Nat} {a : A} {j : Nat}
    (hr : readElems elem push a₀ i len = some (a, j)) :
    ∃ vs, vs.length = len ∧ holds a vs ∧ len ≤ cap ∧ (∀ v ∈ vs, fits v) ∧ b.Has i (vs.flatMap enc) ∧
      j = i + (vs.flatMap enc).length := by
  induction len generalizing a j with
  | zero =>
      cases hr
      exact ⟨[], rfl, h₀, Nat.zero_le _, by simp, has_nil.mpr hi, rfl⟩
  | succ len ih =>
      obtain ⟨⟨a₁, i₁⟩, hloop, hr⟩ := Option.bind_eq_some_iff.mp hr
      obtain ⟨⟨x, i₂⟩, helem, hr⟩ := Option.bind_eq_some_iff.mp hr
      obtain ⟨a₂, hpush, heq⟩ := Option.map_eq_some_iff.mp hr
      cases heq
      obtain ⟨vs, rfl, hholds, _, hfits, hhas, rfl⟩ := ih hloop
      obtain ⟨v, hden, hfit, hv, rfl⟩ := he.sound (hhas.1) helem
      obtain ⟨hcap, hholds'⟩ := hp.sound hholds hden hpush
      refine ⟨vs ++ [v], by simp, hholds', hcap, ?_, ?_, ?_⟩
      · simpa [or_imp, forall_and] using ⟨hfits, hfit⟩
      · rw [List.flatMap_append, List.flatMap_singleton, has_append]
        exact ⟨hhas, hv⟩
      · rw [List.flatMap_append, List.flatMap_singleton, List.length_append, Nat.add_assoc]

/-- The element loop reads every sequence that stands in the block. -/
theorem Decodes.elems_complete (he : Decodes b elem enc fits den) (hp : Accumulates push den holds cap)
    {a₀ : A} (h₀ : holds a₀ []) {i : Nat} {vs : List V} (hhas : b.Has i (vs.flatMap enc))
    (hcap : vs.length ≤ cap) (hfits : ∀ v ∈ vs, fits v) :
    ∃ a, readElems elem push a₀ i vs.length = some (a, i + (vs.flatMap enc).length) ∧ holds a vs := by
  induction vs using List.reverseRecOn with
  | nil => exact ⟨a₀, rfl, h₀⟩
  | append_singleton vs v ih =>
      rw [List.flatMap_append, List.flatMap_singleton, has_append] at hhas
      rw [List.length_append, List.length_singleton] at hcap
      obtain ⟨a₁, hloop, hholds⟩ :=
        ih hhas.1 (Nat.le_of_succ_le hcap) fun w hw => hfits w (List.mem_append_left _ hw)
      obtain ⟨x, helem, hden⟩ := he.complete hhas.2 (hfits v (by simp))
      obtain ⟨a₂, hpush, hholds'⟩ := hp.complete hholds hden hcap
      refine ⟨a₂, ?_, hholds'⟩
      rw [List.length_append, List.length_singleton, readElems, hloop]
      simp only [Option.bind_some, helem, hpush, Option.map_some, List.flatMap_append,
        List.flatMap_singleton, List.length_append, Nat.add_assoc]

/-- **Counted sequences.** An exact element reader and an accumulator give an exact sequence reader. -/
theorem Decodes.counted (he : Decodes b elem enc fits den) (hp : Accumulates push den holds cap)
    {a₀ : A} (h₀ : holds a₀ []) (hcap : cap < 65536) :
    Decodes b (readCounted b elem push a₀) (counted enc)
      (fun vs => vs.length ≤ cap ∧ ∀ v ∈ vs, fits v) holds where
  sound := by
    intro i a j hi hr
    obtain ⟨⟨len, i₁⟩, hlen, hr⟩ := Option.bind_eq_some_iff.mp hr
    obtain ⟨_, rfl, _, hcount, rfl⟩ := (decodes_readU16 b).sound hi hlen
    obtain ⟨vs, rfl, hholds, hle, hfits, hhas, rfl⟩ := he.elems_sound hp h₀ hcount.1 hr
    refine ⟨vs, hholds, ⟨hle, hfits⟩, has_append.mpr ⟨hcount, hhas⟩, ?_⟩
    rw [Block.counted, List.length_append, Nat.add_assoc]
  complete := by
    rintro i vs hhas ⟨hle, hfits⟩
    obtain ⟨hcount, hhas⟩ := has_append.mp hhas
    obtain ⟨_, hlen, rfl⟩ := (decodes_readU16 b).complete hcount (Nat.lt_of_le_of_lt hle hcap)
    obtain ⟨a, hloop, hholds⟩ := he.elems_complete hp h₀ hhas hle hfits
    refine ⟨a, ?_, hholds⟩
    rw [readCounted, hlen, Option.bind_some, Block.counted, List.length_append, ← Nat.add_assoc]
    exact hloop

end Counted

end Block
