import Mowang.Base.Codec
import Mowang.Share.BaseUtil
import Mathlib.Data.List.Basic
import Mathlib.Data.List.Forall2
import Mathlib.Algebra.Order.Ring.Nat
import Mathlib.Tactic.Common

/-!
# `Share.DynamicArray` — `dynamic_array`, `dynamic_string` and `dynamic_array2`

The three containers of `dynamic_array.h` keep a 16-bit length, a capacity and an allocation, and
double the capacity on `push_back`. The capacity of the first two is a `uint16`, and the new capacity of
`dynamic_array2` passes through one, so doubling 32768 gives 0. Every access of an allocation is
checked; `none` is a write or read outside it.

`Grown` is the invariant of an object built from the default constructor by `push_back` alone: its
capacity is a power of two, at most 32768, and above its length. It carries each `push_back` up to the
32767-th and no further: the next one doubles 32768 to 0 and writes outside the new allocation
(`DynamicArray.pushBack_accumulates`, `DynamicString.pushBack_accumulates`,
`DynamicArray2.pushBack_accumulates`).
-/

namespace Mowang

/-- The fields the three classes share; `data` is the allocation `m_data` points to. -/
structure DynamicCells (C : Type) where
  len : Nat
  maxLen : Nat
  data : List C

namespace DynamicCells

variable {C : Type}

/-- The first `m_len` cells. -/
def toList (a : DynamicCells C) : List C := a.data.take a.len

/-- `m_data[i] = x`. -/
def store? (a : DynamicCells C) (i : Nat) (x : C) : Option (DynamicCells C) :=
  if i < a.data.length then some { a with data := a.data.set i x } else none

/-- `new C[maxLen]`, then a copy of the first `kept` cells into it. -/
def realloc? (a : DynamicCells C) (maxLen kept : Nat) (blank : C) : Option (DynamicCells C) :=
  if kept ≤ maxLen ∧ kept ≤ a.data.length then
    some { a with maxLen := maxLen, data := a.data.take kept ++ List.replicate (maxLen - kept) blank }
  else none

/-- Built by `push_back` from a default-constructed object. -/
structure Grown (a : DynamicCells C) : Prop where
  pow : ∃ k ≤ 15, a.maxLen = 2 ^ k
  alloc : a.data.length = a.maxLen
  len_lt : a.len < a.maxLen

/-- `xs` are the contents. -/
def Holds (a : DynamicCells C) (xs : List C) : Prop := a.toList = xs ∧ a.len = xs.length

theorem Grown.toList_length {a : DynamicCells C} (h : Grown a) : a.toList.length = a.len := by
  have hal := h.alloc
  have hlt := h.len_lt
  simp only [toList, List.length_take]
  omega

/-- A grown object is full at 32767 elements, where its capacity doubles to 0. -/
theorem Grown.full {a : DynamicCells C} (h : Grown a) (hlen : ¬ a.len + 1 < 32768) :
    a.len = 32767 ∧ a.maxLen = 32768 := by
  obtain ⟨k, hk, hpow⟩ := h.pow
  have hle : 2 ^ k ≤ 2 ^ 15 := Nat.pow_le_pow_right (by decide) hk
  have hlt := h.len_lt
  omega

/-- Below 32768 elements the doubled capacity is still a 16-bit power of two. -/
theorem Grown.double {a : DynamicCells C} (h : Grown a) (hlen : a.len + 1 < 32768)
    (hfull : a.maxLen ≤ a.len + 1) :
    a.maxLen * 2 % 65536 = a.maxLen * 2 ∧ ∃ k ≤ 15, a.maxLen * 2 = 2 ^ k := by
  obtain ⟨k, hk, hpow⟩ := h.pow
  have hlt : k < 15 := by
    have hmax : 2 ^ k < 2 ^ 15 := by omega
    exact (Nat.pow_lt_pow_iff_right (by decide)).mp hmax
  have hle : 2 ^ (k + 1) ≤ 2 ^ 15 := Nat.pow_le_pow_right (by decide) hlt
  have heq : a.maxLen * 2 = 2 ^ (k + 1) := by rw [hpow, Nat.pow_succ]
  exact ⟨by omega, k + 1, hlt, heq⟩

/-- Room for one more element behind the same contents. -/
structure Room (a a' : DynamicCells C) : Prop where
  len_eq : a'.len = a.len
  pow : ∃ k ≤ 15, a'.maxLen = 2 ^ k
  alloc : a'.data.length = a'.maxLen
  room : a.len + 1 < a'.maxLen
  kept : a'.data.take a.len = a.toList

/-- Reallocating a full object to twice its capacity makes room. -/
theorem realloc?_room {a : DynamicCells C} (h : Grown a) (hlen : a.len + 1 < 32768)
    (hfull : a.maxLen ≤ a.len + 1) {kept : Nat} (hk : a.len ≤ kept) (hk' : kept ≤ a.maxLen) (blank : C) :
    ∃ a', a.realloc? (a.maxLen * 2 % 65536) kept blank = some a' ∧ Room a a' := by
  obtain ⟨hmod, hpow⟩ := h.double hlen hfull
  have hal := h.alloc
  have hlt := h.len_lt
  rw [hmod]
  refine ⟨_, if_pos ⟨by omega, by omega⟩, rfl, hpow, ?_, ?_, ?_⟩
  · simp only [List.length_append, List.length_take, List.length_replicate]
    omega
  · show a.len + 1 < a.maxLen * 2
    obtain ⟨k, _, hp⟩ := h.pow
    have : 0 < 2 ^ k := Nat.pow_pos (by decide)
    omega
  · show List.take a.len (a.data.take kept ++ _) = a.data.take a.len
    rw [List.take_append_of_le_length (by simp only [List.length_take]; omega), List.take_take,
      Nat.min_eq_left hk]

/-- An object that is not full has room as it is. -/
theorem Grown.room {a : DynamicCells C} (h : Grown a) (hnot : a.len + 1 < a.maxLen) : Room a a :=
  ⟨rfl, h.pow, h.alloc, hnot, rfl⟩

/-- Writing the new element into the room and counting it. -/
theorem Room.push {a a' : DynamicCells C} (hr : Room a a') (x : C) (hlen : a.len + 1 < 32768) :
    ∃ a'', a'.store? a'.len x = some a'' ∧ Grown { a'' with len := (a''.len + 1) % 65536 } ∧
      ({ a'' with len := (a''.len + 1) % 65536 } : DynamicCells C).toList = a.toList ++ [x] := by
  have hal := hr.alloc
  have hroom := hr.room
  have hl := hr.len_eq
  have hmod : (a.len + 1) % 65536 = a.len + 1 := Nat.mod_eq_of_lt (by omega)
  refine ⟨_, if_pos (by omega), ⟨hr.pow, ?_, ?_⟩, ?_⟩
  · simp only [List.length_set]
    exact hal
  · show (a'.len + 1) % 65536 < a'.maxLen
    rw [hl, hmod]
    exact hroom
  · show (a'.data.set a'.len x).take ((a'.len + 1) % 65536) = _
    rw [hl, hmod, List.take_add_one, List.take_set_of_le (Nat.le_refl _), hr.kept,
      List.getElem?_set_self (by omega)]
    rfl

end DynamicCells

open DynamicCells

/-! ## `dynamic_array<T>` -/

/-- `dynamic_array<T>`. -/
abbrev DynamicArray (T : Type) := DynamicCells T

namespace DynamicArray

variable {T : Type} [Inhabited T]

/-- An array that holds `xs`. -/
def ofList (xs : List T) : DynamicArray T := ⟨xs.length, xs.length, xs⟩

omit [Inhabited T] in
theorem ofList_holds (xs : List T) : DynamicCells.Holds (ofList xs) xs := ⟨List.take_of_length_le (Nat.le_refl _), rfl⟩

/-- `dynamic_array()`. -/
def mk' : DynamicArray T := ⟨0, 16, List.replicate 16 default⟩

/-- `push_back`. -/
def pushBack (a : DynamicArray T) (x : T) : Option (DynamicArray T) :=
  (if a.len + 1 ≥ a.maxLen then a.realloc? (a.maxLen * 2 % 65536) a.len default else some a).bind fun a =>
  (a.store? a.len x).map fun a => { a with len := (a.len + 1) % 65536 }

omit [Inhabited T] in
/-- `operator[]`: past the end it logs and answers with the first element. -/
def get? (a : DynamicArray T) (pos : Nat) : Option T :=
  a.data[if pos ≥ a.len then 0 else pos]?

theorem mk'_grown : Grown (mk' : DynamicArray T) :=
  ⟨⟨4, by decide, rfl⟩, rfl, Nat.succ_pos 15⟩

theorem mk'_toList : (mk' : DynamicArray T).toList = [] := rfl

/-- Up to 32767 elements, `push_back` appends. -/
theorem pushBack_spec {a : DynamicArray T} (h : Grown a) (hlen : a.len + 1 < 32768) (x : T) :
    ∃ a', a.pushBack x = some a' ∧ Grown a' ∧ a'.toList = a.toList ++ [x] := by
  have hroom : ∃ a₁, (if a.len + 1 ≥ a.maxLen then a.realloc? (a.maxLen * 2 % 65536) a.len default
      else some a) = some a₁ ∧ Room a a₁ := by
    split
    · exact realloc?_room h hlen ‹_› (Nat.le_refl _) (Nat.le_of_lt h.len_lt) _
    · exact ⟨a, rfl, h.room (by omega)⟩
  obtain ⟨a₁, hr, hroom⟩ := hroom
  obtain ⟨a₂, hs, hg, htl⟩ := hroom.push x hlen
  exact ⟨_, by rw [pushBack, hr, Option.bind_some, hs, Option.map_some], hg, htl⟩

/-- At 32767 elements, `push_back` copies them into an allocation of 0 cells. -/
theorem pushBack_full {a : DynamicArray T} (h : Grown a) (hlen : ¬ a.len + 1 < 32768)
    (x : T) : a.pushBack x = none := by
  obtain ⟨hl, hm⟩ := h.full hlen
  rw [pushBack, if_pos (by omega), realloc?, if_neg (by omega)]
  rfl

theorem pushBack_accumulates :
    Block.Accumulates (pushBack (T := T)) (fun x y => x = y) (fun a xs => Grown a ∧ a.toList = xs)
      32767 where
  sound := by
    rintro a a' x vs v ⟨hg, rfl⟩ rfl hp
    by_cases hlen : a.len + 1 < 32768
    · obtain ⟨a'', hp', hspec⟩ := pushBack_spec hg hlen x
      cases hp.symm.trans hp'
      exact ⟨by rw [hg.toList_length]; omega, hspec⟩
    · rw [pushBack_full hg hlen] at hp
      cases hp
  complete := by
    rintro a x vs v ⟨hg, rfl⟩ rfl hcap
    rw [hg.toList_length] at hcap
    exact pushBack_spec hg (by omega) x

end DynamicArray

/-! ## `dynamic_string` -/

/-- `dynamic_string`; its allocation keeps a NUL behind the last byte. -/
abbrev DynamicString := DynamicCells UInt8

namespace DynamicString

/-- A string that holds `bytes`. -/
def ofBytes (bytes : List UInt8) : DynamicString := ⟨bytes.length, bytes.length + 1, bytes ++ [0]⟩

theorem ofBytes_holds (bytes : List UInt8) : DynamicCells.Holds (ofBytes bytes) bytes := ⟨List.take_left' rfl, rfl⟩

/-- `dynamic_string()`. -/
def mk' : DynamicString := ⟨0, 64, List.replicate 64 0⟩

/-- `push_back`. -/
def pushBack (s : DynamicString) (c : UInt8) : Option DynamicString :=
  (if s.len + 1 ≥ s.maxLen then s.realloc? (s.maxLen * 2 % 65536) s.len 0 else some s).bind fun s =>
  (s.store? s.len c).bind fun s =>
  let s : DynamicString := { s with len := (s.len + 1) % 65536 }
  s.store? s.len 0

/-- The copy constructor. -/
def copy? (s : DynamicString) : Option DynamicString :=
  let maxLen := (s.len + 1) % 65536
  (s.realloc? maxLen s.len 0).bind fun s => s.store? s.len 0

theorem mk'_grown : Grown mk' := ⟨⟨6, by decide, rfl⟩, rfl, by decide⟩

theorem mk'_toList : mk'.toList = [] := rfl

/-- Up to 32767 bytes, `push_back` appends; the NUL behind the last byte stays inside. -/
theorem pushBack_spec {s : DynamicString} (h : Grown s) (hlen : s.len + 1 < 32768) (c : UInt8) :
    ∃ s', s.pushBack c = some s' ∧ Grown s' ∧ s'.toList = s.toList ++ [c] := by
  have hroom : ∃ s₁, (if s.len + 1 ≥ s.maxLen then s.realloc? (s.maxLen * 2 % 65536) s.len 0
      else some s) = some s₁ ∧ Room s s₁ := by
    split
    · exact realloc?_room h hlen ‹_› (Nat.le_refl _) (Nat.le_of_lt h.len_lt) _
    · exact ⟨s, rfl, h.room (by omega)⟩
  obtain ⟨s₁, hr, hroom⟩ := hroom
  obtain ⟨s₂, hs, hg, htl⟩ := hroom.push c hlen
  have hin : (s₂.len + 1) % 65536 < s₂.data.length := by
    have h1 := hg.len_lt
    have h2 := hg.alloc
    simp only at h1 h2
    omega
  have halloc : (s₂.data.set ((s₂.len + 1) % 65536) 0).length = s₂.maxLen := by
    rw [List.length_set]
    exact hg.alloc
  refine ⟨⟨(s₂.len + 1) % 65536, s₂.maxLen, s₂.data.set ((s₂.len + 1) % 65536) 0⟩, ?_,
    ⟨hg.pow, halloc, hg.len_lt⟩, ?_⟩
  · rw [pushBack, hr, Option.bind_some, hs, Option.bind_some]
    exact if_pos hin
  · rw [← htl]
    exact List.take_set_of_le (Nat.le_refl _)

/-- At 32767 bytes, `push_back` copies them into an allocation of 0 cells. -/
theorem pushBack_full {s : DynamicString} (h : Grown s) (hlen : ¬ s.len + 1 < 32768) (c : UInt8) :
    s.pushBack c = none := by
  obtain ⟨hl, hm⟩ := h.full hlen
  rw [pushBack, if_pos (by omega), realloc?, if_neg (by omega)]
  rfl

theorem pushBack_accumulates :
    Block.Accumulates pushBack (fun x y => x = y) (fun s bs => Grown s ∧ s.toList = bs) 32767 where
  sound := by
    rintro s s' x vs v ⟨hg, rfl⟩ rfl hp
    by_cases hlen : s.len + 1 < 32768
    · obtain ⟨s'', hp', hspec⟩ := pushBack_spec hg hlen x
      cases hp.symm.trans hp'
      exact ⟨by rw [hg.toList_length]; omega, hspec⟩
    · rw [pushBack_full hg hlen] at hp
      cases hp
  complete := by
    rintro s x vs v ⟨hg, rfl⟩ rfl hcap
    rw [hg.toList_length] at hcap
    exact pushBack_spec hg (by omega) x

/-- A string short of 65535 bytes copies. -/
theorem copy?_spec {s : DynamicString} {bs : List UInt8} (h : s.Holds bs) (hlen : bs.length < 65535) :
    ∃ s', s.copy? = some s' ∧ s'.Holds bs := by
  obtain ⟨htl, hl⟩ := h
  have hmod : (s.len + 1) % 65536 = s.len + 1 := Nat.mod_eq_of_lt (by omega)
  have hfit : s.len ≤ s.data.length := by
    have hlen' : s.toList.length = bs.length := by rw [htl]
    simp only [toList, List.length_take] at hlen'
    omega
  have hnew : (s.data.take s.len ++ List.replicate (s.len + 1 - s.len) (0 : UInt8)).length = s.len + 1 := by
    simp only [List.length_append, List.length_take, List.length_replicate]
    omega
  refine ⟨⟨s.len, s.len + 1, (s.data.take s.len ++ List.replicate (s.len + 1 - s.len) 0).set s.len 0⟩,
    ?_, ?_, hl⟩
  · rw [copy?, hmod, realloc?, if_pos ⟨by omega, hfit⟩, Option.bind_some, store?,
      if_pos (by show s.len < _; rw [hnew]; omega)]
  · show List.take s.len (List.set _ s.len 0) = bs
    rw [List.take_set_of_le (Nat.le_refl _), List.take_left' (by simp only [List.length_take]; omega)]
    exact htl

end DynamicString

/-! ## `dynamic_array2<T>` -/

/-- `dynamic_array2<T>`: slots are pointers to owned objects, `none` the `NULL` pointer. -/
abbrev DynamicArray2 (T : Type) := DynamicCells (Option T)

namespace DynamicArray2

variable {T : Type}

/-- `dynamic_array2()`. -/
def mk' : DynamicArray2 T := ⟨0, 2, [none, none]⟩

/-- `operator[]`: a pointer, `NULL` past the end. -/
def get (a : DynamicArray2 T) (pos : Nat) : Option T :=
  if pos ≥ a.len then none else a.data[pos]?.join

/-- The copy constructor, given the one of `T`; every `*rhs[i]` is dereferenced. -/
def copy? (copyT : T → Option T) (a : DynamicArray2 T) : Option (DynamicArray2 T) :=
  ((List.range a.len).mapM fun i => (a.get i).bind copyT).map fun xs => ⟨a.len, a.len, xs.map some⟩

/-- `push_back`, given the copy constructor of `T`; all `m_max_len` slots move to the new allocation. -/
def pushBack (copyT : T → Option T) (a : DynamicArray2 T) (x : T) : Option (DynamicArray2 T) :=
  (if a.len + 1 ≥ a.maxLen then
    let maxLen := a.maxLen * 2 % 65536
    a.realloc? maxLen (min a.maxLen maxLen) none
  else some a).bind fun a =>
  (copyT x).bind fun y =>
  (a.store? a.len (some y)).map fun a => { a with len := (a.len + 1) % 65536 }

theorem mk'_grown : Grown (mk' : DynamicArray2 T) :=
  ⟨⟨1, by decide, rfl⟩, rfl, Nat.succ_pos 1⟩

theorem mk'_toList : (mk' : DynamicArray2 T).toList = [] := rfl

/-- Up to 32767 elements, `push_back` appends a copy. -/
theorem pushBack_spec {copyT : T → Option T} {a : DynamicArray2 T} (h : Grown a)
    (hlen : a.len + 1 < 32768) {x y : T} (hcopy : copyT x = some y) :
    ∃ a', a.pushBack copyT x = some a' ∧ Grown a' ∧ a'.toList = a.toList ++ [some y] := by
  have hroom : ∃ a₁, (if a.len + 1 ≥ a.maxLen then
        let maxLen := a.maxLen * 2 % 65536
        a.realloc? maxLen (min a.maxLen maxLen) none
      else some a) = some a₁ ∧ Room a a₁ := by
    split
    · rename_i hfull
      have hlt := h.len_lt
      have hmod := (h.double hlen hfull).1
      exact realloc?_room h hlen hfull (by omega) (Nat.min_le_left _ _) _
    · exact ⟨a, rfl, h.room (by omega)⟩
  obtain ⟨a₁, hr, hroom⟩ := hroom
  obtain ⟨a₂, hs, hg, htl⟩ := hroom.push (some y) hlen
  exact ⟨_, by rw [pushBack, hr, Option.bind_some, hcopy, Option.bind_some, hs, Option.map_some], hg, htl⟩

/-- At 32767 elements, `push_back` writes outside an allocation of 0 cells. -/
theorem pushBack_full {copyT : T → Option T} {a : DynamicArray2 T} (h : Grown a)
    (hlen : ¬ a.len + 1 < 32768) (x : T) : a.pushBack copyT x = none := by
  obtain ⟨hl, hm⟩ := h.full hlen
  have hz : a.maxLen * 2 % 65536 = 0 := by omega
  rw [pushBack, if_pos (by omega)]
  cases hc : copyT x with
  | none => simp [realloc?, hz]
  | some y => simp [realloc?, hz, store?]

section Contents

variable {V : Type} {copyT : T → Option T} {den : T → V → Prop}

/-- The slots point to objects that denote `vs`. -/
def Holds (den : T → V → Prop) (a : DynamicArray2 T) (vs : List V) : Prop :=
  a.len = vs.length ∧ List.Forall₂ (fun slot v => ∃ x, slot = some x ∧ den x v) a.toList vs

theorem Holds.imp {den' : T → V → Prop} (himp : ∀ {x v}, den x v → den' x v) {a : DynamicArray2 T}
    {vs : List V} (h : Holds den a vs) : Holds den' a vs :=
  ⟨h.1, h.2.imp fun _ _ ⟨x, hx, hd⟩ => ⟨x, hx, himp hd⟩⟩

theorem Holds.mk'_nil : Holds den (mk' : DynamicArray2 T) [] := ⟨rfl, .nil⟩

/-- `operator[]` below the length is the object in the slot. -/
theorem Holds.get {a : DynamicArray2 T} {vs : List V} (h : Holds den a vs) {k : Nat} (hk : k < vs.length) :
    ∃ x, a.get k = some x ∧ den x vs[k] := by
  obtain ⟨hl, hf⟩ := h
  have htl : k < a.toList.length := by rw [hf.length_eq]; exact hk
  obtain ⟨x, hx, hd⟩ := hf.get htl hk
  refine ⟨x, ?_, hd⟩
  have hslot : a.data[k]? = some (some x) := by
    rw [← hx, List.get_eq_getElem, ← List.getElem?_eq_getElem htl, toList, List.getElem?_take_of_lt (by omega)]
  rw [DynamicArray2.get, if_neg (by omega), hslot]
  rfl

/-- Copying keeps the contents, where the element copies do. -/
theorem copy?_spec (hcopy : ∀ {x v}, den x v → ∃ y, copyT x = some y ∧ den y v)
    {a : DynamicArray2 T} {vs : List V} (h : Holds den a vs) :
    ∃ a', a.copy? copyT = some a' ∧ Holds den a' vs := by
  have hrun : ∀ k ≤ vs.length, ∃ ys, (List.range k).mapM (fun i => (a.get i).bind copyT) = some ys ∧
      List.Forall₂ den ys (vs.take k) := by
    intro k
    induction k with
    | zero => exact fun _ => ⟨[], rfl, .nil⟩
    | succ k ih =>
        intro hk
        obtain ⟨ys, hys, hf⟩ := ih (Nat.le_of_succ_le hk)
        obtain ⟨x, hx, hd⟩ := h.get hk
        obtain ⟨y, hy, hd'⟩ := hcopy hd
        refine ⟨ys ++ [y], ?_, ?_⟩
        · rw [List.range_succ, List.mapM_append, hys]
          simp [hx, hy]
        · rw [List.take_add_one, List.getElem?_eq_getElem hk]
          exact List.rel_append hf (.cons hd' .nil)
  obtain ⟨ys, hys, hf⟩ := hrun vs.length (Nat.le_refl _)
  rw [List.take_length] at hf
  have hlen : ys.length = vs.length := hf.length_eq
  refine ⟨⟨a.len, a.len, ys.map some⟩, ?_, h.1, ?_⟩
  · rw [copy?, h.1, hys]
    rfl
  · show List.Forall₂ _ ((ys.map some).take a.len) vs
    rw [List.take_of_length_le (by rw [List.length_map, hlen, h.1]), List.forall₂_map_left_iff]
    exact hf.imp fun y v hd => ⟨y, rfl, hd⟩

theorem pushBack_accumulates :
    Block.Accumulates (pushBack copyT) (fun x v => ∃ y, copyT x = some y ∧ den y v)
      (fun a vs => Grown a ∧ Holds den a vs) 32767 where
  sound := by
    rintro a a' x vs v ⟨hg, hl, hf⟩ ⟨y, hcopy, hd⟩ hp
    by_cases hlen : a.len + 1 < 32768
    · obtain ⟨a'', hp', hg', htl⟩ := pushBack_spec hg hlen hcopy
      cases hp.symm.trans hp'
      refine ⟨by omega, hg', ?_, ?_⟩
      · rw [← hg'.toList_length, htl, List.length_append, hg.toList_length, hl, List.length_append]
        rfl
      · rw [htl]
        exact List.rel_append hf (.cons ⟨y, rfl, hd⟩ .nil)
    · rw [pushBack_full hg hlen] at hp
      cases hp
  complete := by
    rintro a x vs v ⟨hg, hl, hf⟩ ⟨y, hcopy, hd⟩ hcap
    obtain ⟨a', hp, hg', htl⟩ := pushBack_spec hg (by omega) hcopy
    refine ⟨a', hp, hg', ?_, ?_⟩
    · rw [← hg'.toList_length, htl, List.length_append, hg.toList_length, hl, List.length_append]
      rfl
    · rw [htl]
      exact List.rel_append hf (.cons ⟨y, rfl, hd⟩ .nil)

end Contents

end DynamicArray2

/-- `dynamic_string_array`. -/
abbrev DynamicStringArray := DynamicArray2 DynamicString

/-- `dynamic_string_array2`. -/
abbrev DynamicStringArray2 := DynamicArray2 DynamicStringArray

end Mowang
