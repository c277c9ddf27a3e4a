import Mowang.Base.CString
import Mowang.Base.Run
import Mowang.Share.RpcParam
import Mathlib.Logic.Function.Basic

/-!
# `Share.DynamicObjects` — `dynamic_array` and `dynamic_string` against lists

Objects of the two classes under names, and the list that each should hold. An operation comes with what the memory
that it is given held before. A write outside an allocation, or a read of memory that was given back, is `none`.

`Spare` is the invariant: a capacity that fits 16 bits, and a cell behind the last one in use. It bounds every length by
65534, so copies have room; what loses it are a capacity that doubles past 16 bits, a length of 65535, and the buffer
constructor of `dynamic_array`, which copies as many bytes as there are elements.

## Contents
- `Named`, `Named.modify` — objects that represent values.
- `DynamicCells.Spare`, `new?_spare`, `regrow?_spare`, `pushBackIn_spare`.
- `DynamicArray.refines_along`, `DynamicString.texts_along`.
-/

/-! ## Named objects -/

section Named

variable {A V : Type} {R : A → V → Prop}

/-- Objects under names, each of which represents the value under its name. -/
def Named (R : A → V → Prop) (objects : Nat → Option A) (values : Nat → Option V) : Prop :=
  ∀ x, Option.Rel R (objects x) (values x)

theorem Named.imp {R' : A → V → Prop} (himp : ∀ {a v}, R a v → R' a v) {objects : Nat → Option A}
    {values : Nat → Option V} (h : Named R objects values) : Named R' objects values := by
  intro x
  have hrel := h x
  generalize objects x = object at hrel ⊢
  generalize values x = value at hrel ⊢
  cases hrel with
  | none => exact .none
  | some hr => exact .some (himp hr)

theorem named_none : Named R (fun _ => none) (fun _ => none) := fun _ => .none

theorem Named.get {objects : Nat → Option A} {values : Nat → Option V} (h : Named R objects values) {x : Nat} {v : V}
    (hx : values x = some v) : ∃ a, objects x = some a ∧ R a v := by
  have hrel := h x
  rw [hx] at hrel
  generalize objects x = object at hrel ⊢
  cases hrel with
  | some hr => exact ⟨_, rfl, hr⟩

/-- A name that is given another object. -/
theorem Named.update {objects : Nat → Option A} {values : Nat → Option V} (h : Named R objects values) (x : Nat) {a : A}
    {v : V} (hr : R a v) : Named R (Function.update objects x (some a)) (Function.update values x (some v)) := by
  intro y
  by_cases hy : y = x
  · subst hy
    rw [Function.update_self, Function.update_self]
    exact .some hr
  · rw [Function.update_of_ne hy, Function.update_of_ne hy]
    exact h y

/-- An operation on one object, whose result gets a name. -/
theorem Named.modify {objects : Nat → Option A} {values : Nat → Option V} (h : Named R objects values) (x : Nat)
    {y : Nat}
    {v v' : V} {f : A → Option A} (hy : values y = some v)
    (hf : ∀ a, objects y = some a → R a v → ∃ a', f a = some a' ∧ R a' v') :
    ∃ objects', ((objects y).bind fun a => (f a).map fun a => Function.update objects x (some a)) = some objects' ∧
      Named R objects' (Function.update values x (some v')) := by
  obtain ⟨a, ha, hr⟩ := h.get hy
  obtain ⟨a', hfa, hr'⟩ := hf a ha hr
  exact ⟨_, by rw [ha, Option.bind_some, hfa, Option.map_some], h.update x hr'⟩

end Named

namespace Mowang

/-! ## Cells -/

namespace DynamicCells

variable {C : Type}

/-- `new C[maxLen]`, with `src` copied to its start. -/
def new? (fresh : Nat → C) (len maxLen : Nat) (src : List C) : Option (DynamicCells C) :=
  if src.length ≤ maxLen then some ⟨len, maxLen, src ++ ((List.range maxLen).map fresh).drop src.length⟩ else none

/-- The `m_len` cells that a `memcpy` reads. -/
def cells? (a : DynamicCells C) : Option (List C) := if a.len ≤ a.data.length then some a.toList else none

/-- A new allocation with the cells of the old one. -/
def regrow? (fresh : Nat → C) (a : DynamicCells C) (maxLen : Nat) : Option (DynamicCells C) :=
  a.cells?.bind (new? fresh a.len maxLen)

/-- Over memory that holds one value it is `realloc?`. -/
theorem realloc?_eq (a : DynamicCells C) (maxLen : Nat) (blank : C) :
    a.realloc? maxLen a.len blank = a.regrow? (fun _ => blank) maxLen := by
  have hblank : (List.range maxLen).map (fun _ => blank) = List.replicate maxLen blank := by
    rw [List.map_const', List.length_range]
  by_cases hread : a.len ≤ a.data.length
  · have hlen : (a.data.take a.len).length = a.len := by
      rw [List.length_take]
      omega
    rw [regrow?, cells?, if_pos hread, Option.bind_some, new?, toList, hlen, hblank, List.drop_replicate]
    by_cases hfit : a.len ≤ maxLen
    · rw [realloc?, if_pos ⟨hfit, hread⟩, if_pos hfit]
    · rw [realloc?, if_neg (fun h => hfit h.1), if_neg hfit]
  · rw [regrow?, cells?, if_neg hread, realloc?, if_neg (fun h => hread h.2)]
    rfl

/-- `xs` are the contents; behind them is a cell to spare, and the capacity fits 16 bits. -/
structure Spare (a : DynamicCells C) (xs : List C) : Prop where
  len : a.len = xs.length
  contents : a.toList = xs
  alloc : a.data.length = a.maxLen
  spare : a.len < a.maxLen
  cap : a.maxLen < 2 ^ 16

variable {a : DynamicCells C} {xs : List C} {fresh : Nat → C}

theorem Spare.cells?_eq (h : Spare a xs) : a.cells? = some xs := by
  have halloc := h.alloc
  have hspare := h.spare
  rw [cells?, if_pos (by omega), h.contents]

/-- A cell in use holds its element. -/
theorem Spare.getElem? (h : Spare a xs) {i : Nat} (hi : i < xs.length) : a.data[i]? = xs[i]? := by
  rw [← h.contents, toList, List.getElem?_take_of_lt (by rw [h.len]; exact hi)]

/-- A new object with room for one more element than it holds. -/
theorem new?_spare {maxLen : Nat} (hroom : xs.length < maxLen) (hcap : maxLen < 2 ^ 16) :
    ∃ a, new? fresh xs.length maxLen xs = some a ∧ a.maxLen = maxLen ∧ Spare a xs := by
  refine ⟨_, if_pos (Nat.le_of_lt hroom), rfl, rfl, List.take_left' rfl, ?_, hroom, hcap⟩
  simp only [List.length_append, List.length_drop, List.length_map, List.length_range]
  omega

theorem regrow?_spare (h : Spare a xs) {maxLen : Nat} (hroom : xs.length < maxLen) (hcap : maxLen < 2 ^ 16) :
    ∃ a', a.regrow? fresh maxLen = some a' ∧ a'.maxLen = maxLen ∧ Spare a' xs := by
  rw [regrow?, h.cells?_eq, Option.bind_some, h.len]
  exact new?_spare hroom hcap

/-- Writing one cell behind the contents, and counting it. -/
theorem Spare.snoc (h : Spare a xs) (x : C) (hroom : xs.length + 1 < a.maxLen) :
    ∃ a₁, a.store? a.len x = some a₁ ∧ Spare { a₁ with len := (a₁.len + 1) % 2 ^ 16 } (xs ++ [x]) := by
  have hcap := h.cap
  have halloc := h.alloc
  have hmod : (xs.length + 1) % 2 ^ 16 = xs.length + 1 := Nat.mod_eq_of_lt (by omega)
  have hlen := h.len
  refine ⟨_, if_pos (by omega), ?_, ?_, ?_, ?_, hcap⟩
  · show (a.len + 1) % 2 ^ 16 = _
    rw [hlen, hmod, List.length_append, List.length_singleton]
  · show (a.data.set a.len x).take ((a.len + 1) % 2 ^ 16) = _
    rw [hlen, hmod, List.take_add_one, List.take_set_of_le (Nat.le_refl _), List.getElem?_set_self (by omega), ← hlen,
      show a.data.take a.len = xs from h.contents]
    rfl
  · show (a.data.set a.len x).length = a.maxLen
    rw [List.length_set, halloc]
  · show (a.len + 1) % 2 ^ 16 < a.maxLen
    rw [hlen, hmod]
    exact hroom

/-- Before an element is pushed there is room, or room is made: twice a capacity that is below 32768. -/
theorem Spare.grow (h : Spare a xs) (hroom : a.len + 1 < a.maxLen ∨ a.maxLen < 32768) :
    ∃ a₁, (if a.len + 1 ≥ a.maxLen then a.regrow? fresh (a.maxLen * 2 % 2 ^ 16) else some a) = some a₁ ∧ Spare a₁ xs ∧
      xs.length + 1 < a₁.maxLen := by
  have hspare := h.spare
  have hlen := h.len
  by_cases hfull : a.len + 1 ≥ a.maxLen
  · have hcap := hroom.resolve_left (by omega)
    have hmod : a.maxLen * 2 % 2 ^ 16 = a.maxLen * 2 := Nat.mod_eq_of_lt (by omega)
    rw [if_pos hfull, hmod]
    obtain ⟨a₁, hnew, hmax, hs₁⟩ := @regrow?_spare _ a xs fresh h (a.maxLen * 2) (by omega) (by omega)
    exact ⟨a₁, hnew, hs₁, by omega⟩
  · exact ⟨a, if_neg hfull, h, by omega⟩

end DynamicCells

open DynamicCells

/-! ## `dynamic_array<T>` -/

namespace DynamicArray

section Members

variable {T : Type}

/-- `dynamic_array()`. -/
def construct? (fresh : Nat → T) : Option (DynamicArray T) := new? fresh 0 16 []

/-- The copy constructor. -/
def copy? (fresh : Nat → T) (rhs : DynamicArray T) : Option (DynamicArray T) :=
  rhs.regrow? fresh ((rhs.len + 1) % 2 ^ 16)

/-- `push_back`; the element may be one of the array's `own`, which a new allocation gives back before it is read. -/
def pushBackIn (fresh : Nat → T) (own : Bool) (a : DynamicArray T) (x : T) : Option (DynamicArray T) :=
  (if a.len + 1 ≥ a.maxLen then if own then none else a.regrow? fresh (a.maxLen * 2 % 2 ^ 16) else some a).bind fun a =>
  (a.store? a.len x).map fun a => { a with len := (a.len + 1) % 2 ^ 16 }

theorem pushBack_eq [Inhabited T] (a : DynamicArray T) (x : T) :
    a.pushBack x = a.pushBackIn (fun _ => default) false x := by
  rw [pushBack, pushBackIn, realloc?_eq]
  rfl

/-- `operator[]` as a place to write. -/
def set? (a : DynamicArray T) (pos : Nat) (x : T) : Option (DynamicArray T) :=
  a.store? (if pos ≥ a.len then 0 else pos) x

/-- The `for` of `find` from the index `i` on, with `n` elements to go. -/
def findFrom (eq : T → Bool) (a : DynamicArray T) : Nat → Nat → Option Nat
  | 0, _     => some (2 ^ 64 - 1)
  | n + 1, i => (a.data[i]?).bind fun x => if eq x then some i else findFrom eq a n (i + 1)

/-- `find`; it answers `-1`, as a `size_t`, for an element that is not there. -/
def find (eq : T → Bool) (a : DynamicArray T) : Option Nat := findFrom eq a a.len 0

variable {a : DynamicArray T} {xs : List T} {fresh : Nat → T}

theorem copy?_spare (h : Spare a xs) : ∃ a', a.copy? fresh = some a' ∧ Spare a' xs := by
  have hspare := h.spare
  have hcap := h.cap
  have hlen := h.len
  rw [copy?, Nat.mod_eq_of_lt (by omega), hlen]
  obtain ⟨a', hnew, _, hs'⟩ := @regrow?_spare _ a xs fresh h _ (Nat.lt_succ_self _) (by omega)
  exact ⟨a', hnew, hs'⟩

/-- An element of the array itself is pushed where there is room. -/
theorem pushBackIn_spare (h : Spare a xs) (x : T) {own : Bool}
    (hroom : a.len + 1 < a.maxLen ∨ a.maxLen < 32768 ∧ own = false) :
    ∃ a', a.pushBackIn fresh own x = some a' ∧ Spare a' (xs ++ [x]) := by
  have hsame : (if a.len + 1 ≥ a.maxLen then if own then none else a.regrow? fresh (a.maxLen * 2 % 2 ^ 16) else some a) =
      if a.len + 1 ≥ a.maxLen then a.regrow? fresh (a.maxLen * 2 % 2 ^ 16) else some a := by
    obtain hnot | ⟨_, rfl⟩ := hroom
    · rw [if_neg (by omega), if_neg (by omega)]
    · rfl
  obtain ⟨a₁, hgrow, hs₁, hroom₁⟩ := @Spare.grow _ a xs fresh h (hroom.imp_right And.left)
  obtain ⟨a₂, hstore, hs₂⟩ := hs₁.snoc x hroom₁
  exact ⟨_, by rw [pushBackIn, hsame, hgrow, Option.bind_some, hstore, Option.map_some], hs₂⟩

theorem get?_spare (h : Spare a xs) (hne : xs ≠ []) (pos : Nat) :
    a.get? pos = xs[if pos ≥ xs.length then 0 else pos]? := by
  have hpos : 0 < xs.length := List.length_pos_of_ne_nil hne
  rw [get?, h.len, h.getElem?]
  split
  · exact hpos
  · omega

theorem set?_spare (h : Spare a xs) (hne : xs ≠ []) (pos : Nat) (x : T) :
    ∃ a', a.set? pos x = some a' ∧ Spare a' (xs.set (if pos ≥ xs.length then 0 else pos) x) := by
  have hpos : 0 < xs.length := List.length_pos_of_ne_nil hne
  have hspare := h.spare
  have halloc := h.alloc
  have hlen := h.len
  have hin : (if pos ≥ xs.length then 0 else pos) < xs.length := by
    split
    · exact hpos
    · omega
  rw [set?, hlen]
  refine ⟨_, if_pos (by omega), ?_, ?_, ?_, hspare, h.cap⟩
  · show a.len = _
    rw [List.length_set, hlen]
  · show (a.data.set _ x).take a.len = _
    rw [List.take_set, show a.data.take a.len = xs from h.contents]
  · show (a.data.set _ x).length = a.maxLen
    rw [List.length_set, halloc]

theorem findFrom_spare (h : Spare a xs) (eq : T → Bool) {n i : Nat} (hn : i + n = xs.length) :
    findFrom eq a n i = some (((xs.drop i).findIdx? eq).elim (2 ^ 64 - 1) (i + ·)) := by
  induction n generalizing i with
  | zero =>
      rw [List.drop_eq_nil_of_le (by omega)]
      rfl
  | succ n ih =>
      have hi : i < xs.length := by omega
      rw [findFrom, h.getElem? hi, List.getElem?_eq_getElem hi, Option.bind_some, List.drop_eq_getElem_cons hi,
        List.findIdx?_cons]
      split
      · rfl
      · rw [ih (by omega)]
        cases (xs.drop (i + 1)).findIdx? eq with
        | none => rfl
        | some k =>
            show some (i + 1 + k) = some (i + (k + 1))
            congr 1
            omega

/-- `find` finds the first of the elements. -/
theorem find_spare (h : Spare a xs) (eq : T → Bool) : a.find eq = some ((xs.findIdx? eq).getD (2 ^ 64 - 1)) := by
  have hfind := findFrom_spare h eq (Nat.zero_add xs.length)
  rw [find, h.len, hfind, List.drop_zero]
  cases xs.findIdx? eq with
  | none => rfl
  | some k => exact congrArg some (Nat.zero_add k)

end Members

variable {size : Nat}

/-- The bytes of `cells`, from the first on, made those of `bytes`. -/
def overwrite : List (Pod size) → List UInt8 → List (Pod size)
  | [], _             => []
  | c :: cells, bytes =>
    ⟨bytes.take size ++ c.cells.drop (bytes.take size).length, by
      rw [List.length_append, List.length_drop, c.size_eq, List.length_take]
      omega⟩ :: overwrite cells (bytes.drop size)

/-- `dynamic_array(T* data, uint16 len)`. The `memcpy` copies `m_len` bytes. -/
def ofBuffer? (fresh : Nat → Pod size) (data : Option (List (Pod size))) (len : Nat) :
    Option (DynamicArray (Pod size)) :=
  match data with
  | none      => construct? fresh
  | some data =>
    let maxLen := (len + 1) % 2 ^ 16
    let bytes := data.flatMap Block.cells
    if len ≤ bytes.length ∧ len ≤ size * maxLen then
      some ⟨len, maxLen, overwrite ((List.range maxLen).map fresh) (bytes.take len)⟩
    else none

theorem overwrite_length (cells : List (Pod size)) (bytes : List UInt8) :
    (overwrite cells bytes).length = cells.length := by
  induction cells generalizing bytes with
  | nil => rfl
  | cons c cells ih => rw [overwrite, List.length_cons, ih, List.length_cons]

/-- All bytes of as many cells as there are objects. -/
theorem overwrite_take {cells data : List (Pod size)} (hlen : data.length ≤ cells.length) :
    (overwrite cells (data.flatMap Block.cells)).take data.length = data := by
  induction data generalizing cells with
  | nil => rfl
  | cons x data ih =>
      cases cells with
      | nil => cases hlen
      | cons c cells =>
          have hfirst : (x.cells ++ data.flatMap Block.cells).take size = x.cells := List.take_left' x.size_eq
          have hrest : (x.cells ++ data.flatMap Block.cells).drop size = data.flatMap Block.cells :=
            List.drop_left' x.size_eq
          have hx : x.cells ++ c.cells.drop x.cells.length = x.cells := by
            rw [List.drop_eq_nil_of_le (by rw [x.size_eq, c.size_eq]), List.append_nil]
          rw [List.flatMap_cons, overwrite, List.length_cons, List.take_succ_cons, hrest,
            ih (Nat.le_of_succ_le_succ hlen)]
          congr 1
          cases x
          simp only [Block.mk.injEq]
          rw [hfirst]
          exact hx

/-- The bytes of the first objects. -/
theorem flatMap_cells_take (data : List (Pod size)) (len : Nat) :
    (data.flatMap Block.cells).take (size * len) = (data.take len).flatMap Block.cells := by
  induction data generalizing len with
  | nil => rw [List.take_nil, List.flatMap_nil, List.take_nil]
  | cons x data ih =>
      cases len with
      | zero => rfl
      | succ len =>
          have hsize : size * (len + 1) = x.cells.length + size * len := by
            rw [x.size_eq, Nat.mul_succ, Nat.add_comm]
          rw [List.take_succ_cons, List.flatMap_cons, List.flatMap_cons, hsize, List.take_length_add_append, ih]

/-- The bytes that are copied are all bytes of the elements where an element is one byte. -/
theorem ofBuffer?_spare {fresh : Nat → Pod size} {data : List (Pod size)} {len : Nat} (hlen : len ≤ data.length)
    (hcopied : len = 0 ∨ size = 1 ∧ len < 65535) :
    ∃ a, ofBuffer? fresh (some data) len = some a ∧ Spare a (data.take len) := by
  have hall : size * len = len := by
    obtain rfl | ⟨rfl, _⟩ := hcopied
    · rfl
    · exact Nat.one_mul len
  have hmod : (len + 1) % 2 ^ 16 = len + 1 := Nat.mod_eq_of_lt (by omega)
  have hread : size * len ≤ size * data.length := Nat.mul_le_mul_left size hlen
  have hwrite : size * len ≤ size * (len + 1) := Nat.mul_le_mul_left size (Nat.le_succ len)
  have hbytes := flatMap_cells_take data len
  rw [hall] at hread hwrite hbytes
  have htaken : (data.take len).length = len := by
    rw [List.length_take]
    omega
  have hcells : ((List.range (len + 1)).map fresh).length = len + 1 := by
    rw [List.length_map, List.length_range]
  rw [ofBuffer?, hmod, hbytes, flatMap_cells_length, if_pos ⟨hread, hwrite⟩]
  refine ⟨_, rfl, htaken.symm, ?_, ?_, Nat.lt_succ_self len, by show len + 1 < 2 ^ 16; omega⟩
  · have htake := @overwrite_take _ ((List.range (len + 1)).map fresh) (data.take len) (by omega)
    rw [htaken] at htake
    exact htake
  · rw [overwrite_length, hcells]

/-! ### Every run -/

/-- What `push_back` gets: an object, or what `operator[]` returns. -/
inductive Element (size : Nat)
  | object (x : Pod size)
  | of (y pos : Nat)

/-- The operations; an array has a number for a name. -/
inductive Op (size : Nat)
  | construct (x : Nat)
  | ofBuffer (x : Nat) (data : Option (List (Pod size))) (len : Nat)
  | copy (x y : Nat)
  | assign (x y : Nat)
  | set (x pos : Nat) (v : Pod size)
  | pushBack (x : Nat) (v : Element size)

abbrev Arrays (size : Nat) := Nat → Option (DynamicArray (Pod size))

abbrev Lists (size : Nat) := Nat → Option (List (Pod size))

/-- The object that an argument refers to. -/
def Element.load (arrays : Arrays size) : Element size → Option (Pod size)
  | .object x => some x
  | .of y pos => (arrays y).bind fun a => a.get? pos

/-- It is in the allocation of `x`. -/
def Element.isOwn (x : Nat) : Element size → Bool
  | .object _ => false
  | .of y _   => x = y

/-- An operation, and what the memory that it is given held. -/
def step (arrays : Arrays size) : Op size × (Nat → Pod size) → Option (Arrays size)
  | (.construct x, fresh)         => (construct? fresh).map fun a => Function.update arrays x (some a)
  | (.ofBuffer x data len, fresh) => (ofBuffer? fresh data len).map fun a => Function.update arrays x (some a)
  | (.copy x y, fresh)            =>
    (arrays y).bind fun b => (b.copy? fresh).map fun a => Function.update arrays x (some a)
  | (.assign x y, fresh)          =>
    -- `this != &rhs`
    if x = y then some arrays
    else (arrays y).bind fun b => (b.copy? fresh).map fun a => Function.update arrays x (some a)
  | (.set x pos v, _)             =>
    (arrays x).bind fun a => (a.set? pos v).map fun a => Function.update arrays x (some a)
  | (.pushBack x v, fresh)        =>
    (arrays x).bind fun a => (v.load arrays).bind fun c =>
    (a.pushBackIn fresh (v.isOwn x) c).map fun a => Function.update arrays x (some a)

/-- The element that `operator[]` returns: the first one for a position behind the last. -/
def Element.value (lists : Lists size) : Element size → Option (Pod size)
  | .object x => some x
  | .of y pos => (lists y).bind fun ys => ys[if pos ≥ ys.length then 0 else pos]?

/-- What the operations do to lists. `none` are the calls outside their contract: an array that does not exist, an
    element of an empty one, a buffer with fewer elements than `len`, a length above 65535. -/
def listStep (lists : Lists size) : Op size × (Nat → Pod size) → Option (Lists size)
  | (.construct x, _)                => some (Function.update lists x (some []))
  | (.ofBuffer x none _, _)          => some (Function.update lists x (some []))
  | (.ofBuffer x (some data) len, _) =>
    if len ≤ data.length ∧ len < 2 ^ 16 then some (Function.update lists x (some (data.take len))) else none
  | (.copy x y, _)                   => (lists y).map fun ys => Function.update lists x (some ys)
  | (.assign x y, _)                 =>
    (lists x).bind fun _ => (lists y).map fun ys => Function.update lists x (some ys)
  | (.set x pos v, _)                =>
    (lists x).bind fun xs =>
    if xs = [] then none else some (Function.update lists x (some (xs.set (if pos ≥ xs.length then 0 else pos) v)))
  | (.pushBack x v, _)               =>
    (lists x).bind fun xs => (v.value lists).bind fun c =>
    if xs.length < 2 ^ 16 - 1 then some (Function.update lists x (some (xs ++ [c]))) else none

/-- **An array is its list.** The elements of `operator[]` and the answer of `find` are those of the list, and the
    allocation has `m_max_len` elements. -/
structure Refines (a : DynamicArray (Pod size)) (xs : List (Pod size)) : Prop where
  size_eq : a.len = xs.length
  element : ∀ pos < xs.length, a.get? pos = xs[pos]?
  find : ∀ eq, a.find eq = some ((xs.findIdx? eq).getD (2 ^ 64 - 1))
  alloc : a.data.length = a.maxLen

theorem refines_of_spare {a : DynamicArray (Pod size)} {xs : List (Pod size)} (h : Spare a xs) : Refines a xs where
  size_eq := h.len
  element := by
    intro pos hpos
    have hne : xs ≠ [] := List.ne_nil_of_length_pos (by omega)
    rw [get?_spare h hne, if_neg (by omega)]
  find := find_spare h
  alloc := h.alloc

/-- The steps that keep the arrays: a buffer of one-byte elements, or none, short of 65535; and a `push_back` that finds
    room, or doubles a capacity below 32768 and pushes no element of the array itself. -/
def Keeps (arrays : Arrays size) : Op size × (Nat → Pod size) → Prop
  | (.ofBuffer _ (some _) len, _) => len = 0 ∨ size = 1 ∧ len < 65535
  | (.pushBack x v, _)            =>
    ∀ a, arrays x = some a → a.len + 1 < a.maxLen ∨ a.maxLen < 32768 ∧ v.isOwn x = false
  | _                             => True

theorem load_eq {arrays : Arrays size} {lists : Lists size} (h : Named Spare arrays lists) {v : Element size}
    {c : Pod size}
    (hv : v.value lists = some c) : v.load arrays = some c := by
  cases v with
  | object x => exact hv
  | of y pos =>
      obtain ⟨ys, hys, hpos⟩ := Option.bind_eq_some_iff.mp hv
      obtain ⟨a, ha, hs⟩ := h.get hys
      have hne : ys ≠ [] := by
        rintro rfl
        cases hpos
      rw [Element.load, ha, Option.bind_some, get?_spare hs hne, hpos]

/-- **One operation.** -/
theorem step_refines {arrays : Arrays size} {lists lists' : Lists size} (h : Named Spare arrays lists)
    {op : Op size × (Nat → Pod size)} (hlist : listStep lists op = some lists') (hkeeps : Keeps arrays op) :
    ∃ arrays', step arrays op = some arrays' ∧ Named Spare arrays' lists' := by
  obtain ⟨op, fresh⟩ := op
  have hempty : ∃ a : DynamicArray (Pod size), construct? fresh = some a ∧ Spare a [] := by
    obtain ⟨a, hnew, _, hs⟩ := @new?_spare _ [] fresh 16 (Nat.zero_lt_succ 15) (by omega)
    exact ⟨a, hnew, hs⟩
  cases op with
  | construct x =>
      cases hlist
      obtain ⟨a, hnew, hs⟩ := hempty
      exact ⟨_, by rw [step, hnew]; rfl, h.update x hs⟩
  | ofBuffer x data len =>
      cases data with
      | none =>
          cases hlist
          obtain ⟨a, hnew, hs⟩ := hempty
          exact ⟨_, by rw [step, ofBuffer?, hnew]; rfl, h.update x hs⟩
      | some data =>
          rw [listStep] at hlist
          split at hlist
          · rename_i hlen
            cases hlist
            obtain ⟨a, hnew, hs⟩ := @ofBuffer?_spare _ fresh data len hlen.1 hkeeps
            exact ⟨_, by rw [step, hnew]; rfl, h.update x hs⟩
          · cases hlist
  | copy x y =>
      obtain ⟨ys, hys, rfl⟩ := Option.map_eq_some_iff.mp hlist
      exact h.modify x hys fun b _ hs => copy?_spare hs
  | assign x y =>
      obtain ⟨xs, hxs, hrest⟩ := Option.bind_eq_some_iff.mp hlist
      obtain ⟨ys, hys, rfl⟩ := Option.map_eq_some_iff.mp hrest
      by_cases hself : x = y
      · subst hself
        rw [hxs] at hys
        cases hys
        rw [← hxs, Function.update_eq_self]
        exact ⟨arrays, if_pos rfl, h⟩
      · obtain ⟨arrays', hstep, hnamed⟩ := h.modify x hys fun b _ hs => @copy?_spare _ b ys fresh hs
        exact ⟨arrays', (if_neg hself).trans hstep, hnamed⟩
  | set x pos v =>
      obtain ⟨xs, hxs, hrest⟩ := Option.bind_eq_some_iff.mp hlist
      split at hrest
      · cases hrest
      · rename_i hne
        cases hrest
        exact h.modify x hxs fun a _ hs => set?_spare hs hne pos v
  | pushBack x v =>
      obtain ⟨xs, hxs, hrest⟩ := Option.bind_eq_some_iff.mp hlist
      obtain ⟨c, hc, hrest⟩ := Option.bind_eq_some_iff.mp hrest
      split at hrest
      · cases hrest
        obtain ⟨arrays', hstep, hnamed⟩ := h.modify x hxs fun a ha hs =>
          @pushBackIn_spare _ a xs fresh hs c (v.isOwn x) (hkeeps a ha)
        refine ⟨arrays', ?_, hnamed⟩
        simp only [step, load_eq h hc, Option.bind_some]
        exact hstep
      · cases hrest

/-- **When arrays are lists.** They are, after every sequence of operations, if each step finds the arrays in a state in
    which it keeps them. -/
theorem refines_along {ops : List (Op size × (Nat → Pod size))} {lists : Lists size}
    (hlists : run listStep (fun _ => none) ops = some lists) (h : Along step Keeps (fun _ => none) ops) :
    ∃ arrays, run step (fun _ => none) ops = some arrays ∧ Named Refines arrays lists := by
  obtain ⟨arrays, hrun, hnamed⟩ := simulates_along (fun hR hl hP => step_refines hR hl hP) named_none hlists h
  exact ⟨arrays, hrun, hnamed.imp refines_of_spare⟩

/-- Whether a step keeps the arrays can be looked up in them. -/
instance (arrays : Arrays size) : ∀ op, Decidable (Keeps arrays op)
  | (.ofBuffer _ (some _) len, _) => inferInstanceAs (Decidable (len = 0 ∨ size = 1 ∧ len < 65535))
  | (.pushBack x v, _)            =>
    decidable_of_iff (∀ a ∈ arrays x, a.len + 1 < a.maxLen ∨ a.maxLen < 32768 ∧ v.isOwn x = false) Iff.rfl
  | (.construct _, _)             => isTrue trivial
  | (.ofBuffer _ none _, _)       => isTrue trivial
  | (.copy _ _, _)                => isTrue trivial
  | (.assign _ _, _)              => isTrue trivial
  | (.set _ _ _, _)               => isTrue trivial

/-- An element of two bytes. -/
def pair (a b : UInt8) : Pod 2 := ⟨[a, b], rfl⟩

/-- An array is copied, and the copy grows; an array is assigned to another one, which is then changed; and an element
    of one array is pushed to another. -/
def copiedOps : List (Op 2 × (Nat → Pod 2)) :=
  [.construct 0, .pushBack 0 (.object (pair 1 2)), .copy 1 0, .pushBack 1 (.object (pair 3 4)),
    .pushBack 1 (.object (pair 5 6)), .construct 2, .assign 2 1, .set 2 1 (pair 7 8), .pushBack 0 (.of 2 1),
    .assign 1 1].map fun op => (op, fun _ => pair 0 0)

theorem refines_along_copied : ∃ arrays lists, run step (fun _ => none) copiedOps = some arrays ∧
    run listStep (fun _ => none) copiedOps = some lists ∧ lists 0 = some [pair 1 2, pair 7 8] ∧
    lists 1 = some [pair 1 2, pair 3 4, pair 5 6] ∧ lists 2 = some [pair 1 2, pair 7 8, pair 5 6] ∧
    Named Refines arrays lists := by
  obtain ⟨lists, hlists, h₀, h₁, h₂⟩ : ∃ lists, run listStep (fun _ => none) copiedOps = some lists ∧
      lists 0 = some [pair 1 2, pair 7 8] ∧ lists 1 = some [pair 1 2, pair 3 4, pair 5 6] ∧
      lists 2 = some [pair 1 2, pair 7 8, pair 5 6] := ⟨_, rfl, rfl, rfl, rfl⟩
  obtain ⟨arrays, hrun, hnamed⟩ := refines_along hlists (by decide)
  exact ⟨arrays, lists, hrun, hlists, h₀, h₁, h₂, hnamed⟩

/-- A buffer of one element of two bytes: the second byte is not copied. -/
theorem ofBuffer_cut_short : ∃ (ops : List (Op 2 × (Nat → Pod 2))) (arrays : Arrays 2) (lists : Lists 2),
    run listStep (fun _ => none) ops = some lists ∧ run step (fun _ => none) ops = some arrays ∧
      ¬ Named Refines arrays lists := by
  refine ⟨[(.ofBuffer 0 (some [⟨[1, 2], rfl⟩]) 1, fun _ => ⟨[0, 0], rfl⟩)], _, _, rfl, rfl, fun h => ?_⟩
  cases h 0 with
  | some hr =>
      have helement := hr.element 0 Nat.one_pos
      revert helement
      decide

end DynamicArray

/-! ## `dynamic_string` -/

namespace DynamicString

section Members

/-- `strlen`, of what can be read behind a pointer. -/
def strlen? (data : List UInt8) : Option Nat := if 0 ∈ data then some (cstr data).length else none

/-- `m_data[m_len] = '\0'`. -/
def terminate? (s : DynamicString) : Option DynamicString := s.store? s.len 0

/-- `dynamic_string()`. -/
def construct? (fresh : Nat → UInt8) : Option DynamicString := (new? fresh 0 64 []).bind terminate?

/-- `dynamic_string(NULL, len)`. -/
def ofNull? (fresh : Nat → UInt8) (len : Nat) : Option DynamicString :=
  (new? fresh len (max (len + 1) 64 % 2 ^ 16) []).bind terminate?

/-- `dynamic_string(s, len)`, where `s` is not `NULL`. -/
def ofChars? (fresh : Nat → UInt8) (data : List UInt8) (len : Nat) : Option DynamicString :=
  (if len > 0 then some len else (strlen? data).map (· % 2 ^ 16)).bind fun len =>
  if len ≤ data.length then (new? fresh len ((len + 1) % 2 ^ 16) (data.take len)).bind terminate? else none

/-- The copy constructor. -/
def copyIn? (fresh : Nat → UInt8) (rhs : DynamicString) : Option DynamicString :=
  (rhs.regrow? fresh ((rhs.len + 1) % 2 ^ 16)).bind terminate?

/-- `push_back`. -/
def pushBackIn (fresh : Nat → UInt8) (s : DynamicString) (c : UInt8) : Option DynamicString :=
  (if s.len + 1 ≥ s.maxLen then s.regrow? fresh (s.maxLen * 2 % 2 ^ 16) else some s).bind fun s =>
  (s.store? s.len c).bind fun s => terminate? { s with len := (s.len + 1) % 2 ^ 16 }

/-- `append(data, len, offset)`, where `data` is not `NULL`. If it is the string's `own`, a new allocation gives it back
    before it is read, and what is read must not be what is written. -/
def appendIn (fresh : Nat → UInt8) (own : Bool) (s : DynamicString) (data : List UInt8) (len offset : Nat) :
    Option DynamicString :=
  (if len = 0 then (strlen? data).map (· % 2 ^ 16) else some len).bind fun len =>
  (if (len : Int) ≥ s.maxLen - s.len then if own then none else s.regrow? fresh ((s.len + len + 1) % 2 ^ 16)
    else some s).bind fun s =>
  if offset + len ≤ data.length ∧ (own → offset + len ≤ s.len) ∧ s.len + len ≤ s.data.length then
    terminate? { s with
      len := (s.len + len) % 2 ^ 16
      data := s.data.take s.len ++ ((data.drop offset).take len ++ s.data.drop (s.len + len)) }
  else none

theorem copy?_eq (s : DynamicString) : s.copy? = s.copyIn? fun _ => 0 := by
  rw [copy?, copyIn?, ← realloc?_eq]
  cases hrealloc : s.realloc? ((s.len + 1) % 2 ^ 16) s.len 0 with
  | none => rfl
  | some s' =>
      -- an allocation with the old cells keeps the length
      rw [realloc?] at hrealloc
      split at hrealloc
      · cases hrealloc
        rfl
      · cases hrealloc

theorem pushBack_eq (s : DynamicString) (c : UInt8) : s.pushBack c = s.pushBackIn (fun _ => 0) c := by
  rw [pushBack, pushBackIn, realloc?_eq]
  rfl

/-- The contents with a cell to spare, which holds the NUL. -/
structure Terminated (s : DynamicString) (bytes : List UInt8) : Prop extends Spare s bytes where
  nul : s.data[s.len]? = some 0

variable {s : DynamicString} {bytes : List UInt8} {fresh : Nat → UInt8}

theorem terminate?_spec (h : Spare s bytes) : ∃ s', s.terminate? = some s' ∧ Terminated s' bytes := by
  have halloc := h.alloc
  have hspare := h.spare
  refine ⟨_, if_pos (by omega), ⟨h.len, ?_, ?_, hspare, h.cap⟩, ?_⟩
  · show (s.data.set s.len 0).take s.len = bytes
    rw [List.take_set_of_le (Nat.le_refl _)]
    exact h.contents
  · show (s.data.set s.len 0).length = s.maxLen
    rw [List.length_set, halloc]
  · show (s.data.set s.len 0)[s.len]? = some 0
    rw [List.getElem?_set_self (by omega)]

/-- The cells of a terminated string: its bytes, and a NUL. -/
theorem Terminated.data_eq (h : Terminated s bytes) : ∃ rest, s.data = bytes ++ 0 :: rest := by
  have halloc := h.alloc
  have hspare := h.spare
  have hnul := h.nul
  refine ⟨s.data.drop (s.len + 1), ?_⟩
  rw [List.getElem?_eq_getElem (by omega), Option.some.injEq] at hnul
  have hdrop := List.drop_eq_getElem_cons (show s.len < s.data.length by omega)
  rw [hnul] at hdrop
  rw [← hdrop, ← h.contents, toList, List.take_append_drop]

theorem new?_terminated {maxLen : Nat} (hroom : bytes.length < maxLen) (hcap : maxLen < 2 ^ 16) :
    ∃ s, (new? fresh bytes.length maxLen bytes).bind terminate? = some s ∧ Terminated s bytes := by
  obtain ⟨s, hnew, _, hs⟩ := @new?_spare _ bytes fresh maxLen hroom hcap
  rw [hnew, Option.bind_some]
  exact terminate?_spec hs

theorem construct?_terminated : ∃ s, construct? fresh = some s ∧ Terminated s [] :=
  new?_terminated (Nat.zero_lt_succ 63) (by omega)

/-- The bytes of a string made of a length alone are what the memory held. -/
theorem ofNull?_terminated {len : Nat} (hlen : len < 65535) :
    ∃ s, ofNull? fresh len = some s ∧ Terminated s ((List.range len).map fresh) := by
  have hmax : len < max (len + 1) 64 := Nat.lt_of_lt_of_le (Nat.lt_succ_self len) (Nat.le_max_left _ _)
  have hcap : max (len + 1) 64 < 2 ^ 16 := Nat.max_lt.mpr ⟨by omega, by omega⟩
  have hmod : max (len + 1) 64 % 2 ^ 16 = max (len + 1) 64 := Nat.mod_eq_of_lt hcap
  have hnil : ([] : List UInt8).length ≤ max (len + 1) 64 := Nat.zero_le _
  rw [ofNull?, hmod, new?, if_pos hnil, Option.bind_some]
  refine terminate?_spec ⟨?_, ?_, ?_, hmax, hcap⟩
  · rw [List.length_map, List.length_range]
  · show (([] : List UInt8) ++ ((List.range _).map fresh).drop 0).take len = _
    rw [List.nil_append, List.drop_zero, ← List.map_take, List.take_range, Nat.min_eq_left (Nat.le_of_lt hmax)]
  · simp

theorem ofChars?_terminated {data : List UInt8} {len : Nat} (hpos : len > 0) (hread : len ≤ data.length)
    (hlen : len < 65535) : ∃ s, ofChars? fresh data len = some s ∧ Terminated s (data.take len) := by
  have htaken : (data.take len).length = len := by
    rw [List.length_take]
    omega
  rw [ofChars?, if_pos hpos, Option.bind_some, if_pos hread, Nat.mod_eq_of_lt (by omega)]
  have hnew := @new?_terminated (data.take len) fresh (len + 1) (by omega) (by omega)
  rw [htaken] at hnew
  exact hnew

theorem strlen?_spec {data : List UInt8} {n : Nat} (h : strlen? data = some n) :
    n = (cstr data).length ∧ n ≤ data.length ∧ data.take n = cstr data := by
  rw [strlen?] at h
  split at h
  · cases h
    exact ⟨rfl, cstr_length_le data, (List.prefix_iff_eq_take.mp (List.takeWhile_prefix _)).symm⟩
  · cases h

theorem ofChars?_strlen {data : List UInt8} {n : Nat} (hdata : strlen? data = some n) (hn : n < 65535) :
    ∃ s, ofChars? fresh data 0 = some s ∧ Terminated s (cstr data) := by
  obtain ⟨hlen, hread, htake⟩ := strlen?_spec hdata
  rw [ofChars?, if_neg (Nat.lt_irrefl 0), hdata, Option.map_some, Option.bind_some, Nat.mod_eq_of_lt (by omega),
    if_pos hread, Nat.mod_eq_of_lt (by omega), htake, hlen]
  exact new?_terminated (Nat.lt_succ_self _) (by omega)

theorem copyIn?_terminated (h : Spare s bytes) : ∃ s', s.copyIn? fresh = some s' ∧ Terminated s' bytes := by
  have hspare := h.spare
  have hcap := h.cap
  have hlen := h.len
  obtain ⟨s', hnew, _, hs'⟩ := @regrow?_spare _ s bytes fresh h _ (Nat.lt_succ_self _) (by omega)
  rw [copyIn?, Nat.mod_eq_of_lt (by omega), hlen, hnew, Option.bind_some]
  exact terminate?_spec hs'

theorem pushBackIn_terminated (h : Spare s bytes) (c : UInt8) (hroom : s.len + 1 < s.maxLen ∨ s.maxLen < 32768) :
    ∃ s', s.pushBackIn fresh c = some s' ∧ Terminated s' (bytes ++ [c]) := by
  obtain ⟨s₁, hgrow, hs₁, hroom₁⟩ := @Spare.grow _ s bytes fresh h hroom
  obtain ⟨s₂, hstore, hs₂⟩ := hs₁.snoc c hroom₁
  rw [pushBackIn, hgrow, Option.bind_some, hstore, Option.bind_some]
  exact terminate?_spec hs₂

/-- `append` of a number of bytes that can be read: it makes the room it needs, up to 65534 bytes in all. -/
theorem appendIn_terminated (h : Spare s bytes) {data : List UInt8} {own : Bool} {len offset n : Nat}
    (hn : (if len = 0 then (strlen? data).map (· % 2 ^ 16) else some len) = some n) (hread : offset + n ≤ data.length)
    (htotal : s.len + n < 65535) (hown : own → s.len + n < s.maxLen ∧ offset + n ≤ s.len) :
    ∃ s', s.appendIn fresh own data len offset = some s' ∧ Terminated s' (bytes ++ (data.drop offset).take n) := by
  have hlen := h.len
  have hgrown : ∃ s₁, (if (n : Int) ≥ s.maxLen - s.len then if own then none else
        s.regrow? fresh ((s.len + n + 1) % 2 ^ 16) else some s) = some s₁ ∧ Spare s₁ bytes ∧
        bytes.length + n < s₁.maxLen := by
    by_cases hfull : (n : Int) ≥ s.maxLen - s.len
    · have hother : own = false := by
        by_contra hown'
        have hsmall := (hown (by simpa using hown')).1
        omega
      subst hother
      rw [if_pos hfull, if_neg Bool.false_ne_true, Nat.mod_eq_of_lt (by omega)]
      obtain ⟨s₁, hnew, hmax, hs₁⟩ := @regrow?_spare _ s bytes fresh h (s.len + n + 1) (by omega) (by omega)
      exact ⟨s₁, hnew, hs₁, by omega⟩
    · exact ⟨s, if_neg hfull, h, by omega⟩
  obtain ⟨s₁, hgrow, hs₁, hroom⟩ := hgrown
  have hlen₁ := hs₁.len
  have halloc₁ := hs₁.alloc
  have hadded : ((data.drop offset).take n).length = n := by
    rw [List.length_take, List.length_drop]
    omega
  rw [appendIn, hn, Option.bind_some, hgrow, Option.bind_some,
    if_pos ⟨hread, fun h => by rw [hlen₁, ← hlen]; exact (hown h).2, by omega⟩]
  refine terminate?_spec ?_
  have hmod : (s₁.len + n) % 2 ^ 16 = bytes.length + n := by
    rw [hlen₁]
    exact Nat.mod_eq_of_lt (by omega)
  have hkept : s₁.data.take s₁.len = bytes := hs₁.contents
  refine ⟨?_, ?_, ?_, ?_, hs₁.cap⟩
  · show (s₁.len + n) % 2 ^ 16 = _
    rw [hmod, List.length_append, hadded]
  · show (s₁.data.take s₁.len ++ ((data.drop offset).take n ++ s₁.data.drop (s₁.len + n))).take
      ((s₁.len + n) % 2 ^ 16) = _
    rw [hmod, hkept, ← List.append_assoc, List.take_left' (by rw [List.length_append, hadded])]
  · show (s₁.data.take s₁.len ++ ((data.drop offset).take n ++ s₁.data.drop (s₁.len + n))).length = s₁.maxLen
    rw [hkept, List.length_append, List.length_append, hadded, List.length_drop]
    omega
  · show (s₁.len + n) % 2 ^ 16 < s₁.maxLen
    rw [hmod]
    exact hroom

end Members

/-! ### Every run -/

/-- A `const char*`: `NULL`, readable bytes, or the `data()` of a string. -/
inductive Chars
  | null
  | buffer (bytes : List UInt8)
  | of (y : Nat)

/-- The operations; a string has a number for a name. `append` without a length is the call `append(data)`. -/
inductive Op
  | construct (x : Nat)
  | ofChars (x : Nat) (s : Chars) (len : Nat)
  | copy (x y : Nat)
  | assign (x y : Nat)
  | pushBack (x : Nat) (c : UInt8)
  | append (x : Nat) (data : Chars) (len : Option Nat) (offset : Nat)

abbrev Strings := Nat → Option DynamicString

abbrev Texts := Nat → Option (List UInt8)

/-- What can be read behind a pointer that is not `NULL`. -/
def Chars.data (strings : Strings) : Chars → Option (List UInt8)
  | .null         => none
  | .buffer bytes => some bytes
  | .of y         => (strings y).map fun s => DynamicCells.data s

/-- It is the allocation of `x`. -/
def Chars.isOwn (x : Nat) : Chars → Bool
  | .of y => x = y
  | _     => false

/-- An operation, and what the memory that it is given held. -/
def step (strings : Strings) : Op × (Nat → UInt8) → Option Strings
  | (.construct x, fresh)         => (construct? fresh).map fun s => Function.update strings x (some s)
  | (.ofChars x .null len, fresh) => (ofNull? fresh len).map fun s => Function.update strings x (some s)
  | (.ofChars x c len, fresh)     =>
    (c.data strings).bind fun data => (ofChars? fresh data len).map fun s => Function.update strings x (some s)
  | (.copy x y, fresh)            =>
    (strings y).bind fun t => (t.copyIn? fresh).map fun s => Function.update strings x (some s)
  | (.assign x y, fresh)          =>
    -- `&rhs != this`
    if x = y then some strings
    else (strings y).bind fun t => (t.copyIn? fresh).map fun s => Function.update strings x (some s)
  | (.pushBack x c, fresh)        =>
    (strings x).bind fun s => (s.pushBackIn fresh c).map fun s => Function.update strings x (some s)
  | (.append _ .null _ _, _)      => some strings
  | (.append x c len offset, fresh) =>
    (strings x).bind fun s => (c.data strings).bind fun data =>
    (s.appendIn fresh (c.isOwn x) data (len.getD 0) offset).map fun s => Function.update strings x (some s)

/-- The bytes behind a pointer. -/
def Chars.bytes (texts : Texts) : Chars → Option (List UInt8)
  | .null         => none
  | .buffer bytes => some bytes
  | .of y         => texts y

/-- The bytes in front of the first NUL. -/
def Chars.text (texts : Texts) : Chars → Option (List UInt8)
  | .null         => none
  | .buffer bytes => if 0 ∈ bytes then some (cstr bytes) else none
  | .of y         => (texts y).map cstr

/-- What the operations do to byte strings. `none` are the calls outside their contract: a string that does not exist,
    bytes that are not there, a length above 65535. Without a length, what is meant is a C string; with one, that many
    bytes. -/
def textStep (texts : Texts) : Op × (Nat → UInt8) → Option Texts
  | (.construct x, _)             => some (Function.update texts x (some []))
  | (.ofChars x .null len, fresh) =>
    if len < 2 ^ 16 then some (Function.update texts x (some ((List.range len).map fresh))) else none
  | (.ofChars x c len, _)         =>
    if len = 0 then
      (c.text texts).bind fun text => if text.length < 2 ^ 16 then some (Function.update texts x (some text)) else none
    else
      (c.bytes texts).bind fun bytes =>
      if len ≤ bytes.length ∧ len < 2 ^ 16 then some (Function.update texts x (some (bytes.take len))) else none
  | (.copy x y, _)                => (texts y).map fun text => Function.update texts x (some text)
  | (.assign x y, _)              =>
    (texts x).bind fun _ => (texts y).map fun text => Function.update texts x (some text)
  | (.pushBack x c, _)            =>
    (texts x).bind fun text =>
    if text.length < 2 ^ 16 - 1 then some (Function.update texts x (some (text ++ [c]))) else none
  | (.append x .null _ _, _)      => (texts x).map fun _ => texts
  | (.append x c none offset, _)  =>
    (texts x).bind fun text => (c.text texts).bind fun added =>
    if offset = 0 ∧ text.length + added.length < 2 ^ 16 then some (Function.update texts x (some (text ++ added)))
    else none
  | (.append x c (some len) offset, _) =>
    (texts x).bind fun text => (c.bytes texts).bind fun bytes =>
    if offset + len ≤ bytes.length ∧ text.length + len < 2 ^ 16 then
      some (Function.update texts x (some (text ++ (bytes.drop offset).take len)))
    else none

/-- **A string is its bytes.** The size and the bytes are those of the byte string, with a NUL behind the last, and the
    allocation has `m_max_len` bytes. -/
structure Refines (s : DynamicString) (bytes : List UInt8) : Prop where
  size_eq : s.len = bytes.length
  contents : s.toList = bytes
  nul : s.data[s.len]? = some 0
  alloc : s.data.length = s.maxLen

theorem refines_of_terminated {s : DynamicString} {bytes : List UInt8} (h : Terminated s bytes) : Refines s bytes :=
  ⟨h.len, h.contents, h.nul, h.alloc⟩

/-- How many bytes `append` is to add. -/
def Chars.count (strings : Strings) (c : Chars) : Option Nat → Option Nat
  | none     => (c.data strings).bind strlen?
  | some len => some len

/-- The steps that keep the strings: lengths, also in all, below 65535; a `push_back` that finds room, or doubles a
    capacity below 32768; and an `append` that, if its length is given and 0, has an empty C string, and, if it appends
    the string to itself, finds room. -/
def Keeps (strings : Strings) : Op × (Nat → UInt8) → Prop
  | (.ofChars _ (.of _) _, _)         => True
  | (.ofChars _ (.buffer bytes) 0, _) => (cstr bytes).length < 65535
  | (.ofChars _ _ len, _)             => len < 65535
  | (.pushBack x _, _)                => ∀ s, strings x = some s → s.len + 1 < s.maxLen ∨ s.maxLen < 32768
  | (.append _ .null _ _, _)          => True
  | (.append x c len _, _)            => ∀ s, strings x = some s → ∀ n, c.count strings len = some n →
    s.len + n < 65535 ∧ (c.isOwn x → s.len + n < s.maxLen) ∧
      (len = some 0 → ∃ k, (c.data strings).bind strlen? = some k ∧ k % 2 ^ 16 = 0)
  | _                                 => True

theorem strlen?_of_data_eq {data bytes rest : List UInt8} (h : data = bytes ++ 0 :: rest) :
    strlen? data = some (cstr bytes).length := by
  have hcstr : cstr (bytes ++ 0 :: rest) = cstr bytes := by
    induction bytes generalizing data with
    | nil => rfl
    | cons c bytes ih =>
        unfold cstr at ih ⊢
        rw [List.cons_append, List.takeWhile_cons, List.takeWhile_cons, ih rfl]
  rw [h, strlen?, if_pos (by simp), hcstr]

variable {strings : Strings} {texts : Texts} {c : Chars}

/-- The bytes of a text can be read. -/
theorem data_of_bytes (h : Named Terminated strings texts) {bytes : List UInt8} (hc : c.bytes texts = some bytes) :
    ∃ data, c.data strings = some data ∧ bytes <+: data := by
  cases c with
  | null => cases hc
  | buffer b =>
      cases hc
      exact ⟨bytes, rfl, List.prefix_rfl⟩
  | of y =>
      obtain ⟨s, hs, hterminated⟩ := h.get hc
      obtain ⟨rest, hdata⟩ := hterminated.data_eq
      exact ⟨s.data, by rw [Chars.data, hs]; rfl, hdata ▸ List.prefix_append _ _⟩

theorem data_of_text (h : Named Terminated strings texts) {text : List UInt8} (hc : c.text texts = some text) :
    ∃ data, c.data strings = some data ∧ strlen? data = some text.length ∧ data.take text.length = text := by
  cases c with
  | null => cases hc
  | buffer b =>
      rw [Chars.text] at hc
      split at hc
      · cases hc
        have hstrlen : strlen? b = some (cstr b).length := if_pos ‹_›
        exact ⟨b, rfl, hstrlen, (strlen?_spec hstrlen).2.2⟩
      · cases hc
  | of y =>
      obtain ⟨ys, hys, rfl⟩ := Option.map_eq_some_iff.mp hc
      obtain ⟨s, hs, hterminated⟩ := h.get hys
      obtain ⟨rest, hdata⟩ := hterminated.data_eq
      have hstrlen := strlen?_of_data_eq hdata
      have htext : cstr ys <+: s.data := hdata ▸ (List.takeWhile_prefix _).trans (List.prefix_append _ _)
      exact ⟨s.data, by rw [Chars.data, hs]; rfl, hstrlen, (List.prefix_iff_eq_take.mp htext).symm⟩

theorem prefix_slice {bytes data : List UInt8} (h : bytes <+: data) {offset len : Nat}
    (hin : offset + len ≤ bytes.length) :
    offset + len ≤ data.length ∧ (data.drop offset).take len = (bytes.drop offset).take len := by
  obtain ⟨rest, rfl⟩ := h
  rw [List.drop_append_of_le_length (by omega), List.take_append_of_le_length (by rw [List.length_drop]; omega),
    List.length_append]
  exact ⟨by omega, rfl⟩

/-- The constructor from characters of which `len` are asked for, or a C string. -/
theorem ofChars_refines (h : Named Terminated strings texts) {fresh : Nat → UInt8} {x len : Nat} {texts' : Texts}
    (hnull : c ≠ .null) (htext : textStep texts (.ofChars x c len, fresh) = some texts')
    (hshort : ∀ text, c.text texts = some text → len = 0 → text.length < 65535)
    (hlen : ∀ bytes, c.bytes texts = some bytes → len ≤ bytes.length → len ≠ 0 → len < 65535) :
    ∃ strings', step strings (.ofChars x c len, fresh) = some strings' ∧ Named Terminated strings' texts' := by
  have htext' : (if len = 0 then
        (c.text texts).bind fun text =>
        if text.length < 2 ^ 16 then some (Function.update texts x (some text)) else none
      else (c.bytes texts).bind fun bytes =>
        if len ≤ bytes.length ∧ len < 2 ^ 16 then some (Function.update texts x (some (bytes.take len))) else none) =
      some texts' := by
    cases c with
    | null => exact absurd rfl hnull
    | buffer b => exact htext
    | of y => exact htext
  have hstep : step strings (.ofChars x c len, fresh) =
      (c.data strings).bind fun data => (ofChars? fresh data len).map fun s => Function.update strings x (some s) := by
    cases c with
    | null => exact absurd rfl hnull
    | buffer b => rfl
    | of y => rfl
  by_cases hzero : len = 0
  · subst hzero
    rw [if_pos rfl] at htext'
    obtain ⟨text, hc, hrest⟩ := Option.bind_eq_some_iff.mp htext'
    split at hrest
    · cases hrest
      obtain ⟨data, hdata, hstrlen, htake⟩ := data_of_text h hc
      obtain ⟨s, hnew, hs⟩ := @ofChars?_strlen fresh data _ hstrlen (hshort text hc rfl)
      rw [← (strlen?_spec hstrlen).2.2, htake] at hs
      exact ⟨_, by rw [hstep, hdata, Option.bind_some, hnew]; rfl, h.update x hs⟩
    · cases hrest
  · rw [if_neg hzero] at htext'
    obtain ⟨bytes, hc, hrest⟩ := Option.bind_eq_some_iff.mp htext'
    split at hrest
    · rename_i hin
      cases hrest
      obtain ⟨data, hdata, hprefix⟩ := data_of_bytes h hc
      obtain ⟨hread, hsame⟩ := @prefix_slice bytes data hprefix 0 len (by omega)
      obtain ⟨s, hnew, hs⟩ := @ofChars?_terminated fresh data len (Nat.pos_of_ne_zero hzero) (by omega)
        (hlen bytes hc hin.1 hzero)
      rw [List.drop_zero, List.drop_zero] at hsame
      rw [hsame] at hs
      exact ⟨_, by rw [hstep, hdata, Option.bind_some, hnew]; rfl, h.update x hs⟩
    · cases hrest

/-- What is appended of the string itself is in front of its end. -/
theorem bytes_length_own {x : Nat} {text bytes : List UInt8} (hself : c.isOwn x) (hx : texts x = some text)
    (hc : c.bytes texts = some bytes) : bytes.length ≤ text.length := by
  cases c with
  | null => cases hc
  | buffer b => cases hself
  | of y =>
      obtain rfl : x = y := of_decide_eq_true hself
      cases hx.symm.trans hc
      exact Nat.le_refl _

theorem text_length_own {x : Nat} {text added : List UInt8} (hself : c.isOwn x) (hx : texts x = some text)
    (hc : c.text texts = some added) : added.length ≤ text.length := by
  cases c with
  | null => cases hc
  | buffer b => cases hself
  | of y =>
      obtain ⟨ys, hys, rfl⟩ := Option.map_eq_some_iff.mp hc
      exact Nat.le_trans (cstr_length_le ys) (bytes_length_own hself hx hys)

/-- `append` of characters: the C string, or as many bytes as are asked for. -/
theorem append_refines (h : Named Terminated strings texts) {fresh : Nat → UInt8} {x offset : Nat} {len : Option Nat}
    {texts' : Texts} (hnull : c ≠ .null) (htext : textStep texts (.append x c len offset, fresh) = some texts')
    (hkeeps : ∀ s, strings x = some s → ∀ n, c.count strings len = some n →
      s.len + n < 65535 ∧ (c.isOwn x → s.len + n < s.maxLen) ∧
        (len = some 0 → ∃ k, (c.data strings).bind strlen? = some k ∧ k % 2 ^ 16 = 0)) :
    ∃ strings', step strings (.append x c len offset, fresh) = some strings' ∧ Named Terminated strings' texts' := by
  have hstep : step strings (.append x c len offset, fresh) =
      (strings x).bind fun s => (c.data strings).bind fun data =>
      (s.appendIn fresh (c.isOwn x) data (len.getD 0) offset).map fun s => Function.update strings x (some s) := by
    cases c with
    | null => exact absurd rfl hnull
    | buffer b => rfl
    | of y => rfl
  cases len with
  | none =>
      -- without a length the source takes `strlen`, so what is appended ends at the first NUL
      have htext' : ((texts x).bind fun text => (c.text texts).bind fun added =>
          if offset = 0 ∧ text.length + added.length < 2 ^ 16 then some (Function.update texts x (some (text ++ added)))
          else none) = some texts' := by
        cases c with
        | null => exact absurd rfl hnull
        | buffer b => exact htext
        | of y => exact htext
      obtain ⟨text, hx, hadd⟩ := Option.bind_eq_some_iff.mp htext'
      obtain ⟨added, hc, hrest⟩ := Option.bind_eq_some_iff.mp hadd
      split at hrest
      · rename_i hin
        obtain ⟨rfl, htotal⟩ := hin
        cases hrest
        obtain ⟨s, hs, hterminated⟩ := h.get hx
        obtain ⟨data, hdata, hstrlen, htake⟩ := data_of_text h hc
        obtain ⟨hfit, hown, _⟩ := hkeeps s hs added.length (by rw [Chars.count, hdata]; exact hstrlen)
        have hn : (if 0 = 0 then (strlen? data).map (· % 2 ^ 16) else some 0) = some added.length := by
          rw [if_pos rfl, hstrlen, Option.map_some, Nat.mod_eq_of_lt (by omega)]
        have hread : 0 + added.length ≤ data.length := by
          rw [Nat.zero_add]
          exact (strlen?_spec hstrlen).2.1
        obtain ⟨s', happend, hs'⟩ := @appendIn_terminated s text fresh hterminated.toSpare data (c.isOwn x) 0 0
          added.length hn hread hfit fun hself => ⟨hown hself, by
            rw [Nat.zero_add, hterminated.len]
            exact text_length_own hself hx hc⟩
        rw [List.drop_zero, htake] at hs'
        refine ⟨_, ?_, h.update x hs'⟩
        rw [hstep, hs, Option.bind_some, hdata, Option.bind_some, Option.getD_none, happend]
        rfl
      · cases hrest
  | some len =>
      -- a length of 0 is taken for none, and the text is measured after all
      have htext' : ((texts x).bind fun text => (c.bytes texts).bind fun bytes =>
          if offset + len ≤ bytes.length ∧ text.length + len < 2 ^ 16 then
            some (Function.update texts x (some (text ++ (bytes.drop offset).take len)))
          else none) = some texts' := by
        cases c with
        | null => exact absurd rfl hnull
        | buffer b => exact htext
        | of y => exact htext
      obtain ⟨text, hx, hrest⟩ := Option.bind_eq_some_iff.mp htext'
      obtain ⟨bytes, hc, hrest⟩ := Option.bind_eq_some_iff.mp hrest
      split at hrest
      · rename_i hin
        cases hrest
        obtain ⟨s, hs, hterminated⟩ := h.get hx
        obtain ⟨data, hdata, hprefix⟩ := data_of_bytes h hc
        obtain ⟨hread, hsame⟩ := prefix_slice hprefix hin.1
        obtain ⟨hfit, hown, hempty⟩ := hkeeps s hs len rfl
        have hn : (if len = 0 then (strlen? data).map (· % 2 ^ 16) else some len) = some len := by
          split
          · rename_i hzero
            subst hzero
            obtain ⟨k, hk, hmod⟩ := hempty rfl
            rw [hdata, Option.bind_some] at hk
            rw [hk, Option.map_some, hmod]
          · rfl
        obtain ⟨s', happend, hs'⟩ := @appendIn_terminated s text fresh hterminated.toSpare data (c.isOwn x) len offset
          len hn hread hfit fun hself => ⟨hown hself, by
            rw [hterminated.len]
            exact Nat.le_trans hin.1 (bytes_length_own hself hx hc)⟩
        rw [hsame] at hs'
        refine ⟨_, ?_, h.update x hs'⟩
        rw [hstep, hs, Option.bind_some, hdata, Option.bind_some, Option.getD_some, happend]
        rfl
      · cases hrest

/-- **One operation.** -/
theorem step_refines (h : Named Terminated strings texts) {op : Op × (Nat → UInt8)} {texts' : Texts}
    (htext : textStep texts op = some texts') (hkeeps : Keeps strings op) :
    ∃ strings', step strings op = some strings' ∧ Named Terminated strings' texts' := by
  obtain ⟨op, fresh⟩ := op
  cases op with
  | construct x =>
      cases htext
      obtain ⟨s, hnew, hs⟩ := @construct?_terminated fresh
      exact ⟨_, by rw [step, hnew]; rfl, h.update x hs⟩
  | ofChars x c len =>
      cases c with
      | null =>
          rw [textStep] at htext
          split at htext
          · cases htext
            obtain ⟨s, hnew, hs⟩ := @ofNull?_terminated fresh len hkeeps
            exact ⟨_, by rw [step, hnew]; rfl, h.update x hs⟩
          · cases htext
      | buffer b =>
          refine ofChars_refines h Chars.noConfusion htext (fun text hc hzero => ?_) fun _ _ _ hpos => ?_
          · subst hzero
            rw [Chars.text] at hc
            split at hc
            · cases hc
              exact hkeeps
            · cases hc
          · obtain ⟨n, rfl⟩ := Nat.exists_eq_succ_of_ne_zero hpos
            exact hkeeps
      | of y =>
          have hshort : ∀ ys, texts y = some ys → ys.length < 65535 := by
            intro ys hys
            obtain ⟨s, _, hs⟩ := h.get hys
            have hspare := hs.spare
            have hcap := hs.cap
            have hsize := hs.len
            omega
          refine ofChars_refines h Chars.noConfusion htext (fun text hc _ => ?_) fun bytes hc hin _ => ?_
          · obtain ⟨ys, hys, rfl⟩ := Option.map_eq_some_iff.mp hc
            exact Nat.lt_of_le_of_lt (cstr_length_le ys) (hshort ys hys)
          · exact Nat.lt_of_le_of_lt hin (hshort bytes hc)
  | copy x y =>
      obtain ⟨text, hy, rfl⟩ := Option.map_eq_some_iff.mp htext
      exact h.modify x hy fun t _ hs => copyIn?_terminated hs.toSpare
  | assign x y =>
      obtain ⟨old, hx, hrest⟩ := Option.bind_eq_some_iff.mp htext
      obtain ⟨text, hy, rfl⟩ := Option.map_eq_some_iff.mp hrest
      by_cases hself : x = y
      · subst hself
        rw [← hy, Function.update_eq_self]
        exact ⟨strings, if_pos rfl, h⟩
      · obtain ⟨strings', hstep, hnamed⟩ := h.modify x hy fun t _ hs => @copyIn?_terminated t text fresh hs.toSpare
        exact ⟨strings', (if_neg hself).trans hstep, hnamed⟩
  | pushBack x c =>
      obtain ⟨text, hx, hrest⟩ := Option.bind_eq_some_iff.mp htext
      split at hrest
      · cases hrest
        exact h.modify x hx fun t ht hs => pushBackIn_terminated hs.toSpare c (hkeeps t ht)
      · cases hrest
  | append x c len offset =>
      cases c with
      | null =>
          obtain ⟨_, _, rfl⟩ := Option.map_eq_some_iff.mp htext
          exact ⟨strings, rfl, h⟩
      | buffer b => exact append_refines h Chars.noConfusion htext hkeeps
      | of y => exact append_refines h Chars.noConfusion htext hkeeps

/-- **When strings are byte strings.** They are, after every sequence of operations, if each step finds the strings in a
    state in which it keeps them. -/
theorem texts_along {ops : List (Op × (Nat → UInt8))} {texts : Texts}
    (htexts : run textStep (fun _ => none) ops = some texts) (h : Along step Keeps (fun _ => none) ops) :
    ∃ strings, run step (fun _ => none) ops = some strings ∧ Named Refines strings texts := by
  obtain ⟨strings, hrun, hnamed⟩ := @simulates_along _ _ _ step textStep Keeps (Named Terminated)
    (fun hR hl hP => step_refines hR hl hP) _ _ _ _ named_none htexts h
  exact ⟨strings, hrun, hnamed.imp refines_of_terminated⟩

/-- A string to which a character is pushed, and that is then appended to itself. -/
theorem texts_along_twice :
    ∃ strings, run step (fun _ => none) [(.construct 0, fun _ => 9), (.pushBack 0 65, fun _ => 9),
      (.append 0 (.of 0) none 0, fun _ => 9)] = some strings ∧
    Named Refines strings (Function.update (Function.update (Function.update (fun _ => none) 0 (some [])) 0
      (some [65])) 0 (some [65, 65])) := by
  refine texts_along rfl ⟨trivial, fun s hs => ⟨fun t ht => ?_, fun s' hs' => ?_⟩⟩
  · cases hs
    cases ht
    exact Or.inl (by decide)
  · refine ⟨fun t ht n hn => ?_, fun _ _ => trivial⟩
    cases hs
    cases hs'
    cases ht
    cases hn
    decide

/-- The capacity of a string of 65535 characters is 0. -/
theorem ofChars_wraps {bytes : List UInt8} (hlen : bytes.length = 65535) (fresh : Nat → UInt8) :
    (∃ texts, run textStep (fun _ => none) [(.ofChars 0 (.buffer bytes) 65535, fresh)] = some texts) ∧
      run step (fun _ => none) [(.ofChars 0 (.buffer bytes) 65535, fresh)] = none := by
  constructor
  · have htext : textStep (fun _ => none) (.ofChars 0 (.buffer bytes) 65535, fresh) =
        some (Function.update (fun _ => none : Texts) 0 (some (bytes.take 65535))) := by
      rw [textStep, if_neg (by omega), Chars.bytes, Option.bind_some, if_pos (by omega)]
      exact Chars.noConfusion
    exact ⟨_, by rw [run, htext]; rfl⟩
  · have hnone : ofChars? fresh bytes 65535 = none := by
      rw [ofChars?, if_pos (by omega), Option.bind_some, if_pos (by omega), new?,
        if_neg (by rw [List.length_take]; omega)]
      rfl
    have hstep : step (fun _ => none) (.ofChars 0 (.buffer bytes) 65535, fresh) = none := by
      rw [step, Chars.data, Option.bind_some, hnone]
      · rfl
      · exact Chars.noConfusion
    rw [run, hstep]
    rfl

/-- 65535 characters do not become a string; and `append` of no characters appends a C string. -/
theorem wrapped_and_appended :
    ((∃ texts,
        run textStep (fun _ => none) [(.ofChars 0 (.buffer (List.replicate 65535 65)) 65535, fun _ => 0)] = some texts) ∧
      run step (fun _ => none) [(.ofChars 0 (.buffer (List.replicate 65535 65)) 65535, fun _ => 0)] = none) ∧
    ∃ (ops : List (Op × (Nat → UInt8))) (strings : Strings) (texts : Texts),
      run textStep (fun _ => none) ops = some texts ∧ run step (fun _ => none) ops = some strings ∧
      ¬ Named Refines strings texts := by
  refine ⟨ofChars_wraps List.length_replicate _, ?_⟩
  refine ⟨[(.construct 0, fun _ => 0), (.append 0 (.buffer [97, 0]) (some 0) 0, fun _ => 0)], _, _, rfl, rfl, fun h => ?_⟩
  cases h 0 with
  | some hr =>
      have hsize := hr.size_eq
      revert hsize
      decide

end DynamicString

end Mowang
