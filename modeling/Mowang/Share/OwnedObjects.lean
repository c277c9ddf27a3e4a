import Mowang.Share.DynamicObjects
import Mathlib.Data.List.Nodup

/-!
# `Share.OwnedObjects` — `dynamic_array2` against lists

A `dynamic_array2<T>` holds pointers to objects that `new T` made. Arrays have names, objects have the number under
which `new` made them, and `delete` of an object that is not there is `none`, as is a write outside an allocation. The
copy constructor of `T` is a parameter, and so is what an object stands for: `T` may be a `dynamic_string`, or an array
of them.

`Inv` is the invariant: the pointers of an array lead to objects that stand for the elements of its list, and no
pointer is in two places, so an array has its objects for itself. A copy has the capacity of its length; the capacity
that `push_back` makes of it is 0 for a copy of an empty array, and passes through 16 bits.

## Contents
- `ArrayHeap`, `copyObjects`, `deleteObjects`, `step`.
- `copyObjects_spec`, `deleteObjects_spec`, `pushSlot_spec`.
- `ArrayHeap.own_along`.
-/

namespace Mowang

open DynamicCells

/-- The objects that `new` made and `delete` did not take back, by number. -/
structure Objects (T : Type) where
  object : Nat → Option T
  next : Nat

namespace Objects

variable {T : Type}

/-- `new T(…)`. -/
def add (h : Objects T) (t : T) : Objects T := ⟨Function.update h.object h.next (some t), h.next + 1⟩

def free (h : Objects T) (p : Nat) : Objects T := { h with object := Function.update h.object p none }

/-- `new T(*rhs[i])`, for the slots of `rhs` from the first on. -/
def copyObjects (copyT : T → Option T) : List (Option Nat) → Objects T → Option (List (Option Nat) × Objects T)
  | [], h            => some ([], h)
  | slot :: slots, h =>
    slot.bind fun p => (h.object p).bind fun t => (copyT t).bind fun t' =>
    (copyObjects copyT slots (h.add t')).map fun (slots', h') => (some h.next :: slots', h')

/-- `delete m_data[i]`, where it is not `NULL`. -/
def deleteObjects : List (Option Nat) → Objects T → Option (Objects T)
  | [], h              => some h
  | none :: slots, h   => deleteObjects slots h
  | some p :: slots, h => (h.object p).bind fun _ => deleteObjects slots (h.free p)

/-- The slots hold pointers to objects that stand for `vs`. -/
def Point {V : Type} (den : T → V → Prop) (h : Objects T) (slots : List (Option Nat)) (vs : List V) : Prop :=
  List.Forall₂ (fun slot v => ∃ p t, slot = some p ∧ h.object p = some t ∧ den t v) slots vs

variable {V : Type} {den : T → V → Prop} {copyT : T → Option T}

/-- What a change of the objects leaves alone. -/
theorem Point.frame {h h' : Objects T} {slots : List (Option Nat)} {vs : List V} (hp : Point den h slots vs)
    (hsame : ∀ p, some p ∈ slots → h'.object p = h.object p) : Point den h' slots vs := by
  induction hp with
  | nil => exact .nil
  | cons hhead _ ih =>
      obtain ⟨p, t, rfl, ht, hd⟩ := hhead
      refine .cons ⟨p, t, rfl, ?_, hd⟩ (ih fun q hq => hsame q (List.mem_cons_of_mem _ hq))
      rw [hsame p List.mem_cons_self, ht]

/-- **Copies are new.** The objects that are there stay, and the copies get the numbers from `next` on. -/
theorem copyObjects_spec (hcopy : ∀ {t v}, den t v → ∃ t', copyT t = some t' ∧ den t' v) {h : Objects T}
    {slots : List (Option Nat)} {vs : List V} (hp : Point den h slots vs) (hbelow : ∀ p, some p ∈ slots → p < h.next) :
    ∃ h', copyObjects copyT slots h = some ((List.range' h.next slots.length).map some, h') ∧
      Point den h' ((List.range' h.next slots.length).map some) vs ∧ h'.next = h.next + slots.length ∧
      ∀ p < h.next, h'.object p = h.object p := by
  induction slots generalizing h vs with
  | nil =>
      cases hp
      exact ⟨h, rfl, .nil, rfl, fun _ _ => rfl⟩
  | cons slot slots ih =>
      cases hp with
      | @cons _ v _ vs hhead hrest =>
        obtain ⟨p, t, rfl, ht, hd⟩ := hhead
        obtain ⟨t', ht', hd'⟩ := hcopy hd
        have hsame : ∀ q, q < h.next → (h.add t').object q = h.object q := fun q hq =>
          Function.update_of_ne (Nat.ne_of_lt hq) _ _
        have hrest' : Point den (h.add t') slots vs :=
          Point.frame hrest fun q hq => hsame q (hbelow q (List.mem_cons_of_mem _ hq))
        obtain ⟨h', hcopies, hpoint, hnext, hold⟩ := ih hrest' fun q hq =>
          Nat.lt_succ_of_lt (hbelow q (List.mem_cons_of_mem _ hq))
        have hfirst : h'.object h.next = some t' :=
          (hold h.next (Nat.lt_succ_self _)).trans (Function.update_self _ _ _)
        refine ⟨h', ?_, .cons ⟨h.next, t', rfl, hfirst, hd'⟩ hpoint, ?_, fun q hq => ?_⟩
        · rw [copyObjects, Option.bind_some, ht, Option.bind_some, ht', Option.bind_some, hcopies]
          rfl
        · rw [hnext, List.length_cons]
          show h.next + 1 + slots.length = _
          omega
        · rw [hold q (Nat.lt_succ_of_lt hq), hsame q hq]

/-- `delete` of objects that are there, each of them once. -/
theorem deleteObjects_spec {h : Objects T} {slots : List (Option Nat)}
    (hthere : ∀ p, some p ∈ slots → (h.object p).isSome)
    (hnodup : slots.Nodup) :
    ∃ h', deleteObjects slots h = some h' ∧ h'.next = h.next ∧ ∀ p, some p ∉ slots → h'.object p = h.object p := by
  induction slots generalizing h with
  | nil => exact ⟨h, rfl, rfl, fun _ _ => rfl⟩
  | cons slot slots ih =>
      obtain ⟨hnot, hrest⟩ := List.nodup_cons.mp hnodup
      cases slot with
      | none =>
          obtain ⟨h', hdelete, hnext, hold⟩ := ih (fun p hp => hthere p (List.mem_cons_of_mem _ hp)) hrest
          exact ⟨h', hdelete, hnext, fun p hp => hold p fun hmem => hp (List.mem_cons_of_mem _ hmem)⟩
      | some p =>
          obtain ⟨t, ht⟩ := Option.isSome_iff_exists.mp (hthere p List.mem_cons_self)
          have hother : ∀ q, q ≠ p → (h.free p).object q = h.object q := fun q hq => Function.update_of_ne hq _ _
          obtain ⟨h', hdelete, hnext, hold⟩ := @ih (h.free p) (fun q hq => by
            rw [hother q (by rintro rfl; exact hnot hq)]
            exact hthere q (List.mem_cons_of_mem _ hq)) hrest
          refine ⟨h', by rw [deleteObjects, ht, Option.bind_some, hdelete], hnext, fun q hq => ?_⟩
          rw [hold q fun hmem => hq (List.mem_cons_of_mem _ hmem), hother q]
          rintro rfl
          exact hq List.mem_cons_self

end Objects

/-- `dynamic_array2<T>` objects, and the objects in their slots. -/
structure ArrayHeap (T : Type) where
  arrays : Nat → Option (DynamicCells (Option Nat))
  objects : Objects T

namespace ArrayHeap

variable {T V : Type}

/-- What `push_back` gets: an object, with what it stands for, or `*y[pos]`. -/
inductive Element (T V : Type)
  | object (t : T) (v : V)
  | of (y pos : Nat)

/-- The operations; an array has a number for a name. -/
inductive Op (T V : Type)
  | construct (x : Nat)
  | copy (x y : Nat)
  | assign (x y : Nat)
  | pushBack (x : Nat) (e : Element T V)

def init : ArrayHeap T := ⟨fun _ => none, ⟨fun _ => none, 0⟩⟩

/-- The copy constructor. -/
def copyTo (copyT : T → Option T) (w : ArrayHeap T) (x : Nat) (rhs : DynamicCells (Option Nat)) :
    Option (ArrayHeap T) :=
  rhs.cells?.bind fun slots => (w.objects.copyObjects copyT slots).map fun (slots, objects) =>
  ⟨Function.update w.arrays x (some ⟨rhs.len, rhs.len, slots⟩), objects⟩

/-- The object that an argument of `push_back` refers to. -/
def load (w : ArrayHeap T) : Element T V → Option T
  | .object t _ => some t
  | .of y pos   => (w.arrays y).bind fun a => (DynamicArray2.get a pos).bind w.objects.object

/-- The slots of `push_back`, which gets the number of the new object. -/
def pushSlot (a : DynamicCells (Option Nat)) (p : Nat) : Option (DynamicCells (Option Nat)) :=
  DynamicArray2.pushBack some a p

def step (copyT : T → Option T) (w : ArrayHeap T) : Op T V → Option (ArrayHeap T)
  | .construct x  => some { w with arrays := Function.update w.arrays x (some DynamicArray2.mk') }
  | .copy x y     => (w.arrays y).bind (w.copyTo copyT x)
  | .assign x y   =>
    -- `&rhs != this`
    if x = y then some w
    else
      (w.arrays x).bind fun a => a.cells?.bind fun slots => (w.objects.deleteObjects slots).bind fun objects =>
      (w.arrays y).bind (copyTo copyT { w with objects := objects } x)
  | .pushBack x e =>
    (w.arrays x).bind fun a => (w.load e).bind fun t => (copyT t).bind fun t' =>
    (pushSlot a w.objects.next).map fun a => ⟨Function.update w.arrays x (some a), w.objects.add t'⟩

abbrev Lists (V : Type) := Nat → Option (List V)

def value (lists : Lists V) : Element T V → Option V
  | .object _ v => some v
  | .of y pos   => (lists y).bind fun ys => ys[pos]?

/-- What the operations do to lists. `none` are the calls outside their contract: an array or an element that does not
    exist, a length above 65535. -/
def listStep (lists : Lists V) : Op T V → Option (Lists V)
  | .construct x  => some (Function.update lists x (some []))
  | .copy x y     => (lists y).map fun ys => Function.update lists x (some ys)
  | .assign x y   => (lists x).bind fun _ => (lists y).map fun ys => Function.update lists x (some ys)
  | .pushBack x e =>
    (lists x).bind fun xs => (value lists e).bind fun v =>
    if xs.length < 2 ^ 16 - 1 then some (Function.update lists x (some (xs ++ [v]))) else none

/-- The object that is pushed stands for its value. -/
def Denotes (den : T → V → Prop) : Op T V → Prop
  | .pushBack _ (.object t v) => den t v
  | _                         => True

/-- The steps that keep the arrays: a `push_back` that finds room, or doubles a capacity that is not 0 and below 32768.
    -/
def Keeps (w : ArrayHeap T) : Op T V → Prop
  | .pushBack x _ => ∀ a, w.arrays x = some a → a.len + 1 < a.maxLen ∨ 0 < a.maxLen ∧ a.maxLen < 32768
  | _             => True

/-- An array whose slots in use point to the elements. -/
structure Elements (den : T → V → Prop) (h : Objects T) (a : DynamicCells (Option Nat)) (vs : List V) : Prop where
  len : a.len = vs.length
  point : Objects.Point den h a.toList vs
  alloc : a.data.length = a.maxLen
  le : a.len ≤ a.maxLen
  cap : a.maxLen < 2 ^ 16

/-- The slot `i` of the array `x` holds the pointer `p`. -/
def Owns (w : ArrayHeap T) (x i p : Nat) : Prop := ∃ a, w.arrays x = some a ∧ a.toList[i]? = some (some p)

/-- What the operations keep. -/
structure Inv (den : T → V → Prop) (w : ArrayHeap T) (lists : Lists V) : Prop where
  arrays : Named (Elements den w.objects) w.arrays lists
  below : ∀ x i p, w.Owns x i p → p < w.objects.next
  unshared : ∀ x y i j p, w.Owns x i p → w.Owns y j p → x = y ∧ i = j

/-- **Arrays are lists.** The size and the elements of an array are those of its list; all its slots are allocated, and
    its capacity is not below its length; and no two slots hold one pointer, so that copies are independent. -/
structure Refines (den : T → V → Prop) (w : ArrayHeap T) (lists : Lists V) : Prop where
  arrays : Named (fun a vs => a.len = vs.length ∧ a.data.length = a.maxLen ∧ a.len ≤ a.maxLen ∧
    ∀ i v, vs[i]? = some v → ∃ p t, DynamicArray2.get a i = some p ∧ w.objects.object p = some t ∧ den t v) w.arrays lists
  unshared : ∀ x y i j p a b, w.arrays x = some a → w.arrays y = some b → DynamicArray2.get a i = some p →
    DynamicArray2.get b j = some p → x = y ∧ i = j

theorem get_eq (a : DynamicCells (Option Nat)) (i : Nat) : DynamicArray2.get a i = (a.toList[i]?).join := by
  rw [DynamicArray2.get, toList]
  by_cases hi : i < a.len
  · rw [if_neg (by omega), List.getElem?_take_of_lt hi]
  · rw [if_pos (by omega), List.getElem?_eq_none (by rw [List.length_take]; omega)]
    rfl

theorem get_eq_some {a : DynamicCells (Option Nat)} {i p : Nat} :
    DynamicArray2.get a i = some p ↔ a.toList[i]? = some (some p) := by
  rw [get_eq, Option.join_eq_some_iff]

variable {den : T → V → Prop} {copyT : T → Option T} {w : ArrayHeap T} {lists : Lists V}

theorem Elements.element {h : Objects T} {a : DynamicCells (Option Nat)} {vs : List V} (hs : Elements den h a vs)
    {i : Nat}
    {v : V} (hv : vs[i]? = some v) : ∃ p t, a.toList[i]? = some (some p) ∧ h.object p = some t ∧ den t v := by
  obtain ⟨hi, rfl⟩ := List.getElem?_eq_some_iff.mp hv
  have hi' : i < a.toList.length := by
    rw [hs.point.length_eq]
    exact hi
  obtain ⟨p, t, hp, ht, hd⟩ := hs.point.get hi' hi
  exact ⟨p, t, by rw [List.getElem?_eq_getElem hi', ← hp]; rfl, ht, hd⟩

/-- Every slot in use points to an object. -/
theorem Elements.there {h : Objects T} {a : DynamicCells (Option Nat)} {vs : List V} (hs : Elements den h a vs) {slot}
    (hslot : slot ∈ a.toList) : ∃ p, slot = some p ∧ (h.object p).isSome := by
  obtain ⟨i, hi, rfl⟩ := List.getElem_of_mem hslot
  have hi' : i < vs.length := by
    rw [← hs.point.length_eq]
    exact hi
  obtain ⟨p, t, hp, ht, _⟩ := hs.point.get hi hi'
  exact ⟨p, hp, by rw [ht]; rfl⟩

theorem refines_of_inv (h : Inv den w lists) : Refines den w lists where
  arrays := h.arrays.imp fun hs => ⟨hs.len, hs.alloc, hs.le, fun i v hv => by
    obtain ⟨p, t, hp, ht, hd⟩ := hs.element hv
    exact ⟨p, t, get_eq_some.mpr hp, ht, hd⟩⟩
  unshared := by
    intro x y i j p a b ha hb hi hj
    exact h.unshared x y i j p ⟨a, ha, get_eq_some.mp hi⟩ ⟨b, hb, get_eq_some.mp hj⟩

theorem inv_init : Inv den (init : ArrayHeap T) (fun _ => none) where
  arrays := named_none
  below := by
    rintro x i p ⟨a, ha, _⟩
    cases ha
  unshared := by
    rintro x y i j p ⟨a, ha, _⟩
    cases ha

/-- **An array is made anew,** of pointers that no other array has. -/
theorem Inv.put (h : Inv den w lists) {x : Nat} {a : DynamicCells (Option Nat)} {vs : List V} {objects : Objects T}
    (hnext : w.objects.next ≤ objects.next)
    (hold : ∀ y i p, y ≠ x → w.Owns y i p → objects.object p = w.objects.object p)
    (ha : Elements den objects a vs)
    (hfresh : ∀ (i p : Nat), a.toList[i]? = some (some p) → p < objects.next ∧ ∀ y j, y ≠ x → ¬ w.Owns y j p)
    (hinj : ∀ (i j p : Nat), a.toList[i]? = some (some p) → a.toList[j]? = some (some p) → i = j) :
    Inv den ⟨Function.update w.arrays x (some a), objects⟩ (Function.update lists x (some vs)) := by
  -- a slot is one of the new array, or an old one of another
  have howns : ∀ (y i p : Nat), Owns (⟨Function.update w.arrays x (some a), objects⟩ : ArrayHeap T) y i p →
      (y = x ∧ a.toList[i]? = some (some p)) ∨ (y ≠ x ∧ w.Owns y i p) := by
    rintro y i p ⟨b, hb, hp⟩
    dsimp only at hb
    by_cases hy : y = x
    · subst hy
      rw [Function.update_self] at hb
      cases hb
      exact Or.inl ⟨rfl, hp⟩
    · rw [Function.update_of_ne hy] at hb
      exact Or.inr ⟨hy, b, hb, hp⟩
  refine ⟨?_, ?_, ?_⟩
  · intro y
    by_cases hy : y = x
    · subst hy
      dsimp only
      rw [Function.update_self, Function.update_self]
      exact .some ha
    · dsimp only
      rw [Function.update_of_ne hy, Function.update_of_ne hy]
      have hrel := h.arrays y
      have howner : ∀ b, w.arrays y = some b → ∀ i p, b.toList[i]? = some (some p) →
          objects.object p = w.objects.object p := fun b hb i p hp => hold y i p hy ⟨b, hb, hp⟩
      generalize w.arrays y = object at hrel howner ⊢
      generalize lists y = value at hrel ⊢
      cases hrel with
      | none => exact .none
      | some hs =>
          refine .some { hs with point := hs.point.frame fun p hp => ?_ }
          obtain ⟨i, hi⟩ := List.mem_iff_getElem?.mp hp
          exact howner _ rfl i p hi
  · intro y i p hp
    obtain ⟨_, hp⟩ | ⟨_, hp⟩ := howns y i p hp
    · exact (hfresh i p hp).1
    · exact Nat.lt_of_lt_of_le (h.below y i p hp) hnext
  · intro y z i j p hp hq
    obtain ⟨hy, hp⟩ | ⟨hy, hp⟩ := howns y i p hp
    · obtain ⟨hz, hq⟩ | ⟨hz, hq⟩ := howns z j p hq
      · exact ⟨hy.trans hz.symm, hinj i j p hp hq⟩
      · exact absurd hq ((hfresh i p hp).2 z j hz)
    · obtain ⟨hz, hq⟩ | ⟨hz, hq⟩ := howns z j p hq
      · exact absurd hp ((hfresh j p hq).2 y i hy)
      · exact h.unshared y z i j p hp hq

/-- The copy of an array: its objects are new, and its capacity is its length. -/
theorem copyTo_spec (hcopy : ∀ {t v}, den t v → ∃ t', copyT t = some t' ∧ den t' v) {x : Nat}
    {b : DynamicCells (Option Nat)} {ys : List V} (hb : Elements den w.objects b ys)
    (hbelow : ∀ p, some p ∈ b.toList → p < w.objects.next) :
    ∃ a objects, w.copyTo copyT x b = some ⟨Function.update w.arrays x (some a), objects⟩ ∧ Elements den objects a ys ∧
      a.toList = (List.range' w.objects.next ys.length).map some ∧ objects.next = w.objects.next + ys.length ∧
      ∀ p < w.objects.next, objects.object p = w.objects.object p := by
  have hle := hb.le
  have halloc := hb.alloc
  have hlen := hb.len
  have hcells : b.cells? = some b.toList := if_pos (by omega)
  obtain ⟨objects, hcopies, hpoint, hnext, hold⟩ := Objects.copyObjects_spec hcopy hb.point hbelow
  rw [hb.point.length_eq] at hcopies hpoint hnext
  have hslots : ((List.range' w.objects.next ys.length).map some).length = ys.length := by
    rw [List.length_map, List.length_range']
  have htoList : DynamicCells.toList ⟨b.len, b.len, (List.range' w.objects.next ys.length).map some⟩ =
      (List.range' w.objects.next ys.length).map some := List.take_of_length_le (by rw [hslots, hlen])
  refine ⟨_, objects, by rw [copyTo, hcells, Option.bind_some, hcopies]; rfl, ?_, htoList, hnext, hold⟩
  refine ⟨hlen, ?_, ?_, Nat.le_refl _, ?_⟩
  · rw [htoList]
    exact hpoint
  · show ((List.range' w.objects.next ys.length).map some).length = b.len
    rw [hslots, hlen]
  · show b.len < 2 ^ 16
    have hcap := hb.cap
    omega

/-- A pointer is put behind the others where there is room, or room is made: twice a capacity that is not 0 and below
    32768. -/
theorem pushSlot_spec {h : Objects T} {a : DynamicCells (Option Nat)} {vs : List V} (hs : Elements den h a vs)
    (hroom : a.len + 1 < a.maxLen ∨ 0 < a.maxLen ∧ a.maxLen < 32768) (p : Nat) :
    ∃ a', pushSlot a p = some a' ∧ a'.toList = a.toList ++ [some p] ∧ a'.len = vs.length + 1 ∧
      a'.data.length = a'.maxLen ∧ a'.len ≤ a'.maxLen ∧ a'.maxLen < 2 ^ 16 := by
  have hlen := hs.len
  have halloc := hs.alloc
  have hle := hs.le
  have hcap := hs.cap
  -- the array has doubled or not; in either case there is a slot behind the last
  have hgrow : ∃ a₁, (if a.len + 1 ≥ a.maxLen then
        let maxLen := a.maxLen * 2 % 65536
        a.realloc? maxLen (min a.maxLen maxLen) none
      else some a) = some a₁ ∧ a₁.len = a.len ∧ a₁.data.take a.len = a.toList ∧ a₁.data.length = a₁.maxLen ∧
        a.len < a₁.maxLen ∧ a₁.maxLen < 2 ^ 16 := by
    by_cases hfull : a.len + 1 ≥ a.maxLen
    · obtain ⟨hpos, hsmall⟩ := hroom.resolve_left (by omega)
      have hmod : a.maxLen * 2 % 65536 = a.maxLen * 2 := Nat.mod_eq_of_lt (by omega)
      have hmin : min a.maxLen (a.maxLen * 2) = a.maxLen := Nat.min_eq_left (by omega)
      rw [if_pos hfull]
      simp only [hmod, hmin]
      refine ⟨_, if_pos ⟨by omega, by omega⟩, rfl, ?_, ?_, ?_, ?_⟩
      · show (a.data.take a.maxLen ++ _).take a.len = a.data.take a.len
        rw [List.take_append_of_le_length (by rw [List.length_take]; omega), List.take_take, Nat.min_eq_left hle]
      · simp only [List.length_append, List.length_take, List.length_replicate]
        omega
      · show a.len < a.maxLen * 2
        omega
      · show a.maxLen * 2 < 2 ^ 16
        omega
    · exact ⟨a, if_neg hfull, rfl, rfl, halloc, by omega, hcap⟩
  obtain ⟨a₁, hgrow, hlen₁, hkept, halloc₁, hroom₁, hcap₁⟩ := hgrow
  have hmod : (a₁.len + 1) % 65536 = a.len + 1 := by
    rw [hlen₁]
    exact Nat.mod_eq_of_lt (by omega)
  have hstore : a₁.store? a₁.len (some p) = some { a₁ with data := a₁.data.set a₁.len (some p) } := if_pos (by omega)
  refine ⟨⟨(a₁.len + 1) % 65536, a₁.maxLen, a₁.data.set a₁.len (some p)⟩,
    by rw [pushSlot, DynamicArray2.pushBack, hgrow, Option.bind_some, Option.bind_some, hstore, Option.map_some],
    ?_, ?_, ?_, ?_, hcap₁⟩
  · show (a₁.data.set a₁.len (some p)).take ((a₁.len + 1) % 65536) = _
    rw [hmod, List.take_add_one, hlen₁, List.take_set_of_le (Nat.le_refl _), hkept, List.getElem?_set_self (by omega)]
    rfl
  · show (a₁.len + 1) % 65536 = _
    rw [hmod, hlen]
  · show (a₁.data.set a₁.len (some p)).length = a₁.maxLen
    rw [List.length_set, halloc₁]
  · show (a₁.len + 1) % 65536 ≤ a₁.maxLen
    rw [hmod]
    exact hroom₁

theorem load_spec (h : Inv den w lists) {e : Element T V} {v : V} (hv : value lists e = some v)
    (hdenotes : ∀ t v, e = .object t v → den t v) : ∃ t, w.load e = some t ∧ den t v := by
  cases e with
  | object t _ =>
      cases hv
      exact ⟨t, rfl, hdenotes t v rfl⟩
  | of y pos =>
      obtain ⟨ys, hys, hpos⟩ := Option.bind_eq_some_iff.mp hv
      obtain ⟨a, ha, hs⟩ := h.arrays.get hys
      obtain ⟨p, t, hp, ht, hd⟩ := hs.element hpos
      exact ⟨t, by rw [load, ha, Option.bind_some, get_eq_some.mpr hp, Option.bind_some, ht], hd⟩

/-- The pointers of a copy are numbers from `next` on, each in its place. -/
theorem range_slots {n len i p : Nat} (h : ((List.range' n len).map some)[i]? = some (some p)) :
    p = n + i ∧ i < len := by
  rw [List.getElem?_map] at h
  obtain ⟨q, hq, heq⟩ := Option.map_eq_some_iff.mp h
  cases heq
  obtain ⟨hi, rfl⟩ := List.getElem?_eq_some_iff.mp hq
  rw [List.length_range'] at hi
  exact ⟨by rw [List.getElem_range', Nat.one_mul], hi⟩

theorem range_inj {n len i j p : Nat} (hp : ((List.range' n len).map some)[i]? = some (some p))
    (hq : ((List.range' n len).map some)[j]? = some (some p)) : i = j := by
  have hi := (range_slots hp).1
  have hj := (range_slots hq).1
  omega

theorem snoc_slots {slots : List (Option Nat)} {n i p : Nat} (h : (slots ++ [some n])[i]? = some (some p)) :
    slots[i]? = some (some p) ∨ i = slots.length ∧ p = n := by
  by_cases hi : i < slots.length
  · rw [List.getElem?_append_left hi] at h
    exact Or.inl h
  · rw [List.getElem?_append_right (by omega), List.getElem?_singleton] at h
    split at h
    · cases h
      exact Or.inr ⟨by omega, rfl⟩
    · cases h

theorem nodup_toList (h : Inv den w lists) {x : Nat} {a : DynamicCells (Option Nat)} {vs : List V}
    (ha : w.arrays x = some a) (hs : Elements den w.objects a vs) : a.toList.Nodup := by
  rw [List.nodup_iff_getElem?_ne_getElem?]
  intro i j hij hj heq
  obtain ⟨p, hp, _⟩ := hs.there (List.getElem_mem hj)
  have hj' : a.toList[j]? = some (some p) := by rw [List.getElem?_eq_getElem hj, hp]
  have hsame := (h.unshared x x i j p ⟨a, ha, heq.trans hj'⟩ ⟨a, ha, hj'⟩).2
  omega

/-- No array holds a pointer of a copy yet. -/
theorem range_unowned (h : Inv den w lists) {len i p : Nat}
    (hp : ((List.range' w.objects.next len).map some)[i]? = some (some p)) :
    p < w.objects.next + len ∧ ∀ z j, ¬ w.Owns z j p := by
  obtain ⟨rfl, hi⟩ := range_slots hp
  refine ⟨by omega, fun z j hz => ?_⟩
  have hlt := h.below z j _ hz
  omega

/-- An array is made anew, of objects that were made for it. -/
theorem Inv.put_range (h : Inv den w lists) {x len : Nat} {a : DynamicCells (Option Nat)} {vs : List V}
    {objects : Objects T} (hslots : a.toList = (List.range' w.objects.next len).map some)
    (hnext : objects.next = w.objects.next + len)
    (hold : ∀ y i p, y ≠ x → w.Owns y i p → objects.object p = w.objects.object p)
    (ha : Elements den objects a vs) :
    Inv den ⟨Function.update w.arrays x (some a), objects⟩ (Function.update lists x (some vs)) := by
  refine h.put (by omega) hold ha ?_ ?_
  · intro i p hp
    rw [hslots] at hp
    obtain ⟨hlt, hunowned⟩ := range_unowned h hp
    exact ⟨hnext ▸ hlt, fun z j _ => hunowned z j⟩
  · intro i j p hp hq
    rw [hslots] at hp hq
    exact range_inj hp hq

/-- **One operation.** -/
theorem step_inv (hcopy : ∀ {t v}, den t v → ∃ t', copyT t = some t' ∧ den t' v) (h : Inv den w lists) {op : Op T V}
    {lists' : Lists V} (hlist : listStep lists op = some lists') (hdenotes : Denotes den op) (hkeeps : Keeps w op) :
    ∃ w', step copyT w op = some w' ∧ Inv den w' lists' := by
  cases op with
  | construct x =>
      cases hlist
      refine ⟨_, rfl, h.put (Nat.le_refl _) (fun _ _ _ _ _ => rfl) ⟨rfl, .nil, rfl, Nat.zero_le _, by decide⟩ ?_ ?_⟩
      · intro i p hp
        cases hp
      · intro i j p hp
        cases hp
  | copy x y =>
      obtain ⟨ys, hys, rfl⟩ := Option.map_eq_some_iff.mp hlist
      obtain ⟨b, hb, hsb⟩ := h.arrays.get hys
      have hbelow : ∀ p, some p ∈ b.toList → p < w.objects.next := by
        intro p hp
        obtain ⟨i, hi⟩ := List.mem_iff_getElem?.mp hp
        exact h.below y i p ⟨b, hb, hi⟩
      obtain ⟨a, objects, hcopied, ha, hslots, hnext, hold⟩ := copyTo_spec hcopy hsb hbelow (x := x)
      refine ⟨_, by rw [step, hb, Option.bind_some, hcopied], h.put_range hslots hnext ?_ ha⟩
      intro z i p _ hp
      exact hold p (h.below z i p hp)
  | assign x y =>
      obtain ⟨xs, hxs, hrest⟩ := Option.bind_eq_some_iff.mp hlist
      obtain ⟨ys, hys, rfl⟩ := Option.map_eq_some_iff.mp hrest
      by_cases hself : x = y
      · subst hself
        rw [← hys, Function.update_eq_self]
        exact ⟨w, if_pos rfl, h⟩
      obtain ⟨a, ha, hsa⟩ := h.arrays.get hxs
      obtain ⟨b, hb, hsb⟩ := h.arrays.get hys
      have hcells : a.cells? = some a.toList := by
        have hle := hsa.le
        have halloc := hsa.alloc
        exact if_pos (by omega)
      obtain ⟨freed, hdelete, hnextFreed, hkept⟩ := Objects.deleteObjects_spec (fun p hp => by
        obtain ⟨q, hq, hthere⟩ := hsa.there hp
        cases hq
        exact hthere) (nodup_toList h ha hsa)
      -- what other arrays point to was not deleted
      have hother : ∀ z i p, z ≠ x → w.Owns z i p → freed.object p = w.objects.object p := by
        intro z i p hz hp
        refine hkept p fun hmem => hz ?_
        obtain ⟨j, hj⟩ := List.mem_iff_getElem?.mp hmem
        exact (h.unshared z x i j p hp ⟨a, ha, hj⟩).1
      have howned : ∀ p, some p ∈ b.toList → ∃ i, w.Owns y i p := by
        intro p hp
        obtain ⟨i, hi⟩ := List.mem_iff_getElem?.mp hp
        exact ⟨i, b, hb, hi⟩
      have hsb' : Elements den freed b ys := { hsb with
        point := hsb.point.frame fun p hp => by
          obtain ⟨i, hi⟩ := howned p hp
          exact hother y i p (Ne.symm hself) hi }
      obtain ⟨a', objects, hcopied, ha', hslots, hnext, hold⟩ :=
        @copyTo_spec _ _ den copyT { w with objects := freed } hcopy x b ys hsb' fun p hp => by
          obtain ⟨i, hi⟩ := howned p hp
          rw [hnextFreed]
          exact h.below y i p hi
      dsimp only at hslots hnext hold
      rw [hnextFreed] at hslots hnext hold
      refine ⟨_, by rw [step, if_neg hself, ha, Option.bind_some, hcells, Option.bind_some, hdelete, Option.bind_some, hb,
        Option.bind_some, hcopied], h.put_range hslots hnext ?_ ha'⟩
      intro z i p hz hp
      rw [hold p (h.below z i p hp), hother z i p hz hp]
  | pushBack x e =>
      obtain ⟨xs, hxs, hrest⟩ := Option.bind_eq_some_iff.mp hlist
      obtain ⟨v, hv, hrest⟩ := Option.bind_eq_some_iff.mp hrest
      split at hrest
      · cases hrest
        obtain ⟨a, ha, hs⟩ := h.arrays.get hxs
        obtain ⟨t, ht, hd⟩ := load_spec h hv (by
          rintro t v rfl
          exact hdenotes)
        obtain ⟨t', ht', hd'⟩ := hcopy hd
        obtain ⟨a', hpush, hslots, hlen, halloc, hle, hcap⟩ := pushSlot_spec hs (hkeeps a ha) w.objects.next
        have hnew : (w.objects.add t').object w.objects.next = some t' := Function.update_self _ _ _
        have hold : ∀ p, p < w.objects.next → (w.objects.add t').object p = w.objects.object p := fun p hp =>
          Function.update_of_ne (Nat.ne_of_lt hp) _ _
        have hbelow : ∀ i p, a.toList[i]? = some (some p) → p < w.objects.next := fun i p hp => h.below x i p ⟨a, ha, hp⟩
        have hpoint : Objects.Point den (w.objects.add t') a'.toList (xs ++ [v]) := by
          rw [hslots]
          refine List.rel_append (hs.point.frame fun p hp => ?_) (.cons ⟨_, t', rfl, hnew, hd'⟩ .nil)
          obtain ⟨i, hi⟩ := List.mem_iff_getElem?.mp hp
          exact hold p (hbelow i p hi)
        have hlength : a'.len = (xs ++ [v]).length := by rw [hlen, List.length_append, List.length_singleton]
        refine ⟨_,
          by rw [step, ha, Option.bind_some, ht, Option.bind_some, ht', Option.bind_some, hpush, Option.map_some],
          h.put (Nat.le_succ _) ?_ ⟨hlength, hpoint, halloc, hle, hcap⟩ ?_ ?_⟩
        · intro z i p _ hp
          exact hold p (h.below z i p hp)
        · intro i p hp
          rw [hslots] at hp
          obtain hp | ⟨_, rfl⟩ := snoc_slots hp
          · refine ⟨Nat.lt_succ_of_lt (hbelow i p hp), fun z j hz hq => hz ?_⟩
            exact (h.unshared z x j i p hq ⟨a, ha, hp⟩).1
          · exact ⟨Nat.lt_succ_self _, fun z j _ hq => Nat.lt_irrefl _ (h.below z j _ hq)⟩
        · intro i j p hp hq
          rw [hslots] at hp hq
          obtain hp | ⟨hi, rfl⟩ := snoc_slots hp
          · obtain hq | ⟨_, rfl⟩ := snoc_slots hq
            · exact (h.unshared x x i j p ⟨a, ha, hp⟩ ⟨a, ha, hq⟩).2
            · exact absurd (hbelow i _ hp) (Nat.lt_irrefl _)
          · obtain hq | ⟨hj, _⟩ := snoc_slots hq
            · exact absurd (hbelow j _ hq) (Nat.lt_irrefl _)
            · exact hi.trans hj.symm
      · cases hrest

/-- **When arrays of objects are lists.** They are, after every sequence of operations, if each `push_back` finds room,
    or an array in which it makes room. -/
theorem own_along (hcopy : ∀ {t v}, den t v → ∃ t', copyT t = some t' ∧ den t' v) {ops : List (Op T V)}
    (hdenotes : ∀ op ∈ ops, Denotes den op) {lists : Lists V} (hlists : run listStep (fun _ => none) ops = some lists)
    (h : Along (step copyT) Keeps init ops) : ∃ w, run (step copyT) init ops = some w ∧ Refines den w lists := by
  obtain ⟨w, hrun, hinv⟩ := @simulates_along _ _ _ (step copyT) listStep (fun w op => Keeps w op ∧ Denotes den op)
    (Inv den) (fun hR hl hP => step_inv hcopy hR hl hP.2 hP.1) _ _ _ _ inv_init hlists (h.and_labels hdenotes)
  exact ⟨w, hrun, refines_of_inv hinv⟩

/-- A string that is copied, and what it stands for. -/
def StringValue (s : DynamicString) (bytes : List UInt8) : Prop := DynamicCells.Holds s bytes ∧ bytes.length < 65535

theorem copy_string {s : DynamicString} {bytes : List UInt8} (h : StringValue s bytes) :
    ∃ s', s.copy? = some s' ∧ StringValue s' bytes := by
  obtain ⟨s', hcopy, hs'⟩ := DynamicString.copy?_spec h.1 h.2
  exact ⟨s', hcopy, hs', h.2⟩

/-- Whether a step keeps the arrays can be looked up in them. -/
instance (w : ArrayHeap T) : ∀ op : Op T V, Decidable (Keeps w op)
  | .pushBack x _ =>
    decidable_of_iff (∀ a ∈ w.arrays x, a.len + 1 < a.maxLen ∨ 0 < a.maxLen ∧ a.maxLen < 32768) Iff.rfl
  | .construct _  => isTrue trivial
  | .copy _ _     => isTrue trivial
  | .assign _ _   => isTrue trivial

/-- An array of one string. -/
def oneString (bytes : List UInt8) : DynamicStringArray := ⟨1, 2, [some (DynamicString.ofBytes bytes), none]⟩

theorem oneString_holds {bytes : List UInt8} (h : bytes.length < 65535) :
    DynamicArray2.Holds StringValue (oneString bytes) [bytes] :=
  ⟨rfl, .cons ⟨_, rfl, DynamicString.ofBytes_holds bytes, h⟩ .nil⟩

/-- Arrays of arrays of strings: one is copied, and the copy grows by an element of the original; then it is assigned to
    a third one, which grows by itself. -/
def nestedOps : List (Op DynamicStringArray (List (List UInt8))) :=
  [.construct 0, .pushBack 0 (.object (oneString (ascii "iron")) [ascii "iron"]),
    .pushBack 0 (.object DynamicArray2.mk' []),
    .copy 1 0, .pushBack 1 (.of 0 0), .construct 2, .assign 2 1,
    .pushBack 2 (.object (oneString (ascii "wood")) [ascii "wood"]), .assign 0 0]

theorem own_along_nested : ∃ w lists, run (step (DynamicArray2.copy? DynamicString.copy?)) init nestedOps = some w ∧
    run listStep (fun _ => none) nestedOps = some lists ∧ lists 0 = some [[ascii "iron"], []] ∧
    lists 1 = some [[ascii "iron"], [], [ascii "iron"]] ∧
    lists 2 = some [[ascii "iron"], [], [ascii "iron"], [ascii "wood"]] ∧
    Refines (DynamicArray2.Holds StringValue) w lists := by
  obtain ⟨lists, hlists, h₀, h₁, h₂⟩ : ∃ lists, run listStep (fun _ => none) nestedOps = some lists ∧
      lists 0 = some [[ascii "iron"], []] ∧ lists 1 = some [[ascii "iron"], [], [ascii "iron"]] ∧
      lists 2 = some [[ascii "iron"], [], [ascii "iron"], [ascii "wood"]] := ⟨_, rfl, rfl, rfl, rfl⟩
  have hdenotes : ∀ op ∈ nestedOps, Denotes (DynamicArray2.Holds StringValue) op := by
    simp only [nestedOps, List.forall_mem_cons]
    exact ⟨trivial, oneString_holds (by decide), DynamicArray2.Holds.mk'_nil, trivial, trivial, trivial, trivial,
      oneString_holds (by decide), trivial, List.forall_mem_nil _⟩
  obtain ⟨w, hrun, hrefines⟩ := own_along (DynamicArray2.copy?_spec copy_string) hdenotes hlists (by decide)
  exact ⟨w, lists, hrun, hlists, h₀, h₁, h₂, hrefines⟩

/-- The capacity of a copy of an empty array is 0, and twice 0: `push_back` writes outside the allocation. -/
theorem push_to_copy_of_empty : ∃ (ops : List (Op DynamicString (List UInt8))) (lists : Lists (List UInt8)),
    run listStep (fun _ => none) ops = some lists ∧ run (step DynamicString.copy?) init ops = none :=
  ⟨[.construct 0, .copy 1 0, .pushBack 1 (.object DynamicString.mk' [])], _, rfl, rfl⟩

end ArrayHeap

end Mowang
