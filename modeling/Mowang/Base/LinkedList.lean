import Mathlib.Data.List.Nodup
import Mathlib.Logic.Function.Basic
import Mathlib.Tactic.Common

/-!
# `Base.LinkedList` — doubly linked lists that share one heap

A heap gives each allocated node its two links. `Walk links head l` says that following `next` from
`head` passes through exactly the nodes of `l`; `Linked` says in addition that each of them points back
to the one before. `Walk` does not ask about `pre`, so it is what remains of a list while its nodes are
taken out from the front and nobody repairs the node that is now first.

`Lists` is a family of such lists, one for each index, that share no node. One index may be the `hole`:
its list is being walked, its head says nothing any more, and the nodes not yet taken stand under `none`.

## Contents
- `Walk`, `Linked`; a walk is unique and passes through no node twice (`Walk.unique`, `Walk.nodup`).
- `insertAfterHead`, `Splice`, `Linked.insertAfterHead`, `Linked.singleton`.
- `Chain`, whose head may point back anywhere, `insertAfter` and `Chain.insertAfter`.
- `Lists` and what keeps it: `Lists.open_`, `Lists.pop`, `Lists.insert`, `Lists.close`.
-/

namespace LinkedList

/-- The two links of a node. -/
structure Links (α : Type) where
  pre : Option α
  next : Option α
  deriving DecidableEq

variable {α : Type} {links links' : α → Option (Links α)}

/-- Following `next` from `head` passes through the nodes of `l` and ends. -/
def Walk (links : α → Option (Links α)) : Option α → List α → Prop
  | head, []     => head = none
  | head, a :: l => head = some a ∧ ∃ k, links a = some k ∧ Walk links k.next l

/-- The nodes of `l` are linked both ways; the first is `head` and points back to `pre`. -/
def Linked (links : α → Option (Links α)) : Option α → Option α → List α → Prop
  | _, head, []       => head = none
  | pre, head, a :: l => head = some a ∧ ∃ next, links a = some ⟨pre, next⟩ ∧ Linked links (some a) next l

/-! ## Walks -/

theorem Linked.walk {pre head : Option α} {l : List α} (h : Linked links pre head l) :
    Walk links head l := by
  induction l generalizing pre head with
  | nil => exact h
  | cons a l ih =>
      obtain ⟨hhead, next, hnode, hrest⟩ := h
      exact ⟨hhead, ⟨pre, next⟩, hnode, ih hrest⟩

/-- The heap and the head decide the walk. -/
theorem Walk.unique {head : Option α} {l l' : List α} (h : Walk links head l) (h' : Walk links head l') :
    l = l' := by
  induction l generalizing head l' with
  | nil =>
      cases l' with
      | nil => rfl
      | cons a l' => exact absurd (h.symm.trans h'.1) (by simp)
  | cons a l ih =>
      obtain ⟨rfl, k, hnode, hrest⟩ := h
      cases l' with
      | nil => exact absurd h' (by simp [Walk])
      | cons a' l' =>
          obtain ⟨heq, k', hnode', hrest'⟩ := h'
          obtain rfl := Option.some.inj heq
          obtain rfl := Option.some.inj (hnode.symm.trans hnode')
          rw [ih hrest hrest']

/-- From each of its nodes on, a walk is a walk. -/
theorem Walk.suffix {head : Option α} {l₁ l₂ : List α} {a : α} (h : Walk links head (l₁ ++ a :: l₂)) :
    Walk links (some a) (a :: l₂) := by
  induction l₁ generalizing head with
  | nil =>
      obtain ⟨_, hnode⟩ := h
      exact ⟨rfl, hnode⟩
  | cons b l₁ ih =>
      obtain ⟨_, k, _, hrest⟩ := h
      exact ih hrest

/-- **A walk that ends is acyclic.** A node met twice would begin two walks of different length. -/
theorem Walk.nodup {head : Option α} {l : List α} (h : Walk links head l) : l.Nodup := by
  induction l generalizing head with
  | nil => exact List.nodup_nil
  | cons a l ih =>
      obtain ⟨rfl, k, hnode, hrest⟩ := h
      refine List.nodup_cons.mpr ⟨?_, ih hrest⟩
      intro hmem
      obtain ⟨l₁, l₂, rfl⟩ := List.append_of_mem hmem
      have hshort : Walk links (some a) (a :: l₂) := hrest.suffix
      have hlong : Walk links (some a) (a :: (l₁ ++ a :: l₂)) := ⟨rfl, k, hnode, hrest⟩
      have hlen := congrArg List.length (hshort.unique hlong)
      simp only [List.length_cons, List.length_append] at hlen
      omega

theorem Walk.allocated {head : Option α} {l : List α} (h : Walk links head l) {a : α} (ha : a ∈ l) :
    ∃ k, links a = some k := by
  obtain ⟨l₁, l₂, rfl⟩ := List.append_of_mem ha
  obtain ⟨_, k, hnode, _⟩ := h.suffix
  exact ⟨k, hnode⟩

/-- A walk only reads `next`. -/
theorem Walk.congr {head : Option α} {l : List α} (h : Walk links head l)
    (hnext : ∀ a ∈ l, (links' a).map Links.next = (links a).map Links.next) : Walk links' head l := by
  induction l generalizing head with
  | nil => exact h
  | cons a l ih =>
      obtain ⟨rfl, k, hnode, hrest⟩ := h
      have hmap := hnext a (by simp)
      rw [hnode, Option.map_some, Option.map_eq_some_iff] at hmap
      obtain ⟨k', hnode', hk⟩ := hmap
      refine ⟨rfl, k', hnode', ?_⟩
      rw [hk]
      exact ih hrest fun b hb => hnext b (List.mem_cons_of_mem _ hb)

theorem Linked.congr {pre head : Option α} {l : List α} (h : Linked links pre head l)
    (hsame : ∀ a ∈ l, links' a = links a) : Linked links' pre head l := by
  induction l generalizing pre head with
  | nil => exact h
  | cons a l ih =>
      obtain ⟨rfl, next, hnode, hrest⟩ := h
      exact ⟨rfl, next, (hsame a (by simp)).trans hnode,
        ih hrest fun b hb => hsame b (List.mem_cons_of_mem _ hb)⟩

theorem Walk.head_eq_none {head : Option α} {l : List α} (h : Walk links head l) :
    head = none ↔ l = [] := by
  cases l with
  | nil => simp only [show head = none from h]
  | cons a l => simp only [h.1, reduceCtorEq]

/-! ## Insertion behind the first node -/

/-- The new node goes behind the first one, or becomes the first. -/
def insertAfterHead (a : α) : List α → List α
  | []     => [a]
  | h :: l => h :: a :: l

@[simp] theorem mem_insertAfterHead {a b : α} {l : List α} :
    b ∈ insertAfterHead a l ↔ b = a ∨ b ∈ l := by
  cases l with
  | nil => simp [insertAfterHead]
  | cons h l =>
      simp only [insertAfterHead, List.mem_cons]
      exact or_left_comm

theorem Linked.singleton {a : α} (h : links a = some ⟨none, none⟩) : Linked links none (some a) [a] :=
  ⟨rfl, none, h, rfl⟩

/-- The four writes that put `a` between `h` and `next`: both links of the new node, `next` of the one before it, and
    `pre` of the one behind it. -/
structure Splice (links links' : α → Option (Links α)) (h a : α) (next : Option α) : Prop where
  new    : links' a = some ⟨some h, next⟩
  first  : links' h = (links h).map fun k => { k with next := some a }
  second : ∀ b, next = some b → links' b = (links b).map fun k => { k with pre := some a }
  frame  : ∀ b, b ≠ a → b ≠ h → next ≠ some b → links' b = links b

theorem Linked.insertAfterHead {h a : α} {pre next : Option α} {l : List α}
    (hl : Linked links pre (some h) (h :: l)) (hh : links h = some ⟨pre, next⟩) (ha : a ∉ h :: l)
    (hs : Splice links links' h a next) : Linked links' pre (some h) (h :: a :: l) := by
  obtain ⟨_, next', hnode, hrest⟩ := hl
  obtain rfl : next' = next := by
    rw [hh, Option.some.injEq, Links.mk.injEq] at hnode
    exact hnode.2.symm
  refine ⟨rfl, some a, by rw [hs.first, hh]; rfl, rfl, next', hs.new, ?_⟩
  cases l with
  | nil => exact hrest
  | cons b l =>
      obtain ⟨rfl, nb, hb, hrest⟩ := hrest
      have hwalk : Walk links (some h) (h :: b :: l) := ⟨rfl, _, hh, rfl, _, hb, hrest.walk⟩
      have hnodup := hwalk.nodup
      simp only [List.nodup_cons, List.mem_cons, not_or] at hnodup ha
      obtain ⟨⟨-, hhl⟩, hbl, -⟩ := hnodup
      refine ⟨rfl, nb, ?_, ?_⟩
      · rw [hs.second b rfl, hb]
        rfl
      · refine hrest.congr fun c hc => hs.frame c ?_ ?_ ?_
        · rintro rfl
          exact ha.2.2 hc
        · rintro rfl
          exact hhl hc
        · intro heq
          obtain rfl := Option.some.inj heq
          exact hbl hc

/-! ## Insertion anywhere -/

/-- The nodes of `l` from `head` on, each but the first pointing back to the one before. -/
def Chain (links : α → Option (Links α)) (head : Option α) (l : List α) : Prop := ∃ pre, Linked links pre head l

theorem Chain.walk {head : Option α} {l : List α} (h : Chain links head l) : Walk links head l :=
  let ⟨_, hl⟩ := h
  hl.walk

theorem Chain.congr {head : Option α} {l : List α} (h : Chain links head l) (hsame : ∀ a ∈ l, links' a = links a) :
    Chain links' head l :=
  let ⟨pre, hl⟩ := h
  ⟨pre, hl.congr hsame⟩

section InsertAfter

variable [DecidableEq α]

/-- `a` behind the first `h`. -/
def insertAfter (h a : α) : List α → List α
  | []     => []
  | b :: l => if b = h then b :: a :: l else b :: insertAfter h a l

theorem insertAfter_head (h a : α) (l : List α) : insertAfter h a (h :: l) = h :: a :: l := if_pos rfl

theorem sublist_insertAfter (h a : α) (l : List α) : l.Sublist (insertAfter h a l) := by
  induction l with
  | nil => exact List.Sublist.refl _
  | cons b l ih =>
      rw [insertAfter]
      split
      · exact (List.sublist_cons_self a l).cons_cons b
      · exact ih.cons_cons b

theorem mem_insertAfter {h a b : α} {l : List α} : b ∈ insertAfter h a l ↔ b ∈ l ∨ b = a ∧ h ∈ l := by
  induction l with
  | nil => simp [insertAfter]
  | cons c l ih =>
      rw [insertAfter]
      split
      next heq =>
        subst heq
        simp only [List.mem_cons, true_or, and_true]
        tauto
      next hne =>
        rw [List.mem_cons, ih, List.mem_cons, List.mem_cons, or_assoc, or_iff_right (Ne.symm hne)]

variable {h a : α} {p next : Option α}

/-- A list that begins with `h`. -/
theorem Linked.insertAfter_self {pre : Option α} {head : Option α} {l : List α} (hl : Linked links pre head (h :: l))
    (hh : links h = some ⟨p, next⟩) (ha : a ∉ h :: l) (hs : Splice links links' h a next) :
    Linked links' pre head (LinkedList.insertAfter h a (h :: l)) := by
  obtain ⟨rfl, nb, hb, hrest⟩ := hl
  rw [insertAfter_head]
  rw [hb, Option.some.injEq, Links.mk.injEq] at hh
  obtain ⟨rfl, rfl⟩ := hh
  exact Linked.insertAfterHead ⟨rfl, nb, hb, hrest⟩ hb ha hs

/-- A list that does not begin behind `h`. -/
theorem Linked.insertAfter {pre head : Option α} {l : List α} (hl : Linked links pre head l) (hpre : pre ≠ some h)
    (hh : links h = some ⟨p, next⟩) (hback : ∀ b, next = some b → ∃ k, links b = some ⟨some h, k⟩) (ha : a ∉ l)
    (hs : Splice links links' h a next) : Linked links' pre head (LinkedList.insertAfter h a l) := by
  induction l generalizing pre head with
  | nil => exact hl
  | cons b l ih =>
      by_cases hbh : b = h
      · subst hbh
        exact hl.insertAfter_self hh ha hs
      · obtain ⟨rfl, nb, hb, hrest⟩ := hl
        rw [LinkedList.insertAfter, if_neg hbh]
        obtain ⟨hab, hal⟩ := not_or.mp (mt List.mem_cons.mpr ha)
        -- what is behind `h` points back to it
        have hbn : next ≠ some b := by
          intro heq
          obtain ⟨k, hk⟩ := hback b heq
          rw [hb, Option.some.injEq, Links.mk.injEq] at hk
          exact hpre hk.1
        refine ⟨rfl, nb, (hs.frame b (Ne.symm hab) hbh hbn).trans hb, ih hrest ?_ hal⟩
        exact fun heq => hbh (Option.some.inj heq)

/-- **A splice into any chain**, also into one that begins behind `h`. -/
theorem Chain.insertAfter {head : Option α} {l : List α} (hl : Chain links head l) (hh : links h = some ⟨p, next⟩)
    (hback : ∀ b, next = some b → ∃ k, links b = some ⟨some h, k⟩) (ha : a ∉ l) (hs : Splice links links' h a next) :
    Chain links' head (LinkedList.insertAfter h a l) := by
  obtain ⟨pre, hl⟩ := hl
  cases l with
  | nil => exact ⟨pre, hl⟩
  | cons b l =>
      by_cases hbh : b = h
      · subst hbh
        exact ⟨pre, hl.insertAfter_self hh ha hs⟩
      · obtain ⟨rfl, nb, hb, hrest⟩ := hl
        rw [LinkedList.insertAfter, if_neg hbh]
        obtain ⟨hab, hal⟩ := not_or.mp (mt List.mem_cons.mpr ha)
        have htail := hrest.insertAfter (fun heq => hbh (Option.some.inj heq)) hh hback hal hs
        by_cases hbn : next = some b
        · exact ⟨some a, rfl, nb, by rw [hs.second b hbn, hb]; rfl, htail⟩
        · exact ⟨pre, rfl, nb, (hs.frame b (Ne.symm hab) hbh hbn).trans hb, htail⟩

end InsertAfter

/-! ## A family of lists -/

variable {ι : Type}

/-- The lists from `heads`, all linked both ways but the one at `hole`, whose remaining nodes are walked
    from `walk`. No node is in two of them. -/
structure Lists (links : α → Option (Links α)) (heads : ι → Option α) (hole : Option ι) (walk : Option α)
    (lists : Option ι → List α) : Prop where
  linked : ∀ i, hole ≠ some i → Linked links none (heads i) (lists (some i))
  empty  : ∀ i, hole = some i → lists (some i) = []
  walked : Walk links walk (lists none)
  once   : ∀ {x y a}, a ∈ lists x → a ∈ lists y → x = y

variable {heads heads' : ι → Option α} {hole : Option ι} {walk : Option α} {lists : Option ι → List α}

theorem Lists.nodup (h : Lists links heads hole walk lists) (x : Option ι) : (lists x).Nodup := by
  cases x with
  | none => exact h.walked.nodup
  | some i =>
      by_cases hi : hole = some i
      · rw [h.empty i hi]
        exact List.nodup_nil
      · exact (h.linked i hi).walk.nodup

theorem Lists.allocated (h : Lists links heads hole walk lists) {x : Option ι} {a : α} (ha : a ∈ lists x) :
    ∃ k, links a = some k := by
  cases x with
  | none => exact h.walked.allocated ha
  | some i =>
      by_cases hi : hole = some i
      · rw [h.empty i hi] at ha
        exact absurd ha List.not_mem_nil
      · exact (h.linked i hi).walk.allocated ha

/-- The head of the hole says nothing. -/
theorem Lists.heads_congr {i : ι} (h : Lists links heads (some i) walk lists)
    (hsame : ∀ j, j ≠ i → heads' j = heads j) : Lists links heads' (some i) walk lists := by
  refine ⟨?_, h.empty, h.walked, h.once⟩
  intro j hj
  rw [hsame j fun heq => hj (heq ▸ rfl)]
  exact h.linked j hj

/-- Writes that leave the listed nodes alone, except for `pre` of the nodes still to be walked. -/
theorem Lists.congr (h : Lists links heads hole walk lists)
    (hsame : ∀ i, ∀ a ∈ lists (some i), links' a = links a)
    (hnext : ∀ a ∈ lists none, (links' a).map Links.next = (links a).map Links.next) :
    Lists links' heads hole walk lists :=
  ⟨fun i hi => (h.linked i hi).congr (hsame i), h.empty, h.walked.congr hnext, h.once⟩

variable [DecidableEq ι]

/-- Begin to walk the list at `i`. -/
theorem Lists.open_ (h : Lists links heads none none lists) (i : ι) :
    Lists links heads (some i) (heads i)
      (Function.update (Function.update lists (some i) []) none (lists (some i))) := by
  have hnone : lists none = [] := h.walked.head_eq_none.mp rfl
  constructor
  · intro j hj
    have hji : j ≠ i := fun heq => hj (heq ▸ rfl)
    simpa [Function.update, hji] using h.linked j (by simp)
  · rintro j hj
    obtain rfl := Option.some.inj hj
    simp [Function.update]
  · simpa using (h.linked i (by simp)).walk
  · intro x y a hx hy
    -- what stands under `none` now stood under `i` before, and nothing else moved
    have hback : ∀ {x}, a ∈ Function.update (Function.update lists (some i) []) none (lists (some i)) x →
        a ∈ lists (x.getD i) ∧ x ≠ some i := by
      intro x hx
      rcases x with _ | j
      · simpa using hx
      · by_cases hj : j = i
        · subst hj
          simp [Function.update] at hx
        · simp only [Function.update, reduceCtorEq, ↓reduceDIte, Option.some.injEq, hj] at hx
          simpa [hj] using hx
    obtain ⟨hx, hxi⟩ := hback hx
    obtain ⟨hy, hyi⟩ := hback hy
    have hxy := Option.some.inj (h.once hx hy)
    rcases x with _ | x <;> rcases y with _ | y <;> simp_all

/-- Take the first node out of the walk. -/
theorem Lists.pop {a : α} {l : List α} {k : Links α} (h : Lists links heads hole walk lists)
    (hk : links a = some k) (hl : lists none = a :: l) :
    Lists links heads hole k.next (Function.update lists none l) := by
  constructor
  · intro i hi
    simpa using h.linked i hi
  · intro i hi
    simpa using h.empty i hi
  · obtain ⟨-, k', hk', hrest⟩ := hl ▸ h.walked
    obtain rfl := Option.some.inj (hk.symm.trans hk')
    simpa using hrest
  · have hback : ∀ {x b}, b ∈ Function.update lists none l x → b ∈ lists x := by
      intro x b hb
      rcases x with _ | i
      · rw [hl]
        exact List.mem_cons_of_mem _ (by simpa using hb)
      · simpa using hb
    intro x y b hx hy
    exact h.once (hback hx) (hback hy)

/-- The walk has ended, and the list at the hole becomes empty. -/
theorem Lists.close {i : ι} (h : Lists links heads (some i) none lists) :
    Lists links (Function.update heads i none) none none lists := by
  constructor
  · intro j _
    by_cases hj : j = i
    · subst hj
      rw [h.empty j rfl, Function.update_self]
      rfl
    · rw [Function.update_of_ne hj]
      exact h.linked j fun heq => hj (Option.some.inj heq).symm
  · simp
  · exact h.walked
  · exact h.once

/-- **Insertion into one list of the family.** `links'` and `heads'` are what the insertion of `a` behind
    the first node of the list at `i` leaves; the other lists and the walk do not notice. -/
theorem Lists.insert {i : ι} {a : α} (h : Lists links heads hole walk lists) (hi : hole ≠ some i)
    (ha : ∀ x, a ∉ lists x)
    (hlinked : Linked links' none (heads' i) (LinkedList.insertAfterHead a (lists (some i))))
    (hheads : ∀ j, j ≠ i → heads' j = heads j)
    (hframe : ∀ b, b ≠ a → b ∉ lists (some i) → links' b = links b) :
    Lists links' heads' hole walk
      (Function.update lists (some i) (LinkedList.insertAfterHead a (lists (some i)))) := by
  have hother : ∀ x, x ≠ some i → ∀ b ∈ lists x, links' b = links b := by
    intro x hx b hb
    refine hframe b ?_ fun hbi => hx (h.once hb hbi)
    rintro rfl
    exact ha x hb
  constructor
  · intro j hj
    by_cases hji : j = i
    · subst hji
      simpa using hlinked
    · rw [hheads j hji, Function.update_of_ne (by simpa using hji)]
      exact (h.linked j hj).congr (hother _ (by simpa using hji))
  · intro j hj
    have hji : j ≠ i := fun heq => hi (heq ▸ hj)
    rw [Function.update_of_ne (by simpa using hji)]
    exact h.empty j hj
  · rw [Function.update_of_ne (by simp)]
    exact h.walked.congr fun b hb => by rw [hother none (by simp) b hb]
  · intro x y b hx hy
    by_cases hba : b = a
    · subst hba
      have honly : ∀ {x}, b ∈ Function.update lists (some i)
          (LinkedList.insertAfterHead b (lists (some i))) x → x = some i := by
        intro x hx
        by_contra hne
        rw [Function.update_of_ne hne] at hx
        exact ha x hx
      rw [honly hx, honly hy]
    · have hback : ∀ {x}, b ∈ Function.update lists (some i)
          (LinkedList.insertAfterHead a (lists (some i))) x → b ∈ lists x := by
        intro x hx
        by_cases hxi : x = some i
        · subst hxi
          simpa [hba] using hx
        · rwa [Function.update_of_ne hxi] at hx
      exact h.once (hback hx) (hback hy)

end LinkedList
