import Mathlib.Data.List.Count
import Mathlib.Data.List.Forall2
import Mathlib.Data.List.Perm.Basic
import Mathlib.Order.Basic

/-!
# `Base.Lists` — an element taken out of a list

Queues of messages in flight lose an element at any place and get new ones at the end. `countP_eraseIdx`
follows a count through this, and `forall₂_eraseIdx` a second list that says something of each element.

A map from keys to objects can also lose the first entry whose object answers a question, and the answer may
be undefined (`eraseFound`).

A map with a `find` is a list of entries (`setEntry`, `eraseKeys`). A list without two elements of one key takes only
new ones (`addNew`).

## Contents
- `countP_eraseIdx`.
- `forall₂_mono`, `forall₂_eraseIdx`, `forall₂_getElem?`, `forall₂_of_mapM`, `foldlM_isSome_iff`.
- `mem_of_prefix`, `prefix_of_below`.
- `eraseFound`, `eraseFound_eq`, `sublist_of_eraseFound`, `mem_of_eraseFound`, `countP_eraseP`.
- `mem_of_lookup`, `lookup_of_mem`, `lookup_filter_ne`.
- `setEntry`, `lookup_setEntry`, `eraseKeys`, `lookup_eraseKeys`; `exists_split_snoc`.
- `addNew`, `foldl_addNew_eq_iff`.
-/

section Lists

variable {α β : Type} {R S : α → β → Prop} {xs : List α} {ys : List β}

theorem countP_eraseIdx {i : Nat} {x : α} (p : α → Bool) (h : xs[i]? = some x) :
    xs.countP p = (xs.eraseIdx i).countP p + if p x then 1 else 0 := by
  obtain ⟨hi, rfl⟩ := List.getElem?_eq_some_iff.mp h
  rw [← (List.getElem_cons_eraseIdx_perm hi).countP_eq, List.countP_cons]

theorem forall₂_mono (h : List.Forall₂ R xs ys) (himp : ∀ x ∈ xs, ∀ y, R x y → S x y) : List.Forall₂ S xs ys := by
  induction h with
  | nil => exact .nil
  | cons hxy _ ih =>
      exact .cons (himp _ (by simp) _ hxy) (ih fun x hx => himp x (List.mem_cons_of_mem _ hx))

theorem forall₂_eraseIdx (h : List.Forall₂ R xs ys) (i : Nat) : List.Forall₂ R (xs.eraseIdx i) (ys.eraseIdx i) := by
  induction h generalizing i with
  | nil => exact .nil
  | cons hxy htail ih =>
      cases i with
      | zero => exact htail
      | succ i => exact .cons hxy (ih i)

theorem forall₂_getElem? (h : List.Forall₂ R xs ys) {i : Nat} {x : α} {y : β} (hx : xs[i]? = some x)
    (hy : ys[i]? = some y) : R x y := by
  induction h generalizing i with
  | nil => cases hx
  | cons hxy _ ih =>
      cases i with
      | zero =>
          cases hx
          cases hy
          exact hxy
      | succ i => exact ih hx hy

/-- What `mapM` of a partial function makes of a list, element by element. -/
theorem forall₂_of_mapM {f : α → Option β} (h : xs.mapM f = some ys) :
    List.Forall₂ (fun x y => f x = some y) xs ys := by
  induction xs generalizing ys with
  | nil =>
      cases h
      exact .nil
  | cons x xs ih =>
      rw [List.mapM_cons] at h
      obtain ⟨y, hy, h⟩ := Option.bind_eq_some_iff.mp h
      obtain ⟨rest, hrest, h⟩ := Option.bind_eq_some_iff.mp h
      cases h
      exact .cons hy (ih hrest)

/-- A fold goes through if each element is one that its function takes, in whatever state. -/
theorem foldlM_isSome_iff {f : β → α → Option β} {p : α → Prop} (h : ∀ b x, (f b x).isSome ↔ p x) (b : β) :
    (xs.foldlM f b).isSome ↔ ∀ x ∈ xs, p x := by
  induction xs generalizing b with
  | nil => exact iff_of_true rfl fun x hx => absurd hx List.not_mem_nil
  | cons x xs ih =>
      rw [List.foldlM_cons, List.forall_mem_cons, ← h b x]
      cases hx : f b x with
      | none => simp
      | some b' =>
          rw [Option.bind_eq_bind, Option.bind_some, ih b']
          simp

end Lists

section Sorted

variable {α : Type} [Preorder α] {xs ys : List α}

/-- A prefix of a sorted list holds all that is below one of its elements. -/
theorem mem_of_prefix (h : xs <+: ys) (hsorted : ys.Pairwise (· < ·)) {x y : α} (hx : x ∈ xs) (hy : y ∈ ys)
    (hlt : y < x) : y ∈ xs := by
  obtain ⟨zs, rfl⟩ := h
  rcases List.mem_append.mp hy with hy | hy
  · exact hy
  · exact absurd ((List.pairwise_append.mp hsorted).2.2 x hx y hy) (lt_asymm hlt)

/-- Sorted elements of a sorted list that have nothing below them but each other are a prefix of it. -/
theorem prefix_of_below (hxs : xs.Pairwise (· < ·)) (hys : ys.Pairwise (· < ·)) (hsub : ∀ x ∈ xs, x ∈ ys)
    (hbelow : ∀ x ∈ xs, ∀ y ∈ ys, y < x → y ∈ xs) : xs <+: ys := by
  induction xs generalizing ys with
  | nil => exact List.nil_prefix
  | cons x xs ih =>
      obtain ⟨hx, hxs⟩ := List.pairwise_cons.mp hxs
      cases ys with
      | nil => exact absurd (hsub x List.mem_cons_self) List.not_mem_nil
      | cons y ys =>
          obtain ⟨hy, hrest⟩ := List.pairwise_cons.mp hys
          -- the first element of `ys` is one of them, so it is the first of them
          have hxy : x = y := by
            rcases List.mem_cons.mp (hsub x List.mem_cons_self) with heq | hmem
            · exact heq
            · rcases List.mem_cons.mp (hbelow x List.mem_cons_self y List.mem_cons_self (hy x hmem)) with heq | hmem'
              · exact heq.symm
              · exact absurd (hx y hmem') (lt_asymm (hy x hmem))
          subst hxy
          refine List.cons_prefix_cons.mpr ⟨rfl, ih hxs hrest ?_ ?_⟩
          · intro z hz
            rcases List.mem_cons.mp (hsub z (List.mem_cons_of_mem x hz)) with rfl | hmem
            · exact absurd (hx z hz) (lt_irrefl z)
            · exact hmem
          · intro z hz w hw hlt
            rcases List.mem_cons.mp (hbelow z (List.mem_cons_of_mem x hz) w (List.mem_cons_of_mem x hw) hlt) with
              rfl | hmem
            · exact absurd (hy w hw) (lt_irrefl w)
            · exact hmem

end Sorted

section Found

variable {K V : Type} {found : V → Option Bool} {entries entries' : List (K × V)}

/-- The entries without the first one whose value is found; the values up to it are looked at. -/
def eraseFound (found : V → Option Bool) : List (K × V) → Option (List (K × V))
  | []            => some []
  | entry :: rest => (found entry.2).bind fun yes =>
    if yes then some rest else (eraseFound found rest).map (entry :: ·)

theorem eraseFound_eq {p : V → Bool} (h : ∀ entry ∈ entries, found entry.2 = some (p entry.2)) :
    eraseFound found entries = some (entries.eraseP fun entry => p entry.2) := by
  induction entries with
  | nil => rfl
  | cons entry rest ih =>
      have hrest := ih fun e he => h e (List.mem_cons_of_mem entry he)
      rw [eraseFound, h entry List.mem_cons_self, Option.bind_some, List.eraseP_cons, hrest]
      cases p entry.2 <;> rfl

theorem sublist_of_eraseFound (h : eraseFound found entries = some entries') : entries'.Sublist entries := by
  induction entries generalizing entries' with
  | nil =>
      cases h
      exact .slnil
  | cons e rest ih =>
      obtain ⟨yes, _, h⟩ := Option.bind_eq_some_iff.mp h
      cases yes with
      | true =>
          cases h
          exact List.sublist_cons_self e _
      | false =>
          obtain ⟨rest', hrest, rfl⟩ := Option.map_eq_some_iff.mp h
          exact (ih hrest).cons_cons e

theorem mem_of_eraseFound (h : eraseFound found entries = some entries') {entry : K × V}
    (he : entry ∈ entries') : entry ∈ entries := (sublist_of_eraseFound h).subset he

theorem mem_of_lookup [BEq K] [LawfulBEq K] {k : K} {v : V} (h : entries.lookup k = some v) : (k, v) ∈ entries := by
  induction entries with
  | nil => cases h
  | cons e rest ih =>
      rw [List.lookup_cons] at h
      split at h
      · rename_i heq
        cases h
        rw [eq_of_beq heq]
        exact List.mem_cons_self
      · exact List.mem_cons_of_mem e (ih h)

/-- The entries of distinct keys are found. -/
theorem lookup_of_mem [BEq K] [LawfulBEq K] (hnodup : (entries.map Prod.fst).Nodup) {entry : K × V}
    (h : entry ∈ entries) : entries.lookup entry.1 = some entry.2 := by
  induction entries with
  | nil => cases h
  | cons e rest ih =>
      obtain ⟨hnew, hrest⟩ := List.nodup_cons.mp hnodup
      rw [List.lookup_cons]
      rcases List.mem_cons.mp h with rfl | hmem
      · rw [beq_self_eq_true]
      · have hne : entry.1 ≠ e.1 := fun heq => hnew (heq ▸ List.mem_map_of_mem hmem)
        rw [beq_false_of_ne hne]
        exact ih hrest hmem

/-- What is taken out under one key is still there under the others. -/
theorem lookup_filter_ne [BEq K] [LawfulBEq K] [DecidableEq K] {k k' : K} (h : k' ≠ k) :
    (entries.filter (·.1 ≠ k)).lookup k' = entries.lookup k' := by
  induction entries with
  | nil => rfl
  | cons entry rest ih =>
      rw [List.filter_cons, List.lookup_cons]
      by_cases hentry : entry.1 = k
      · rw [if_neg (by simpa using hentry), ih, beq_false_of_ne fun heq => h (heq.trans hentry)]
      · rw [if_pos (by simpa using hentry), List.lookup_cons, ih]

/-- Removing the first element of a kind removes one of them. -/
theorem countP_eraseP {α : Type} (p : α → Bool) (xs : List α) : (xs.eraseP p).countP p = xs.countP p - 1 := by
  induction xs with
  | nil => rfl
  | cons x xs ih =>
      rw [List.eraseP_cons]
      cases hx : p x with
      | true => simp [hx]
      | false => simp [hx, ih]

end Found

/-! ## Maps as lists of entries -/

section Entries

variable {K V : Type} [BEq K] [LawfulBEq K] [DecidableEq K] {entries : List (K × V)}

/-- The map with `v` under `k`. -/
def setEntry (k : K) (v : V) (entries : List (K × V)) : List (K × V) := (k, v) :: entries.filter (·.1 ≠ k)

/-- The map without `keys`, taken out one after the other. -/
def eraseKeys (keys : List K) (entries : List (K × V)) : List (K × V) :=
  keys.foldl (fun entries k => entries.filter (·.1 ≠ k)) entries

theorem lookup_setEntry (k k' : K) (v : V) :
    (setEntry k v entries).lookup k' = if k' = k then some v else entries.lookup k' := by
  rw [setEntry, List.lookup_cons]
  split
  next heq => rw [if_pos (eq_of_beq heq)]
  next hne =>
    have hne' : k' ≠ k := by
      rintro rfl
      simp at hne
    rw [if_neg hne', lookup_filter_ne hne']

omit [BEq K] [LawfulBEq K] in
theorem mem_setEntry {k : K} {v : V} {entry : K × V} :
    entry ∈ setEntry k v entries ↔ entry = (k, v) ∨ entry ∈ entries ∧ entry.1 ≠ k := by
  rw [setEntry, List.mem_cons, List.mem_filter, decide_eq_true_iff]

omit [BEq K] [LawfulBEq K] in
theorem nodup_setEntry (h : (entries.map Prod.fst).Nodup) (k : K) (v : V) :
    ((setEntry k v entries).map Prod.fst).Nodup := by
  rw [setEntry, List.map_cons, List.nodup_cons]
  refine ⟨?_, h.sublist ((List.filter_sublist).map _)⟩
  rw [List.mem_map]
  rintro ⟨entry, hentry, heq⟩
  exact of_decide_eq_true (List.mem_filter.mp hentry).2 heq

omit [BEq K] [LawfulBEq K] in
theorem eraseKeys_sublist (keys : List K) (entries : List (K × V)) : (eraseKeys keys entries).Sublist entries := by
  induction keys generalizing entries with
  | nil => exact List.Sublist.refl _
  | cons k keys ih => exact (ih _).trans List.filter_sublist

theorem lookup_filter_self (k : K) : (entries.filter (·.1 ≠ k)).lookup k = none := by
  rw [List.lookup_eq_none_iff]
  intro entry hentry
  simpa using (of_decide_eq_true (List.mem_filter.mp hentry).2).symm

theorem lookup_eraseKeys (keys : List K) (k : K) :
    (eraseKeys keys entries).lookup k = if k ∈ keys then none else entries.lookup k := by
  induction keys generalizing entries with
  | nil => rw [if_neg List.not_mem_nil, eraseKeys, List.foldl_nil]
  | cons k' keys ih =>
      show (eraseKeys keys (entries.filter (·.1 ≠ k'))).lookup k = _
      rw [ih]
      by_cases hk : k = k'
      · subst hk
        rw [lookup_filter_self, ite_self, if_pos List.mem_cons_self]
      · rw [lookup_filter_ne hk]
        simp only [List.mem_cons, hk, false_or]

end Entries

/-! ## Histories -/

/-- Where an element stands in a list to which another is added. -/
theorem exists_split_snoc {α : Type} {xs : List α} {x y : α} {P : List α → Prop} :
    (∃ before after, xs ++ [x] = before ++ y :: after ∧ P after) ↔
      x = y ∧ P [] ∨ ∃ before after, xs = before ++ y :: after ∧ P (after ++ [x]) := by
  constructor
  · rintro ⟨before, after, heq, hP⟩
    rcases List.eq_nil_or_concat after with rfl | ⟨after, z, rfl⟩
    · obtain ⟨rfl, hxy⟩ := List.append_inj' heq rfl
      exact Or.inl ⟨List.head_eq_of_cons_eq hxy, hP⟩
    · rw [List.concat_eq_append] at heq hP
      rw [← List.cons_append, ← List.append_assoc] at heq
      obtain ⟨rfl, hxz⟩ := List.append_inj' heq rfl
      rw [← List.head_eq_of_cons_eq hxz] at hP
      exact Or.inr ⟨before, after, rfl, hP⟩
  · rintro (⟨rfl, hP⟩ | ⟨before, after, rfl, hP⟩)
    · exact ⟨xs, [], rfl, hP⟩
    · exact ⟨before, after ++ [x], by rw [List.append_assoc, List.cons_append], hP⟩

/-! ## Elements of new keys -/

section AddNew

variable {α κ : Type} [DecidableEq κ] {xs zs : List α}

/-- Add `x` at the end, unless an element has its key. -/
def addNew (key : α → κ) (xs : List α) (x : α) : List α := if xs.any (key · = key x) then xs else xs ++ [x]

variable {key : α → κ}

theorem any_key_iff {x : α} : xs.any (key · = key x) ↔ key x ∈ xs.map key := by
  rw [List.any_eq_true, List.mem_map]
  simp only [decide_eq_true_eq]

theorem prefix_foldl_addNew : xs <+: zs.foldl (addNew key) xs := by
  induction zs generalizing xs with
  | nil => exact List.prefix_refl _
  | cons z zs ih =>
      refine List.IsPrefix.trans ?_ ih
      unfold addNew
      split
      · exact List.prefix_refl _
      · exact List.prefix_append ..

theorem nodup_foldl_addNew (h : (xs.map key).Nodup) : ((zs.foldl (addNew key) xs).map key).Nodup := by
  induction zs generalizing xs with
  | nil => exact h
  | cons z zs ih =>
      apply ih
      unfold addNew
      split
      · exact h
      next hnew =>
          rw [any_key_iff] at hnew
          rw [List.map_append, List.map_singleton]
          refine List.nodup_append.mpr ⟨h, List.pairwise_singleton .., fun a ha b hb heq => hnew ?_⟩
          rwa [← List.mem_singleton.mp hb, ← heq]

/-- What is known already adds nothing. -/
theorem foldl_addNew_of_known (h : ∀ z ∈ zs, key z ∈ xs.map key) : zs.foldl (addNew key) xs = xs := by
  induction zs with
  | nil => rfl
  | cons z zs ih =>
      rw [List.foldl_cons, addNew, if_pos (any_key_iff.mpr (h z List.mem_cons_self))]
      exact ih fun z' hz' => h z' (List.mem_cons_of_mem _ hz')

/-- What is new is added whole. -/
theorem foldl_addNew_of_new (h : ((xs ++ zs).map key).Nodup) : zs.foldl (addNew key) xs = xs ++ zs := by
  induction zs generalizing xs with
  | nil => exact (List.append_nil xs).symm
  | cons z zs ih =>
      have hnew : ¬ xs.any (key · = key z) := by
        rw [any_key_iff]
        intro hmem
        rw [List.map_append] at h
        exact (List.nodup_append.mp h).2.2 _ hmem _ (List.mem_map_of_mem List.mem_cons_self) rfl
      rw [List.foldl_cons, addNew, if_neg hnew, ih (by rwa [List.append_assoc]), List.append_assoc]
      rfl

/-- A list becomes `zs` when all of `zs` is added exactly when it is a part of `zs` from the start, and `zs` has no two
    elements of one key. -/
theorem foldl_addNew_eq_iff (h : (xs.map key).Nodup) :
    zs.foldl (addNew key) xs = zs ↔ xs <+: zs ∧ (zs.map key).Nodup := by
  constructor
  · intro heq
    exact ⟨heq ▸ prefix_foldl_addNew, heq ▸ nodup_foldl_addNew h⟩
  · rintro ⟨⟨ys, rfl⟩, hnodup⟩
    rw [List.foldl_append, foldl_addNew_of_known fun x hx => List.mem_map_of_mem hx, foldl_addNew_of_new hnodup]

end AddNew
