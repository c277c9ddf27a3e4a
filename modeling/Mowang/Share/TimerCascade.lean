import Mowang.Share.TimerWheel

/-!
# `Share.TimerCascade` — a chain is spread over the wheel below

`proc_up_layer_node` walks a chain by `next` and hands each node to `add_node`, which overwrites that
`next`. `Share.TimerTick` follows it in a timer whose wheels are all in order. Here nothing is asked of
the rest of the timer: the nodes of the walk may point back anywhere, the heads of the wheel below too, and
its chains may even meet.

`Spread` says what the loop does to the lists. It is composed of one `Added` for each node of the walk, in
the order of the walk.

## Contents
- `Chains`, `Apart`, `Added`, `Spread`.
- `addNode_chains` — one node; `cascade` — the loop; `cascade_conserves`.
-/

namespace Mowang

open LinkedList (Links Linked Walk Chain insertAfter insertAfter_head sublist_insertAfter mem_insertAfter)

/-! ## The lists of a wheel -/

/-- No node is in two of the first `size` lists. -/
def Apart (size : Nat) (lists : Nat → List Addr) : Prop :=
  ∀ i < size, ∀ j < size, ∀ a ∈ lists i, a ∈ lists j → i = j

/-- `a` was put into list `i`, and nothing was lost or moved. -/
structure Added (size : Nat) (a : Addr) (i : Nat) (lists lists' : Nat → List Addr) : Prop where
  kept   : ∀ j < size, (lists j).Sublist (lists' j)
  new    : a ∈ lists' i
  origin : ∀ j < size, ∀ b ∈ lists' j, b ∈ lists j ∨ b = a
  apart  : Apart size lists → Apart size lists'

/-- Each node of `l` was put where the slots that it has noted send it, and nothing was lost or moved. -/
structure Spread (size : Nat) (f : Nat → Nat → Nat) (data : Addr → Option TimerData) (l : List Addr)
    (lists lists' : Nat → List Addr) : Prop where
  kept   : ∀ j < size, (lists j).Sublist (lists' j)
  new    : ∀ a ∈ l, ∀ n, data a = some n → a ∈ lists' (f n.slotIndex1 n.slotIndex2)
  origin : ∀ j < size, ∀ b ∈ lists' j, b ∈ lists j ∨ b ∈ l
  apart  : Apart size lists → Apart size lists'

section Lists

variable {size i : Nat} {a h : Addr} {l : List Addr} {lists lists' lists'' : Nat → List Addr}

theorem Added.singleton (hi : lists i = []) (ha : ∀ j < size, a ∉ lists j) :
    Added size a i lists (Function.update lists i [a]) where
  kept := by
    intro j _
    by_cases hj : j = i
    · subst hj
      rw [hi]
      exact List.nil_sublist _
    · rw [Function.update_of_ne hj]
  new := by simp
  origin := by
    intro j _ b hb
    by_cases hj : j = i
    · subst hj
      rw [Function.update_self, List.mem_singleton] at hb
      exact .inr hb
    · rw [Function.update_of_ne hj] at hb
      exact .inl hb
  apart := by
    intro hapart j hj k hk b hbj hbk
    by_cases hji : j = i <;> by_cases hki : k = i
    · rw [hji, hki]
    · subst hji
      rw [Function.update_self, List.mem_singleton] at hbj
      rw [Function.update_of_ne hki] at hbk
      exact absurd (hbj ▸ hbk) (ha k hk)
    · subst hki
      rw [Function.update_self, List.mem_singleton] at hbk
      rw [Function.update_of_ne hji] at hbj
      exact absurd (hbk ▸ hbj) (ha j hj)
    · rw [Function.update_of_ne hji] at hbj
      rw [Function.update_of_ne hki] at hbk
      exact hapart j hj k hk b hbj hbk

theorem Added.insertAfter (hi : lists i = h :: l) (ha : ∀ j < size, a ∉ lists j) :
    Added size a i lists fun j => insertAfter h a (lists j) where
  kept j _ := sublist_insertAfter h a (lists j)
  new := by simp [hi, insertAfter_head]
  origin := by
    intro j _ b hb
    obtain hb | ⟨rfl, -⟩ := mem_insertAfter.mp hb
    · exact .inl hb
    · exact .inr rfl
  apart := by
    intro hapart j hj k hk b hbj hbk
    -- where the new node went, `h` was
    obtain hbj | ⟨rfl, hhj⟩ := mem_insertAfter.mp hbj <;> obtain hbk | ⟨heq, hhk⟩ := mem_insertAfter.mp hbk
    · exact hapart j hj k hk b hbj hbk
    · exact absurd (heq ▸ hbj) (ha j hj)
    · exact absurd hbk (ha k hk)
    · exact hapart j hj k hk h hhj hhk

variable {f : Nat → Nat → Nat} {data : Addr → Option TimerData} {n : TimerData}

theorem Spread.nil : Spread size f data [] lists lists where
  kept _ _ := List.Sublist.refl _
  new _ ha := absurd ha List.not_mem_nil
  origin _ _ _ hb := .inl hb
  apart h := h

theorem Spread.cons (hn : data a = some n) (hi : f n.slotIndex1 n.slotIndex2 < size)
    (hadd : Added size a (f n.slotIndex1 n.slotIndex2) lists lists') (h : Spread size f data l lists' lists'') :
    Spread size f data (a :: l) lists lists'' where
  kept j hj := (hadd.kept j hj).trans (h.kept j hj)
  new := by
    intro b hb m hm
    obtain rfl | hb := List.mem_cons.mp hb
    · obtain rfl := Option.some.inj (hn.symm.trans hm)
      exact (h.kept _ hi).subset hadd.new
    · exact h.new b hb m hm
  origin := by
    intro j hj b hb
    obtain hb | hb := h.origin j hj b hb
    · exact (hadd.origin j hj b hb).imp id fun heq => by simp [heq]
    · exact .inr (List.mem_cons_of_mem _ hb)
  apart hapart := h.apart (hadd.apart hapart)

end Lists

namespace Timer

variable {t : Timer} {lower : Layer} {slot : Slot} {index : Nat} {a : Addr} {n : TimerNode} {upper : List Addr}
  {lists : Nat → List Addr}

/-- The chains of one wheel: each ends, and each node that is the `next` of another points back to it. -/
def Chains (t : Timer) (lower : Layer) (lists : Nat → List Addr) : Prop :=
  ∀ i < lower.size, Chain t.links (t.nodes ⟨lower, i⟩) (lists i)

/-! ## One node -/

/-- **`add_node` puts a node into a wheel**, in an empty slot or behind the node that is first there. -/
theorem addNode_chains (hchains : Chains t lower lists) (hindex : index < lower.size)
    (hfresh : ∀ i < lower.size, a ∉ lists i) (ha : t.heap a = some n) :
    ∃ nodes heap lists', t.addNode ⟨lower, index⟩ a = some { t with nodes := nodes, heap := heap } ∧
      Chains { t with nodes := nodes, heap := heap } lower lists' ∧ Added lower.size a index lists lists' ∧
      data { t with nodes := nodes, heap := heap } = t.data ∧ (∀ s, s ≠ ⟨lower, index⟩ → nodes s = t.nodes s) ∧
      ∀ x, x ≠ a → x ∉ lists index → heap x = t.heap x := by
  cases hl : lists index with
  | nil =>
      have hnone : t.nodes ⟨lower, index⟩ = none := (hchains index hindex).walk.head_eq_none.mpr hl
      refine ⟨_, _, _, addNode_empty hindex hnone ha, ?_, Added.singleton hl hfresh, ?_,
        fun s hs => Function.update_of_ne hs _ _, fun x hx _ => Function.update_of_ne hx _ _⟩
      · intro i hi
        by_cases hii : i = index
        · subst hii
          refine ⟨none, ?_⟩
          show Linked _ none (Function.update t.nodes ⟨lower, i⟩ (some a) ⟨lower, i⟩) _
          rw [Function.update_self, Function.update_self]
          exact Linked.singleton (by simp [links])
        · have hne : (⟨lower, i⟩ : Slot) ≠ ⟨lower, index⟩ := fun heq => hii (congrArg Slot.index heq)
          show Chain _ (Function.update t.nodes ⟨lower, index⟩ (some a) ⟨lower, i⟩) _
          rw [Function.update_of_ne hne, Function.update_of_ne hii]
          refine (hchains i hi).congr fun b hb => ?_
          have hba : b ≠ a := fun heq => hfresh i hi (heq ▸ hb)
          simp [links, hba]
      · funext x
        by_cases hx : x = a
        · subst hx
          simp [data, ha]
        · simp [data, hx]
  | cons cur l =>
      obtain ⟨pre, hchain⟩ := hchains index hindex
      rw [hl] at hchain
      have hal : a ∉ cur :: l := fun hmem => hfresh index hindex (hl ▸ hmem)
      obtain ⟨c, hcur, hback, hadd, hsplice, hdata, hframe⟩ := addNode_linked hindex hchain hal ha
      exact ⟨t.nodes, _, _, hadd, fun i hi => (hchains i hi).insertAfter hcur hback (hfresh i hi) hsplice,
        Added.insertAfter hl hfresh, funext hdata, fun _ _ => rfl, hframe⟩

/-! ## The loop -/

/-- `proc_up_layer_node` empties the slot and spreads its nodes. -/
theorem cascade (f : Nat → Nat → Nat) (hslot : slot.layer ≠ lower) (hupper : Walk t.links (t.nodes slot) upper)
    (hlower : Chains t lower lists) (hnew : ∀ a ∈ upper, ∀ i < lower.size, a ∉ lists i)
    (hrange : ∀ a ∈ upper, ∀ n, t.data a = some n → f n.slotIndex1 n.slotIndex2 < lower.size)
    {fuel : Nat} (hfuel : upper.length < fuel) :
    ∃ nodes heap lists', procUpLayerNode lower slot (fun n => f n.slotIndex1 n.slotIndex2) fuel t =
        some { t with nodes := nodes, heap := heap } ∧
      Chains { t with nodes := nodes, heap := heap } lower lists' ∧
      Spread lower.size f t.data upper lists lists' ∧ data { t with nodes := nodes, heap := heap } = t.data ∧
      nodes slot = none ∧ (∀ s, s ≠ slot → s.layer ≠ lower → nodes s = t.nodes s) ∧
      ∀ x, x ∉ upper → (∀ i < lower.size, x ∉ lists i) → heap x = t.heap x := by
  -- induction on the nodes that are left; what was filed is in `lists`
  induction upper generalizing t lists fuel with
  | nil =>
      obtain ⟨fuel, rfl⟩ := Nat.exists_eq_add_one_of_ne_zero (Nat.ne_of_gt hfuel)
      have hnone : t.nodes slot = none := hupper
      refine ⟨t.nodes, t.heap, lists, ?_, hlower, Spread.nil, rfl, hnone, fun _ _ _ => rfl, fun _ _ _ => rfl⟩
      unfold procUpLayerNode
      rw [hnone]
  | cons a l ih =>
      obtain ⟨fuel, rfl⟩ := Nat.exists_eq_add_one_of_ne_zero (Nat.ne_of_gt (Nat.zero_lt_of_lt hfuel))
      obtain ⟨hal, -⟩ := List.nodup_cons.mp hupper.nodup
      obtain ⟨hhead, k, hk, hrest⟩ := hupper
      obtain ⟨n, hn, rfl⟩ := links_eq hk
      have hdata : t.data a = some n.toTimerData := by
        rw [data, hn]
        rfl
      have hi := hrange a (List.mem_cons_self ..) _ hdata
      have hne : ∀ i, slot ≠ ⟨lower, i⟩ := by
        rintro i rfl
        exact hslot rfl
      -- the node leaves the slot, and the wheel below does not notice
      have hchains : Chains (t.setNodes slot n.next) lower lists := by
        intro i hi
        have hsame : (t.setNodes slot n.next).nodes ⟨lower, i⟩ = t.nodes ⟨lower, i⟩ :=
          Function.update_of_ne (hne i).symm _ _
        rw [hsame]
        exact hlower i hi
      obtain ⟨nodes, heap, lists₁, hadd, hchains₁, hadded, hdata₁, hnodes, hframe⟩ := addNode_chains hchains hi
        (hnew a (List.mem_cons_self ..)) (show (t.setNodes slot n.next).heap a = some n from hn)
      have hhead₁ : nodes slot = n.next := (hnodes slot (hne _)).trans (Function.update_self ..)
      -- the rest of the walk neither
      have hrest₁ : Walk (links { t.setNodes slot n.next with nodes := nodes, heap := heap }) (nodes slot) l := by
        rw [hhead₁]
        refine hrest.congr fun b hb => ?_
        have hba : b ≠ a := fun heq => hal (heq ▸ hb)
        have hsame : heap b = t.heap b := hframe b hba (hnew b (List.mem_cons_of_mem _ hb) _ hi)
        show ((heap b).map TimerNode.toLinks).map Links.next = _
        rw [hsame]
        rfl
      have hnew₁ : ∀ b ∈ l, ∀ i < lower.size, b ∉ lists₁ i := by
        intro b hb i hi hmem
        obtain hold | rfl := hadded.origin i hi b hmem
        · exact hnew b (List.mem_cons_of_mem _ hb) i hi hold
        · exact hal hb
      have hrange₁ : ∀ b ∈ l, ∀ m, data { t.setNodes slot n.next with nodes := nodes, heap := heap } b = some m →
          f m.slotIndex1 m.slotIndex2 < lower.size := by
        intro b hb m hm
        rw [hdata₁] at hm
        exact hrange b (List.mem_cons_of_mem _ hb) m hm
      obtain ⟨nodes', heap', lists', hloop, hchains', hspread, hdata', hnone, hnodes', hframe'⟩ :=
        ih (t := { t.setNodes slot n.next with nodes := nodes, heap := heap }) hrest₁ hchains₁ hnew₁ hrange₁
          (Nat.lt_of_succ_lt_succ hfuel)
      rw [hdata₁] at hspread
      refine ⟨nodes', heap', lists', (procUpLayerNode_succ hhead hn hadd fuel).trans hloop, hchains',
        hspread.cons hdata hi hadded, hdata'.trans hdata₁, hnone, ?_, ?_⟩
      · intro s hs hlayer
        have hother : s ≠ ⟨lower, f n.slotIndex1 n.slotIndex2⟩ := fun heq => hlayer (congrArg Slot.layer heq)
        calc nodes' s = nodes s := hnodes' s hs hlayer
          _ = (t.setNodes slot n.next).nodes s := hnodes s hother
          _ = t.nodes s := Function.update_of_ne hs _ _
      · intro x hx hxl
        obtain ⟨hxa, hxl'⟩ := not_or.mp (mt List.mem_cons.mpr hx)
        have hlater : heap' x = heap x := by
          refine hframe' x hxl' fun i hi hmem => ?_
          obtain hold | rfl := hadded.origin i hi x hmem
          · exact hxl i hi hold
          · exact hxa rfl
        exact hlater.trans (hframe x hxa (hxl _ hi))

/-- **A cascade conserves nodes.** `f` is the index function: any of the three, or another one. The chain in
    `slot` has `upper`, the wheel below has `lists`, whatever the heads point back to. -/
theorem cascade_conserves (f : Nat → Nat → Nat) (hslot : slot.layer ≠ lower)
    (hupper : Walk t.links (t.nodes slot) upper) (hlower : Chains t lower lists)
    (hnew : ∀ a ∈ upper, ∀ i < lower.size, a ∉ lists i)
    (hrange : ∀ a ∈ upper, ∀ n, t.data a = some n → f n.slotIndex1 n.slotIndex2 < lower.size)
    {fuel : Nat} (hfuel : upper.length < fuel) :
    ∃ nodes heap lists', procUpLayerNode lower slot (fun n => f n.slotIndex1 n.slotIndex2) fuel t =
        some { t with nodes := nodes, heap := heap } ∧
      nodes slot = none ∧ data { t with nodes := nodes, heap := heap } = t.data ∧
      Chains { t with nodes := nodes, heap := heap } lower lists' ∧ (∀ i < lower.size, (lists' i).Nodup) ∧
      (∀ a ∈ upper, ∀ n, t.data a = some n → (lists' (f n.slotIndex1 n.slotIndex2)).count a = 1) ∧
      (∀ i < lower.size, (lists i).Sublist (lists' i) ∧ ∀ a ∈ lists' i, a ∈ lists i ∨ a ∈ upper) ∧
      (Apart lower.size lists → Apart lower.size lists') ∧
      (∀ s, s ≠ slot → s.layer ≠ lower → nodes s = t.nodes s) ∧
      ∀ x, x ∉ upper → (∀ i < lower.size, x ∉ lists i) → heap x = t.heap x := by
  obtain ⟨nodes, heap, lists', hloop, hchains, hspread, hdata, hnone, hnodes, hframe⟩ :=
    cascade f hslot hupper hlower hnew hrange hfuel
  have hnodup : ∀ i < lower.size, (lists' i).Nodup := fun i hi => (hchains i hi).walk.nodup
  refine ⟨nodes, heap, lists', hloop, hnone, hdata, hchains, hnodup, ?_,
    fun i hi => ⟨hspread.kept i hi, hspread.origin i hi⟩, hspread.apart, hnodes, hframe⟩
  intro a ha n hn
  exact List.count_eq_one_of_mem (hnodup _ (hrange a ha n hn)) (hspread.new a ha n hn)

/-- Two nodes in the slot of a minute, and one already in the slot of the second that both have noted. -/
def twoOverOne : Timer :=
  { init with
    nodes := fun s => if s = ⟨.minute, 1⟩ then some 1 else if s = ⟨.second, 5⟩ then some 3 else none,
    heap := fun a =>
      if a = 1 then some ⟨⟨none, some 2⟩, ⟨65, 1, 5, 1, 0⟩⟩
      else if a = 2 then some ⟨⟨some 1, none⟩, ⟨65, 1, 0x85, 2, 1⟩⟩
      else if a = 3 then some ⟨⟨none, none⟩, ⟨5, 0, 5, 3, 2⟩⟩ else none }

theorem cascade_conserves_two_over_one : ∃ nodes heap, ∃ lists' : Nat → List Addr,
    procUpLayerNode .second ⟨.minute, 1⟩ (fun n => n.slotIndex2 &&& 0x3F) 3 twoOverOne =
      some { twoOverOne with nodes := nodes, heap := heap } ∧
    nodes ⟨.minute, 1⟩ = none ∧ (lists' 5).count 1 = 1 ∧ (lists' 5).count 2 = 1 ∧ [3].Sublist (lists' 5) := by
  have hlower : Chains twoOverOne .second fun i => if i = 5 then [3] else [] := by
    intro i _
    by_cases hi : i = 5
    · subst hi
      exact ⟨none, rfl, none, rfl, rfl⟩
    · exact ⟨none, by simp [twoOverOne, Linked, hi]⟩
  have hupper : Walk (links twoOverOne) (twoOverOne.nodes ⟨.minute, 1⟩) [1, 2] := ⟨rfl, _, rfl, rfl, _, rfl, rfl⟩
  have hnew : ∀ a ∈ [1, 2], ∀ i < Layer.second.size, a ∉ (fun i => if i = 5 then [3] else []) i := by
    intro a ha i _
    by_cases hi : i = 5
    · simp only [hi, ↓reduceIte, List.mem_singleton]
      rintro rfl
      simp at ha
    · simp [hi]
  have hrange : ∀ a ∈ [1, 2], ∀ n, data twoOverOne a = some n → n.slotIndex2 &&& 0x3F < Layer.second.size := by
    intro a ha n hn
    obtain rfl | rfl := by simpa using ha
    all_goals
      obtain rfl := Option.some.inj hn
      decide
  have hfuel : [1, 2].length < 3 := by decide
  obtain ⟨nodes, heap, lists', hloop, hnone, -, -, -, hcount, hkept, -⟩ :=
    cascade_conserves (fun _ s => s &&& 0x3F) (by decide) hupper hlower hnew hrange hfuel
  exact ⟨nodes, heap, lists', hloop, hnone, hcount 1 (by simp) _ rfl, hcount 2 (by simp) _ rfl,
    (hkept 5 (by decide)).1⟩

end Timer

end Mowang
