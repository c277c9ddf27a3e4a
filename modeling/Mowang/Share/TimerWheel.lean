import Mowang.Share.Timer
import Mathlib.Data.List.Perm.Subperm
import Mathlib.Data.Nat.Bitwise

/-!
# `Share.TimerWheel` — where a timer stands, and when it comes up

A node stands in a slot, and the slot, the slots of the wheels below that the node has noted, and the tick
at which it comes up belong together (`Placed`). `fireAt` is that tick for a node that `add_timer_core`
inserts. `Filed` relates the nodes to the records of the timers: each chain holds nodes of pending timers,
each where it belongs, and each pending timer has one node.

`Filed` reads the nodes without their links, so what moves a node is described twice: by what it does to
the chains (`LinkedList.Lists`) and by what it does to the places (`Filed.take`, `Filed.put`, …).

## Contents
- `addNode_empty`, `addNode_linked` — the two cases of `add_node`.
- `addNode_spec` — `add_node` files a node and touches no other chain.
- `fireAt`, `Placed`, `placed_fireAt`.
- `Filed` and what keeps it.
-/

namespace Mowang

open LinkedList (Links Lists Linked Walk Splice insertAfterHead)

namespace Timer

/-! ## The heap as links and data -/

/-- The links of the allocated nodes. -/
def links (t : Timer) (a : Addr) : Option (Links Addr) := (t.heap a).map TimerNode.toLinks

/-- What the allocated nodes hold besides. -/
def data (t : Timer) (a : Addr) : Option TimerData := (t.heap a).map TimerNode.toTimerData

variable {t : Timer} {slot : Slot} {a : Addr} {n : TimerNode}

theorem modify_eq (ha : t.heap a = some n) (f : TimerNode → TimerNode) :
    t.modify a f = some { t with heap := Function.update t.heap a (some (f n)) } := by
  unfold modify
  rw [ha]
  rfl

theorem addNode_empty (hsize : slot.index < slot.layer.size) (hslot : t.nodes slot = none)
    (ha : t.heap a = some n) : t.addNode slot a = some { t with
      nodes := Function.update t.nodes slot (some a),
      heap := Function.update t.heap a (some { n with next := none, pre := none }) } := by
  unfold addNode
  rw [if_pos hsize, hslot]
  exact modify_eq (t := t.setNodes slot (some a)) ha _

/-- The heap after a node was put behind the first one, `cur`, of a chain. -/
def insertedHeap (heap : Addr → Option TimerNode) (cur a : Addr) (c n : TimerNode) : Addr → Option TimerNode :=
  let heap := Function.update heap a (some { n with next := c.next, pre := some cur })
  let heap := Function.update heap cur (some { c with next := some a })
  match c.next with
  | none      => heap
  | some next => Function.update heap next ((heap next).map fun m => { m with pre := some a })

theorem addNode_behind {cur : Addr} {c : TimerNode} (hsize : slot.index < slot.layer.size)
    (hslot : t.nodes slot = some cur) (ha : t.heap a = some n) (hc : t.heap cur = some c) (hne : cur ≠ a)
    (hnext : ∀ b, c.next = some b → b ≠ a ∧ b ≠ cur ∧ (t.heap b).isSome) :
    t.addNode slot a = some { t with heap := insertedHeap t.heap cur a c n } := by
  unfold addNode insertedHeap
  rw [if_pos hsize, hslot]
  simp only [hc, Option.bind_eq_bind, Option.bind_some]
  rw [modify_eq ha, Option.bind_some]
  rw [modify_eq (n := { n with next := c.next }) (by simp), Option.bind_some]
  rw [modify_eq (n := c) (by simp [hne, hc]), Option.bind_some]
  simp only [Function.update_idem, Function.update_of_ne hne.symm, Function.update_self, Option.bind_some]
  cases hcn : c.next with
  | none => rfl
  | some b =>
      obtain ⟨hba, hbc, hb⟩ := hnext b hcn
      obtain ⟨m, hm⟩ := Option.isSome_iff_exists.mp hb
      simp only
      rw [modify_eq (n := m) (by simp [hba, hbc, hm])]
      simp [hba, hbc, hm]

theorem links_eq {k : Links Addr} (h : t.links a = some k) : ∃ n, t.heap a = some n ∧ n.toLinks = k :=
  Option.map_eq_some_iff.mp h

variable {hole : Option Slot} {walk : Option Addr} {lists : Option Slot → List Addr}

/-- File `a` under `slot`, behind the first node. -/
def file (lists : Option Slot → List Addr) (slot : Slot) (a : Addr) : Option Slot → List Addr :=
  Function.update lists (some slot) (insertAfterHead a (lists (some slot)))

theorem mem_file {b : Addr} {x : Option Slot} :
    b ∈ file lists slot a x ↔ b ∈ lists x ∨ x = some slot ∧ b = a := by
  unfold file
  by_cases hx : x = some slot
  · subst hx
    simp [or_comm]
  · simp [hx]

theorem insertedHeap_data {heap : Addr → Option TimerNode} {cur : Addr} {c : TimerNode} (ha : heap a = some n)
    (hc : heap cur = some c) (hne : cur ≠ a) (x : Addr) :
    (insertedHeap heap cur a c n x).map TimerNode.toTimerData = (heap x).map TimerNode.toTimerData := by
  have hbase : ∀ x, (Function.update (Function.update heap a (some { n with next := c.next, pre := some cur }))
      cur (some { c with next := some a }) x).map TimerNode.toTimerData =
        (heap x).map TimerNode.toTimerData := by
    intro x
    by_cases hxc : x = cur
    · subst hxc
      simp [hc]
    · by_cases hxa : x = a
      · subst hxa
        simp [hxc, ha]
      · simp [hxc, hxa]
  unfold insertedHeap
  rw [← hbase x]
  obtain ⟨⟨pre, next⟩, c⟩ := c
  cases next with
  | none => rfl
  | some b =>
      -- the third write only touches a `pre`
      by_cases hxb : x = b
      · subst hxb
        simp only [Function.update_self, Option.map_map]
        rfl
      · simp only [Function.update_of_ne hxb]

theorem insertedHeap_of_ne {heap : Addr → Option TimerNode} {cur : Addr} {c : TimerNode} {x : Addr}
    (hxa : x ≠ a) (hxc : x ≠ cur) (hxn : c.next ≠ some x) : insertedHeap heap cur a c n x = heap x := by
  unfold insertedHeap
  cases hcn : c.next with
  | none => simp [hxa, hxc]
  | some b =>
      have hxb : x ≠ b := fun heq => hxn (heq ▸ hcn)
      simp [hxa, hxc, hxb]

/-- To the links, these are the four writes of an insertion behind `cur`. -/
theorem insertedHeap_splice {cur : Addr} {c : TimerNode} (hc : t.heap cur = some c) (hne : cur ≠ a)
    (hnext : ∀ b, c.next = some b → b ≠ a ∧ b ≠ cur ∧ (t.heap b).isSome) :
    Splice t.links (fun x => (insertedHeap t.heap cur a c n x).map TimerNode.toLinks) cur a c.next where
  new := by
    unfold insertedHeap
    cases hcn : c.next with
    | none => simp [hne.symm]
    | some b => simp [hne.symm, (hnext b hcn).1.symm]
  first := by
    unfold insertedHeap links
    cases hcn : c.next with
    | none => simp [hc]
    | some b => simp [(hnext b hcn).2.1.symm, hc]
  second := by
    intro b hb
    obtain ⟨hba, hbc, hbs⟩ := hnext b hb
    obtain ⟨m, hm⟩ := Option.isSome_iff_exists.mp hbs
    simp [insertedHeap, hb, hba, hbc, links, hm]
  frame := by
    intro b hba hbc hbn
    rw [insertedHeap_of_ne hba hbc hbn]
    rfl

/-- `add_node` to a chain that is not empty: the four writes, and nothing else. -/
theorem addNode_linked {pre : Option Addr} {cur : Addr} {l : List Addr} (hsize : slot.index < slot.layer.size)
    (hchain : Linked t.links pre (t.nodes slot) (cur :: l)) (hfresh : a ∉ cur :: l) (ha : t.heap a = some n) :
    ∃ c, t.links cur = some ⟨pre, c.next⟩ ∧ (∀ b, c.next = some b → ∃ k, t.links b = some ⟨some cur, k⟩) ∧
      t.addNode slot a = some { t with heap := insertedHeap t.heap cur a c n } ∧
      Splice t.links (fun x => (insertedHeap t.heap cur a c n x).map TimerNode.toLinks) cur a c.next ∧
      (∀ x, (insertedHeap t.heap cur a c n x).map TimerNode.toTimerData = t.data x) ∧
      ∀ x, x ≠ a → x ∉ cur :: l → insertedHeap t.heap cur a c n x = t.heap x := by
  have hnodup := hchain.walk.nodup
  obtain ⟨hhead, next, hcur, hrest⟩ := hchain
  obtain ⟨c, hc, hck⟩ := links_eq hcur
  obtain rfl : c.next = next := congrArg Links.next hck
  have hmem : ∀ b ∈ cur :: l, b ≠ a := by
    rintro b hb rfl
    exact hfresh hb
  have hne : cur ≠ a := hmem cur (List.mem_cons_self ..)
  -- the node that was second, if there is one
  have hsecond : ∀ b, c.next = some b → b ∈ l ∧ ∃ k, t.links b = some ⟨some cur, k⟩ := by
    intro b hb
    rw [hb] at hrest
    cases l with
    | nil => cases hrest
    | cons b' l =>
        obtain ⟨hbb, k, hk, -⟩ := hrest
        obtain rfl := Option.some.inj hbb
        exact ⟨List.mem_cons_self .., k, hk⟩
  have hnext : ∀ b, c.next = some b → b ≠ a ∧ b ≠ cur ∧ (t.heap b).isSome := by
    intro b hb
    obtain ⟨hbl, k, hk⟩ := hsecond b hb
    obtain ⟨m, hm, -⟩ := links_eq hk
    refine ⟨hmem b (List.mem_cons_of_mem _ hbl), ?_, by rw [hm]; rfl⟩
    rintro rfl
    exact (List.nodup_cons.mp hnodup).1 hbl
  refine ⟨c, hcur, fun b hb => (hsecond b hb).2, addNode_behind hsize hhead ha hc hne hnext,
    insertedHeap_splice hc hne hnext, insertedHeap_data ha hc hne, ?_⟩
  intro x hxa hxl
  rw [List.mem_cons, not_or] at hxl
  exact insertedHeap_of_ne hxa hxl.1 fun hcn => hxl.2 (hsecond x hcn).1

/-- **`add_node` files the node.** It goes behind the first node of its chain; no other chain, no node still
    to be walked and no data is touched. -/
theorem addNode_spec (h : Lists t.links t.nodes hole walk lists) (hslot : hole ≠ some slot)
    (hsize : slot.index < slot.layer.size) (hfresh : ∀ x, a ∉ lists x) (ha : t.heap a = some n) :
    ∃ nodes heap, t.addNode slot a = some { t with nodes := nodes, heap := heap } ∧
      Lists (fun x => (heap x).map TimerNode.toLinks) nodes hole walk (file lists slot a) ∧
      (∀ x, (heap x).map TimerNode.toTimerData = t.data x) ∧ (∀ s, s ≠ slot → nodes s = t.nodes s) ∧
      ∀ x, x ≠ a → x ∉ lists (some slot) → heap x = t.heap x := by
  have hchain := h.linked slot hslot
  cases hl : lists (some slot) with
  | nil =>
      rw [hl] at hchain
      refine ⟨_, _, addNode_empty hsize hchain ha, ?_, ?_, fun s hs => Function.update_of_ne hs _ _,
        fun x hx _ => Function.update_of_ne hx _ _⟩
      · refine h.insert hslot hfresh ?_ (fun j hj => Function.update_of_ne hj _ _) ?_
        · rw [hl, Function.update_self]
          exact Linked.singleton (by simp)
        · intro b hb _
          simp [hb, links]
      · intro x
        by_cases hx : x = a
        · subst hx
          simp [data, ha]
        · simp [hx, data]
  | cons cur l =>
      rw [hl] at hchain
      have hal : a ∉ cur :: l := fun hmem => hfresh (some slot) (hl ▸ hmem)
      obtain ⟨c, hcur, -, hadd, hsplice, hdata, hframe⟩ := addNode_linked hsize hchain hal ha
      refine ⟨t.nodes, _, hadd, ?_, hdata, fun _ _ => rfl, hframe⟩
      refine h.insert hslot hfresh ?_ (fun _ _ => rfl) ?_
      · rw [hl, hchain.1]
        exact (hchain.1 ▸ hchain).insertAfterHead hcur hal hsplice
      · intro b hba hbl
        rw [hframe b hba (hl ▸ hbl)]
        rfl

/-- One turn of the loop of `proc_up_layer_node`. -/
theorem procUpLayerNode_succ {t₁ : Timer} {lower : Layer} {calcIndex : TimerNode → Nat} (hhead : t.nodes slot = some a)
    (hn : t.heap a = some n) (hadd : (t.setNodes slot n.next).addNode ⟨lower, calcIndex n⟩ a = some t₁) (fuel : Nat) :
    procUpLayerNode lower slot calcIndex (fuel + 1) t = procUpLayerNode lower slot calcIndex fuel t₁ := by
  rw [procUpLayerNode, hhead]
  show (t.heap a).bind _ = _
  rw [hn]
  show ((t.setNodes slot n.next).addNode _ a).bind _ = _
  rw [hadd]
  rfl

end Timer

/-! ## Where a node stands and when it comes up -/

namespace Layer

/-- The wheel that `add_timer_core` chooses. -/
def ofDelay (d : Nat) : Layer :=
  if 0 < d / 86400 then day else if 0 < d / 3600 then hour else if 0 < d / 60 then minute else second

/-- The wheel that the chains of this one are spread over. -/
inductive Above : Layer → Layer → Prop
  | minute : Above minute second
  | hour   : Above hour minute
  | day    : Above day hour

theorem Above.unit {layer lower : Layer} (h : Above layer lower) : layer.unit = lower.unit * lower.size := by
  cases h <;> rfl

theorem Above.unit_lt {layer lower : Layer} (h : Above layer lower) : lower.unit < layer.unit := by
  cases h <;> decide

theorem unit_pos (layer : Layer) : 0 < layer.unit := by
  cases layer <;> decide

theorem size_pos (layer : Layer) : 0 < layer.size := by
  cases layer <;> decide

end Layer

namespace TimerData

/-- What a node says about its slot in a wheel. -/
def digit (n : TimerData) : Layer → Nat
  | .second => n.slotIndex2 &&& 0x3F
  | .minute => n.slotIndex1 &&& 0x3F
  | .hour   => (n.slotIndex1 >>> 6) &&& 0x1F
  | .day    => n.slotIndex1 >>> 11

end TimerData

theorem repeats_slotIndex2 (n : TimerData) {rep : Bool} {second : Nat} (hs : second < 60)
    (hn : n.slotIndex2 = Timer.slotIndex2 rep second) : n.repeats = rep := by
  have htable : ∀ rep second, second < 60 → decide (0 < Timer.slotIndex2 rep second &&& 0x80) = rep := by
    decide
  unfold TimerData.repeats
  rw [hn]
  exact htable rep second hs

theorem digit_slotIndex {n : TimerData} {rep : Bool} {day hour minute second : Nat} (hd : day < 30)
    (hh : hour < 24) (hm : minute < 60) (hs : second < 60) (h1 : n.slotIndex1 = Timer.slotIndex1 day hour minute)
    (h2 : n.slotIndex2 = Timer.slotIndex2 rep second) :
    n.digit .second = second ∧ n.digit .minute = minute ∧ n.digit .hour = hour ∧ n.digit .day = day := by
  have hmask : ∀ x k, x &&& (2 ^ k - 1) = x % 2 ^ k := Nat.and_two_pow_sub_one_eq_mod
  have h1' : n.slotIndex1 = day * 2048 + hour * 64 + minute := by
    rw [h1, Timer.slotIndex1, Nat.shiftLeft_eq, Nat.shiftLeft_eq]
    omega
  refine ⟨?_, ?_, ?_, ?_⟩
  · show n.slotIndex2 &&& (2 ^ 6 - 1) = second
    rw [hmask, h2, Timer.slotIndex2, Nat.shiftLeft_eq]
    split <;> omega
  · show n.slotIndex1 &&& (2 ^ 6 - 1) = minute
    rw [hmask, h1']
    omega
  · show (n.slotIndex1 >>> 6) &&& (2 ^ 5 - 1) = hour
    rw [hmask, h1', Nat.shiftRight_eq_div_pow]
    omega
  · show n.slotIndex1 >>> 11 = day
    rw [h1', Nat.shiftRight_eq_div_pow]
    omega

/-- The tick at which a timer comes up that is inserted after `now` ticks: the slots are the sums of the
    digits, each taken modulo its wheel, and no carry goes from one wheel to the next. -/
def fireAt (now d : Nat) : Nat :=
  match Layer.ofDelay d with
  | .second => now + d
  | .minute => 60 * (now / 60 + d / 60) + (now + d) % 60
  | .hour   => 3600 * (now / 3600 + d / 3600) + 60 * ((now / 60 + d / 60) % 60) + (now + d) % 60
  | .day    => 86400 * (now / 86400 + ((d / 86400 - 1) % 30 + 1)) + 3600 * ((now / 3600 + d / 3600) % 24)
                 + 60 * ((now / 60 + d / 60) % 60) + (now + d) % 60

/-- A node in `slot` that comes up at `due`. `f` bounds what each wheel still holds from below, in the
    units of the wheel, so that within one turn the slot and the bound decide the unit. -/
structure Placed (f : Layer → Nat) (slot : Slot) (n : TimerData) (due : Nat) : Prop where
  index : slot.index = due / slot.layer.unit % slot.layer.size
  lower : f slot.layer ≤ due / slot.layer.unit
  upper : due / slot.layer.unit < f slot.layer + slot.layer.size
  digit : ∀ layer : Layer, layer.unit < slot.layer.unit → n.digit layer = due / layer.unit % layer.size

/-- The wheels between two ticks hold what comes up later, each in its own units. -/
def frontier (now : Nat) (layer : Layer) : Nat := now / layer.unit + 1

theorem Placed.size {f : Layer → Nat} {slot : Slot} {n : TimerData} {due : Nat} (h : Placed f slot n due) :
    slot.index < slot.layer.size := by
  rw [h.index]
  exact Nat.mod_lt _ slot.layer.size_pos

/-- A node in the second wheel comes up when its slot is reached; elsewhere its `due / unit` is beyond
    the current unit. Either way it comes up later. -/
theorem Placed.later {now : Nat} {slot : Slot} {n : TimerData} {due : Nat}
    (h : Placed (frontier now) slot n due) : now < due := by
  have hlower := h.lower
  unfold frontier at hlower
  by_contra hle
  have := Nat.div_le_div_right (c := slot.layer.unit) (Nat.le_of_not_lt hle)
  omega

/-- The digits of a tick that is given by its digits. -/
theorem digits_eq {day hour minute second x : Nat} (hh : hour < 24) (hm : minute < 60) (hs : second < 60)
    (hx : x = 86400 * day + 3600 * hour + 60 * minute + second) :
    x / 86400 = day ∧ x / 3600 % 24 = hour ∧ x / 60 % 60 = minute ∧ x % 60 = second := by
  have hminutes : x / 60 = 1440 * day + 60 * hour + minute := by omega
  have hhours : x / 3600 = 24 * day + hour := by omega
  rw [hminutes, hhours]
  refine ⟨?_, ?_, ?_, ?_⟩ <;> omega

theorem fireAt_day {d : Nat} (hd : Layer.ofDelay d = .day) (now : Nat) :
    fireAt now d / 86400 = now / 86400 + ((d / 86400 - 1) % 30 + 1) ∧
    fireAt now d / 3600 % 24 = (d / 3600 + now / 3600) % 24 ∧
    fireAt now d / 60 % 60 = (d / 60 + now / 60) % 60 ∧ fireAt now d % 60 = (d + now) % 60 := by
  unfold fireAt
  rw [hd, Nat.add_comm (d / 3600), Nat.add_comm (d / 60), Nat.add_comm d]
  exact digits_eq (Nat.mod_lt _ (by decide)) (Nat.mod_lt _ (by decide)) (Nat.mod_lt _ (by decide)) rfl

theorem fireAt_hour {d : Nat} (hd : Layer.ofDelay d = .hour) (now : Nat) :
    fireAt now d / 3600 = now / 3600 + d / 3600 ∧
    fireAt now d / 60 % 60 = (d / 60 + now / 60) % 60 ∧ fireAt now d % 60 = (d + now) % 60 := by
  unfold fireAt
  rw [hd, Nat.add_comm (d / 60), Nat.add_comm d]
  generalize now / 3600 + d / 3600 = hours
  have hm : (now / 60 + d / 60) % 60 < 60 := Nat.mod_lt _ (by decide)
  have hs : (now + d) % 60 < 60 := Nat.mod_lt _ (by decide)
  generalize (now / 60 + d / 60) % 60 = minute at *
  generalize (now + d) % 60 = second at *
  have hminutes : (3600 * hours + 60 * minute + second) / 60 = 60 * hours + minute := by omega
  simp only [hminutes]
  refine ⟨?_, ?_, ?_⟩ <;> omega

theorem fireAt_minute {d : Nat} (hd : Layer.ofDelay d = .minute) (now : Nat) :
    fireAt now d / 60 = now / 60 + d / 60 ∧ fireAt now d % 60 = (d + now) % 60 := by
  unfold fireAt
  rw [hd, Nat.add_comm d]
  dsimp only
  have hs : (now + d) % 60 < 60 := Nat.mod_lt _ (by decide)
  generalize (now + d) % 60 = second at *
  omega

theorem fireAt_second {d : Nat} (hd : Layer.ofDelay d = .second) (now : Nat) : fireAt now d = now + d := by
  unfold fireAt
  rw [hd]

theorem ofDelay_cases (d : Nat) :
    (Layer.ofDelay d = .day ∧ 0 < d / 86400) ∨ (Layer.ofDelay d = .hour ∧ 0 < d / 3600 ∧ d < 86400) ∨
    (Layer.ofDelay d = .minute ∧ 0 < d / 60 ∧ d < 3600) ∨ (Layer.ofDelay d = .second ∧ d < 60) := by
  unfold Layer.ofDelay
  split_ifs with hday hhour hminute
  · exact .inl ⟨rfl, hday⟩
  · exact .inr (.inl ⟨rfl, hhour, by omega⟩)
  · exact .inr (.inr (.inl ⟨rfl, hminute, by omega⟩))
  · exact .inr (.inr (.inr ⟨rfl, by omega⟩))

/-- Days are counted modulo the wheel, and a slot that is reached again is 30 days ahead. -/
theorem dayStep_mod {a : Nat} (ha : 0 < a) (b : Nat) : (a + b) % 30 = (b + ((a - 1) % 30 + 1)) % 30 := by
  omega

/-- **An inserted node stands where it comes up at `fireAt`.** `digit` are the slots that
    `add_timer_core` computes for the four wheels after `now` ticks. -/
theorem placed_fireAt {now d : Nat} (hd : 0 < d) {n : TimerData}
    (hdigit : ∀ layer : Layer, n.digit layer = (d / layer.unit + now / layer.unit) % layer.size) :
    Placed (frontier now) ⟨Layer.ofDelay d, n.digit (Layer.ofDelay d)⟩ n (fireAt now d) := by
  have hsecond : fireAt now d % 60 = (d + now) % 60 → n.digit .second = fireAt now d / 1 % 60 := by
    intro h
    rw [hdigit]
    show (d / 1 + now / 1) % 60 = _
    simp only [Nat.div_one, h]
  -- by the wheel that is chosen; the digits of those below it are sums without a carry
  obtain ⟨hl, hpos⟩ | ⟨hl, hpos, hlt⟩ | ⟨hl, hpos, hlt⟩ | ⟨hl, hlt⟩ := ofDelay_cases d
  · obtain ⟨hday, hhour, hminute, hsec⟩ := fireAt_day hl now
    rw [hl]
    constructor
    · show n.digit .day = fireAt now d / 86400 % 30
      rw [hdigit, hday]
      exact dayStep_mod hpos _
    · show now / 86400 + 1 ≤ fireAt now d / 86400
      rw [hday]
      exact Nat.add_le_add_left (Nat.le_add_left _ _) _
    · show fireAt now d / 86400 < now / 86400 + 1 + 30
      rw [hday]
      have : (d / 86400 - 1) % 30 < 30 := Nat.mod_lt _ (by decide)
      generalize now / 86400 = today
      clear hday hhour hminute hsec
      omega
    · rintro (_ | _ | _ | _) hbelow
      · exact hsecond hsec
      · rw [hdigit]
        exact hminute.symm
      · rw [hdigit]
        exact hhour.symm
      · exact absurd hbelow (lt_irrefl _)
  · obtain ⟨hhour, hminute, hsec⟩ := fireAt_hour hl now
    rw [hl]
    constructor
    · rw [hdigit]
      show (d / 3600 + now / 3600) % 24 = fireAt now d / 3600 % 24
      rw [hhour, Nat.add_comm]
    · show now / 3600 + 1 ≤ fireAt now d / 3600
      rw [hhour]
      exact Nat.add_le_add_left hpos _
    · show fireAt now d / 3600 < now / 3600 + 1 + 24
      rw [hhour]
      clear hhour hminute hsec
      omega
    · rintro (_ | _ | _ | _) hbelow
      · exact hsecond hsec
      · rw [hdigit]
        exact hminute.symm
      all_goals exact absurd hbelow (by simp [Layer.unit])
  · obtain ⟨hminute, hsec⟩ := fireAt_minute hl now
    rw [hl]
    constructor
    · rw [hdigit]
      show (d / 60 + now / 60) % 60 = fireAt now d / 60 % 60
      rw [hminute, Nat.add_comm]
    · show now / 60 + 1 ≤ fireAt now d / 60
      rw [hminute]
      exact Nat.add_le_add_left hpos _
    · show fireAt now d / 60 < now / 60 + 1 + 60
      rw [hminute]
      clear hminute hsec
      omega
    · rintro (_ | _ | _ | _) hbelow
      · exact hsecond hsec
      all_goals exact absurd hbelow (by simp [Layer.unit])
  · have hfire := fireAt_second hl now
    rw [hl]
    constructor
    · exact hsecond (by rw [hfire, Nat.add_comm])
    · show now / 1 + 1 ≤ fireAt now d / 1
      rw [hfire]
      omega
    · show fireAt now d / 1 < now / 1 + 1 + 60
      rw [hfire]
      omega
    · rintro (_ | _ | _ | _) hbelow
      all_goals exact absurd hbelow (by simp [Layer.unit])

/-! ## What the nodes say about the timers -/

namespace TimerRecord

/-- Added, and not yet fired for the last time. -/
def Pending (r : TimerRecord) : Prop := r.repeats = true ∨ r.fires = []

instance (r : TimerRecord) : Decidable r.Pending := inferInstanceAs (Decidable (_ ∨ _))

/-- The tick after which the timer was last inserted. -/
def inserted (r : TimerRecord) : Nat := r.fires.headD r.addedAt

/-- The tick at which it comes up. -/
def due (r : TimerRecord) : Nat := fireAt r.inserted r.delay

/-- The callback is invoked. -/
def fire (now : Nat) (r : TimerRecord) : TimerRecord := { r with fires := now :: r.fires }

/-- The node is one of this timer. -/
structure Owns (r : TimerRecord) (n : TimerData) : Prop where
  id : n.timerId = r.id
  delay : n.delay = r.delay
  repeats : n.repeats = r.repeats

end TimerRecord

/-- Where a node stands: in a slot, or among those that are being walked, of which `W` holds. -/
def Stands (f : Layer → Nat) (W : TimerData → Nat → Prop) (n : TimerData) (due : Nat) : Option Slot → Prop
  | some slot => Placed f slot n due
  | none      => W n due

/-- The nodes and the timers. `out` is a node that is in no list for the moment: the one whose callback is
    running. -/
structure Filed (f : Layer → Nat) (W : TimerData → Nat → Prop) (log : List TimerRecord)
    (data : Addr → Option TimerData) (out : Option Addr) (lists : Option Slot → List Addr) : Prop where
  /-- Every list holds nodes of pending timers, in the place that fits the tick at which they come up. -/
  stands : ∀ {x a}, a ∈ lists x →
    ∃ n r, data a = some n ∧ log[n.callback]? = some r ∧ r.Pending ∧ Stands f W n r.due x
  /-- An allocated node is in a list or is the one that is out. -/
  listed : ∀ {a n}, data a = some n → (∃ x, a ∈ lists x) ∨ out = some a
  /-- The one that is out is in no list. -/
  out_free : ∀ {a}, out = some a → (data a).isSome ∧ ∀ x, a ∉ lists x
  /-- Every node belongs to a timer, and no two to the same. -/
  owned : ∀ {a n}, data a = some n → ∃ r, log[n.callback]? = some r ∧ r.Owns n
  once : ∀ {a b n m}, data a = some n → data b = some m → n.callback = m.callback → a = b
  /-- A pending timer has its node. -/
  kept : ∀ {c r}, log[c]? = some r → r.Pending → ∃ a n, data a = some n ∧ n.callback = c

namespace Filed

variable {f f' : Layer → Nat} {W W' : TimerData → Nat → Prop} {log : List TimerRecord}
  {data : Addr → Option TimerData} {out : Option Addr} {lists : Option Slot → List Addr} {a : Addr}
  {n : TimerData} {r : TimerRecord}

/-- The places may be judged anew. -/
theorem mono (h : Filed f W log data out lists)
    (hstands : ∀ {x a n} {r : TimerRecord}, a ∈ lists x → Stands f W n r.due x → Stands f' W' n r.due x) :
    Filed f' W' log data out lists where
  stands ha := by
    obtain ⟨n, r, hn, hr, hp, hs⟩ := h.stands ha
    exact ⟨n, r, hn, hr, hp, hstands (r := r) ha hs⟩
  listed := h.listed
  out_free := h.out_free
  owned := h.owned
  once := h.once
  kept := h.kept

theorem of_data {data' : Addr → Option TimerData} (h : Filed f W log data out lists) (hdata : data' = data) :
    Filed f W log data' out lists :=
  hdata ▸ h

/-- Take the first node out of the walk. -/
theorem take {l : List Addr} (h : Filed f W log data none lists) (hl : lists none = a :: l)
    (hnodup : (a :: l).Nodup) (hone : ∀ x, x ≠ none → a ∉ lists x) :
    Filed f W log data (some a) (Function.update lists none l) where
  stands := by
    intro x b hb
    refine h.stands (x := x) ?_
    rcases x with _ | slot
    · rw [hl]
      exact List.mem_cons_of_mem _ (by simpa using hb)
    · simpa using hb
  listed := by
    intro b m hb
    obtain ⟨x, hx⟩ | hout := h.listed hb
    · rcases x with _ | slot
      · rw [hl, List.mem_cons] at hx
        obtain rfl | hx := hx
        · exact .inr rfl
        · exact .inl ⟨none, by simpa using hx⟩
      · exact .inl ⟨some slot, by simpa using hx⟩
    · cases hout
  out_free := by
    rintro b hb
    obtain rfl := Option.some.inj hb
    refine ⟨?_, fun x => ?_⟩
    · obtain ⟨m, _, hm, _⟩ := h.stands (x := none) (hl ▸ List.mem_cons_self ..)
      rw [hm]
      rfl
    rcases x with _ | slot
    · simpa using (List.nodup_cons.mp hnodup).1
    · simpa using hone (some slot) (by simp)
  owned := h.owned
  once := h.once
  kept := h.kept

/-- Put the node that is out into a slot, with new data for the same timer. -/
theorem put {slot : Slot} (h : Filed f W log data (some a) lists) (hn : data a = some n) (n' : TimerData)
    (hcallback : n'.callback = n.callback) (hr : log[n.callback]? = some r) (howns : r.Owns n')
    (hp : r.Pending) (hplaced : Placed f slot n' r.due) :
    Filed f W log (Function.update data a (some n')) none (Timer.file lists slot a) where
  stands := by
    intro x b hb
    obtain hb | ⟨rfl, rfl⟩ := Timer.mem_file.mp hb
    · have hba : b ≠ a := fun heq => (h.out_free rfl).2 x (heq ▸ hb)
      obtain ⟨m, q, hm, hq⟩ := h.stands hb
      exact ⟨m, q, by rw [Function.update_of_ne hba, hm], hq⟩
    · exact ⟨n', r, Function.update_self .., hcallback ▸ hr, hp, hplaced⟩
  listed := by
    intro b m hb
    refine .inl ?_
    by_cases hba : b = a
    · exact ⟨some slot, Timer.mem_file.mpr (.inr ⟨rfl, hba⟩)⟩
    · rw [Function.update_of_ne hba] at hb
      obtain ⟨x, hx⟩ | hout := h.listed hb
      · exact ⟨x, Timer.mem_file.mpr (.inl hx)⟩
      · exact absurd (Option.some.inj hout).symm hba
  out_free := by simp
  owned := by
    intro b m hb
    by_cases hba : b = a
    · subst hba
      rw [Function.update_self] at hb
      obtain rfl := Option.some.inj hb
      exact ⟨r, hcallback ▸ hr, howns⟩
    · rw [Function.update_of_ne hba] at hb
      exact h.owned hb
  once := by
    have hold : ∀ {b m}, Function.update data a (some n') b = some m →
        ∃ m', data b = some m' ∧ m'.callback = m.callback := by
      intro b m hb
      by_cases hba : b = a
      · subst hba
        rw [Function.update_self] at hb
        obtain rfl := Option.some.inj hb
        exact ⟨n, hn, hcallback.symm⟩
      · rw [Function.update_of_ne hba] at hb
        exact ⟨m, hb, rfl⟩
    intro b c m k hb hc hmk
    obtain ⟨m', hb, hm⟩ := hold hb
    obtain ⟨k', hc, hk⟩ := hold hc
    exact h.once hb hc (hm.trans (hmk.trans hk.symm))
  kept := by
    intro c q hq hpending
    obtain ⟨b, m, hb, hm⟩ := h.kept hq hpending
    by_cases hba : b = a
    · subst hba
      obtain rfl := Option.some.inj (hn.symm.trans hb)
      exact ⟨b, n', Function.update_self .., hcallback.trans hm⟩
    · exact ⟨b, m, by rw [Function.update_of_ne hba, hb], hm⟩

/-- A timer is added under a fresh node. -/
theorem add {slot : Slot} (h : Filed f W log data out lists) (hfresh : data a = none)
    (hcallback : n.callback = log.length) (howns : r.Owns n) (hp : r.Pending) (hplaced : Placed f slot n r.due) :
    Filed f W (log ++ [r]) (Function.update data a (some n)) out (Timer.file lists slot a) where
  stands := by
    intro x b hb
    obtain hb | ⟨rfl, rfl⟩ := Timer.mem_file.mp hb
    · obtain ⟨m, q, hm, hq, hrest⟩ := h.stands hb
      have hba : b ≠ a := by
        rintro rfl
        exact absurd (hfresh.symm.trans hm) (by simp)
      refine ⟨m, q, by rw [Function.update_of_ne hba, hm], ?_, hrest⟩
      exact (List.getElem?_append_left (List.getElem?_eq_some_iff.mp hq).1).trans hq
    · exact ⟨n, r, Function.update_self .., by simp [hcallback], hp, hplaced⟩
  listed := by
    intro b m hb
    by_cases hba : b = a
    · exact .inl ⟨some slot, Timer.mem_file.mpr (.inr ⟨rfl, hba⟩)⟩
    · rw [Function.update_of_ne hba] at hb
      obtain ⟨x, hx⟩ | hout := h.listed hb
      · exact .inl ⟨x, Timer.mem_file.mpr (.inl hx)⟩
      · exact .inr hout
  out_free := by
    intro b hb
    obtain ⟨hsome, hnone⟩ := h.out_free hb
    have hba : b ≠ a := by
      rintro rfl
      rw [hfresh] at hsome
      cases hsome
    refine ⟨by rwa [Function.update_of_ne hba], fun x hx => ?_⟩
    obtain hx | ⟨-, heq⟩ := Timer.mem_file.mp hx
    · exact hnone x hx
    · exact hba heq
  owned := by
    intro b m hb
    by_cases hba : b = a
    · subst hba
      rw [Function.update_self] at hb
      obtain rfl := Option.some.inj hb
      exact ⟨r, by simp [hcallback], howns⟩
    · rw [Function.update_of_ne hba] at hb
      obtain ⟨q, hq, hown⟩ := h.owned hb
      exact ⟨q, (List.getElem?_append_left (List.getElem?_eq_some_iff.mp hq).1).trans hq, hown⟩
  once := by
    have hold : ∀ {b m}, data b = some m → m.callback < log.length := by
      intro b m hb
      obtain ⟨q, hq, -⟩ := h.owned hb
      exact (List.getElem?_eq_some_iff.mp hq).1
    intro b c m k hb hc hmk
    by_cases hba : b = a <;> by_cases hca : c = a
    · rw [hba, hca]
    · subst hba
      rw [Function.update_self] at hb
      rw [Function.update_of_ne hca] at hc
      obtain rfl := Option.some.inj hb
      exact absurd (hold hc) (by rw [← hmk, hcallback]; exact lt_irrefl _)
    · subst hca
      rw [Function.update_self] at hc
      rw [Function.update_of_ne hba] at hb
      obtain rfl := Option.some.inj hc
      exact absurd (hold hb) (by rw [hmk, hcallback]; exact lt_irrefl _)
    · rw [Function.update_of_ne hba] at hb
      rw [Function.update_of_ne hca] at hc
      exact h.once hb hc hmk
  kept := by
    intro c q hq hpending
    rw [List.getElem?_append] at hq
    split at hq
    · obtain ⟨b, m, hb, hm⟩ := h.kept hq hpending
      have hba : b ≠ a := by
        rintro rfl
        exact absurd (hfresh.symm.trans hb) (by simp)
      exact ⟨b, m, by rw [Function.update_of_ne hba, hb], hm⟩
    · rename_i hlen
      have hc : c = log.length := by
        have := (List.getElem?_eq_some_iff.mp hq).1
        simp only [List.length_singleton] at this
        omega
      exact ⟨a, n, Function.update_self .., hcallback.trans hc.symm⟩

/-- The node that is out, of a timer that is no longer pending, is freed. -/
theorem drop (h : Filed f W log data (some a) lists) (hn : data a = some n) (hr : log[n.callback]? = some r)
    (hp : ¬ r.Pending) : Filed f W log (Function.update data a none) none lists where
  stands := by
    intro x b hb
    have hba : b ≠ a := fun heq => (h.out_free rfl).2 x (heq ▸ hb)
    obtain ⟨m, q, hm, hq⟩ := h.stands hb
    exact ⟨m, q, by rw [Function.update_of_ne hba, hm], hq⟩
  listed := by
    intro b m hb
    have hba : b ≠ a := by
      rintro rfl
      simp at hb
    rw [Function.update_of_ne hba] at hb
    obtain hx | hout := h.listed hb
    · exact .inl hx
    · exact absurd (Option.some.inj hout).symm hba
  out_free := by simp
  owned := by
    intro b m hb
    have hba : b ≠ a := by
      rintro rfl
      simp at hb
    exact h.owned (by rwa [Function.update_of_ne hba] at hb)
  once := by
    intro b c m k hb hc hmk
    have hba : b ≠ a := by
      rintro rfl
      simp at hb
    have hca : c ≠ a := by
      rintro rfl
      simp at hc
    rw [Function.update_of_ne hba] at hb
    rw [Function.update_of_ne hca] at hc
    exact h.once hb hc hmk
  kept := by
    intro c q hq hpending
    obtain ⟨b, m, hb, rfl⟩ := h.kept hq hpending
    have hba : b ≠ a := by
      rintro rfl
      obtain rfl := Option.some.inj (hn.symm.trans hb)
      obtain rfl := Option.some.inj (hr.symm.trans hq)
      exact hp hpending
    exact ⟨b, m, by rw [Function.update_of_ne hba, hb], rfl⟩

/-- The callback of the node that is out is invoked. -/
theorem fire (h : Filed f W log data (some a) lists) (hn : data a = some n) (now : Nat) :
    Filed f W (log.modify n.callback (TimerRecord.fire now)) data (some a) lists where
  stands := by
    intro x b hb
    obtain ⟨m, q, hm, hq, hrest⟩ := h.stands hb
    refine ⟨m, q, hm, ?_, hrest⟩
    have hne : n.callback ≠ m.callback := by
      intro heq
      obtain rfl := h.once hn hm heq
      exact (h.out_free rfl).2 x hb
    rw [List.getElem?_modify_ne _ _ hne]
    exact hq
  listed := h.listed
  out_free := h.out_free
  owned := by
    intro b m hb
    obtain ⟨q, hq, hown⟩ := h.owned hb
    by_cases heq : n.callback = m.callback
    · refine ⟨q.fire now, ?_, ⟨hown.id, hown.delay, hown.repeats⟩⟩
      rw [heq, List.getElem?_modify_eq, hq]
      rfl
    · exact ⟨q, by rw [List.getElem?_modify_ne _ _ heq, hq], hown⟩
  once := h.once
  kept := by
    intro c q hq hpending
    by_cases heq : n.callback = c
    · exact ⟨a, n, hn, heq⟩
    · rw [List.getElem?_modify_ne _ _ heq] at hq
      exact h.kept hq hpending

/-- A chain is not longer than the number of timers that were ever added. -/
theorem length_le (h : Filed f W log data out lists) {x : Option Slot} (hnodup : (lists x).Nodup) :
    (lists x).length ≤ log.length := by
  -- its nodes belong to as many different timers
  have hcallback : ∀ b ∈ lists x, ∃ c m, data b = some m ∧ m.callback = c ∧ c < log.length := by
    intro b hb
    obtain ⟨m, q, hm, hq, -⟩ := h.stands hb
    exact ⟨m.callback, m, hm, rfl, (List.getElem?_eq_some_iff.mp hq).1⟩
  choose! c hc using hcallback
  have hinj : ((lists x).map c).Nodup := by
    refine hnodup.map_on fun b hb b' hb' heq => ?_
    obtain ⟨m, hm, hmc, -⟩ := hc b hb
    obtain ⟨m', hm', hmc', -⟩ := hc b' hb'
    exact h.once hm hm' (hmc.trans (heq.trans hmc'.symm))
  have hsub : (lists x).map c ⊆ List.range log.length := by
    intro k hk
    obtain ⟨b, hb, rfl⟩ := List.mem_map.mp hk
    obtain ⟨m, -, -, hlt⟩ := hc b hb
    exact List.mem_range.mpr hlt
  simpa using (hinj.subperm hsub).length_le

end Filed

end Mowang
