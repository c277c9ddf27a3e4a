import Mowang.Share.TimerWheel

/-!
# `Share.TimerTick` — how the wheels move on

At the end of a minute the chain of one slot of the minute wheel is spread over the second wheel, and so on
upwards. The wheels are processed from the top: when a wheel is reached, those above it already stand at
the new tick (`turned`), and the nodes that come down from it find their slot not yet passed.

## Contents
- `Filed.opened` — the slot that is reached holds what comes up in this unit.
- `procUpLayerNode_spec`, `procDayNodes_spec`, `procHourNodes_spec`, `procMinuteNodes_spec`.
- `advance_spec` — all wheels but the second one stand at the new tick.
-/

namespace Mowang

open LinkedList (Links Lists Linked Walk insertAfterHead)

variable {t : Timer} {f : Layer → Nat} {lists : Option Slot → List Addr}

/-! ## Spreading a chain over the wheel below -/

/-- A node that comes up in the unit `v` of a wheel, and knows its slots in the wheels below. -/
def Sinks (layer : Layer) (v : Nat) (n : TimerData) (due : Nat) : Prop :=
  due / layer.unit = v ∧ ∀ l : Layer, l.unit < layer.unit → n.digit l = due / l.unit % l.size

/-- The lists when the one in `slot` begins to be walked. -/
def opened (lists : Option Slot → List Addr) (slot : Slot) : Option Slot → List Addr :=
  Function.update (Function.update lists (some slot) []) none (lists (some slot))

theorem mem_opened {slot : Slot} {x : Option Slot} {a : Addr} : a ∈ opened lists slot x ↔
    (x = none ∧ a ∈ lists (some slot)) ∨ ∃ s, x = some s ∧ s ≠ slot ∧ a ∈ lists (some s) := by
  unfold opened
  rcases x with _ | s
  · simp
  · by_cases hs : s = slot
    · subst hs
      simp
    · simp [hs]

/-- Within one turn of a wheel the slot decides the unit. -/
theorem eq_of_mod_eq {x y size : Nat} (hmod : x % size = y % size) (hle : y ≤ x) (hlt : x < y + size) :
    x = y := by
  have hdvd : size ∣ x - y := Nat.dvd_of_mod_eq_zero (Nat.sub_mod_eq_zero_of_mod_eq hmod)
  have hzero : x - y = 0 := Nat.eq_zero_of_dvd_of_lt hdvd (by omega)
  omega

/-- **The slot that a wheel reaches holds what comes up in this unit, and no other slot does.** -/
theorem Filed.opened {log : List TimerRecord} {data : Addr → Option TimerData} {layer : Layer} {i : Nat}
    (h : Filed f (fun _ _ => False) log data none lists) (hi : i = f layer % layer.size) :
    Filed (Function.update f layer (f layer + 1)) (Sinks layer (f layer)) log data none
      (opened lists ⟨layer, i⟩) where
  stands := by
    intro x a ha
    obtain ⟨rfl, ha⟩ | ⟨s, rfl, hne, ha⟩ := mem_opened.mp ha
    · obtain ⟨n, r, hn, hr, hp, hs⟩ := h.stands ha
      have hplaced : Placed f ⟨layer, i⟩ n r.due := hs
      refine ⟨n, r, hn, hr, hp, ?_, hplaced.digit⟩
      refine eq_of_mod_eq ?_ hplaced.lower hplaced.upper
      rw [← hplaced.index, hi]
    · obtain ⟨n, r, hn, hr, hp, hs⟩ := h.stands ha
      have hplaced : Placed f s n r.due := hs
      refine ⟨n, r, hn, hr, hp, ?_⟩
      obtain ⟨sl, si⟩ := s
      by_cases hl : sl = layer
      · subst hl
        have hbeyond : r.due / sl.unit ≠ f sl := by
          intro heq
          refine hne ?_
          have hindex : si = r.due / sl.unit % sl.size := hplaced.index
          rw [hindex, hi, heq]
        refine ⟨hplaced.index, ?_, ?_, hplaced.digit⟩
        · rw [Function.update_self]
          exact Nat.lt_of_le_of_ne hplaced.lower hbeyond.symm
        · rw [Function.update_self]
          have := hplaced.upper
          simp only at this ⊢
          omega
      · refine ⟨hplaced.index, ?_, ?_, hplaced.digit⟩
        · rw [Function.update_of_ne hl]
          exact hplaced.lower
        · rw [Function.update_of_ne hl]
          exact hplaced.upper
  listed := by
    intro a n hn
    obtain ⟨x, hx⟩ | hout := h.listed hn
    · rcases x with _ | s
      · obtain ⟨_, _, _, _, _, hfalse⟩ := h.stands hx
        exact hfalse.elim
      · by_cases hs : s = ⟨layer, i⟩
        · exact .inl ⟨none, mem_opened.mpr (.inl ⟨rfl, hs ▸ hx⟩)⟩
        · exact .inl ⟨some s, mem_opened.mpr (.inr ⟨s, rfl, hs, hx⟩)⟩
    · cases hout
  out_free := by simp
  owned := h.owned
  once := h.once
  kept := h.kept

/-- `Lists` and `Filed`, between two ticks. -/
def Timer.Wheels (f : Layer → Nat) (t : Timer) : Prop :=
  ∃ lists, Lists t.links t.nodes none none lists ∧ Filed f (fun _ _ => False) t.log t.data none lists

namespace Timer

/-- What `proc_up_layer_node` leaves: the nodes of the walk now stand in the wheel below. -/
theorem procUpLayerNode_loop {layer lower : Layer} (habove : Layer.Above layer lower) {slot : Slot} {v : Nat}
    {calcIndex : TimerNode → Nat} (hcalc : ∀ n, calcIndex n = n.toTimerData.digit lower)
    (hslot : slot.layer = layer) (hf : f lower = v * lower.size) {l : List Addr} (hl : lists none = l)
    (hlists : Lists t.links t.nodes (some slot) (t.nodes slot) lists)
    (hfiled : Filed f (Sinks layer v) t.log t.data none lists) {fuel : Nat} (hfuel : l.length < fuel) :
    ∃ nodes heap, procUpLayerNode lower slot calcIndex fuel t = some { t with nodes := nodes, heap := heap } ∧
      Wheels f { t with nodes := nodes, heap := heap } := by
  induction l generalizing t lists fuel with
  | nil =>
      obtain ⟨fuel, rfl⟩ := Nat.exists_eq_add_one_of_ne_zero (Nat.ne_of_gt hfuel)
      have hnone : t.nodes slot = none := hlists.walked.head_eq_none.mpr hl
      refine ⟨t.nodes, t.heap, ?_, lists, ?_, ?_⟩
      · unfold procUpLayerNode
        rw [hnone]
      · have hclosed := (hnone ▸ hlists).close
        rwa [Function.update_eq_self_iff.mpr hnone.symm] at hclosed
      · refine hfiled.mono fun {x a n r} ha hs => ?_
        rcases x with _ | s
        · rw [hl] at ha
          exact absurd ha List.not_mem_nil
        · exact hs
  | cons a l ih =>
      obtain ⟨fuel, rfl⟩ := Nat.exists_eq_add_one_of_ne_zero (Nat.ne_of_gt (Nat.zero_lt_of_lt hfuel))
      obtain ⟨hhead, k, hk, -⟩ := hl ▸ hlists.walked
      obtain ⟨n, hn, rfl⟩ := links_eq hk
      obtain ⟨m, r, hm, hr, hp, hsinks⟩ := hfiled.stands (x := none) (a := a) (by rw [hl]; simp)
      obtain rfl : m = n.toTimerData := by
        rw [data, hn] at hm
        exact (Option.some.inj hm).symm
      -- take the node out of the walk and file it below
      have hpop := hlists.pop hk hl
      have hone : ∀ x, x ≠ none → a ∉ lists x := fun x hx ha =>
        hx (hlists.once ha (y := none) (by rw [hl]; simp))
      have hout := hfiled.take hl (hl ▸ hlists.nodup none) hone
      have hplaced : Placed f ⟨lower, calcIndex n⟩ n.toTimerData r.due := by
        obtain ⟨hunit, hdigit⟩ := hsinks
        have hpos := lower.unit_pos
        have hlt := habove.unit_lt
        have hdiv : r.due / lower.unit / lower.size = v := by
          rw [Nat.div_div_eq_div_mul, ← habove.unit, hunit]
        refine ⟨?_, ?_, ?_, ?_⟩
        · rw [hcalc]
          exact hdigit lower hlt
        · rw [hf, ← hdiv]
          exact Nat.div_mul_le_self _ _
        · rw [hf, ← hdiv]
          exact Nat.lt_div_mul_add lower.size_pos
        · intro l' hl'
          exact hdigit l' (hl'.trans hlt)
      have hne : (⟨lower, calcIndex n⟩ : Slot) ≠ slot := by
        rintro rfl
        cases habove <;> cases hslot
      have hlists₁ : Lists (t.setNodes slot n.next).links (t.setNodes slot n.next).nodes (some slot) n.next
          (Function.update lists none l) :=
        hpop.heads_congr fun j hj => Function.update_of_ne hj _ _
      obtain ⟨nodes, heap, hadd, hlists₂, hdata, hnodes, -⟩ := addNode_spec hlists₁
        (fun heq => hne (Option.some.inj heq).symm) hplaced.size (hout.out_free rfl).2
        (show (t.setNodes slot n.next).heap a = some n from hn)
      have hfiled₂ := hout.put hm n.toTimerData rfl hr (by
        obtain ⟨r', hr', hown⟩ := hfiled.owned hm
        obtain rfl := Option.some.inj (hr.symm.trans hr')
        exact hown) hp hplaced
      rw [Function.update_eq_self_iff.mpr hm.symm] at hfiled₂
      rw [← show data { t.setNodes slot n.next with nodes := nodes, heap := heap } = t.data from funext hdata]
        at hfiled₂
      have hhead₂ : nodes slot = n.next := (hnodes slot hne.symm).trans (Function.update_self ..)
      have hl₂ : file (Function.update lists none l) ⟨lower, calcIndex n⟩ a none = l := by
        simp [file]
      obtain ⟨nodes', heap', hloop, hwheels⟩ := ih
        (t := { t.setNodes slot n.next with nodes := nodes, heap := heap })
        hl₂ (hhead₂.symm ▸ hlists₂) hfiled₂ (Nat.lt_of_succ_lt_succ hfuel)
      exact ⟨nodes', heap', (procUpLayerNode_succ hhead hn hadd fuel).trans hloop, hwheels⟩

/-- **A chain is spread over the wheel below.** -/
theorem procUpLayerNode_spec {layer lower : Layer} (habove : Layer.Above layer lower) {i : Nat}
    {calcIndex : TimerNode → Nat} (hcalc : ∀ n, calcIndex n = n.toTimerData.digit lower)
    (h : Wheels f t) (hi : i = f layer % layer.size) (hf : f lower = f layer * lower.size) :
    ∃ nodes heap, procUpLayerNode lower ⟨layer, i⟩ calcIndex t.fuel t =
        some { t with nodes := nodes, heap := heap } ∧
      Wheels (Function.update f layer (f layer + 1)) { t with nodes := nodes, heap := heap } := by
  obtain ⟨lists, hlists, hfiled⟩ := h
  have hlower : lower ≠ layer := by
    rintro rfl
    cases habove
  have hopen := hfiled.opened hi
  refine procUpLayerNode_loop habove hcalc rfl ?_ rfl (hlists.open_ ⟨layer, i⟩) hopen ?_
  · rw [Function.update_of_ne hlower, hf]
  · exact Nat.lt_succ_of_le (hopen.length_le ((hlists.open_ ⟨layer, i⟩).nodup none))

/-! ## The wheels move on -/

/-- In the middle of tick `now` the wheels with a unit above `u` have moved on. -/
def turned (now u : Nat) (layer : Layer) : Nat :=
  if u < layer.unit then frontier now layer else frontier (now - 1) layer

theorem frontier_pred {now : Nat} (hnow : 0 < now) (layer : Layer) :
    frontier (now - 1) layer = if now % layer.unit = 0 then now / layer.unit else frontier now layer := by
  by_cases hmod : now % layer.unit = 0
  · rw [if_pos hmod]
    cases layer <;> simp only [frontier, Layer.unit] at hmod ⊢ <;> omega
  · rw [if_neg hmod]
    cases layer <;> simp only [frontier, Layer.unit] at hmod ⊢ <;> omega

theorem turned_of_le {now u : Nat} (hnow : 0 < now) {layer : Layer} (hle : layer.unit ≤ u)
    (hmod : now % layer.unit = 0) : turned now u layer = now / layer.unit := by
  rw [turned, if_neg (Nat.not_lt.mpr hle), frontier_pred hnow, if_pos hmod]

theorem update_turned {now : Nat} {layer lower : Layer} (habove : Layer.Above layer lower) :
    Function.update (turned now layer.unit) layer (now / layer.unit + 1) = turned now lower.unit := by
  funext l
  cases habove <;> cases l <;> simp [turned, Layer.unit, frontier, Function.update]

/-- A wheel whose unit does not end with this tick does not move, and neither does any above it. -/
theorem turned_stays {now : Nat} (hnow : 0 < now) {layer lower : Layer} (habove : Layer.Above layer lower)
    (hmod : now % layer.unit ≠ 0) : turned now lower.unit = frontier (now - 1) := by
  funext l
  unfold turned
  split
  · rename_i hlt
    have hl : now % l.unit ≠ 0 := by
      cases habove <;> cases l <;> simp only [Layer.unit] at hlt hmod ⊢ <;> omega
    rw [frontier_pred hnow, if_neg hl]
  · rfl

theorem turned_top (now : Nat) : turned now Layer.day.unit = frontier (now - 1) := by
  funext l
  cases l <;> simp [turned, Layer.unit]

/-- One wheel moves on, and the chain of the slot it reaches is spread over the wheel below. -/
theorem spread_spec {now : Nat} (hnow : 0 < now) {layer lower : Layer} (habove : Layer.Above layer lower)
    (calcIndex : TimerNode → Nat) (hcalc : ∀ n, calcIndex n = n.toTimerData.digit lower)
    (h : Wheels (turned now layer.unit) t) (hmod : now % layer.unit = 0) :
    ∃ nodes heap, procUpLayerNode lower ⟨layer, now / layer.unit % layer.size⟩ calcIndex t.fuel t =
        some { t with nodes := nodes, heap := heap } ∧
      Wheels (turned now lower.unit) { t with nodes := nodes, heap := heap } := by
  have hlayer : turned now layer.unit layer = now / layer.unit := turned_of_le hnow le_rfl hmod
  have hmod' : now % lower.unit = 0 := by
    rw [habove.unit] at hmod
    exact Nat.mod_eq_zero_of_dvd (dvd_of_mul_right_dvd (Nat.dvd_of_mod_eq_zero hmod))
  have hlower : turned now layer.unit lower = now / lower.unit :=
    turned_of_le hnow habove.unit_lt.le hmod'
  obtain ⟨nodes, heap, hproc, hwheels⟩ :=
    procUpLayerNode_spec (i := now / layer.unit % layer.size) habove hcalc h (by rw [hlayer]) (by
      rw [hlayer, hlower, habove.unit, ← Nat.div_div_eq_div_mul]
      refine (Nat.div_mul_cancel ?_).symm
      rw [habove.unit] at hmod
      exact Nat.dvd_div_of_mul_dvd (Nat.dvd_of_mod_eq_zero hmod))
  rw [hlayer, update_turned habove] at hwheels
  exact ⟨nodes, heap, hproc, hwheels⟩

/-- **The day wheel** moves on at the end of a day. -/
theorem procDayNodes_spec {now : Nat} (hnow : 0 < now) (h : Wheels (frontier (now - 1)) t)
    (hmod : now % 86400 = 0) (hday : t.dayIndex = (now - 1) / 86400 % 30) (hhour : t.hourIndex = 24) :
    ∃ nodes heap, t.procDayNodes =
        some { t with dayIndex := now / 86400 % 30, nodes := nodes, heap := heap } ∧
      Wheels (turned now 3600) { t with dayIndex := now / 86400 % 30, nodes := nodes, heap := heap } := by
  have hindex : (t.dayIndex + t.hourIndex / 24) % 30 = now / 86400 % 30 := by
    rw [hday, hhour]
    omega
  rw [← turned_top] at h
  obtain ⟨nodes, heap, hproc, hwheels⟩ := spread_spec hnow (t := { t with dayIndex := now / 86400 % 30 }) .day
    (fun n => (n.slotIndex1 >>> 6) &&& 0x1F) (fun _ => rfl) h hmod
  refine ⟨nodes, heap, ?_, hwheels⟩
  unfold procDayNodes
  simp only [hindex]
  exact hproc

/-- **The hour wheel** moves on at the end of an hour, after the day wheel if that is one of a day. -/
theorem procHourNodes_spec {now : Nat} (hnow : 0 < now) (h : Wheels (frontier (now - 1)) t)
    (hmod : now % 3600 = 0) (hday : t.dayIndex = (now - 1) / 86400 % 30)
    (hhour : t.hourIndex = (now - 1) / 3600 % 24) (hminute : t.minuteIndex = 60) :
    ∃ nodes heap, t.procHourNodes = some { t with
        dayIndex := now / 86400 % 30, hourIndex := now / 3600 % 24, nodes := nodes, heap := heap } ∧
      Wheels (turned now 60) { t with
        dayIndex := now / 86400 % 30, hourIndex := now / 3600 % 24, nodes := nodes, heap := heap } := by
  have hraw : t.hourIndex + t.minuteIndex / 60 = (now - 1) / 3600 % 24 + 1 := by
    rw [hhour, hminute]
  -- the day wheel moves first, if the hours come round
  have hup : ∃ nodes heap,
      (if 24 ≤ t.hourIndex + t.minuteIndex / 60
        then procDayNodes { t with hourIndex := t.hourIndex + t.minuteIndex / 60 }
        else some { t with hourIndex := t.hourIndex + t.minuteIndex / 60 }) =
        some { t with hourIndex := t.hourIndex + t.minuteIndex / 60, dayIndex := now / 86400 % 30,
                      nodes := nodes, heap := heap } ∧
      Wheels (turned now 3600) { t with nodes := nodes, heap := heap } := by
    rw [hraw]
    split
    · rename_i hge
      exact procDayNodes_spec hnow (t := { t with hourIndex := _ }) h (by omega) hday
        (by show (now - 1) / 3600 % 24 + 1 = 24; omega)
    · rename_i hlt
      have hstay : turned now 3600 = frontier (now - 1) :=
        turned_stays hnow Layer.Above.day (by show now % 86400 ≠ 0; omega)
      refine ⟨t.nodes, t.heap, ?_, ?_⟩
      · rw [hday]
        congr 2
        omega
      · rw [hstay]
        exact h
  obtain ⟨nodes, heap, heq, hwheels⟩ := hup
  obtain ⟨nodes, heap, hproc, hwheels⟩ := spread_spec hnow
    (t := { t with dayIndex := now / 86400 % 30, hourIndex := now / 3600 % 24, nodes := nodes, heap := heap })
    .hour (fun n => n.slotIndex1 &&& 0x3F) (fun _ => rfl) hwheels hmod
  refine ⟨nodes, heap, ?_, hwheels⟩
  unfold procHourNodes
  have hindex : (t.hourIndex + t.minuteIndex / 60) % 24 = now / 3600 % 24 := by
    rw [hraw]
    omega
  show Option.bind (ite _ _ _) _ = _
  rw [heq, Option.bind_some]
  simp only [hindex]
  exact hproc

/-- **The minute wheel** moves on at the end of a minute. -/
theorem procMinuteNodes_spec {now : Nat} (hnow : 0 < now) (h : Wheels (frontier (now - 1)) t)
    (hmod : now % 60 = 0) (hday : t.dayIndex = (now - 1) / 86400 % 30)
    (hhour : t.hourIndex = (now - 1) / 3600 % 24) (hminute : t.minuteIndex = (now - 1) / 60 % 60)
    (hsecond : t.secondIndex = 60) :
    ∃ nodes heap, t.procMinuteNodes = some { t with
        dayIndex := now / 86400 % 30, hourIndex := now / 3600 % 24, minuteIndex := now / 60 % 60,
        nodes := nodes, heap := heap } ∧
      Wheels (turned now 1) { t with
        dayIndex := now / 86400 % 30, hourIndex := now / 3600 % 24, minuteIndex := now / 60 % 60,
        nodes := nodes, heap := heap } := by
  have hraw : t.minuteIndex + t.secondIndex / 60 = (now - 1) / 60 % 60 + 1 := by
    rw [hminute, hsecond]
  have hup : ∃ nodes heap,
      (if 60 ≤ t.minuteIndex + t.secondIndex / 60
        then procHourNodes { t with minuteIndex := t.minuteIndex + t.secondIndex / 60 }
        else some { t with minuteIndex := t.minuteIndex + t.secondIndex / 60 }) =
        some { t with minuteIndex := t.minuteIndex + t.secondIndex / 60, dayIndex := now / 86400 % 30,
                      hourIndex := now / 3600 % 24, nodes := nodes, heap := heap } ∧
      Wheels (turned now 60) { t with nodes := nodes, heap := heap } := by
    rw [hraw]
    split
    · rename_i hge
      exact procHourNodes_spec hnow (t := { t with minuteIndex := _ }) h (by omega) hday hhour
        (by show (now - 1) / 60 % 60 + 1 = 60; omega)
    · rename_i hlt
      have hhours : now % 3600 ≠ 0 := by omega
      have hstay : turned now 60 = frontier (now - 1) := turned_stays hnow .hour hhours
      refine ⟨t.nodes, t.heap, ?_, ?_⟩
      · have hd : (now - 1) / 86400 = now / 86400 := by omega
        have hh : (now - 1) / 3600 = now / 3600 := by omega
        rw [← hd, ← hh, ← hday, ← hhour]
      · rw [hstay]
        exact h
  obtain ⟨nodes, heap, heq, hwheels⟩ := hup
  obtain ⟨nodes, heap, hproc, hwheels⟩ := spread_spec hnow
    (t := { t with dayIndex := now / 86400 % 30, hourIndex := now / 3600 % 24, minuteIndex := now / 60 % 60,
                   nodes := nodes, heap := heap })
    .minute (fun n => n.slotIndex2 &&& 0x3F) (fun _ => rfl) hwheels hmod
  refine ⟨nodes, heap, ?_, hwheels⟩
  unfold procMinuteNodes
  have hindex : (t.minuteIndex + t.secondIndex / 60) % 60 = now / 60 % 60 := by
    rw [hraw]
    omega
  show Option.bind (ite _ _ _) _ = _
  rw [heq, Option.bind_some]
  simp only [hindex]
  exact hproc

/-- The four indices are the digits of the number of ticks. -/
structure Indexed (t : Timer) : Prop where
  second : t.secondIndex = t.ticks % 60
  minute : t.minuteIndex = t.ticks / 60 % 60
  hour   : t.hourIndex = t.ticks / 3600 % 24
  day    : t.dayIndex = t.ticks / 86400 % 30

/-- **The wheels turn.** After `advance` every wheel but the second one stands at the new tick. -/
theorem advance_spec (hindexed : t.Indexed) (h : Wheels (frontier t.ticks) t) :
    ∃ t', t.advance = some t' ∧ Wheels (turned t'.ticks 1) t' ∧ t'.Indexed ∧ t'.ticks = t.ticks + 1 ∧
      t'.log = t.log ∧ t'.timerId2Node = t.timerId2Node := by
  obtain ⟨hsecond, hminute, hhour, hday⟩ := hindexed
  have hnow : 0 < t.ticks + 1 := Nat.succ_pos _
  by_cases hmod : 60 ≤ t.secondIndex + 1
  · obtain ⟨nodes, heap, hproc, hwheels⟩ := procMinuteNodes_spec hnow
      (t := { t with secondIndex := t.secondIndex + 1, ticks := t.ticks + 1 }) h (by omega) hday hhour hminute
      (by show t.secondIndex + 1 = 60; omega)
    refine ⟨{ t with secondIndex := (t.secondIndex + 1) % 60, ticks := t.ticks + 1,
                     dayIndex := (t.ticks + 1) / 86400 % 30, hourIndex := (t.ticks + 1) / 3600 % 24,
                     minuteIndex := (t.ticks + 1) / 60 % 60, nodes := nodes, heap := heap },
      ?_, hwheels, ⟨?_, rfl, rfl, rfl⟩, rfl, rfl, rfl⟩
    · unfold advance
      show Option.bind (ite _ _ _) _ = _
      rw [if_pos hmod, hproc]
      rfl
    · show (t.secondIndex + 1) % 60 = (t.ticks + 1) % 60
      omega
  · refine ⟨{ t with secondIndex := (t.secondIndex + 1) % 60, ticks := t.ticks + 1 }, ?_, ?_, ⟨?_, ?_, ?_, ?_⟩,
      rfl, rfl, rfl⟩
    · unfold advance
      show Option.bind (ite _ _ _) _ = _
      rw [if_neg hmod]
      rfl
    -- within a minute no wheel but the second one moves
    · have hstay : turned (t.ticks + 1) 1 = frontier t.ticks :=
        turned_stays hnow .minute (by show (t.ticks + 1) % 60 ≠ 0; omega)
      show Wheels (turned (t.ticks + 1) 1) _
      rw [hstay]
      exact h
    · show (t.secondIndex + 1) % 60 = (t.ticks + 1) % 60
      omega
    · show t.minuteIndex = (t.ticks + 1) / 60 % 60
      rw [hminute]
      congr 1
      omega
    · show t.hourIndex = (t.ticks + 1) / 3600 % 24
      rw [hhour]
      congr 1
      omega
    · show t.dayIndex = (t.ticks + 1) / 86400 % 30
      rw [hday]
      congr 1
      omega

end Timer

end Mowang
