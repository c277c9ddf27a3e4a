import Mowang.Share.TimerTick

/-!
# `Share.TimerRuns` — the wheels over whole runs

`proc_node` walks a chain from its first node and files each repeating node elsewhere before it goes on, but
nobody clears the `pre` of the node that is now first. When that node does not repeat, `del_timer_core`
writes its `next` into the node that was filed. `Clean` is the condition that this write changes nothing;
under it every step keeps `Good`.

## Contents
- `TimerRecord.Scheduled`, `Grown` — the record of one timer over time.
- `addTimerCore_spec`, `procNodeCall_spec`, `procSecondNodes_spec`, `procNodeReturn_spec`, `addTimer_spec`.
- `Good`, `step_good`, `step_defined`, `run_good`.
- `wheels_kept` — every pending timer is in exactly one chain, once.
-/

namespace Mowang

open LinkedList (Links Lists Linked Walk insertAfterHead)

variable {t : Timer} {f : Layer → Nat} {lists : Option Slot → List Addr}

/-! ## One timer over time -/

/-- The ticks, the last one first, at which a timer comes up that is inserted again whenever it does. -/
def Fires (addedAt d : Nat) : List Nat → Prop
  | []         => True
  | x :: older => x = fireAt (older.headD addedAt) d ∧ Fires addedAt d older

/-- What the record of a timer says after `now` ticks. -/
structure TimerRecord.Scheduled (now : Nat) (r : TimerRecord) : Prop where
  positive : 0 < r.delay
  added    : r.addedAt ≤ now
  fired    : Fires r.addedAt r.delay r.fires
  past     : ∀ x ∈ r.fires, x ≤ now
  once     : r.repeats = false → r.fires.length ≤ 1

theorem TimerRecord.Scheduled.mono {now now' : Nat} {r : TimerRecord} (h : r.Scheduled now) (hle : now ≤ now') :
    r.Scheduled now' :=
  ⟨h.positive, h.added.trans hle, h.fired, fun x hx => (h.past x hx).trans hle, h.once⟩

/-- A pending timer fires when it comes up. -/
theorem TimerRecord.Scheduled.fire {now : Nat} {r : TimerRecord} (h : r.Scheduled now) (hp : r.Pending)
    (hdue : r.due = now) : (r.fire now).Scheduled now where
  positive := h.positive
  added := h.added
  fired := ⟨hdue.symm, h.fired⟩
  past x hx := by
    obtain rfl | hx := List.mem_cons.mp hx
    · exact le_rfl
    · exact h.past x hx
  once hrep := by
    have hrep : r.repeats = false := hrep
    obtain hp | hp := hp
    · rw [hrep] at hp
      cases hp
    · simp [TimerRecord.fire, hp]

/-- Records are only added at the end, and a record only gains ticks. -/
def Grown (log log' : List TimerRecord) : Prop :=
  ∀ (c : Nat) (r : TimerRecord), log[c]? = some r → ∃ newer, log'[c]? = some { r with fires := newer ++ r.fires }

theorem Grown.refl (log : List TimerRecord) : Grown log log := fun _ _ hr => ⟨[], hr⟩

theorem Grown.trans {log₁ log₂ log₃ : List TimerRecord} (h₁ : Grown log₁ log₂) (h₂ : Grown log₂ log₃) :
    Grown log₁ log₃ := by
  intro c r hr
  obtain ⟨newer, hr⟩ := h₁ c r hr
  obtain ⟨newest, hr⟩ := h₂ c _ hr
  exact ⟨newest ++ newer, by rw [hr, List.append_assoc]⟩

theorem grown_append (log : List TimerRecord) (r : TimerRecord) : Grown log (log ++ [r]) := fun _ _ hr =>
  ⟨[], (List.getElem?_append_left (List.getElem?_eq_some_iff.mp hr).1).trans hr⟩

theorem grown_fire (log : List TimerRecord) (c now : Nat) : Grown log (log.modify c (TimerRecord.fire now)) := by
  intro c' r hr
  by_cases heq : c = c'
  · subst heq
    refine ⟨[now], ?_⟩
    rw [List.getElem?_modify_eq, hr]
    rfl
  · exact ⟨[], by rw [List.getElem?_modify_ne _ _ heq, hr]; rfl⟩

namespace Timer

/-! ## Insertion -/

/-- The node that `add_timer_core` leaves. -/
def insertedData (n : TimerData) (delay : Nat) (rep : Bool) (callback now : Nat) : TimerData :=
  { n with
    delay := delay, callback := callback,
    slotIndex1 := slotIndex1 ((delay / 86400 + now / 86400 % 30) % 30) ((delay / 3600 + now / 3600 % 24) % 24)
      ((delay / 60 + now / 60 % 60) % 60),
    slotIndex2 := slotIndex2 rep ((delay % 60 + now % 60) % 60) }

theorem insertedData_digit (n : TimerData) (delay : Nat) (rep : Bool) (callback now : Nat) (layer : Layer) :
    (insertedData n delay rep callback now).digit layer =
      (delay / layer.unit + now / layer.unit) % layer.size := by
  obtain ⟨hsecond, hminute, hhour, hday⟩ := digit_slotIndex (n := insertedData n delay rep callback now)
    (Nat.mod_lt _ (by decide)) (Nat.mod_lt _ (by decide)) (Nat.mod_lt _ (by decide)) (Nat.mod_lt _ (by decide))
    rfl rfl
  cases layer with
  | second =>
      rw [hsecond]
      show _ = (delay / 1 + now / 1) % 60
      simp only [Nat.div_one, Nat.add_mod_mod, Nat.mod_add_mod]
  | minute =>
      rw [hminute]
      exact Nat.add_mod_mod ..
  | hour =>
      rw [hhour]
      exact Nat.add_mod_mod ..
  | day =>
      rw [hday]
      exact Nat.add_mod_mod ..

theorem insertedData_repeats (n : TimerData) (delay : Nat) (rep : Bool) (callback now : Nat) :
    (insertedData n delay rep callback now).repeats = rep :=
  repeats_slotIndex2 _ (Nat.mod_lt _ (by decide)) rfl

/-- Where `add_timer_core` files a node. -/
def insertSlot (delay now : Nat) : Slot :=
  ⟨Layer.ofDelay delay,
    (delay / (Layer.ofDelay delay).unit + now / (Layer.ofDelay delay).unit) % (Layer.ofDelay delay).size⟩

/-- A timer is never filed into the slot that is being fired. -/
theorem insertSlot_ne {delay now : Nat} (hd : 0 < delay) : insertSlot delay now ≠ ⟨.second, now % 60⟩ := by
  intro heq
  rw [insertSlot, Slot.mk.injEq] at heq
  obtain ⟨hlayer, hindex⟩ := heq
  rw [hlayer] at hindex
  have hlt : delay < 60 := by
    obtain ⟨hl, -⟩ | ⟨hl, -⟩ | ⟨hl, -⟩ | ⟨-, hlt⟩ := ofDelay_cases delay
    · exact absurd (hl.symm.trans hlayer) (by simp)
    · exact absurd (hl.symm.trans hlayer) (by simp)
    · exact absurd (hl.symm.trans hlayer) (by simp)
    · exact hlt
  have : (delay + now) % 60 = now % 60 := by
    simpa only [Layer.unit, Layer.size, Nat.div_one] using hindex
  omega

variable {hole : Option Slot} {walk : Option Addr} {a : Addr} {n : TimerNode}

theorem addTimerCore_eq {delay : Nat} (rep : Bool) (callback : Nat) (hindexed : t.Indexed)
    (ha : t.heap a = some n) : t.addTimerCore a delay rep callback =
      addNode (insertSlot delay t.ticks) a { t with heap := Function.update t.heap a (some { n with
        toTimerData := insertedData n.toTimerData delay rep callback t.ticks }) } := by
  obtain ⟨id, second, minute, hour, day, nodes, ids, heap, node, ticks, log⟩ := t
  obtain ⟨hsecond, hminute, hhour, hday⟩ := hindexed
  dsimp only at hsecond hminute hhour hday ha
  subst hsecond hminute hhour hday
  unfold addTimerCore
  show Option.bind (modify a _ _) _ = _
  rw [modify_eq ha, Option.bind_some]
  unfold insertSlot Layer.ofDelay
  split_ifs
  · exact congrArg (fun i => addNode ⟨.day, i⟩ a _) (Nat.add_mod_mod ..)
  · exact congrArg (fun i => addNode ⟨.hour, i⟩ a _) (Nat.add_mod_mod ..)
  · exact congrArg (fun i => addNode ⟨.minute, i⟩ a _) (Nat.add_mod_mod ..)
  · refine congrArg (fun i => addNode ⟨.second, i⟩ a _) ?_
    simp only [Layer.unit, Layer.size, Nat.div_one, Nat.add_mod_mod, Nat.mod_add_mod]

/-- **`add_timer_core` files the node where it comes up at `fireAt`.** -/
theorem addTimerCore_spec {delay : Nat} (hd : 0 < delay) (rep : Bool) (callback : Nat) (hindexed : t.Indexed)
    (h : Lists t.links t.nodes hole walk lists) (hhole : hole = none ∨ hole = some t.current)
    (hfresh : ∀ x, a ∉ lists x) (ha : t.heap a = some n) :
    ∃ nodes heap, t.addTimerCore a delay rep callback = some { t with nodes := nodes, heap := heap } ∧
      Lists (links { t with nodes := nodes, heap := heap }) nodes hole walk
        (file lists (insertSlot delay t.ticks) a) ∧
      data { t with nodes := nodes, heap := heap } =
        Function.update t.data a (some (insertedData n.toTimerData delay rep callback t.ticks)) ∧
      Placed (frontier t.ticks) (insertSlot delay t.ticks)
        (insertedData n.toTimerData delay rep callback t.ticks) (fireAt t.ticks delay) ∧
      ∀ x, x ≠ a → x ∉ lists (some (insertSlot delay t.ticks)) → heap x = t.heap x := by
  have hplaced : Placed (frontier t.ticks) (insertSlot delay t.ticks)
      (insertedData n.toTimerData delay rep callback t.ticks) (fireAt t.ticks delay) := by
    rw [insertSlot, ← insertedData_digit n.toTimerData delay rep callback]
    exact placed_fireAt hd fun layer => insertedData_digit ..
  have hslot : hole ≠ some (insertSlot delay t.ticks) := by
    rintro rfl
    obtain hhole | hhole := hhole
    · cases hhole
    · rw [Option.some.injEq, current, hindexed.second] at hhole
      exact insertSlot_ne hd hhole
  -- the data of the node are written before it is linked
  have hlinks : links { t with heap := Function.update t.heap a (some { n with
      toTimerData := insertedData n.toTimerData delay rep callback t.ticks }) } = t.links := by
    funext x
    by_cases hx : x = a
    · subst hx
      simp [links, ha]
    · simp [links, hx]
  obtain ⟨nodes, heap, hadd, hlists, hdata, -, hframe⟩ := addNode_spec (hlinks.symm ▸ h) hslot hplaced.size hfresh
    (Function.update_self ..)
  refine ⟨nodes, heap, ?_, hlists, ?_, hplaced, fun x hxa hxl => ?_⟩
  · exact (addTimerCore_eq rep callback hindexed ha).trans hadd
  · funext x
    refine (hdata x).trans ?_
    by_cases hx : x = a
    · subst hx
      simp [data]
    · simp [data, hx]
  · rw [hframe x hxa hxl]
    exact Function.update_of_ne hxa _ _

/-! ## The invariant -/

/-- What holds at every moment. -/
structure Sound (t : Timer) : Prop where
  indexed   : t.Indexed
  ids       : t.timerId2Node = []
  scheduled : ∀ r ∈ t.log, r.Scheduled t.ticks

/-- The state at the head of the loop of `proc_node`: the nodes still to be walked come up now. -/
structure Walking (lists : Option Slot → List Addr) (t : Timer) : Prop where
  sound : t.Sound
  chains : Lists t.links t.nodes (some t.current) t.node lists
  filed : Filed (frontier t.ticks) (fun _ due => due = t.ticks) t.log t.data none lists

/-- The callback of `a` is running. -/
structure Calling (lists : Option Slot → List Addr) (a : Addr) (n : TimerNode) (r : TimerRecord) (t : Timer) :
    Prop where
  node  : t.heap a = some n
  chains : Lists t.links t.nodes (some t.current) n.next lists
  filed : Filed (frontier t.ticks) (fun _ due => due = t.ticks) t.log t.data (some a) lists
  log   : t.log[n.callback]? = some r
  fired : ∃ older, r.fires = t.ticks :: older

/-- **The invariant of the wheels**, between two ticks and while a callback is running. -/
def Good (t : Timer) : Prop :=
  t.Sound ∧ match t.node with
    | none   => Wheels (frontier t.ticks) t
    | some a => ∃ lists n r, Calling lists a n r t

theorem data_eq (h : t.heap a = some n) : t.data a = some n.toTimerData := by
  rw [data, h]
  rfl

theorem data_toTimerData {m : TimerData} (h : t.data a = some m) :
    ∃ n, t.heap a = some n ∧ n.toTimerData = m :=
  Option.map_eq_some_iff.mp h

theorem init_good : init.Good := by
  refine ⟨⟨⟨rfl, rfl, rfl, rfl⟩, rfl, by simp [init]⟩, fun _ => [], ?_, ?_⟩
  · exact ⟨fun _ _ => rfl, by simp, rfl, by simp⟩
  · exact ⟨by simp, by simp [data, init], by simp, by simp [data, init], by simp [data, init], by simp [init]⟩

theorem Sound.record (h : t.Sound) {c : Nat} {r : TimerRecord} (hr : t.log[c]? = some r) :
    r.Scheduled t.ticks :=
  h.scheduled r (List.mem_of_getElem? hr)

/-! ## The steps -/

/-- **The loop of `proc_node`** either calls back the next timer, which comes up now, or ends with all
    chains in order. -/
theorem procNodeCall_spec (h : Walking lists t) :
    ∃ t', t.procNodeCall = some t' ∧ t'.Good ∧ t'.ticks = t.ticks ∧ Grown t.log t'.log := by
  unfold procNodeCall
  cases hnode : t.node with
  | none =>
      have hlists := h.chains
      rw [hnode] at hlists
      -- no node is left, so the slot is closed
      have hempty : lists none = [] := hlists.walked.head_eq_none.mp rfl
      obtain ⟨hsecond, hminute, hhour, hday⟩ := h.sound.indexed
      refine ⟨_, rfl, ⟨⟨⟨hsecond, hminute, hhour, hday⟩, h.sound.ids, h.sound.scheduled⟩, ?_⟩, rfl, .refl _⟩
      show match t.node with
        | none   => Wheels (frontier t.ticks) (t.setNodes t.current none)
        | some a => _
      rw [hnode]
      refine ⟨lists, hlists.close, h.filed.mono fun {x a n r} ha hs => ?_⟩
      rcases x with _ | slot
      · rw [hempty] at ha
        exact absurd ha List.not_mem_nil
      · exact hs
  | some a =>
      have hlists := h.chains
      rw [hnode] at hlists
      -- the head of the walk is taken out, and its timer fires now
      obtain ⟨l, hl⟩ : ∃ l, lists none = a :: l := by
        cases hl : lists none with
        | nil => exact absurd (hlists.walked.head_eq_none.mpr hl) (by simp)
        | cons b l =>
            obtain ⟨hhead, -⟩ := hl ▸ hlists.walked
            obtain rfl := Option.some.inj hhead
            exact ⟨l, rfl⟩
      obtain ⟨m, r, hm, hr, hp, hdue⟩ := h.filed.stands (x := none) (a := a) (by rw [hl]; simp)
      obtain ⟨n, hn, rfl⟩ := data_toTimerData hm
      have hone : ∀ x, x ≠ none → a ∉ lists x := fun x hx ha =>
        hx (hlists.once ha (y := none) (by rw [hl]; simp))
      have hout := (h.filed.take hl (hl ▸ hlists.nodup none) hone).fire hm t.ticks
      have hlinks : t.links a = some n.toLinks := by
        rw [links, hn]
        rfl
      refine ⟨{ t with log := t.log.modify n.callback (TimerRecord.fire t.ticks) }, ?_, ⟨?_, ?_⟩, rfl,
        grown_fire _ _ _⟩
      · show Option.map _ (t.heap a) = _
        rw [hn, hnode]
        rfl
      · obtain ⟨hsecond, hminute, hhour, hday⟩ := h.sound.indexed
        refine ⟨⟨hsecond, hminute, hhour, hday⟩, h.sound.ids, fun q hq => ?_⟩
        obtain ⟨c, hc⟩ := List.getElem?_of_mem hq
        by_cases heq : n.callback = c
        · subst heq
          rw [List.getElem?_modify_eq, hr] at hc
          obtain rfl := Option.some.inj hc
          exact (h.sound.record hr).fire hp hdue
        · rw [List.getElem?_modify_ne _ _ heq] at hc
          exact h.sound.record hc
      · show match t.node with
          | none   => _
          | some a => ∃ lists n r, Calling lists a n r _
        rw [hnode]
        refine ⟨_, n, r.fire t.ticks, hn, hlists.pop hlinks hl, hout, ?_, r.fires, rfl⟩
        show (t.log.modify n.callback _)[n.callback]? = _
        rw [List.getElem?_modify_eq, hr]
        rfl

/-- **A tick** turns the wheels and calls back the first timer that comes up. -/
theorem procSecondNodes_spec (h : t.Good) (hnode : t.node = none) :
    ∃ t', t.procSecondNodes = some t' ∧ t'.Good ∧ t'.ticks = t.ticks + 1 ∧ Grown t.log t'.log := by
  obtain ⟨hsound, hwheels⟩ := h
  rw [hnode] at hwheels
  obtain ⟨t', hadvance, ⟨lists, hlists, hfiled⟩, hindexed, hticks, hlog, hids⟩ :=
    advance_spec hsound.indexed hwheels
  have hpos : 0 < t'.ticks := by omega
  have hnow : turned t'.ticks 1 .second = t'.ticks := by
    exact (turned_of_le hpos (le_refl Layer.second.unit) (Nat.mod_one _)).trans (Nat.div_one _)
  have hi : t'.secondIndex = turned t'.ticks 1 .second % 60 := by
    rw [hnow, hindexed.second]
  have hfrontier : Function.update (turned t'.ticks 1) .second (turned t'.ticks 1 .second + 1) =
      frontier t'.ticks := by
    rw [hnow]
    funext l
    cases l <;> simp [turned, frontier, Layer.unit, Function.update]
  have hopen := hfiled.opened hi
  rw [hfrontier] at hopen
  have hwalking : Walking (opened lists ⟨.second, t'.secondIndex⟩)
      { t' with node := t'.nodes t'.current } := by
    refine ⟨⟨⟨hindexed.second, hindexed.minute, hindexed.hour, hindexed.day⟩, ?_, ?_⟩,
      hlists.open_ ⟨.second, t'.secondIndex⟩, hopen.mono fun {x a n r} _ hs => ?_⟩
    · exact hids.trans hsound.ids
    · intro r hr
      exact (hsound.scheduled r (hlog ▸ hr)).mono (by show t.ticks ≤ t'.ticks; omega)
    · rcases x with _ | slot
      · obtain ⟨hdue, -⟩ := hs
        rw [hnow] at hdue
        exact (Nat.div_one _).symm.trans hdue
      · exact hs
  obtain ⟨t'', hcall, hgood, hticks', hgrown⟩ := procNodeCall_spec hwalking
  refine ⟨t'', ?_, hgood, hticks'.trans hticks, hlog ▸ hgrown⟩
  unfold procSecondNodes
  rw [hadvance]
  exact hcall

/-- The heap after a node was freed whose `pre` had nothing to write into: only `pre` of the next node was
    written. -/
def freedHeap (heap : Addr → Option TimerNode) (pre next : Option Addr) (a : Addr) : Addr → Option TimerNode :=
  match next with
  | none   => Function.update heap a none
  | some b => Function.update (Function.update heap b ((heap b).map fun m => { m with pre := pre })) a none

/-- Away from the freed node the heap keeps everything but the `pre` of the next node. -/
theorem freedHeap_map {β : Type} {heap : Addr → Option TimerNode} {pre next : Option Addr} {x : Addr} (hx : x ≠ a)
    {k : TimerNode → β} (hk : next = some x → ∀ m : TimerNode, k { m with pre := pre } = k m) :
    (freedHeap heap pre next a x).map k = (heap x).map k := by
  unfold freedHeap
  cases next with
  | none => simp only [Function.update_of_ne hx]
  | some b =>
      simp only [Function.update_of_ne hx]
      by_cases hxb : x = b
      · subst hxb
        simp only [Function.update_self, Option.map_map]
        congr 1
        funext m
        exact hk rfl m
      · rw [Function.update_of_ne hxb]

theorem freedHeap_self {heap : Addr → Option TimerNode} {pre next : Option Addr} :
    freedHeap heap pre next a a = none := by
  unfold freedHeap
  cases next with
  | none => exact Function.update_self ..
  | some b => exact Function.update_self ..

/-- The first write of `del_timer_core(n)`, into the node that `pre` names, changes nothing. -/
def Harmless (t : Timer) (n : TimerNode) : Prop :=
  ∀ p ∈ n.pre, (t.heap p).map (·.next) = some n.next

instance (t : Timer) (n : TimerNode) : Decidable (t.Harmless n) := inferInstanceAs (Decidable (∀ _ ∈ _, _))

theorem delTimerCore_eq (ha : t.heap a = some n) (hharmless : t.Harmless n)
    (halloc : ∀ b, n.next = some b → (t.heap b).isSome) :
    t.delTimerCore a = some { t with heap := freedHeap t.heap n.pre n.next a } := by
  have hfirst : (match n.pre with
      | none   => some t
      | some p => t.modify p fun m => { m with next := n.next }) = some t := by
    cases hp : n.pre with
    | none => rfl
    | some p =>
        obtain ⟨m, hm, hnext⟩ := Option.map_eq_some_iff.mp (hharmless p hp)
        have hsame : ({ m with next := n.next } : TimerNode) = m := by
          rw [← hnext]
        show t.modify p _ = some t
        rw [modify_eq hm, hsame, Function.update_eq_self_iff.mpr hm.symm]
  unfold delTimerCore freedHeap
  simp only [ha, Option.bind_eq_bind, Option.bind_some]
  refine (congrArg (fun o => Option.bind o _) hfirst).trans ?_
  simp only [ha, Option.bind_some]
  cases hn : n.next with
  | none => rfl
  | some b =>
      obtain ⟨m, hm⟩ := Option.isSome_iff_exists.mp (halloc b hn)
      show Option.bind (t.modify b _) _ = _
      rw [modify_eq hm]
      simp only [Option.bind_some, hm, Option.map_some]

/-- A timer that will not fire again is freed. -/
theorem delTimerCore_spec {r : TimerRecord} (h : Calling lists a n r t) (hharmless : t.Harmless n)
    (hrep : r.repeats = false) :
    ∃ heap, delTimerCore a { t with node := n.next } = some { t with node := n.next, heap := heap } ∧
      Lists (links { t with heap := heap }) t.nodes (some t.current) n.next lists ∧
      Filed (frontier t.ticks) (fun _ due => due = t.ticks) t.log (data { t with heap := heap }) none lists := by
  have hfree : ∀ x, a ∉ lists x := (h.filed.out_free rfl).2
  -- the next node is still to be walked
  have hmem : ∀ b, n.next = some b → b ∈ lists none := by
    intro b hb
    have hwalk := h.chains.walked
    rw [hb] at hwalk
    cases hl : lists none with
    | nil =>
        rw [hl] at hwalk
        cases hwalk
    | cons c l =>
        rw [hl] at hwalk
        obtain rfl := Option.some.inj hwalk.1
        simp
  have halloc : ∀ b, n.next = some b → (t.heap b).isSome := by
    intro b hb
    obtain ⟨k, hk⟩ := h.chains.allocated (hmem b hb)
    obtain ⟨m, hm, -⟩ := links_eq hk
    rw [hm]
    rfl
  have hpending : ¬ r.Pending := by
    obtain ⟨older, hfires⟩ := h.fired
    rintro (hp | hp)
    · rw [hrep] at hp
      cases hp
    · rw [hfires] at hp
      cases hp
  refine ⟨freedHeap t.heap n.pre n.next a,
    delTimerCore_eq (t := { t with node := n.next }) h.node hharmless halloc, ?_, ?_⟩
  · refine h.chains.congr (fun i x hx => freedHeap_map ?_ fun hnext => ?_) fun x hx => ?_
    · rintro rfl
      exact hfree (some i) hx
    · exact absurd (h.chains.once hx (hmem x hnext)) (by simp)
    · have hxa : x ≠ a := by
        rintro rfl
        exact hfree none hx
      simp only [links, Option.map_map]
      exact freedHeap_map hxa fun _ _ => rfl
  · have hdata : data { t with heap := freedHeap t.heap n.pre n.next a } = Function.update t.data a none := by
      funext x
      by_cases hx : x = a
      · subst hx
        simp [data, freedHeap_self]
      · rw [Function.update_of_ne hx]
        exact freedHeap_map hx fun _ _ => rfl
    exact (h.filed.drop (data_eq h.node) h.log hpending).of_data hdata

/-- `del_timer_core` writes through `pre` of the node it frees. In `proc_node` that is a stale link if it is
    there at all: it names a node before this one that repeats and was filed elsewhere. `Clean` says that
    no step changes a node through it. -/
def Clean (t : Timer) (l : TimerLabel) : Prop :=
  l = .ret → ∀ a ∈ t.node, ∀ n ∈ t.heap a, n.repeats = false → t.Harmless n

instance (t : Timer) (l : TimerLabel) : Decidable (t.Clean l) := inferInstanceAs (Decidable (_ → _))

/-- **The return of a callback.** A repeating timer is filed again, another one is freed. -/
theorem procNodeReturn_spec (h : t.Good) (hclean : t.Clean .ret) (hnode : t.node = some a) :
    ∃ t', t.procNodeReturn = some t' ∧ t'.Good ∧ t'.ticks = t.ticks ∧ Grown t.log t'.log := by
  obtain ⟨hsound, hcalling⟩ := h
  rw [hnode] at hcalling
  obtain ⟨lists, n, r, hcalling⟩ := hcalling
  obtain ⟨q, hq, howns⟩ := hcalling.filed.owned (data_eq hcalling.node)
  obtain rfl := Option.some.inj (hcalling.log.symm.trans hq)
  have hrecord := hsound.record hcalling.log
  obtain ⟨older, hfires⟩ := hcalling.fired
  have hunfold : t.procNodeReturn =
      (if n.repeats then addTimerCore a n.delay true n.callback { t with node := n.next }
        else delTimerCore a { t with node := n.next }).bind procNodeCall := by
    unfold procNodeReturn
    rw [hnode]
    show Option.bind (t.heap a) _ = _
    rw [hcalling.node]
    rfl
  rw [hunfold]
  by_cases hrep : n.repeats = true
  · rw [if_pos hrep]
    obtain ⟨hsecond, hminute, hhour, hday⟩ := hsound.indexed
    have hdelay : 0 < n.delay := by
      rw [howns.delay]
      exact hrecord.positive
    obtain ⟨nodes, heap, hadd, hlists, hdata, hplaced, -⟩ := addTimerCore_spec (t := { t with node := n.next })
      hdelay true n.callback ⟨hsecond, hminute, hhour, hday⟩ hcalling.chains (.inr rfl)
      (hcalling.filed.out_free rfl).2 hcalling.node
    rw [hadd]
    have hfiled := hcalling.filed.put (data_eq hcalling.node)
      (insertedData n.toTimerData n.delay true n.callback t.ticks) rfl hcalling.log
      ⟨howns.id, howns.delay, by rw [insertedData_repeats, ← howns.repeats, hrep]⟩
      (.inl (by rw [← howns.repeats, hrep]))
      (by
        rw [TimerRecord.due, TimerRecord.inserted, hfires, ← howns.delay]
        exact hplaced)
    exact procNodeCall_spec (t := { t with node := n.next, nodes := nodes, heap := heap })
      ⟨⟨⟨hsecond, hminute, hhour, hday⟩, hsound.ids, hsound.scheduled⟩, hlists, hfiled.of_data hdata⟩
  · rw [if_neg hrep]
    obtain ⟨hsecond, hminute, hhour, hday⟩ := hsound.indexed
    have hrep : n.repeats = false := by simpa using hrep
    obtain ⟨heap, hdel, hlists, hfiled⟩ := delTimerCore_spec hcalling
      (hclean rfl a hnode n hcalling.node hrep) (by rw [← howns.repeats, hrep])
    rw [hdel]
    exact procNodeCall_spec (t := { t with node := n.next, heap := heap })
      ⟨⟨⟨hsecond, hminute, hhour, hday⟩, hsound.ids, hsound.scheduled⟩, hlists, hfiled⟩

/-- The record of a timer that is added now. -/
def newRecord (t : Timer) (delay : Nat) (rep : Bool) : TimerRecord :=
  ⟨t.timerId + 1, delay, rep, t.ticks, []⟩

/-- `add_timer` on the lists and the nodes, whatever is being walked. -/
theorem addTimer_lists {W : TimerData → Nat → Prop} {out : Option Addr} {delay : Nat} (hd : 0 < delay) (rep : Bool)
    (hsound : t.Sound) (h : Lists t.links t.nodes hole walk lists) (hhole : hole = none ∨ hole = some t.current)
    (hfiled : Filed (frontier t.ticks) W t.log t.data out lists) (hfree : t.heap a = none) :
    ∃ nodes heap, t.addTimer delay rep a = some { t with
        timerId := t.timerId + 1, nodes := nodes, heap := heap, log := t.log ++ [t.newRecord delay rep] } ∧
      Lists (links { t with heap := heap }) nodes hole walk (file lists (insertSlot delay t.ticks) a) ∧
      Filed (frontier t.ticks) W (t.log ++ [t.newRecord delay rep]) (data { t with heap := heap }) out
        (file lists (insertSlot delay t.ticks) a) ∧
      ∀ x, x ≠ a → x ∉ lists (some (insertSlot delay t.ticks)) → heap x = t.heap x := by
  obtain ⟨hsecond, hminute, hhour, hday⟩ := hsound.indexed
  have hfresh : ∀ x, a ∉ lists x := by
    intro x hx
    obtain ⟨k, hk⟩ := h.allocated hx
    obtain ⟨n, hn, -⟩ := links_eq hk
    rw [hfree] at hn
    cases hn
  let n₀ : TimerNode :=
    { pre := none, next := none, delay := 0, slotIndex1 := 0, slotIndex2 := 0, timerId := t.timerId + 1, callback := 0 }
  -- the fresh node is in no list
  have hlists : Lists (links { t with heap := Function.update t.heap a (some n₀) }) t.nodes hole walk lists := by
    have hsame : ∀ x, ∀ b ∈ lists x, links { t with heap := Function.update t.heap a (some n₀) } b = t.links b := by
      intro x b hb
      have hba : b ≠ a := fun heq => hfresh x (heq ▸ hb)
      simp [links, hba]
    exact h.congr (fun i b hb => hsame (some i) b hb) fun b hb => by rw [hsame none b hb]
  obtain ⟨nodes, heap, hadd, hlists, hdata, hplaced, hframe⟩ := addTimerCore_spec
    (t := { t with timerId := t.timerId + 1, heap := Function.update t.heap a (some n₀) }) hd rep t.log.length
    ⟨hsecond, hminute, hhour, hday⟩ hlists hhole hfresh (Function.update_self ..)
  have hdata' : data { t with heap := heap } =
      Function.update t.data a (some (insertedData n₀.toTimerData delay rep t.log.length t.ticks)) := by
    refine hdata.trans ?_
    funext x
    by_cases hx : x = a
    · subst hx
      simp
    · simp [data, hx]
  refine ⟨nodes, heap, ?_, hlists, ?_, ?_⟩
  · unfold addTimer allocate
    rw [hfree]
    show Option.bind (modify a _ _) _ = _
    rw [modify_eq (Function.update_self ..)]
    show Option.bind (addTimerCore a delay rep t.log.length { t with
      timerId := t.timerId + 1, heap := Function.update (Function.update t.heap a _) a (some n₀) }) _ = _
    rw [Function.update_idem, hadd]
    rfl
  · refine (hfiled.add (r := t.newRecord delay rep) (by rw [data, hfree]; rfl) rfl ⟨rfl, rfl, ?_⟩ (.inr rfl)
      hplaced).of_data hdata'
    exact insertedData_repeats ..
  · intro x hxa hxl
    exact (hframe x hxa hxl).trans (Function.update_of_ne hxa _ _)

/-- **A new timer**, from outside or from the callback that is running. -/
theorem addTimer_spec (h : t.Good) (delay : ℕ+) (rep : Bool) (hfree : t.heap a = none) :
    ∃ t', t.addTimer delay rep a = some t' ∧ t'.Good ∧ t'.ticks = t.ticks ∧ Grown t.log t'.log := by
  obtain ⟨hsound, hwheels⟩ := h
  have hsound' : ∀ nodes heap, Sound { t with
      timerId := t.timerId + 1, nodes := nodes, heap := heap, log := t.log ++ [t.newRecord delay rep] } := by
    intro nodes heap
    obtain ⟨hsecond, hminute, hhour, hday⟩ := hsound.indexed
    refine ⟨⟨hsecond, hminute, hhour, hday⟩, hsound.ids, fun r hr => ?_⟩
    obtain hr | hr := List.mem_append.mp hr
    · exact hsound.scheduled r hr
    · obtain rfl := List.mem_singleton.mp hr
      exact ⟨delay.pos, le_rfl, trivial, by simp [newRecord], by simp [newRecord]⟩
  cases hnode : t.node with
  | none =>
      rw [hnode] at hwheels
      obtain ⟨lists, hlists, hfiled⟩ := hwheels
      obtain ⟨nodes, heap, hadd, hlists, hfiled, -⟩ :=
        addTimer_lists delay.pos rep hsound hlists (.inl rfl) hfiled hfree
      refine ⟨_, hadd, ⟨hsound' nodes heap, ?_⟩, rfl, grown_append _ _⟩
      simp only [hnode]
      exact ⟨_, hlists, hfiled⟩
  | some b =>
      rw [hnode] at hwheels
      obtain ⟨lists, n, r, hcalling⟩ := hwheels
      obtain ⟨nodes, heap, hadd, hlists, hfiled, hframe⟩ :=
        addTimer_lists delay.pos rep hsound hcalling.chains (.inr rfl) hcalling.filed hfree
      have hba : b ≠ a := by
        rintro rfl
        rw [hcalling.node] at hfree
        cases hfree
      refine ⟨_, hadd, ⟨hsound' nodes heap, ?_⟩, rfl, grown_append _ _⟩
      simp only [hnode]
      refine ⟨_, n, r, ?_, hlists, hfiled, ?_, hcalling.fired⟩
      · exact (hframe b hba ((hcalling.filed.out_free rfl).2 _)).trans hcalling.node
      · exact (List.getElem?_append_left (List.getElem?_eq_some_iff.mp hcalling.log).1).trans hcalling.log

/-- `del_timer` finds no entry and does nothing. -/
theorem delTimer_eq (h : t.Sound) (id : UInt64) : t.delTimer id = some t := by
  unfold delTimer
  rw [h.ids]
  rfl

theorem addTimer_free {delay : Nat} {rep : Bool} {t' : Timer} (h : t.addTimer delay rep a = some t') :
    t.heap a = none := by
  cases hheap : t.heap a with
  | none => rfl
  | some n =>
      unfold addTimer allocate at h
      rw [hheap] at h
      cases h

/-- **One step keeps the invariant**, if it takes no stale link. -/
theorem step_good {l : TimerLabel} {t' : Timer} (h : t.Good) (hclean : t.Clean l) (hstep : t.step l = some t') :
    t'.Good ∧ t'.ticks = t.ticks + [l].count .tick ∧ Grown t.log t'.log := by
  cases l with
  | add delay rep node =>
      obtain ⟨t₁, hadd, hgood, hticks, hgrown⟩ := addTimer_spec h delay rep (addTimer_free hstep)
      obtain rfl := Option.some.inj (hadd.symm.trans hstep)
      exact ⟨hgood, hticks, hgrown⟩
  | del id =>
      obtain rfl := Option.some.inj ((delTimer_eq h.1 id).symm.trans hstep)
      exact ⟨h, rfl, .refl _⟩
  | tick =>
      by_cases hnode : t.node = none
      · obtain ⟨t₁, htick, hgood, hticks, hgrown⟩ := procSecondNodes_spec h hnode
        obtain rfl := Option.some.inj (htick.symm.trans ((if_pos hnode).symm.trans hstep))
        exact ⟨hgood, hticks, hgrown⟩
      · exact absurd ((if_neg hnode).symm.trans hstep) (by simp)
  | ret =>
      obtain ⟨a, hnode, -⟩ := Option.bind_eq_some_iff.mp hstep
      obtain ⟨t₁, hret, hgood, hticks, hgrown⟩ := procNodeReturn_spec h hclean hnode
      obtain rfl := Option.some.inj (hret.symm.trans hstep)
      exact ⟨hgood, hticks, hgrown⟩

/-- **No step gets stuck.** A step that takes no stale link reads no freed node and ends its loops, whenever
    it can begin: a new timer needs a free node, a tick that no callback is running, a return that one is. -/
theorem step_defined {l : TimerLabel} (h : t.Good) (hclean : t.Clean l)
    (hbegin : match l with
      | .add _ _ node => t.heap node = none
      | .del _        => True
      | .tick         => t.node = none
      | .ret          => t.node ≠ none) : ∃ t', t.step l = some t' := by
  cases l with
  | add delay rep node =>
      obtain ⟨t', hadd, -⟩ := addTimer_spec h delay rep hbegin
      exact ⟨t', hadd⟩
  | del id => exact ⟨t, delTimer_eq h.1 id⟩
  | tick =>
      obtain ⟨t', htick, -⟩ := procSecondNodes_spec h hbegin
      exact ⟨t', (if_pos hbegin).trans htick⟩
  | ret =>
      obtain ⟨a, hnode⟩ := Option.ne_none_iff_exists'.mp hbegin
      obtain ⟨t', hret, -⟩ := procNodeReturn_spec h hclean hnode
      exact ⟨t', hret⟩

/-- **A whole run keeps the invariant**, if none of its steps takes a stale link. -/
theorem run_good {labels : List TimerLabel} {t' : Timer} (h : t.Good) (hclean : Along step Clean t labels)
    (hrun : run step t labels = some t') :
    t'.Good ∧ t'.ticks = t.ticks + labels.count .tick ∧ Grown t.log t'.log := by
  induction labels generalizing t with
  | nil =>
      cases hrun
      exact ⟨h, rfl, .refl _⟩
  | cons l labels ih =>
      obtain ⟨t₁, hstep, hrest⟩ := Option.bind_eq_some_iff.mp hrun
      obtain ⟨hgood, hticks, hgrown⟩ := step_good h hclean.1 hstep
      obtain ⟨hgood', hticks', hgrown'⟩ := ih hgood (hclean.2 t₁ hstep) hrest
      refine ⟨hgood', ?_, hgrown.trans hgrown'⟩
      rw [hticks', hticks, Nat.add_assoc, ← List.count_append]
      rfl

/-! ## The wheels between two ticks -/

/-- What the wheels are for, read off the heap: `chains` lists the nodes that each slot reaches. -/
structure Kept (t : Timer) (chains : Slot → List Addr) : Prop where
  /-- Each chain ends, reaches allocated nodes only, and is linked both ways. -/
  linked : ∀ slot, Linked t.links none (t.nodes slot) (chains slot)
  /-- It is acyclic: no node occurs twice. -/
  nodup : ∀ slot, (chains slot).Nodup
  /-- No node is in two chains. -/
  once : ∀ {slot slot' a}, a ∈ chains slot → a ∈ chains slot' → slot = slot'
  /-- The nodes in the chains are those of the timers that were added and will fire again. -/
  pending : ∀ c, (∃ r, t.log[c]? = some r ∧ r.Pending) ↔
    ∃ slot a n, a ∈ chains slot ∧ t.heap a = some n ∧ n.callback = c
  /-- Each of them has one node. -/
  single : ∀ {a b n m}, t.heap a = some n → t.heap b = some m → n.callback = m.callback → a = b

/-- Every pending timer is in exactly one chain, exactly once, and nothing else is in a chain. -/
def WellKept (t : Timer) : Prop := ∃ chains, t.Kept chains

theorem Good.wellKept (h : t.Good) (hnode : t.node = none) : t.WellKept := by
  obtain ⟨-, hwheels⟩ := h
  rw [hnode] at hwheels
  obtain ⟨lists, hlists, hfiled⟩ := hwheels
  refine ⟨fun slot => lists (some slot), ?_, ?_, ?_, ?_, ?_⟩
  · exact fun slot => hlists.linked slot (by simp)
  · exact fun slot => hlists.nodup (some slot)
  · exact fun ha hb => Option.some.inj (hlists.once ha hb)
  · intro c
    constructor
    · rintro ⟨r, hr, hp⟩
      obtain ⟨a, m, hm, hc⟩ := hfiled.kept hr hp
      obtain ⟨n, hn, rfl⟩ := data_toTimerData hm
      obtain ⟨x, hx⟩ | hout := hfiled.listed hm
      · rcases x with _ | slot
        · obtain ⟨_, _, _, _, _, hfalse⟩ := hfiled.stands hx
          exact hfalse.elim
        · exact ⟨slot, a, n, hx, hn, hc⟩
      · cases hout
    · rintro ⟨slot, a, n, ha, hn, rfl⟩
      obtain ⟨m, r, hm, hr, hp, -⟩ := hfiled.stands ha
      obtain rfl := Option.some.inj ((data_eq hn).symm.trans hm)
      exact ⟨r, hr, hp⟩
  · exact fun hn hm heq => hfiled.once (data_eq hn) (data_eq hm) heq

/-- Between two ticks a pending timer comes up later. -/
theorem Good.later (h : t.Good) (hnode : t.node = none) {c : Nat} {r : TimerRecord} (hr : t.log[c]? = some r)
    (hp : r.Pending) : t.ticks < r.due := by
  obtain ⟨-, hwheels⟩ := h
  rw [hnode] at hwheels
  obtain ⟨lists, hlists, hfiled⟩ := hwheels
  obtain ⟨a, m, hm, rfl⟩ := hfiled.kept hr hp
  obtain ⟨x, hx⟩ | hout := hfiled.listed hm
  · obtain ⟨m', r', hm', hr', -, hstands⟩ := hfiled.stands hx
    obtain rfl := Option.some.inj (hm.symm.trans hm')
    obtain rfl := Option.some.inj (hr.symm.trans hr')
    rcases x with _ | slot
    · exact hstands.elim
    · exact Placed.later hstands
  · cases hout

/-- **The wheels are kept.** In every run that takes no stale link, of timers added and ticks in any order,
    also from callbacks, every pending timer is in exactly one chain of the wheels after each tick. -/
theorem wheels_kept {labels : List TimerLabel} {t : Timer} (hclean : Along step Clean init labels)
    (hrun : run step init labels = some t) (hnode : t.node = none) : t.WellKept :=
  (run_good init_good hclean hrun).1.wellKept hnode

/-- A timer that fires once before one that repeats, and a third that is added from a callback. -/
theorem wheels_kept_mixed : ∃ t, run step init
    [.add 1 false 0, .add 1 true 1, .tick, .add 2 false 2, .ret, .ret] = some t ∧ t.WellKept := by
  obtain ⟨t, ht⟩ := Option.isSome_iff_exists.mp (by decide : (run step init
    [.add 1 false 0, .add 1 true 1, .tick, .add 2 false 2, .ret, .ret]).isSome = true)
  have hnode : (run step init [.add 1 false 0, .add 1 true 1, .tick, .add 2 false 2, .ret, .ret]).map (·.node) =
      some none := by
    decide
  rw [ht, Option.map_some, Option.some.injEq] at hnode
  exact ⟨t, ht, wheels_kept (by decide) ht hnode⟩

/-- Two repeating timers and, between them, one that does not repeat, all due at the first tick. -/
def threeAtOnce : List TimerLabel :=
  [.add 1 true 0, .add 1 true 1, .add 1 false 2, .tick, .ret, .ret, .ret]

/-- The node that is freed still names the first one as the node before it, and writes into it after it was
    filed again; the third is then linked behind itself. -/
theorem threeAtOnce_cycle : ∃ t, run step init threeAtOnce = some t ∧ t.node = none ∧ ¬ t.WellKept := by
  obtain ⟨t, ht⟩ := Option.isSome_iff_exists.mp (by decide : (run step init threeAtOnce).isSome = true)
  have hnode : (run step init threeAtOnce).map (·.node) = some none := by decide
  have hlinks : (run step init threeAtOnce).map (·.links 1) = some (some ⟨some 1, some 1⟩) := by decide
  have hlog : (run step init threeAtOnce).map (fun t => (t.log[1]?).map (·.repeats)) = some (some true) := by decide
  have hdata : (run step init threeAtOnce).map (fun t => (t.data 1).map (·.callback)) = some (some 1) := by decide
  rw [ht, Option.map_some, Option.some.injEq] at hnode hlinks hlog hdata
  refine ⟨t, ht, hnode, ?_⟩
  rintro ⟨chains, hkept⟩
  obtain ⟨r, hr, hrep⟩ := Option.map_eq_some_iff.mp hlog
  obtain ⟨m, hm, hc⟩ := Option.map_eq_some_iff.mp hdata
  obtain ⟨n₁, hn₁, rfl⟩ := data_toTimerData hm
  -- the node of the second timer is in a chain, and its successor is itself
  obtain ⟨slot, a, n, ha, hn, hca⟩ := (hkept.pending 1).mp ⟨r, hr, .inl hrep⟩
  obtain rfl : a = 1 := hkept.single hn hn₁ (hca.trans hc.symm)
  obtain ⟨l₁, l₂, hl⟩ := List.append_of_mem ha
  obtain ⟨-, k, hk, hrest⟩ := (hl ▸ (hkept.linked slot).walk).suffix
  have hself : Walk t.links (some 1) (1 :: l₂) := ⟨rfl, k, hk, hrest⟩
  obtain rfl := Option.some.inj (hk.symm.trans hlinks)
  have hlen := congrArg List.length (Walk.unique hrest hself)
  simp at hlen

end Timer

end Mowang
