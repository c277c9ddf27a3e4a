import Mowang.Base.CString
import Mowang.Base.Run
import Mathlib.Data.List.Nodup

/-!
# `Game.EntityDestruction` — entities are freed once, and late

`server_entity::destroy` marks an entity and queues its id. The ids wait in one of two lists, which `update` moves
on at most every 10 seconds: those of the second list are freed, those of the first take their place. So an id in the
second list was queued before the last time the lists moved, and a second `destroy` of an entity only leaves an id
that is not found any more.

The ids are counted without the limit of 64 bits.

## Contents
- `EntityManager`, `createEntity`, `destroy`, `update`.
- `World`, with the clock and the history of what was created, destroyed and freed, and its steps.
- `Inv`, with one lemma for each step, and `deallocated_once_late`.
-/

namespace Mowang.EntityDestruction

/-- Where the memory of an entity comes from. -/
inductive Allocator
  | accountPool | rolePool | heap
deriving DecidableEq

/-- `entity_manager::entity_info`: the name, and of the entity what `server_entity` keeps. -/
structure EntityInfo where
  name : List UInt8
  gateId : UInt16
  clientId : UInt64
  destroyed : Bool := false
deriving DecidableEq

structure EntityManager where
  lastTime : UInt32 := 0
  /-- `m_entity_id`. It begins below `2 ^ 24`; a run that would come to the end of its 64 bits is out of reach. -/
  entityId : Nat
  destroyIds : List Nat := []
  delayDestroyIds : List Nat := []
  entities : Nat → Option EntityInfo := fun _ => none

namespace EntityManager

/-- `init`. -/
def init (gameId : UInt16) : EntityManager := { entityId := gameId.toNat <<< 8 }

/-- `m_create_entity_funcs`, by where the functions take the memory. -/
def createEntityFuncs (entityName : List UInt8) : Option Allocator :=
  if entityName = ascii "account" then some .accountPool
  else if entityName = ascii "role" then some .rolePool
  else if entityName = ascii "roll_stub" then some .heap
  else none

/-- `create_entity`, with the id of the new entity; `allocated` is false when there is no memory. -/
def createEntity (m : EntityManager) (entityName : List UInt8) (gateId : UInt16) (clientId : UInt64)
    (allocated : Bool) : EntityManager × Option (Nat × EntityInfo) :=
  match createEntityFuncs entityName with
  | none   => (m, none)
  | some _ =>
    if allocated then
      let info : EntityInfo := { name := entityName, gateId := gateId, clientId := clientId }
      ({ m with entityId := m.entityId + 1, entities := Function.update m.entities (m.entityId + 1) (some info) },
        some (m.entityId + 1, info))
    else (m, none)

/-- `server_entity::destroy`, a method of the entity, and `destroy_entity`. -/
def destroy (m : EntityManager) (entityId : Nat) : Option EntityManager :=
  (m.entities entityId).map fun info =>
    { m with
      entities := Function.update m.entities entityId (some { info with destroyed := true })
      delayDestroyIds := m.delayDestroyIds ++ [entityId] }

/-- The branches of `destroy_entity_core`. -/
def deallocator (name : List UInt8) : Allocator :=
  if name = ascii "account" then .accountPool
  else if name = ascii "role" then .rolePool
  else .heap

/-- `destroy_entity_core`, with where the entity was freed. -/
def destroyEntityCore (m : EntityManager) (entityId : Nat) : EntityManager × Option (Nat × Allocator) :=
  match m.entities entityId with
  | none      => (m, none)
  | some info =>
    ({ m with entities := Function.update m.entities entityId none }, some (entityId, deallocator info.name))

/-- The loop of `update`, with what it frees. -/
def destroyAll (m : EntityManager) : List Nat → EntityManager × List (Nat × Allocator)
  | []              => (m, [])
  | entityId :: ids =>
    let (m₁, freed) := m.destroyEntityCore entityId
    let (m₂, freeds) := m₁.destroyAll ids
    (m₂, freed.toList ++ freeds)

def update (m : EntityManager) (now : UInt32) : EntityManager × List (Nat × Allocator) :=
  if m.lastTime + 10 > now then (m, [])
  else
    let (m₁, freed) := { m with lastTime := now }.destroyAll m.destroyIds
    ({ m₁ with destroyIds := m₁.delayDestroyIds, delayDestroyIds := [] }, freed)

/-- An entity is freed where it came from. -/
theorem deallocator_of_create {name : List UInt8} {a : Allocator} (h : createEntityFuncs name = some a) :
    deallocator name = a := by
  rw [createEntityFuncs] at h
  rw [deallocator]
  split at h
  · rename_i hname
    rw [if_pos hname]
    exact Option.some.inj h
  · rename_i hname
    rw [if_neg hname]
    split at h
    · rename_i hname'
      rw [if_pos hname']
      exact Option.some.inj h
    · rename_i hname'
      rw [if_neg hname']
      split at h
      · exact Option.some.inj h
      · cases h

end EntityManager

/-- The manager under the clock of `time_manager`, with what was created and when the entities were destroyed (oldest
    first) and freed. -/
structure World where
  manager : EntityManager
  now : UInt32 := 0
  created : List (Nat × EntityInfo) := []
  destroys : List (Nat × UInt32) := []
  deallocated : List (Nat × Allocator × UInt32) := []

inductive WorldLabel
  /-- The clock is set, and not back. -/
  | clock (time : UInt32)
  | createEntity (entityName : List UInt8) (gateId : UInt16) (clientId : UInt64) (allocated : Bool)
  | destroy (entityId : Nat)
  | update

namespace World

def init (gameId : UInt16) : World := { manager := .init gameId }

def step (w : World) : WorldLabel → Option World
  | .clock time => if w.now ≤ time ∧ time.toNat < 2 ^ 32 - 10 then some { w with now := time } else none
  | .createEntity entityName gateId clientId allocated =>
    let (m, e) := w.manager.createEntity entityName gateId clientId allocated
    some { w with manager := m, created := e.toList ++ w.created }
  | .destroy entityId =>
    (w.manager.destroy entityId).map fun m => { w with manager := m, destroys := w.destroys ++ [(entityId, w.now)] }
  | .update =>
    let (m, freed) := w.manager.update w.now
    some
      { w with
        manager := m
        deallocated := freed.map (fun (entityId, a) => (entityId, a, w.now)) ++ w.deallocated }

/-- When `destroy` was first called on an entity. -/
def firstDestroy (w : World) (entityId : Nat) : Option UInt32 := w.destroys.lookup entityId

end World

/-! ## What `update` does -/

namespace EntityManager

variable {m : EntityManager}

theorem destroyEntityCore_none {entityId : Nat} (h : m.entities entityId = none) :
    m.destroyEntityCore entityId = (m, none) := by
  rw [destroyEntityCore, h]

theorem destroyEntityCore_some {entityId : Nat} {info : EntityInfo} (h : m.entities entityId = some info) :
    m.destroyEntityCore entityId =
      ({ m with entities := Function.update m.entities entityId none }, some (entityId, deallocator info.name)) := by
  rw [destroyEntityCore, h]

theorem destroyAll_cons_snd (entityId : Nat) (ids : List Nat) :
    (m.destroyAll (entityId :: ids)).2 =
      (m.destroyEntityCore entityId).2.toList ++ ((m.destroyEntityCore entityId).1.destroyAll ids).2 :=
  rfl

/-- The loop takes the entities with the ids out. -/
theorem destroyAll_fst (ids : List Nat) :
    (m.destroyAll ids).1 = { m with entities := fun id => if id ∈ ids then none else m.entities id } := by
  induction ids generalizing m with
  | nil => simp [destroyAll]
  | cons entityId ids ih =>
      show ((m.destroyEntityCore entityId).1.destroyAll ids).1 = _
      rw [ih]
      cases he : m.entities entityId with
      | none =>
          rw [destroyEntityCore_none he]
          congr 1
          funext id
          by_cases hid : id = entityId
          · rw [hid, he, ite_self, ite_self]
          · simp [hid]
      | some info =>
          rw [destroyEntityCore_some he]
          congr 1
          funext id
          by_cases hid : id = entityId
          · simp [hid]
          · simp [hid]

/-- What the loop frees has one of the ids, and was there. -/
theorem of_mem_destroyAll {ids : List Nat} {id : Nat} {a : Allocator} (h : (id, a) ∈ (m.destroyAll ids).2) :
    id ∈ ids ∧ ∃ info, m.entities id = some info ∧ a = deallocator info.name := by
  induction ids generalizing m with
  | nil => cases h
  | cons entityId ids ih =>
      rw [destroyAll_cons_snd] at h
      rcases List.mem_append.mp h with h | h
      · cases he : m.entities entityId with
        | none =>
            rw [destroyEntityCore_none he] at h
            cases h
        | some info =>
            rw [destroyEntityCore_some he] at h
            obtain ⟨rfl, rfl⟩ := Prod.mk.inj (List.mem_singleton.mp h)
            exact ⟨List.mem_cons_self, info, he, rfl⟩
      · obtain ⟨hid, info, hinfo, ha⟩ := ih h
        refine ⟨List.mem_cons_of_mem _ hid, info, ?_, ha⟩
        cases he : m.entities entityId with
        | none =>
            rw [destroyEntityCore_none he] at hinfo
            exact hinfo
        | some info' =>
            rw [destroyEntityCore_some he] at hinfo
            by_cases heq : id = entityId
            · rw [heq] at hinfo
              simp at hinfo
            · simpa [heq] using hinfo

/-- The loop frees nothing twice, however often an id is queued. -/
theorem nodup_destroyAll (ids : List Nat) : ((m.destroyAll ids).2.map (·.1)).Nodup := by
  induction ids generalizing m with
  | nil => exact List.nodup_nil
  | cons entityId ids ih =>
      rw [destroyAll_cons_snd]
      cases he : m.entities entityId with
      | none =>
          rw [destroyEntityCore_none he]
          exact ih
      | some info =>
          rw [destroyEntityCore_some he]
          refine List.nodup_cons.mpr ⟨fun hmem => ?_, ih⟩
          obtain ⟨⟨id, a⟩, hfreed, rfl⟩ := List.mem_map.mp hmem
          obtain ⟨_, info', hinfo, _⟩ := of_mem_destroyAll hfreed
          simp at hinfo

end EntityManager

/-! ## Runs -/

namespace World

variable {w w' : World}

/-- The ids in the second list were queued before the lists last moved, and what was freed is not found any more. -/
structure Inv (w : World) : Prop where
  clock : w.now.toNat < 2 ^ 32 - 10
  lastTime : w.manager.lastTime ≤ w.now
  queued : ∀ id ∈ w.manager.destroyIds, ∃ t, w.firstDestroy id = some t ∧ t ≤ w.manager.lastTime
  past : ∀ id t, w.firstDestroy id = some t → t ≤ w.now
  delayed : ∀ id ∈ w.manager.delayDestroyIds, ∃ t, w.firstDestroy id = some t
  counted : ∀ id info, w.manager.entities id = some info → id ≤ w.manager.entityId
  gone : ∀ e ∈ w.deallocated, w.manager.entities e.1 = none ∧ e.1 ≤ w.manager.entityId
  late : ∀ e ∈ w.deallocated, ∃ t, w.firstDestroy e.1 = some t ∧ t.toNat + 10 ≤ e.2.2.toNat
  once : (w.deallocated.map (·.1)).Nodup
  created : ∀ e ∈ w.created, e.1 ≤ w.manager.entityId ∧
    (w.firstDestroy e.1 = none → w.manager.entities e.1 = some e.2)

theorem inv_init (gameId : UInt16) : Inv (init gameId) := by
  constructor <;> simp [init, EntityManager.init, firstDestroy]

theorem Inv.setClock (hw : Inv w) {time : UInt32} (h : w.now ≤ time) (htime : time.toNat < 2 ^ 32 - 10) :
    Inv { w with now := time } where
  clock := htime
  lastTime := UInt32.le_trans hw.lastTime h
  queued := hw.queued
  past := fun id t ht => UInt32.le_trans (hw.past id t ht) h
  delayed := hw.delayed
  counted := hw.counted
  gone := hw.gone
  late := hw.late
  once := hw.once
  created := hw.created

theorem Inv.createEntity (hw : Inv w) {entityName : List UInt8} {gateId : UInt16} {clientId : UInt64}
    {allocated : Bool} (h : w.step (.createEntity entityName gateId clientId allocated) = some w') : Inv w' := by
  simp only [step, EntityManager.createEntity] at h
  cases hfunc : EntityManager.createEntityFuncs entityName with
  | none =>
      rw [hfunc] at h
      cases h
      exact { hw with }
  | some a =>
      rw [hfunc] at h
      cases allocated with
      | false =>
          cases h
          exact { hw with }
      | true =>
          cases h
          have hother : ∀ id ≤ w.manager.entityId, id ≠ w.manager.entityId + 1 := fun id hid => by omega
          constructor
          · exact hw.clock
          · exact hw.lastTime
          · exact hw.queued
          · exact hw.past
          · exact hw.delayed
          · intro id info hinfo
            by_cases hid : id = w.manager.entityId + 1
            · exact hid.le
            · exact Nat.le_succ_of_le (hw.counted id info ((Function.update_of_ne hid ..).symm.trans hinfo))
          · intro e he
            obtain ⟨hnone, hle⟩ := hw.gone e he
            exact ⟨(Function.update_of_ne (hother e.1 hle) ..).trans hnone, Nat.le_succ_of_le hle⟩
          · exact hw.late
          · exact hw.once
          · intro e he
            rcases List.mem_cons.mp he with rfl | he
            · exact ⟨Nat.le_refl _, fun _ => Function.update_self ..⟩
            · obtain ⟨hle, hstays⟩ := hw.created e he
              exact ⟨Nat.le_succ_of_le hle, fun hnot =>
                (Function.update_of_ne (hother e.1 hle) ..).trans (hstays hnot)⟩

/-- The first call for an entity stays the first. -/
theorem firstDestroy_append (id : Nat) (entityId : Nat) (now : UInt32) :
    (w.destroys ++ [(entityId, now)]).lookup id =
      (w.firstDestroy id).or (if id = entityId then some now else none) := by
  rw [List.lookup_append]
  by_cases hid : id = entityId
  · rw [if_pos hid, hid, List.lookup_cons_self]
    rfl
  · rw [if_neg hid, List.lookup_cons, beq_false_of_ne hid]
    rfl

theorem Inv.destroy (hw : Inv w) {entityId : Nat} (h : w.step (.destroy entityId) = some w') : Inv w' := by
  simp only [step, EntityManager.destroy] at h
  cases hinfo : w.manager.entities entityId with
  | none =>
      rw [hinfo] at h
      cases h
  | some info =>
      rw [hinfo] at h
      cases h
      -- the first `destroy` of an id counts, and a later one does not move it
      have hstays : ∀ id t, w.firstDestroy id = some t →
          (w.destroys ++ [(entityId, w.now)]).lookup id = some t := by
        intro id t ht
        rw [firstDestroy_append, ht]
        rfl
      constructor
      · exact hw.clock
      · exact hw.lastTime
      · intro id hid
        obtain ⟨t, ht, hle⟩ := hw.queued id hid
        exact ⟨t, hstays id t ht, hle⟩
      · intro id t ht
        rw [firstDestroy, firstDestroy_append] at ht
        rcases Option.or_eq_some_iff.mp ht with ht | ⟨_, ht⟩
        · exact hw.past id t ht
        · split at ht
          · cases ht
            exact UInt32.le_refl _
          · cases ht
      · intro id hid
        rcases List.mem_append.mp hid with hid | hid
        · obtain ⟨t, ht⟩ := hw.delayed id hid
          exact ⟨t, hstays id t ht⟩
        · rw [List.mem_singleton.mp hid, firstDestroy, firstDestroy_append, if_pos rfl]
          cases w.firstDestroy entityId with
          | none   => exact ⟨_, rfl⟩
          | some t => exact ⟨t, rfl⟩
      · intro id info' hinfo'
        by_cases hid : id = entityId
        · rw [hid]
          exact hw.counted entityId info hinfo
        · exact hw.counted id info' ((Function.update_of_ne hid ..).symm.trans hinfo')
      · intro e he
        obtain ⟨hnone, hle⟩ := hw.gone e he
        have hid : e.1 ≠ entityId := by
          intro heq
          rw [heq, hinfo] at hnone
          cases hnone
        exact ⟨(Function.update_of_ne hid ..).trans hnone, hle⟩
      · intro e he
        obtain ⟨t, ht, hle⟩ := hw.late e he
        exact ⟨t, hstays e.1 t ht, hle⟩
      · exact hw.once
      · intro e he
        obtain ⟨hle, hin⟩ := hw.created e he
        refine ⟨hle, fun hnot => ?_⟩
        rw [firstDestroy, firstDestroy_append] at hnot
        obtain ⟨hnot, hid⟩ := Option.or_eq_none_iff.mp hnot
        have hid : e.1 ≠ entityId := fun heq => by simp [heq] at hid
        exact (Function.update_of_ne hid ..).trans (hin hnot)

theorem Inv.update (hw : Inv w) (h : w.step .update = some w') : Inv w' := by
  simp only [step, EntityManager.update] at h
  split at h
  · cases h
    exact { hw with }
  · rename_i hdue
    cases h
    -- What waited in the second list was queued before the lists last moved, and that is 10 seconds ago.
    have hdue : w.manager.lastTime.toNat + 10 ≤ w.now.toNat := by
      have hlast := UInt32.le_iff_toNat_le.mp hw.lastTime
      have hclock := hw.clock
      have hle := UInt32.le_iff_toNat_le.mp (UInt32.not_lt.mp hdue)
      rw [UInt32.toNat_add, Nat.mod_eq_of_lt (by simp; omega)] at hle
      exact hle
    have hmem : ∀ e ∈ ((EntityManager.destroyAll { w.manager with lastTime := w.now } w.manager.destroyIds).2.map
          fun x => (x.1, x.2, w.now)),
        e.1 ∈ w.manager.destroyIds ∧ (∃ info, w.manager.entities e.1 = some info) ∧ e.2.2 = w.now := by
      intro e he
      obtain ⟨⟨id, a⟩, hfreed, rfl⟩ := List.mem_map.mp he
      obtain ⟨hid, info, hinfo, _⟩ := EntityManager.of_mem_destroyAll hfreed
      exact ⟨hid, ⟨info, hinfo⟩, rfl⟩
    have hold : ∀ id info, (if id ∈ w.manager.destroyIds then none else w.manager.entities id) = some info →
        w.manager.entities id = some info := by
      intro id info hinfo
      split at hinfo
      · cases hinfo
      · exact hinfo
    rw [EntityManager.destroyAll_fst]
    constructor
    · exact hw.clock
    · exact UInt32.le_refl _
    · intro id hid
      obtain ⟨t, ht⟩ := hw.delayed id hid
      exact ⟨t, ht, hw.past id t ht⟩
    · exact hw.past
    · intro id hid
      cases hid
    · exact fun id info hinfo => hw.counted id info (hold id info hinfo)
    · intro e he
      rcases List.mem_append.mp he with he | he
      · obtain ⟨hid, ⟨info, hinfo⟩, _⟩ := hmem e he
        exact ⟨if_pos hid, hw.counted e.1 info hinfo⟩
      · obtain ⟨hnone, hle⟩ := hw.gone e he
        refine ⟨?_, hle⟩
        show (if _ then _ else _) = _
        rw [hnone, ite_self]
    · intro e he
      rcases List.mem_append.mp he with he | he
      · obtain ⟨hid, _, htime⟩ := hmem e he
        obtain ⟨t, ht, hle⟩ := hw.queued e.1 hid
        refine ⟨t, ht, ?_⟩
        rw [htime]
        exact Nat.le_trans (Nat.add_le_add_right (UInt32.le_iff_toNat_le.mp hle) 10) hdue
      · exact hw.late e he
    · rw [List.map_append, List.map_map]
      refine List.nodup_append.mpr ⟨EntityManager.nodup_destroyAll _, hw.once, ?_⟩
      rintro id hfreed id' hbefore rfl
      obtain ⟨⟨_, a⟩, hnow, rfl⟩ := List.mem_map.mp hfreed
      obtain ⟨e, he, heq⟩ := List.mem_map.mp hbefore
      obtain ⟨_, info, hinfo, _⟩ := EntityManager.of_mem_destroyAll hnow
      have hnone := (hw.gone e he).1
      rw [heq] at hnone
      exact Option.some_ne_none info (hinfo.symm.trans hnone)
    · intro e he
      obtain ⟨hle, hin⟩ := hw.created e he
      refine ⟨hle, fun hnot => ?_⟩
      show (if _ then _ else _) = _
      rw [if_neg, hin hnot]
      intro hid
      obtain ⟨t, ht, _⟩ := hw.queued e.1 hid
      exact Option.some_ne_none t (ht.symm.trans hnot)

theorem Inv.step (hw : Inv w) {label : WorldLabel} (h : w.step label = some w') : Inv w' := by
  cases label with
  | clock time =>
      simp only [World.step] at h
      split at h
      · rename_i htime
        cases h
        exact hw.setClock htime.1 htime.2
      · cases h
  | createEntity entityName gateId clientId allocated => exact hw.createEntity h
  | destroy entityId => exact hw.destroy h
  | update => exact hw.update h

/-- **Entities are freed once, and late.** In every run each entity is freed at most once, and where it is, `destroy`
    was called on it at least 10 seconds before. What `destroy` was never called on stays as it was created. -/
theorem deallocated_once_late {gameId : UInt16} {labels : List WorldLabel}
    (hrun : run World.step (init gameId) labels = some w) :
    (∀ id, (w.deallocated.map (·.1)).count id ≤ 1) ∧
      (∀ id a t, (id, a, t) ∈ w.deallocated → ∃ t₀, w.firstDestroy id = some t₀ ∧ t₀.toNat + 10 ≤ t.toNat) ∧
      ∀ id info, (id, info) ∈ w.created → w.firstDestroy id = none → w.manager.entities id = some info := by
  have hw : Inv w := run_invariant (fun hw h => hw.step h) (inv_init gameId) hrun
  exact ⟨fun id => List.nodup_iff_count_le_one.mp hw.once id, fun id a t h => hw.late (id, a, t) h,
    fun id info h => (hw.created (id, info) h).2⟩

/-- Two roles of process 1; the first is destroyed twice, in both phases of the lists, and freed once. -/
def twice : List WorldLabel :=
  [.clock 100, .createEntity (ascii "role") 2 7 true, .createEntity (ascii "role") 2 8 true, .update, .destroy 257,
    .clock 110, .update, .destroy 257, .clock 119, .update, .clock 120, .update, .clock 140, .update]

theorem deallocated_once_late_twice :
    ∃ w, run World.step (init 1) twice = some w ∧ w.deallocated = [(257, .rolePool, 120)] ∧
      (∀ id, (w.deallocated.map (·.1)).count id ≤ 1) ∧
      (∀ id a t, (id, a, t) ∈ w.deallocated → ∃ t₀, w.firstDestroy id = some t₀ ∧ t₀.toNat + 10 ≤ t.toNat) ∧
      ∀ id info, (id, info) ∈ w.created → w.firstDestroy id = none → w.manager.entities id = some info := by
  have hfreed : (run World.step (init 1) twice).map deallocated = some [(257, .rolePool, 120)] := by decide
  obtain ⟨w, hw, hdeallocated⟩ := Option.map_eq_some_iff.mp hfreed
  exact ⟨w, hw, hdeallocated, deallocated_once_late hw⟩

end World

end Mowang.EntityDestruction
