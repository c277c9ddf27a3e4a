import Mowang.Base.CString
import Mowang.Base.Run
import Mathlib.Data.List.Nodup

/-!
# `Game.EntityIds` — the ids of entities in all game processes

`entity_manager` counts its entities, from the process id shifted by 8 bits. The ids of two processes therefore lie 256
for each number between them apart, and the counters are not kept from running into each other.

## Contents
- `EntityManager`, `createEntity`, and `Managers`, the game processes with distinct ids.
- `next_mem_iff` — when the next id of a process is one that is given already.
- `ids_nodup_iff`, and `same_id`, an id that two processes give.
-/

namespace Mowang

/-- `server_entity`: what `create_entity` sets. -/
structure ServerEntity where
  entityId : UInt64
  gateId : UInt16
  clientId : UInt64

/-- `entity_manager`: the counter, and the entities with their names. -/
structure EntityManager where
  entityId : UInt64
  entities : UInt64 → Option (List UInt8 × ServerEntity) := fun _ => none

namespace EntityManager

/-- The names in `m_create_entity_funcs`. -/
def createEntityFuncs : List (List UInt8) := [ascii "account", ascii "role", ascii "roll_stub"]

/-- `init`. -/
def init (gameId : UInt16) : EntityManager := { entityId := gameId.toUInt64 <<< 8 }

/-- `create_entity`; `allocated` is false when the pool has no memory. -/
def createEntity (m : EntityManager) (entityName : List UInt8) (gateId : UInt16) (clientId : UInt64)
    (allocated : Bool) : EntityManager × Option ServerEntity :=
  if entityName ∉ createEntityFuncs then (m, none)
  else if allocated then
    let entityId := m.entityId + 1
    let e : ServerEntity := ⟨entityId, gateId, clientId⟩
    ({ entityId := entityId, entities := Function.update m.entities entityId (some (entityName, e)) }, some e)
  else (m, none)

end EntityManager

/-- The game processes of a server, by their ids, and the ids of all entities that were ever created. -/
structure Managers where
  managers : UInt16 → EntityManager := .init
  created : List (UInt16 × UInt64) := []

inductive ManagersLabel
  | createEntity (gameId : UInt16) (entityName : List UInt8) (gateId : UInt16) (clientId : UInt64) (allocated : Bool)

namespace Managers

def step (s : Managers) : ManagersLabel → Option Managers
  | .createEntity gameId entityName gateId clientId allocated =>
    let (m, e) := (s.managers gameId).createEntity entityName gateId clientId allocated
    some
      { managers := Function.update s.managers gameId m
        created := (e.map fun e => (gameId, e.entityId)).toList ++ s.created }

/-- How many entities a process has created. -/
def count (s : Managers) (gameId : UInt16) : Nat := (s.created.map (·.1)).count gameId

/-- What a process creates next lies behind what each process has created. -/
def InRange (s : Managers) : ManagersLabel → Prop
  | .createEntity gameId entityName _ _ allocated =>
    entityName ∈ EntityManager.createEntityFuncs → allocated →
      ∀ other : UInt16, (s.count other : Int) ≤ (256 * (gameId.toNat - other.toNat) + s.count gameId) % 2 ^ 64

/-- Each process is at its base and the number of its entities, and gave the ids in between. -/
structure Inv (s : Managers) : Prop where
  counter : ∀ p, (s.managers p).entityId = .ofNat (256 * p.toNat + s.count p)
  created : ∀ p id, (p, id) ∈ s.created ↔ ∃ j, 1 ≤ j ∧ j ≤ s.count p ∧ id = .ofNat (256 * p.toNat + j)

variable {s s' : Managers}

/-! ## One step -/

/-- The steps: an entity with the next id, or none. -/
theorem step_cases {gameId gateId : UInt16} {entityName : List UInt8} {clientId : UInt64} {allocated : Bool}
    (h : step s (.createEntity gameId entityName gateId clientId allocated) = some s') :
    (entityName ∈ EntityManager.createEntityFuncs ∧ allocated ∧
      s'.created = (gameId, (s.managers gameId).entityId + 1) :: s.created ∧
      ∀ p, (s'.managers p).entityId = if p = gameId then (s.managers p).entityId + 1 else (s.managers p).entityId) ∨
    (¬ (entityName ∈ EntityManager.createEntityFuncs ∧ allocated) ∧ s'.created = s.created ∧
      s'.managers = s.managers) := by
  simp only [step, EntityManager.createEntity] at h
  cases h
  by_cases hname : entityName ∈ EntityManager.createEntityFuncs
  · rw [if_neg (not_not.mpr hname)]
    cases allocated with
    | true =>
        refine Or.inl ⟨hname, rfl, rfl, fun p => ?_⟩
        by_cases hp : p = gameId
        · rw [if_pos hp, hp]
          show (Function.update s.managers gameId _ gameId).entityId = _
          rw [Function.update_self, if_pos rfl]
        · rw [if_neg hp]
          exact congrArg EntityManager.entityId (Function.update_of_ne hp ..)
    | false => exact Or.inr ⟨fun h => Bool.false_ne_true h.2, rfl, Function.update_eq_self ..⟩
  · rw [if_pos hname]
    exact Or.inr ⟨fun h => hname h.1, rfl, Function.update_eq_self ..⟩

theorem ofNat_add_one (n : Nat) : UInt64.ofNat n + 1 = .ofNat (n + 1) := (UInt64.ofNat_add n 1).symm

theorem Inv.step (hs : Inv s) {label : ManagersLabel} (h : step s label = some s') : Inv s' := by
  obtain ⟨gameId, entityName, gateId, clientId, allocated⟩ := label
  rcases step_cases h with ⟨_, _, hcreated, hcounter⟩ | ⟨_, hcreated, hmanagers⟩
  · have hcount : ∀ p, s'.count p = if p = gameId then s.count p + 1 else s.count p := by
      intro p
      rw [count, hcreated, List.map_cons, List.count_cons]
      by_cases hp : p = gameId
      · rw [if_pos (beq_iff_eq.mpr hp.symm), if_pos hp]
        rfl
      · rw [if_neg fun heq => hp (beq_iff_eq.mp heq).symm, if_neg hp]
        rfl
    constructor
    · intro p
      rw [hcounter, hcount]
      split
      · rw [hs.counter, ofNat_add_one]
        rfl
      · exact hs.counter p
    · intro p id
      rw [hcreated, List.mem_cons, hs.created, hcount, Prod.mk.injEq]
      by_cases hp : p = gameId
      · rw [if_pos hp, hp, hs.counter, ofNat_add_one]
        constructor
        · rintro (⟨_, rfl⟩ | ⟨j, hpos, hle, rfl⟩)
          · exact ⟨s.count gameId + 1, Nat.le_add_left _ _, Nat.le_refl _, rfl⟩
          · exact ⟨j, hpos, Nat.le_succ_of_le hle, rfl⟩
        · rintro ⟨j, hpos, hle, rfl⟩
          rcases Nat.le_succ_iff.mp hle with hle | rfl
          · exact Or.inr ⟨j, hpos, hle, rfl⟩
          · exact Or.inl ⟨rfl, rfl⟩
      · rw [if_neg hp]
        exact or_iff_right fun h => hp h.1
  · constructor
    · intro p
      rw [hmanagers, count, hcreated]
      exact hs.counter p
    · intro p id
      rw [hcreated, count, hcreated]
      exact hs.created p id

/-- The first numbers reach a residue exactly if it is one of them. -/
theorem exists_emod_iff {x m : Int} {n : Nat} (hm : 0 < m) :
    (∃ j : Nat, 1 ≤ j ∧ j ≤ n ∧ ((j : Int) - 1) % m = x % m) ↔ x % m < n := by
  have hnonneg := Int.emod_nonneg x (Int.ne_of_gt hm)
  have hlt := Int.emod_lt_of_pos x hm
  constructor
  · rintro ⟨j, hpos, hle, heq⟩
    rcases Int.lt_or_le ((j : Int) - 1) m with hsmall | hlarge
    · rw [Int.emod_eq_of_lt (by omega) hsmall] at heq
      omega
    · omega
  · intro h
    refine ⟨(x % m).toNat + 1, Nat.le_add_left _ _, by omega, ?_⟩
    have hcast : (((x % m).toNat + 1 : Nat) : Int) - 1 = x % m := by omega
    rw [hcast, Int.emod_emod_of_dvd _ (Int.dvd_refl _)]

theorem ofNat_eq_ofNat_iff {a b : Nat} : UInt64.ofNat a = .ofNat b ↔ (a : Int) % 2 ^ 64 = b % 2 ^ 64 := by
  rw [← UInt64.toNat_inj, UInt64.toNat_ofNat', UInt64.toNat_ofNat']
  omega

/-- The next id of a process is that of an entity exactly if some process has gone beyond it. -/
theorem next_mem_iff (hs : Inv s) (gameId : UInt16) :
    (s.managers gameId).entityId + 1 ∈ s.created.map (·.2) ↔
      ∃ other : UInt16, (256 * (gameId.toNat - other.toNat) + s.count gameId) % 2 ^ 64 < (s.count other : Int) := by
  rw [List.mem_map, hs.counter, ofNat_add_one]
  constructor
  · rintro ⟨⟨other, id⟩, hmem, rfl⟩
    obtain ⟨j, hpos, hle, heq⟩ := (hs.created other _).mp hmem
    refine ⟨other, (@exists_emod_iff _ (2 ^ 64) _ (by decide)).mp ⟨j, hpos, hle, ?_⟩⟩
    have heq' := ofNat_eq_ofNat_iff.mp heq
    omega
  · rintro ⟨other, hlt⟩
    obtain ⟨j, hpos, hle, heq⟩ := (@exists_emod_iff _ (2 ^ 64) _ (by decide)).mpr hlt
    refine ⟨(other, .ofNat (256 * gameId.toNat + s.count gameId + 1)), ?_, rfl⟩
    refine (hs.created other _).mpr ⟨j, hpos, hle, ofNat_eq_ofNat_iff.mpr ?_⟩
    omega

/-- No two entities have one id. -/
def Distinct (s : Managers) : Prop := (s.created.map (·.2)).Nodup

theorem step_distinct_iff (hs : Inv s) (hdistinct : Distinct s) {label : ManagersLabel} (h : step s label = some s') :
    Distinct s' ↔ s.InRange label := by
  obtain ⟨gameId, entityName, gateId, clientId, allocated⟩ := label
  rcases step_cases h with ⟨hname, hallocated, hcreated, _⟩ | ⟨hnone, hcreated, _⟩
  · rw [Distinct, hcreated, List.map_cons, List.nodup_cons, next_mem_iff hs, not_exists]
    constructor
    · intro hnew _ _ other
      exact Int.not_lt.mp (hnew.1 other)
    · intro hrange
      exact ⟨fun other => Int.not_lt.mpr (hrange hname hallocated other), hdistinct⟩
  · rw [Distinct, hcreated]
    exact iff_of_true hdistinct fun hname hallocated => absurd ⟨hname, hallocated⟩ hnone

theorem inv_init : Inv {} := by
  constructor
  · intro p
    show p.toUInt64 <<< 8 = UInt64.ofNat (256 * p.toNat + 0)
    have hp := p.toNat_lt
    rw [← UInt64.toNat_inj, UInt64.toNat_shiftLeft, UInt64.toNat_ofNat', UInt16.toNat_toUInt64]
    show p.toNat <<< 8 % 2 ^ 64 = _
    rw [Nat.shiftLeft_eq]
    omega
  · intro p id
    refine iff_of_false (fun h => absurd h List.not_mem_nil) ?_
    rintro ⟨j, hpos, hle, _⟩
    exact Nat.not_succ_le_zero _ (Nat.le_trans hpos hle)

/-- **When ids are unique.** Over any run of `create_entity` in the game processes of a server, no two entities have one
    id, if and only if each process gives its next id before any process, itself included, has gone beyond it. -/
theorem ids_nodup_iff (labels : List ManagersLabel) :
    (∃ s, run step {} labels = some s ∧ ∀ pre, pre <+: labels → ∀ s₁, run step {} pre = some s₁ → Distinct s₁) ↔
      Along step InRange {} labels :=
  total_good_iff_along_of_defined (fun _ _ => ⟨_, rfl⟩) (fun hs h => hs.step h)
    (fun hs hdistinct h => step_distinct_iff hs hdistinct h) inv_init List.nodup_nil labels

/-- The process 1 creates 257 accounts, and the process 2 one. -/
def manyAccounts : List ManagersLabel :=
  List.replicate 257 (.createEntity 1 (ascii "account") 1 1 true) ++ [.createEntity 2 (ascii "account") 1 2 true]

/-- The last two have the id 513. -/
theorem same_id : ∃ s, run step {} manyAccounts = some s ∧ (1, 513) ∈ s.created ∧ (2, 513) ∈ s.created ∧
    ¬ Distinct s := by
  have hrun : (run step {} manyAccounts).map (fun s => s.created.take 2) = some [(2, 513), (1, 513)] := by decide +kernel
  obtain ⟨s, hs, htake⟩ := Option.map_eq_some_iff.mp hrun
  have hcreated := List.take_append_drop 2 s.created
  rw [htake] at hcreated
  refine ⟨s, hs, ?_, ?_, fun h => ?_⟩
  · rw [← hcreated]
    exact List.mem_cons_of_mem _ List.mem_cons_self
  · rw [← hcreated]
    exact List.mem_cons_self
  · rw [Distinct, ← hcreated] at h
    exact (List.nodup_cons.mp h).1 List.mem_cons_self

end Managers

end Mowang
