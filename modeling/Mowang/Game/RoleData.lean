import Mathlib.Algebra.Order.Ring.Int
import Mathlib.Tactic.Common

/-!
# `Game.RoleData` — the data of a role and the commands that change it

`role_info`, the tables the building commands read, and `income_resource`, `build_building` and
`up_building_level`: each checks, answers the client with the code of the check, and changes the data
only on `ERR_SUCCESS`. A function returns `none` where the source follows a null configuration pointer
or reads past the end of a list.

## Contents
- `RoleInfo`, `Config`, `ErrorCode`.
- `getResourceSpeed`, `onBuildingChanged`, `checkResource`, `descResource`.
- The three commands, and `GameCommand.apply`.
-/

namespace Mowang

structure ResourceInfo where
  resourceType : UInt8 := 0
  resourceNum : Int32 := 0
  deriving DecidableEq

structure BuildingInfo where
  buildingType : UInt16 := 0
  buildingIndex : UInt16 := 0
  buildingLevel : Int16 := 0
  resourceData : ResourceInfo := {}
  startTime : UInt32 := 0
  incomeTime : UInt32 := 0
  deriving DecidableEq

/-- `ROLE_NAME_LEN`. -/
def roleNameLen : Nat := 64

structure RoleInfo where
  roleId : Nat := 0
  accountId : Nat := 0
  level : Int16 := 0
  sex : UInt8 := 0
  roleName : List UInt8 := []
  buildings : List BuildingInfo := []
  resources : List ResourceInfo := []
  deriving DecidableEq

/-- One row of `tbl_building_upgrade_config`. -/
structure BuildingUpgradeConfig where
  upgradeNeedMoney : UInt16 → Option (List Int32)
  product : UInt16 → Option (List Int32)
  incomeInterval : UInt16 → Option UInt32

/-- The loaded tables: `get` of each, by its key. -/
structure Config where
  /-- `unlock_need_money` of a `tbl_building_config`. -/
  building : UInt16 → Option (List Int32)
  buildingUpgrade : Int16 → Option BuildingUpgradeConfig
  /-- `value` of `tbl_common_config` 1. -/
  common : Option (List Int32)

/-- `EErrorCode`. -/
inductive ErrorCode where
  | success
  | failed
  | buildingNotExist
  | buildingTypeNotExist
  | buildingLock
  | buildingSameIndex
  | buildingResourceNotEnough
  | buildingIncomeTooShort
  deriving DecidableEq

/-- Change the first element that meets `p`. -/
def modifyFirst {α : Type} (p : α → Bool) (f : α → α) : List α → List α
  | []     => []
  | a :: l => if p a then f a :: l else a :: modifyFirst p f l

section ModifyFirst

variable {α : Type} {p : α → Bool} {f : α → α} {l : List α}

theorem modifyFirst_of_none (h : l.find? p = none) : modifyFirst p f l = l := by
  induction l with
  | nil => rfl
  | cons a l ih =>
      rw [List.find?_cons] at h
      split at h
      · cases h
      · next hp =>
        rw [modifyFirst, hp, ih h]
        rfl

/-- The first element that meets `q`, when the change keeps what `q` sees. -/
theorem find?_modifyFirst_of_ne {q : α → Bool} (hf : ∀ a, p a → q (f a) = q a) (hpq : ∀ a, q a → p a = false) :
    (modifyFirst p f l).find? q = l.find? q := by
  induction l with
  | nil => rfl
  | cons a l ih =>
      unfold modifyFirst
      cases hp : p a with
      | true =>
          have hq : q a = false := by
            by_contra hq
            rw [hpq a (by simpa using hq)] at hp
            cases hp
          rw [if_pos rfl, List.find?_cons, List.find?_cons, hf a hp, hq]
      | false =>
          rw [if_neg Bool.false_ne_true, List.find?_cons, List.find?_cons, ih]

theorem find?_modifyFirst (hf : ∀ a, p a → p (f a)) : (modifyFirst p f l).find? p = (l.find? p).map f := by
  induction l with
  | nil => rfl
  | cons a l ih =>
      unfold modifyFirst
      cases hp : p a with
      | true =>
          rw [if_pos rfl, List.find?_cons, List.find?_cons, hf a hp, hp]
          rfl
      | false =>
          rw [if_neg Bool.false_ne_true, List.find?_cons, List.find?_cons, hp]
          exact ih

/-- A sum over the list changes by the difference that the first element makes. -/
theorem sum_modifyFirst (g : α → Int) {a : α} (h : l.find? p = some a) :
    ((modifyFirst p f l).map g).sum = (l.map g).sum - g a + g (f a) := by
  induction l with
  | nil => cases h
  | cons b l ih =>
      unfold modifyFirst
      cases hp : p b with
      | true =>
          rw [List.find?_cons, hp] at h
          cases h
          rw [if_pos rfl, List.map_cons, List.map_cons, List.sum_cons, List.sum_cons]
          omega
      | false =>
          rw [List.find?_cons, hp] at h
          rw [if_neg Bool.false_ne_true, List.map_cons, List.map_cons, List.sum_cons, List.sum_cons, ih h]
          omega

theorem forall_mem_modifyFirst {P : α → Prop} (hl : ∀ a ∈ l, P a) (hf : ∀ a, l.find? p = some a → P (f a)) :
    ∀ a ∈ modifyFirst p f l, P a := by
  induction l with
  | nil => exact hl
  | cons b l ih =>
      unfold modifyFirst
      cases hp : p b with
      | true =>
          rw [if_pos rfl, List.forall_mem_cons]
          refine ⟨hf b ?_, fun a ha => hl a (List.mem_cons_of_mem b ha)⟩
          rw [List.find?_cons, hp]
      | false =>
          rw [if_neg Bool.false_ne_true, List.forall_mem_cons]
          refine ⟨hl b List.mem_cons_self, ih (fun a ha => hl a (List.mem_cons_of_mem b ha)) fun a ha => hf a ?_⟩
          rw [List.find?_cons, hp]
          exact ha

end ModifyFirst

namespace RoleInfo

/-- `std::find(buildings, index)`. -/
def findBuilding (data : RoleInfo) (index : UInt16) : Option BuildingInfo :=
  data.buildings.find? fun b => b.buildingIndex == index

/-- `get_resource_speed`; the type is passed as a `TResourceNum_t` and cut to 8 bits. -/
def getResourceSpeed (cfg : Config) (buildingType : UInt16) (level : Int16) : ResourceInfo :=
  match cfg.buildingUpgrade level with
  | none     => {}
  | some row =>
    match row.product buildingType with
    | some (type :: num :: _) => ⟨type.toUInt32.toUInt8, num⟩
    | _                       => {}

def onBuildingChanged (cfg : Config) (now : UInt32) (b : BuildingInfo) : BuildingInfo :=
  let speed := getResourceSpeed cfg b.buildingType b.buildingLevel
  let produced := (now - b.startTime) * speed.resourceNum.toUInt32
  { b with
    resourceData := ⟨speed.resourceType, (b.resourceData.resourceNum.toUInt32 + produced).toInt32⟩
    startTime := now }

def checkResource (data : RoleInfo) (type : UInt8) (num : Int32) : Bool :=
  match data.resources.find? fun r => r.resourceType == type with
  | none   => false
  | some r => num ≤ r.resourceNum

def descResource (data : RoleInfo) (type : UInt8) (num : Int32) : RoleInfo :=
  { data with
    resources := modifyFirst (fun r => r.resourceType == type)
      (fun r => { r with resourceNum := r.resourceNum - num }) data.resources }

/-- The costs are read two by two, `resources[i]` and `resources[i + 1]`. -/
def checkResources (data : RoleInfo) : List Int32 → Option Bool
  | []                       => some true
  | [_]                      => none
  | type :: num :: resources =>
    if data.checkResource type.toUInt32.toUInt8 num then data.checkResources resources else some false

def descResources (data : RoleInfo) : List Int32 → Option RoleInfo
  | []                       => some data
  | [_]                      => none
  | type :: num :: resources => (data.descResource type.toUInt32.toUInt8 num).descResources resources

/-! ## `income_resource` -/

def checkIncomeResource (cfg : Config) (now : UInt32) (data : RoleInfo) (index : UInt16) : Option ErrorCode :=
  match data.findBuilding index with
  | none   => some .buildingNotExist
  | some b =>
    (cfg.buildingUpgrade b.buildingLevel).map fun row =>
    match row.incomeInterval b.buildingType with
    | none          => .failed
    | some interval => if b.incomeTime + interval > now then .buildingIncomeTooShort else .success

/-- When the role has no resource of the building's type, the amount is lost: the `resource_info` made
    for it is a local variable. -/
def onIncomeResource (cfg : Config) (now : UInt32) (data : RoleInfo) (index : UInt16) : RoleInfo :=
  match data.findBuilding index with
  | none   => data
  | some b =>
    let b := onBuildingChanged cfg now b
    { data with
      resources := modifyFirst (fun r => r.resourceType == b.resourceData.resourceType)
        (fun r => { r with resourceNum := r.resourceNum + b.resourceData.resourceNum }) data.resources
      buildings := modifyFirst (fun b' => b'.buildingIndex == index)
        (fun _ => { b with resourceData := { b.resourceData with resourceNum := 0 }, incomeTime := now })
        data.buildings }

/-! ## `build_building` -/

def checkBuildBuilding (cfg : Config) (data : RoleInfo) (index buildingType : UInt16) : Option ErrorCode :=
  match cfg.building buildingType with
  | none           => some .buildingTypeNotExist
  | some resources =>
    if data.buildings.any fun b => b.buildingIndex == index then some .buildingSameIndex
    else (data.checkResources resources).map fun covered => if covered then .success else .buildingLock

def onBuildBuildingSuccess (cfg : Config) (now : UInt32) (data : RoleInfo) (index buildingType : UInt16) :
    Option RoleInfo :=
  (cfg.building buildingType).bind fun resources =>
  (data.descResources resources).map fun data =>
    let b : BuildingInfo :=
      { buildingIndex := index, buildingType := buildingType, buildingLevel := 1, startTime := now }
    { data with buildings := data.buildings ++ [onBuildingChanged cfg now b] }

/-! ## `up_building_level` -/

def checkUpBuildingLevel (cfg : Config) (data : RoleInfo) (index : UInt16) : Option ErrorCode :=
  match data.findBuilding index with
  | none   => some .buildingNotExist
  | some b =>
    match cfg.buildingUpgrade b.buildingLevel with
    | none     => some .failed
    | some row =>
      match row.upgradeNeedMoney b.buildingType with
      | none           => some .failed
      | some resources =>
        (data.checkResources resources).map fun covered =>
          if covered then .success else .buildingResourceNotEnough

def onUpBuildingLevelSuccess (cfg : Config) (now : UInt32) (data : RoleInfo) (index : UInt16) : Option RoleInfo :=
  (data.findBuilding index).bind fun b =>
  (cfg.buildingUpgrade b.buildingLevel).bind fun row =>
  (row.upgradeNeedMoney b.buildingType).bind fun resources =>
  (data.descResources resources).map fun data =>
    { data with
      buildings := modifyFirst (fun b' => b'.buildingIndex == index)
        (fun b => { onBuildingChanged cfg now b with buildingLevel := b.buildingLevel + 1 }) data.buildings }

/-! ## Whose data it is -/

/-- `account_id` and `role_id`. -/
def ids (data : RoleInfo) : Nat × Nat := (data.accountId, data.roleId)

theorem descResources_ids {data data' : RoleInfo} {resources : List Int32}
    (h : data.descResources resources = some data') : data'.ids = data.ids := by
  induction data, resources using descResources.induct with
  | case1 data =>
      cases h
      rfl
  | case2 data _ => cases h
  | case3 data type num resources ih => exact ih h

theorem onIncomeResource_ids (cfg : Config) (now : UInt32) (data : RoleInfo) (index : UInt16) :
    (data.onIncomeResource cfg now index).ids = data.ids := by
  unfold onIncomeResource
  split <;> rfl

theorem onBuildBuildingSuccess_ids {cfg : Config} {now : UInt32} {data data' : RoleInfo}
    {index buildingType : UInt16} (h : data.onBuildBuildingSuccess cfg now index buildingType = some data') :
    data'.ids = data.ids := by
  obtain ⟨resources, -, h⟩ := Option.bind_eq_some_iff.mp h
  obtain ⟨data₁, hdesc, rfl⟩ := Option.map_eq_some_iff.mp h
  have hids : data₁.ids = data.ids := descResources_ids hdesc
  exact hids

theorem onUpBuildingLevelSuccess_ids {cfg : Config} {now : UInt32} {data data' : RoleInfo} {index : UInt16}
    (h : data.onUpBuildingLevelSuccess cfg now index = some data') : data'.ids = data.ids := by
  obtain ⟨b, -, h⟩ := Option.bind_eq_some_iff.mp h
  obtain ⟨row, -, h⟩ := Option.bind_eq_some_iff.mp h
  obtain ⟨resources, -, h⟩ := Option.bind_eq_some_iff.mp h
  obtain ⟨data₁, hdesc, rfl⟩ := Option.map_eq_some_iff.mp h
  have hids : data₁.ids = data.ids := descResources_ids hdesc
  exact hids

end RoleInfo

/-- The commands of a client that is in the game. -/
inductive GameCommand where
  | incomeResource (index : UInt16)
  | buildBuilding (index buildingType : UInt16)
  | upBuildingLevel (index : UInt16)
  deriving DecidableEq

namespace GameCommand

open RoleInfo

/-- The code that the command's check returns, and the client is answered with. -/
def check (cfg : Config) (now : UInt32) (data : RoleInfo) : GameCommand → Option ErrorCode
  | .incomeResource index             => data.checkIncomeResource cfg now index
  | .buildBuilding index buildingType => data.checkBuildBuilding cfg index buildingType
  | .upBuildingLevel index            => data.checkUpBuildingLevel cfg index

/-- What the command does once its check has passed. -/
def onSuccess (cfg : Config) (now : UInt32) (data : RoleInfo) : GameCommand → Option RoleInfo
  | .incomeResource index             => some (data.onIncomeResource cfg now index)
  | .buildBuilding index buildingType => data.onBuildBuildingSuccess cfg now index buildingType
  | .upBuildingLevel index            => data.onUpBuildingLevelSuccess cfg now index

/-- `income_resource`, `build_building` and `up_building_level`. -/
def apply (cfg : Config) (now : UInt32) (data : RoleInfo) (cmd : GameCommand) : Option RoleInfo :=
  (cmd.check cfg now data).bind fun code =>
  if code = .success then cmd.onSuccess cfg now data else some data

/-- A refused command leaves the data as it was. -/
theorem apply_of_refused {cfg : Config} {now : UInt32} {data data' : RoleInfo} {cmd : GameCommand}
    (happly : cmd.apply cfg now data = some data') (hcheck : cmd.check cfg now data ≠ some .success) :
    data' = data := by
  obtain ⟨code, hcode, happly⟩ := Option.bind_eq_some_iff.mp happly
  have hne : code ≠ .success := by
    rintro rfl
    exact hcheck hcode
  rw [if_neg hne] at happly
  cases happly
  rfl

/-- No command changes whose role the data is. -/
theorem apply_ids {cfg : Config} {now : UInt32} {data data' : RoleInfo} {cmd : GameCommand}
    (happly : cmd.apply cfg now data = some data') : data'.ids = data.ids := by
  by_cases hcheck : cmd.check cfg now data = some .success
  · have hsuccess : cmd.onSuccess cfg now data = some data' := by
      simpa [apply, hcheck] using happly
    cases cmd with
    | incomeResource index =>
        cases hsuccess
        exact onIncomeResource_ids cfg now data index
    | buildBuilding index buildingType => exact onBuildBuildingSuccess_ids hsuccess
    | upBuildingLevel index => exact onUpBuildingLevelSuccess_ids hsuccess
  · rw [apply_of_refused happly hcheck]

end GameCommand

end Mowang
