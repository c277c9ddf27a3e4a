import Mowang.Game.BuildingRows
import Mathlib.Algebra.BigOperators.Group.List.Basic
import Mathlib.Tactic.Ring

/-!
# `Game.Resources` — what a role owns, what its buildings hold, and what commands cost

A building makes a resource from its `start_time` on, and `on_building_changed` settles it: the amount goes to the
building's `resource_data` under the type that is made at its level, whatever the type was before. `income_resource`
then moves the amount to the role's resource of that type, if there is one. Costs are taken pair by pair.

Amounts are counted here as integers: what is owned, and what is held by the buildings at a time, settled or not.

## Contents
- `owned`, `held`, `total`, `rate`, `total_later`; `cost`.
- `settled`, `Fits` — the numbers that a command computes have 32 bits.
- `total_onIncomeResource`, `total_onUpBuildingLevelSuccess`, `total_onBuildBuildingSuccess`.
- `Ledger`, `Ledger.step` — a run with what was produced and spent.
- `conserved_iff` and `lost_income`.
-/

namespace Mowang

/-- The numbers of 32 bits. -/
def Int32Range (x : ℤ) : Prop := -2 ^ 31 ≤ x ∧ x < 2 ^ 31

theorem toInt_add_of_range {a b : Int32} (h : Int32Range (a.toInt + b.toInt)) :
    (a + b).toInt = a.toInt + b.toInt := by
  rw [Int32.toInt_add]
  exact Int.bmod_eq_of_le h.1 h.2

theorem toInt_sub_of_range {a b : Int32} (h : Int32Range (a.toInt - b.toInt)) :
    (a - b).toInt = a.toInt - b.toInt := by
  rw [Int32.toInt_sub]
  exact Int.bmod_eq_of_le h.1 h.2

theorem toInt_toInt32 (a : UInt32) : a.toInt32.toInt = (a.toNat : ℤ).bmod (2 ^ 32) := by
  conv_lhs => rw [← UInt32.ofNat_toNat (x := a), UInt32.toInt32_ofNat']
  exact Int32.toInt_ofNat'

theorem toInt_sub_toInt32 (a b : UInt32) : (a - b).toInt32.toInt = ((a.toNat : ℤ) - b.toNat).bmod (2 ^ 32) := by
  rw [UInt32.toInt32_sub, Int32.toInt_sub, toInt_toInt32, toInt_toInt32, ← Int.sub_bmod]

/-- Unsigned seconds times a signed speed, added to a signed amount. -/
theorem toInt_settled {a q : Int32} {now start : UInt32}
    (h : Int32Range (a.toInt + ((now.toNat : ℤ) - start.toNat) * q.toInt)) :
    (a.toUInt32 + (now - start) * q.toUInt32).toInt32.toInt = a.toInt + ((now.toNat : ℤ) - start.toNat) * q.toInt := by
  have hsum : (a.toUInt32 + (now - start) * q.toUInt32).toInt32 = a + (now - start).toInt32 * q := rfl
  -- all of it is modulo `2 ^ 32`
  rw [hsum, Int32.toInt_add, Int32.toInt_mul, toInt_sub_toInt32, Int.add_bmod_bmod, ← Int.add_bmod_bmod,
    Int.bmod_mul_bmod, Int.add_bmod_bmod]
  exact Int.bmod_eq_of_le h.1 h.2

namespace RoleInfo

/-! ## Amounts -/

/-- An amount, if it is of the type that is asked for. -/
def amountOf (resource : ResourceInfo) (type : UInt8) (amount : ℤ) : ℤ :=
  if resource.resourceType = type then amount else 0

/-- What the role owns of a type. -/
def owned (data : RoleInfo) (type : UInt8) : ℤ :=
  (data.resources.map fun r => amountOf r type r.resourceNum.toInt).sum

/-- The seconds since the building was settled. -/
def elapsed (now : UInt32) (b : BuildingInfo) : ℤ := (now.toNat : ℤ) - b.startTime.toNat

/-- What the building makes in a second. -/
def speed (cfg : Config) (b : BuildingInfo) : ResourceInfo := getResourceSpeed cfg b.buildingType b.buildingLevel

/-- What the building holds of a type: the amount it was settled with, and what it made since. -/
def held (cfg : Config) (now : UInt32) (b : BuildingInfo) (type : UInt8) : ℤ :=
  amountOf b.resourceData type b.resourceData.resourceNum.toInt +
    amountOf (speed cfg b) type (elapsed now b * (speed cfg b).resourceNum.toInt)

/-- What there is of a type. -/
def total (cfg : Config) (now : UInt32) (data : RoleInfo) (type : UInt8) : ℤ :=
  data.owned type + (data.buildings.map fun b => held cfg now b type).sum

/-- What all buildings make of a type in a second. -/
def rate (cfg : Config) (data : RoleInfo) (type : UInt8) : ℤ :=
  (data.buildings.map fun b => amountOf (speed cfg b) type (speed cfg b).resourceNum.toInt).sum

/-- What a list of costs takes of a type. -/
def cost (type : UInt8) : List Int32 → ℤ
  | t :: num :: resources => (if t.toUInt32.toUInt8 = type then num.toInt else 0) + cost type resources
  | _                     => 0

/-- The amount that the building has after it is settled. -/
def settled (cfg : Config) (now : UInt32) (b : BuildingInfo) : ℤ :=
  b.resourceData.resourceNum.toInt + elapsed now b * (speed cfg b).resourceNum.toInt

/-- The first resource of a type, which is the one that commands use. -/
def findResource (data : RoleInfo) (type : UInt8) : Option ResourceInfo :=
  data.resources.find? fun r => r.resourceType == type

/-- Every difference that `desc_resource` computes for the list has 32 bits. -/
def FitsCosts (data : RoleInfo) : List Int32 → Prop
  | type :: num :: resources =>
    (∀ r, data.findResource type.toUInt32.toUInt8 = some r → Int32Range (r.resourceNum.toInt - num.toInt)) ∧
      FitsCosts (data.descResource type.toUInt32.toUInt8 num) resources
  | _                        => True

variable {cfg : Config} {now : UInt32} {data data' : RoleInfo} {type : UInt8} {index : UInt16} {b : BuildingInfo}

/-- **Time passes.** -/
theorem total_later (cfg : Config) (now later : UInt32) (data : RoleInfo) (type : UInt8) :
    total cfg later data type = total cfg now data type + ((later.toNat : ℤ) - now.toNat) * rate cfg data type := by
  have hsum : ∀ buildings : List BuildingInfo,
      (buildings.map fun b => held cfg later b type).sum = (buildings.map fun b => held cfg now b type).sum +
        ((later.toNat : ℤ) - now.toNat) *
          (buildings.map fun b => amountOf (speed cfg b) type (speed cfg b).resourceNum.toInt).sum := by
    intro buildings
    induction buildings with
    | nil => simp
    | cons b buildings ih =>
        rw [List.map_cons, List.map_cons, List.map_cons, List.sum_cons, List.sum_cons, List.sum_cons, ih]
        simp only [held, amountOf, elapsed]
        split <;> split <;> ring
  unfold total rate
  rw [hsum]
  ring

theorem findResource_type {r : ResourceInfo} (h : data.findResource type = some r) : r.resourceType = type :=
  eq_of_beq (@List.find?_some _ (fun r : ResourceInfo => r.resourceType == type) _ _ h)

/-! ## Costs -/

/-- The resource that is found changes, and no other. -/
theorem owned_modifyFirst {f : ResourceInfo → ResourceInfo} {t : UInt8} (hf : ∀ r, (f r).resourceType = r.resourceType)
    {r : ResourceInfo} (h : data.findResource t = some r) (type : UInt8) :
    ({ data with resources := modifyFirst (fun r => r.resourceType == t) f data.resources } : RoleInfo).owned type =
      data.owned type - (if t = type then r.resourceNum.toInt else 0) +
        (if t = type then (f r).resourceNum.toInt else 0) := by
  have hsum := sum_modifyFirst (f := f) (fun r => amountOf r type r.resourceNum.toInt) h
  have ht := findResource_type h
  simp only [amountOf, hf, ht] at hsum
  exact hsum

theorem findResource_modifyFirst {f : ResourceInfo → ResourceInfo} (hf : ∀ r, (f r).resourceType = r.resourceType)
    (data : RoleInfo) (t type : UInt8) :
    ({ data with resources := modifyFirst (fun r => r.resourceType == t) f data.resources } : RoleInfo).findResource type
      = if t = type then (data.findResource type).map f else data.findResource type := by
  unfold findResource
  split
  next h =>
    subst h
    apply find?_modifyFirst
    intro r hr
    rw [hf]
    exact hr
  next h =>
    apply find?_modifyFirst_of_ne
    · intro r _
      rw [hf]
    · intro r hr
      rw [eq_of_beq hr]
      exact beq_false_of_ne (Ne.symm h)

theorem findResource_descResource (data : RoleInfo) (t : UInt8) (num : Int32) (type : UInt8) :
    (data.descResource t num).findResource type =
      if t = type then (data.findResource type).map fun r => { r with resourceNum := r.resourceNum - num }
      else data.findResource type :=
  @findResource_modifyFirst (fun r => { r with resourceNum := r.resourceNum - num }) (fun _ => rfl) data t type

/-- A resource that is checked is there. -/
theorem findResource_of_check {t : UInt8} {num : Int32} (h : data.checkResource t num) :
    ∃ r, data.findResource t = some r ∧ num ≤ r.resourceNum := by
  unfold checkResource at h
  split at h
  · cases h
  next r hr => exact ⟨r, hr, of_decide_eq_true h⟩

theorem owned_descResource {t : UInt8} {num : Int32} {r : ResourceInfo} (hr : data.findResource t = some r)
    (hfits : Int32Range (r.resourceNum.toInt - num.toInt)) (type : UInt8) :
    (data.descResource t num).owned type = data.owned type - if t = type then num.toInt else 0 := by
  have howned : (data.descResource t num).owned type = _ :=
    owned_modifyFirst (f := fun r => { r with resourceNum := r.resourceNum - num }) (fun _ => rfl) hr type
  rw [howned]
  dsimp only
  rw [toInt_sub_of_range hfits]
  split <;> omega

/-- The types of a list of costs. -/
def costTypes : List Int32 → List UInt8
  | type :: _ :: resources => type.toUInt32.toUInt8 :: costTypes resources
  | _                      => []

/-- Every type of a list of costs is there. -/
def Known (data : RoleInfo) (resources : List Int32) : Prop := ∀ t ∈ costTypes resources, (data.findResource t).isSome

theorem known_of_checkResources {resources : List Int32} (h : data.checkResources resources = some true) :
    Known data resources := by
  induction resources using checkResources.induct data with
  | case1 | case2 => exact List.forall_mem_nil _
  | case3 t num resources hcheck ih =>
      unfold checkResources at h
      rw [if_pos hcheck] at h
      obtain ⟨r, hr, _⟩ := findResource_of_check hcheck
      exact List.forall_mem_cons.mpr ⟨Option.isSome_of_eq_some hr, ih h⟩
  | case4 t num resources hcheck =>
      unfold checkResources at h
      rw [if_neg hcheck] at h
      cases h

theorem Known.descResource {resources : List Int32} (h : Known data resources) (t : UInt8) (num : Int32) :
    Known (data.descResource t num) resources := by
  intro t' ht'
  rw [findResource_descResource]
  split
  · rw [Option.isSome_map]
    exact h t' ht'
  · exact h t' ht'

/-- **Costs.** A list of known types is taken whole. -/
theorem owned_descResources {resources : List Int32} (hknown : Known data resources)
    (hfits : FitsCosts data resources) (h : data.descResources resources = some data') (type : UInt8) :
    data'.owned type = data.owned type - cost type resources := by
  induction data, resources using descResources.induct with
  | case1 data =>
      cases h
      exact (Int.sub_zero _).symm
  | case2 data _ => cases h
  | case3 data t num resources ih =>
      obtain ⟨hfirst, hrest⟩ := List.forall_mem_cons.mp hknown
      obtain ⟨r, hr⟩ := Option.isSome_iff_exists.mp hfirst
      rw [ih (Known.descResource hrest _ _) hfits.2 h, owned_descResource hr (hfits.1 r hr), cost]
      omega

theorem descResources_buildings {resources : List Int32} (h : data.descResources resources = some data') :
    data'.buildings = data.buildings := by
  induction data, resources using descResources.induct with
  | case1 data =>
      cases h
      rfl
  | case2 data _ => cases h
  | case3 data t num resources ih => exact ih h

/-! ## Buildings -/

/-- What is settled under the type that is made loses or gains nothing if there was no amount of another type. -/
def SameType (cfg : Config) (b : BuildingInfo) : Prop :=
  b.resourceData.resourceNum = 0 ∨ b.resourceData.resourceType = (speed cfg b).resourceType

theorem resourceNum_onBuildingChanged (h : Int32Range (settled cfg now b)) :
    (onBuildingChanged cfg now b).resourceData.resourceNum.toInt = settled cfg now b := toInt_settled h

/-- A building that was just settled holds what it was settled with. -/
theorem held_of_startTime (h : b.startTime = now) (cfg : Config) (type : UInt8) :
    held cfg now b type = amountOf b.resourceData type b.resourceData.resourceNum.toInt := by
  have helapsed : elapsed now b = 0 := by
    unfold elapsed
    rw [h]
    omega
  unfold held amountOf
  rw [helapsed]
  split <;> split <;> omega

theorem sum_held_modifyFirst {f : BuildingInfo → BuildingInfo} (hb : data.findBuilding index = some b)
    (cfg : Config) (now : UInt32) (type : UInt8) :
    ((modifyFirst (fun b => b.buildingIndex == index) f data.buildings).map fun b => held cfg now b type).sum =
      (data.buildings.map fun b => held cfg now b type).sum - held cfg now b type + held cfg now (f b) type :=
  sum_modifyFirst (fun b => held cfg now b type) hb

/-- What is held before and after a building is settled. -/
theorem settled_sub_held (cfg : Config) (now : UInt32) (b : BuildingInfo) (type : UInt8) :
    amountOf (speed cfg b) type (settled cfg now b) - held cfg now b type =
      amountOf (speed cfg b) type b.resourceData.resourceNum.toInt -
        amountOf b.resourceData type b.resourceData.resourceNum.toInt := by
  unfold settled held amountOf
  split <;> split <;> omega

/-- An amount is of two types only if it is nothing. -/
theorem amountOf_eq_iff {r r' : ResourceInfo} {amount : ℤ} :
    (∀ type, amountOf r type amount = amountOf r' type amount) ↔ amount = 0 ∨ r'.resourceType = r.resourceType := by
  unfold amountOf
  constructor
  · intro h
    by_contra hne
    rw [not_or] at hne
    have := h r.resourceType
    rw [if_pos rfl, if_neg hne.2] at this
    exact hne.1 this
  · rintro (rfl | h) type
    · split <;> split <;> rfl
    · rw [h]

/-- The settled amount is what was held, of each type. -/
theorem sameType_iff (cfg : Config) (now : UInt32) (b : BuildingInfo) :
    SameType cfg b ↔ ∀ type, amountOf (speed cfg b) type (settled cfg now b) = held cfg now b type := by
  rw [SameType, ← Int32.toInt_inj, Int32.toInt_zero, ← amountOf_eq_iff]
  refine forall_congr' fun type => ?_
  have hdiff := settled_sub_held cfg now b type
  omega

/-- A building that holds nothing of any type. -/
theorem held_eq_zero_iff (cfg : Config) (now : UInt32) (b : BuildingInfo) :
    (∀ type, held cfg now b type = 0) ↔ SameType cfg b ∧ settled cfg now b = 0 := by
  constructor
  · intro h
    have hspeed := h (speed cfg b).resourceType
    have hown := h b.resourceData.resourceType
    unfold held amountOf at hspeed hown
    rw [if_pos rfl] at hspeed hown
    unfold SameType settled
    by_cases heq : b.resourceData.resourceType = (speed cfg b).resourceType
    · rw [if_pos heq] at hspeed
      exact ⟨Or.inr heq, hspeed⟩
    · rw [if_neg heq, Int.zero_add] at hspeed
      rw [if_neg (Ne.symm heq), Int.add_zero] at hown
      refine ⟨Or.inl (Int32.toInt_inj.mp hown), ?_⟩
      rw [hown, hspeed]
      rfl
  · rintro ⟨hsame, hsettled⟩ type
    rw [← (sameType_iff cfg now b).mp hsame, hsettled]
    exact ite_self 0

/-! ## Commands -/

/-- **`build_building`** takes its costs and nothing else. -/
theorem total_onBuildBuildingSuccess {buildingType : UInt16} {resources : List Int32}
    (hresources : cfg.building buildingType = some resources) (hknown : Known data resources)
    (hfits : FitsCosts data resources) (h : data.onBuildBuildingSuccess cfg now index buildingType = some data') :
    total cfg now data' type = total cfg now data type - cost type resources := by
  unfold onBuildBuildingSuccess at h
  rw [hresources, Option.bind_some] at h
  obtain ⟨data₁, hdesc, rfl⟩ := Option.map_eq_some_iff.mp h
  have howned := owned_descResources hknown hfits hdesc type
  have hbuildings := descResources_buildings hdesc
  have hnew : ∀ b : BuildingInfo, b.startTime = now → b.resourceData.resourceNum = 0 →
      held cfg now (onBuildingChanged cfg now b) type = 0 := by
    intro b hstart hnum
    have hsettled : settled cfg now b = 0 := by
      unfold settled elapsed
      rw [hstart, hnum, Int.sub_self, Int.zero_mul]
      rfl
    have hrange : Int32Range (settled cfg now b) := hsettled ▸ ⟨by decide, by decide⟩
    rw [@held_of_startTime now _ rfl, resourceNum_onBuildingChanged hrange, hsettled]
    exact ite_self 0
  show data₁.owned type + ((data₁.buildings ++ [_]).map _).sum = _
  rw [List.map_append, List.sum_append, List.map_singleton, List.sum_singleton, hnew _ rfl rfl, howned, hbuildings]
  unfold total
  omega

/-- **`up_building_level`** takes its costs, and settles the building. -/
theorem total_onUpBuildingLevelSuccess {row : BuildingUpgradeConfig} {resources : List Int32}
    (hb : data.findBuilding index = some b) (hrow : cfg.buildingUpgrade b.buildingLevel = some row)
    (hresources : row.upgradeNeedMoney b.buildingType = some resources) (hknown : Known data resources)
    (hfits : FitsCosts data resources) (hsettled : Int32Range (settled cfg now b))
    (h : data.onUpBuildingLevelSuccess cfg now index = some data') :
    (∀ type, total cfg now data' type = total cfg now data type - cost type resources) ↔ SameType cfg b := by
  unfold onUpBuildingLevelSuccess at h
  rw [hb, Option.bind_some, hrow, Option.bind_some, hresources, Option.bind_some] at h
  obtain ⟨data₁, hdesc, rfl⟩ := Option.map_eq_some_iff.mp h
  have howned := fun type => owned_descResources hknown hfits hdesc type
  have hbuildings := descResources_buildings hdesc
  have hheld : ∀ type, held cfg now { onBuildingChanged cfg now b with buildingLevel := b.buildingLevel + 1 } type =
      amountOf (speed cfg b) type (settled cfg now b) := by
    intro type
    refine (held_of_startTime rfl cfg type).trans ?_
    show amountOf _ type (onBuildingChanged cfg now b).resourceData.resourceNum.toInt = _
    rw [resourceNum_onBuildingChanged hsettled]
    rfl
  rw [sameType_iff cfg now]
  refine forall_congr' fun type => ?_
  show data₁.owned type + ((modifyFirst _ _ data₁.buildings).map _).sum = _ ↔ _
  rw [howned, hbuildings, sum_held_modifyFirst hb, hheld]
  unfold total
  omega

/-- **`income_resource`** settles the building, and moves the amount if there is a resource of its type. -/
theorem total_onIncomeResource (hb : data.findBuilding index = some b) (hsettled : Int32Range (settled cfg now b))
    (hfits : ∀ r, data.findResource (speed cfg b).resourceType = some r →
      Int32Range (r.resourceNum.toInt + settled cfg now b)) :
    (∀ type, total cfg now (data.onIncomeResource cfg now index) type = total cfg now data type) ↔
      SameType cfg b ∧ ((data.findResource (speed cfg b).resourceType).isSome ∨ settled cfg now b = 0) := by
  -- the building is emptied, whether or not there is an account for what it held
  have hcollected : ∀ type, held cfg now
      { onBuildingChanged cfg now b with
        resourceData := { (onBuildingChanged cfg now b).resourceData with resourceNum := 0 }
        incomeTime := now } type = 0 := by
    intro type
    exact (held_of_startTime rfl cfg type).trans (ite_self 0)
  have hnum := resourceNum_onBuildingChanged hsettled
  have howned : ∀ type, (data.onIncomeResource cfg now index).owned type = data.owned type +
      if (data.findResource (speed cfg b).resourceType).isSome then amountOf (speed cfg b) type (settled cfg now b)
      else 0 := by
    intro type
    unfold onIncomeResource
    rw [hb]
    show ({ data with
      resources := modifyFirst (fun r => r.resourceType == (speed cfg b).resourceType) _
        data.resources } : RoleInfo).owned type = _
    cases hr : data.findResource (speed cfg b).resourceType with
    | none =>
        unfold findResource at hr
        rw [modifyFirst_of_none hr]
        exact (Int.add_zero _).symm
    | some r =>
        refine (owned_modifyFirst (f := fun r =>
          { r with resourceNum := r.resourceNum + (onBuildingChanged cfg now b).resourceData.resourceNum })
          (fun _ => rfl) hr type).trans ?_
        have hadd : (r.resourceNum + (onBuildingChanged cfg now b).resourceData.resourceNum).toInt =
            r.resourceNum.toInt + settled cfg now b := by
          rw [toInt_add_of_range (by rw [hnum]; exact hfits r hr), hnum]
        dsimp only
        rw [hadd, Option.isSome_some, if_pos rfl]
        unfold amountOf
        split <;> omega
  have htotal : ∀ type, total cfg now (data.onIncomeResource cfg now index) type = total cfg now data type +
      (if (data.findResource (speed cfg b).resourceType).isSome then amountOf (speed cfg b) type (settled cfg now b)
        else 0) - held cfg now b type := by
    intro type
    have hbuildings : ((data.onIncomeResource cfg now index).buildings.map fun b => held cfg now b type).sum =
        (data.buildings.map fun b => held cfg now b type).sum - held cfg now b type := by
      unfold onIncomeResource
      rw [hb]
      refine (sum_held_modifyFirst hb cfg now type).trans ?_
      rw [hcollected, Int.add_zero]
    unfold total
    rw [howned, hbuildings]
    omega
  simp only [htotal]
  cases (data.findResource (speed cfg b).resourceType).isSome with
  | true =>
      rw [and_iff_left (Or.inl rfl), sameType_iff cfg now]
      refine forall_congr' fun type => ?_
      simp only [if_true]
      omega
  | false =>
      rw [or_iff_right Bool.false_ne_true, ← held_eq_zero_iff]
      refine forall_congr' fun type => ?_
      rw [if_neg Bool.false_ne_true]
      omega

end RoleInfo

namespace GameCommand

open RoleInfo

/-- The list of costs that the command reads. -/
def costs (cfg : Config) (data : RoleInfo) : GameCommand → List Int32
  | .incomeResource _      => []
  | .buildBuilding _ type  => (cfg.building type).getD []
  | .upBuildingLevel index =>
    ((data.findBuilding index).bind fun b =>
      (cfg.buildingUpgrade b.buildingLevel).bind fun row => row.upgradeNeedMoney b.buildingType).getD []

/-- What a command that succeeds costs of a type. -/
def spends (cfg : Config) (now : UInt32) (data : RoleInfo) (cmd : GameCommand) (type : UInt8) : ℤ :=
  if cmd.check cfg now data = some .success then cost type (cmd.costs cfg data) else 0

/-- Every amount that the command computes has 32 bits. -/
def Fits (cfg : Config) (now : UInt32) (data : RoleInfo) : GameCommand → Prop
  | .incomeResource index      => ∀ b, data.findBuilding index = some b → Int32Range (settled cfg now b) ∧
      ∀ r, data.findResource (speed cfg b).resourceType = some r → Int32Range (r.resourceNum.toInt + settled cfg now b)
  | .buildBuilding index type  => FitsCosts data ((GameCommand.buildBuilding index type).costs cfg data)
  | .upBuildingLevel index     => FitsCosts data ((GameCommand.upBuildingLevel index).costs cfg data) ∧
      ∀ b, data.findBuilding index = some b → Int32Range (settled cfg now b)

/-- The building has no amount of another type than it makes at its level, and what is collected has a place. -/
def Kept (cfg : Config) (now : UInt32) (data : RoleInfo) : GameCommand → Prop
  | .incomeResource index  => ∀ b, data.findBuilding index = some b → SameType cfg b ∧
      ((data.findResource (speed cfg b).resourceType).isSome ∨ settled cfg now b = 0)
  | .buildBuilding _ _     => True
  | .upBuildingLevel index => ∀ b, data.findBuilding index = some b → SameType cfg b

variable {cfg : Config} {now : UInt32} {data data' : RoleInfo} {cmd : GameCommand}

theorem apply_of_success (hcheck : cmd.check cfg now data = some .success) :
    cmd.apply cfg now data = cmd.onSuccess cfg now data := by
  unfold apply
  rw [hcheck, Option.bind_some, if_pos rfl]

theorem costs_buildBuilding {type : UInt16} {resources : List Int32} (h : cfg.building type = some resources)
    (data : RoleInfo) (index : UInt16) : costs cfg data (.buildBuilding index type) = resources := by
  simp only [costs, h, Option.getD_some]

theorem costs_upBuildingLevel {index : UInt16} {b : BuildingInfo} {row : BuildingUpgradeConfig} {resources : List Int32}
    (hb : data.findBuilding index = some b) (hrow : cfg.buildingUpgrade b.buildingLevel = some row)
    (hresources : row.upgradeNeedMoney b.buildingType = some resources) :
    costs cfg data (.upBuildingLevel index) = resources := by
  simp only [costs, hb, hrow, hresources, Option.bind_some, Option.getD_some]

/-- The costs of a command that succeeds were checked. -/
theorem checkResources_costs (hcheck : cmd.check cfg now data = some .success) :
    data.checkResources (cmd.costs cfg data) = some true := by
  cases cmd with
  | incomeResource index => rfl
  | buildBuilding index type =>
      obtain ⟨resources, hresources, h⟩ := buildBuilding_of_success hcheck
      rw [costs_buildBuilding hresources]
      exact h
  | upBuildingLevel index =>
      obtain ⟨b, row, resources, hb, hrow, hresources, h⟩ := upBuildingLevel_of_success hcheck
      rw [costs_upBuildingLevel hb hrow hresources]
      exact h

/-- **One command that succeeds** takes its costs and nothing else, exactly when amounts keep their type and place. -/
theorem total_onSuccess (hcheck : cmd.check cfg now data = some .success) (hfits : Fits cfg now data cmd)
    (h : cmd.onSuccess cfg now data = some data') :
    (∀ type, total cfg now data' type = total cfg now data type - cost type (cmd.costs cfg data)) ↔
      Kept cfg now data cmd := by
  have hknown := known_of_checkResources (checkResources_costs hcheck)
  cases cmd with
  | incomeResource index =>
      cases h
      obtain ⟨b, row, hb, _⟩ := hasRow_of_success hcheck
      obtain ⟨hsettled, hcollect⟩ := hfits b hb
      have hiff := total_onIncomeResource hb hsettled hcollect
      have hcost : ∀ type, cost type (costs cfg data (.incomeResource index)) = 0 := fun _ => rfl
      simp only [hcost, Int.sub_zero, hiff, Kept]
      constructor
      · intro h b' hb'
        cases hb.symm.trans hb'
        exact h
      · exact fun h => h b hb
  | buildBuilding index type =>
      obtain ⟨resources, hresources, _⟩ := buildBuilding_of_success hcheck
      have hcosts := costs_buildBuilding hresources data index
      rw [hcosts] at hknown ⊢
      change FitsCosts data (costs cfg data (.buildBuilding index type)) at hfits
      rw [hcosts] at hfits
      exact iff_of_true (fun _ => total_onBuildBuildingSuccess hresources hknown hfits h) trivial
  | upBuildingLevel index =>
      obtain ⟨b, row, resources, hb, hrow, hresources, _⟩ := upBuildingLevel_of_success hcheck
      have hcosts := costs_upBuildingLevel hb hrow hresources
      obtain ⟨hfits, hsettled⟩ := hfits
      rw [hcosts] at hknown hfits ⊢
      rw [total_onUpBuildingLevelSuccess hb hrow hresources hknown hfits (hsettled b hb) h]
      constructor
      · intro h b' hb'
        cases hb.symm.trans hb'
        exact h
      · exact fun h => h b hb

end GameCommand

/-! ## A run -/

/-- The data of a role at the time of the last command, and what was made and spent until then. -/
structure Ledger where
  data : RoleInfo
  now : UInt32
  produced : UInt8 → ℤ := fun _ => 0
  spent : UInt8 → ℤ := fun _ => 0

namespace Ledger

open RoleInfo RoleEvent

/-- After a command at a time. -/
def after (cfg : Config) (s : Ledger) (l : UInt32 × GameCommand) (data : RoleInfo) : Ledger where
  data := data
  now := l.1
  produced := fun type => s.produced type + ((l.1.toNat : ℤ) - s.now.toNat) * rate cfg s.data type
  spent := fun type => s.spent type + l.2.spends cfg l.1 s.data type

def step (cfg : Config) (s : Ledger) (l : UInt32 × GameCommand) : Option Ledger :=
  (l.2.apply cfg l.1 s.data).map (s.after cfg l)

/-- What there is of each type is what there was at the start, and what was made, without what was spent. -/
def Conserved (cfg : Config) (start s : Ledger) : Prop :=
  ∀ type, total cfg s.now s.data type = total cfg start.now start.data type + s.produced type - s.spent type

def Fits (cfg : Config) (s : Ledger) (l : UInt32 × GameCommand) : Prop :=
  l.2.check cfg l.1 s.data = some .success → l.2.Fits cfg l.1 s.data

/-- The command looks up no missing row, and if it succeeds, amounts keep their type and place. -/
def Kept (cfg : Config) (s : Ledger) (l : UInt32 × GameCommand) : Prop :=
  l.2.Guarded cfg s.data ∧ (l.2.check cfg l.1 s.data = some .success → l.2.Kept cfg l.1 s.data)

variable {cfg : Config} {start s s' : Ledger} {l : UInt32 × GameCommand}

/-- **One step.** -/
theorem step_conserved_iff (hcfg : cfg.Accepted) (hgood : Conserved cfg start s) (hfits : Fits cfg s l) :
    (∃ s', step cfg s l = some s' ∧ Conserved cfg start s') ↔ Kept cfg s l := by
  obtain ⟨now, cmd⟩ := l
  have hisSome : (cmd.apply cfg now s.data).isSome ↔ _ := GameCommand.apply_isSome_iff hcfg
  cases happly : cmd.apply cfg now s.data with
  | none =>
      rw [happly] at hisSome
      refine iff_of_false ?_ fun h => nomatch hisSome.mpr h.1
      rintro ⟨s', hstep, _⟩
      rw [step, happly] at hstep
      cases hstep
  | some data =>
      have hguarded : cmd.Guarded cfg s.data := hisSome.mp (Option.isSome_of_eq_some happly)
      have hstep : step cfg s (now, cmd) = some (s.after cfg (now, cmd) data) := by
        rw [step, happly, Option.map_some]
      rw [hstep]
      simp only [Option.some.injEq, exists_eq_left', Conserved, Kept, hguarded, true_and, after]
      -- until the command, time has passed
      have hlater := fun type => total_later cfg s.now now s.data type
      by_cases hcheck : cmd.check cfg now s.data = some .success
      · rw [GameCommand.apply_of_success hcheck] at happly
        rw [← GameCommand.total_onSuccess hcheck (hfits hcheck) happly]
        simp only [hcheck, true_implies, GameCommand.spends, if_true]
        refine forall_congr' fun type => ?_
        have := hgood type
        have := hlater type
        omega
      · have hdata := GameCommand.apply_of_refused happly hcheck
        refine iff_of_true (fun type => ?_) fun h => absurd h hcheck
        have := hgood type
        have := hlater type
        simp only [GameCommand.spends, if_neg hcheck, hdata]
        omega

/-- Up to any command of a run nothing was lost, created or turned into another type, exactly when no command looked up a
    missing row and all amounts kept their type and place. -/
theorem conserved_iff {intValue : List UInt8 → Int32} {files : ConfigFiles}
    (hload : Config.load intValue files = some cfg) (data : RoleInfo) (now : UInt32)
    {labels : List (UInt32 × GameCommand)}
    (hfits : Along (step cfg) (Fits cfg) { data := data, now := now } labels) :
    (∃ s, run (step cfg) { data := data, now := now } labels = some s ∧
        ∀ pre, pre <+: labels → ∀ s₁, run (step cfg) { data := data, now := now } pre = some s₁ →
          Conserved cfg { data := data, now := now } s₁) ↔
      Along (step cfg) (Kept cfg) { data := data, now := now } labels := by
  refine total_good_iff_along_of (I := fun _ => True) (fun _ _ _ => trivial)
    (fun _ hgood hfits => step_conserved_iff (Config.load_accepted hload) hgood hfits) trivial ?_ hfits
  intro type
  show total cfg now data type = total cfg now data type + 0 - 0
  omega

/-- The tables of one building, and a role with 100 of its resource. -/
theorem conserved_iff_levelOne : ∃ cfg, Config.load fromString levelOneFiles = some cfg ∧
    ((∃ s, run (step cfg) { data := { resources := [⟨1, 100⟩] }, now := 50 } [(100, .buildBuilding 3 1)] = some s ∧
        ∀ pre, pre <+: [(100, .buildBuilding 3 1)] → ∀ s₁,
          run (step cfg) { data := { resources := [⟨1, 100⟩] }, now := 50 } pre = some s₁ →
            Conserved cfg { data := { resources := [⟨1, 100⟩] }, now := 50 } s₁) ↔
      Along (step cfg) (Kept cfg) { data := { resources := [⟨1, 100⟩] }, now := 50 } [(100, .buildBuilding 3 1)]) := by
  obtain ⟨cfg, hload, hbuilding, _⟩ := levelOne_loaded
  refine ⟨cfg, hload, conserved_iff hload { resources := [⟨1, 100⟩] } 50 ⟨fun _ => ?_, fun _ _ => trivial⟩⟩
  show FitsCosts _ (GameCommand.costs cfg _ (.buildBuilding 3 1))
  rw [GameCommand.costs_buildBuilding hbuilding]
  refine ⟨fun r hr => ?_, trivial⟩
  cases hr
  exact ⟨by decide, by decide⟩

/-- A role whose resources were not stored collects from a building: what was made is lost. -/
theorem lost_income : ¬ ∀ files cfg data now labels, Config.load fromString files = some cfg →
    Along (step cfg) (Fits cfg) { data := data, now := now } labels →
    ∃ s, run (step cfg) { data := data, now := now } labels = some s ∧
      ∀ pre, pre <+: labels → ∀ s₁, run (step cfg) { data := data, now := now } pre = some s₁ →
        Conserved cfg { data := data, now := now } s₁ := by
  intro h
  let b : BuildingInfo := { buildingType := 1, buildingIndex := 2, buildingLevel := 1 }
  let start : Ledger := { data := { buildings := [b] }, now := 100 }
  let labels : List (UInt32 × GameCommand) := [(100, .incomeResource 2)]
  have hamounts : ((Config.load fromString levelOneFiles).bind fun cfg => (run (step cfg) start labels).map fun s =>
      (total cfg start.now start.data 1, s.produced 1, s.spent 1, total cfg s.now s.data 1)) = some (200, 0, 0, 0) := by
    decide +kernel
  obtain ⟨cfg, hload, hamounts⟩ := Option.bind_eq_some_iff.mp hamounts
  obtain ⟨s, hrun, hamounts⟩ := Option.map_eq_some_iff.mp hamounts
  simp only [Prod.mk.injEq] at hamounts
  obtain ⟨hstart, hproduced, hspent, hend⟩ := hamounts
  have hspeed : speed cfg b = ⟨1, 2⟩ := by
    obtain ⟨cfg', hload', _, hspeed⟩ := levelOne_loaded
    cases hload.symm.trans hload'
    exact hspeed
  have hfits : Along (step cfg) (Fits cfg) start labels := by
    refine ⟨fun _ b' hb' => ?_, fun _ _ => trivial⟩
    cases hb'
    have hsettled : settled cfg 100 b = 200 := by
      unfold settled
      rw [hspeed]
      rfl
    rw [hsettled]
    refine ⟨⟨by decide, by decide⟩, fun r hr => nomatch hr⟩
  obtain ⟨_, _, hall⟩ := h levelOneFiles cfg start.data start.now labels hload hfits
  have hconserved := hall labels (List.prefix_refl _) s hrun 1
  change total cfg s.now s.data 1 = total cfg start.now start.data 1 + s.produced 1 - s.spent 1 at hconserved
  rw [hstart, hproduced, hspent, hend] at hconserved
  exact absurd hconserved (by decide)

end Ledger

end Mowang
