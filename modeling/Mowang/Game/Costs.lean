import Mowang.Game.Resources

/-!
# `Game.Costs` — a role pays what it has

The check of a list of costs asks of each pair alone whether the role has the amount; the pairs are taken one after the
other when all checks have passed. A type that occurs twice is checked against the same amount twice.

## Contents
- `found` — the amount that checks look at; `Config.CostsNonneg`.
- `descResources_covered`, and the converse `owned_sub_found_descResources`.
- `Ledger.Solvent`, `Ledger.Covered`; `solvent_iff`, and `paid_twice`.
-/

namespace Mowang

namespace RoleInfo

/-! ## Lists of costs -/

/-- The amounts of a list of costs. -/
def costAmounts : List Int32 → List Int32
  | _ :: num :: resources => num :: costAmounts resources
  | _                     => []

/-- The amount that a check of the type looks at. -/
def found (data : RoleInfo) (type : UInt8) : ℤ := ((data.findResource type).map fun r => r.resourceNum.toInt).getD 0

/-- No amount is negative. -/
def Nonneg (data : RoleInfo) : Prop := ∀ r ∈ data.resources, 0 ≤ r.resourceNum.toInt

variable {data data' : RoleInfo} {type : UInt8}

theorem found_of_findResource {r : ResourceInfo} (h : data.findResource type = some r) :
    data.found type = r.resourceNum.toInt := by
  unfold found
  rw [h, Option.map_some, Option.getD_some]

theorem Nonneg.found (h : Nonneg data) (type : UInt8) : 0 ≤ data.found type := by
  cases hr : data.findResource type with
  | none =>
      unfold RoleInfo.found
      rw [hr]
      exact Int.le_refl 0
  | some r =>
      rw [found_of_findResource hr]
      exact h r (List.mem_of_find?_eq_some hr)

theorem cost_nonneg {resources : List Int32} (h : ∀ num ∈ costAmounts resources, 0 ≤ num.toInt) (type : UInt8) :
    0 ≤ cost type resources := by
  induction resources using costAmounts.induct with
  | case1 t num resources ih =>
      obtain ⟨hnum, hrest⟩ := List.forall_mem_cons.mp h
      have := ih hrest
      unfold cost
      split <;> omega
  | case2 resources hshort =>
      unfold cost
      split
      · exact absurd rfl (hshort _ _ _)
      · exact Int.le_refl 0

/-- A cost that the role can pay changes what is found by the amount, and leaves nothing negative. -/
theorem found_descResource {t : UInt8} {num : Int32} {r : ResourceInfo} (hr : data.findResource t = some r)
    (hfits : Int32Range (r.resourceNum.toInt - num.toInt)) (type : UInt8) :
    (data.descResource t num).found type = data.found type - if t = type then num.toInt else 0 := by
  unfold found
  rw [findResource_descResource]
  by_cases ht : t = type
  · subst ht
    rw [if_pos rfl, if_pos rfl, hr, Option.map_some, Option.map_some, Option.map_some, Option.getD_some,
      Option.getD_some]
    exact toInt_sub_of_range hfits
  · rw [if_neg ht, if_neg ht, Int.sub_zero]

theorem Nonneg.descResource (h : Nonneg data) {t : UInt8} {num : Int32} {r : ResourceInfo}
    (hr : data.findResource t = some r) (hfits : Int32Range (r.resourceNum.toInt - num.toInt))
    (hle : num.toInt ≤ r.resourceNum.toInt) : Nonneg (data.descResource t num) := by
  refine forall_mem_modifyFirst h fun r' hr' => ?_
  cases hr.symm.trans hr'
  rw [toInt_sub_of_range hfits]
  omega

/-- **A list that the role can pay** is taken whole, with nothing negative on the way. -/
theorem descResources_covered {resources : List Int32} (hknown : Known data resources)
    (hamounts : ∀ num ∈ costAmounts resources, 0 ≤ num.toInt) (hcovered : ∀ type, cost type resources ≤ data.found type)
    (hdata : Nonneg data) (h : data.descResources resources = some data') :
    FitsCosts data resources ∧ Nonneg data' := by
  induction data, resources using descResources.induct with
  | case1 data =>
      cases h
      exact ⟨trivial, hdata⟩
  | case2 data _ => cases h
  | case3 data t num resources ih =>
      obtain ⟨hfirst, hrest⟩ := List.forall_mem_cons.mp hknown
      obtain ⟨hnum, hamounts⟩ := List.forall_mem_cons.mp hamounts
      obtain ⟨r, hr⟩ := Option.isSome_iff_exists.mp hfirst
      have hle : num.toInt ≤ r.resourceNum.toInt := by
        have hcost := hcovered t.toUInt32.toUInt8
        have hlater := cost_nonneg hamounts t.toUInt32.toUInt8
        rw [cost, if_pos rfl, found_of_findResource hr] at hcost
        omega
      have hfits : Int32Range (r.resourceNum.toInt - num.toInt) := by
        have := r.resourceNum.toInt_lt
        exact ⟨by omega, by omega⟩
      have hcovered' : ∀ type, cost type resources ≤ (data.descResource t.toUInt32.toUInt8 num).found type := by
        intro type
        have hcost := hcovered type
        rw [found_descResource hr hfits]
        rw [cost] at hcost
        omega
      obtain ⟨hfits', hdata'⟩ :=
        ih (Known.descResource hrest _ _) hamounts hcovered' (hdata.descResource hr hfits hle) h
      refine ⟨⟨fun r' hr' => ?_, hfits'⟩, hdata'⟩
      cases hr.symm.trans hr'
      exact hfits

/-- Only the resource that is found changes, whatever the amounts. -/
theorem owned_sub_found_descResources {resources : List Int32} (h : data.descResources resources = some data')
    (type : UInt8) : data'.owned type - data'.found type = data.owned type - data.found type := by
  induction data, resources using descResources.induct with
  | case1 data =>
      cases h
      rfl
  | case2 data _ => cases h
  | case3 data t num resources ih =>
      rw [ih h]
      cases hr : data.findResource t.toUInt32.toUInt8 with
      | none =>
          have hsame : data.descResource t.toUInt32.toUInt8 num = data := by
            unfold findResource at hr
            unfold descResource
            rw [modifyFirst_of_none hr]
          rw [hsame]
      | some r =>
          have howned : (data.descResource t.toUInt32.toUInt8 num).owned type = _ :=
            owned_modifyFirst (f := fun r => { r with resourceNum := r.resourceNum - num }) (fun _ => rfl) hr type
          unfold found
          rw [howned, findResource_descResource]
          by_cases ht : t.toUInt32.toUInt8 = type
          · subst ht
            rw [if_pos rfl, if_pos rfl, if_pos rfl, hr, Option.map_some, Option.map_some, Option.map_some,
              Option.getD_some, Option.getD_some]
            omega
          · rw [if_neg ht, if_neg ht, if_neg ht]
            omega

end RoleInfo

/-- No list of costs of the tables has a negative amount. -/
structure Config.CostsNonneg (cfg : Config) : Prop where
  building : ∀ type resources, cfg.building type = some resources → ∀ num ∈ RoleInfo.costAmounts resources, 0 ≤ num.toInt
  buildingUpgrade : ∀ level row type resources, cfg.buildingUpgrade level = some row →
    row.upgradeNeedMoney type = some resources → ∀ num ∈ RoleInfo.costAmounts resources, 0 ≤ num.toInt

/-! ## One command -/

namespace GameCommand

open RoleInfo

variable {cfg : Config} {now : UInt32} {data data' : RoleInfo} {cmd : GameCommand}

/-- What `build_building` and `up_building_level` do to the resources. -/
theorem onSuccess_resources (hcmd : ∀ index, cmd ≠ .incomeResource index)
    (hcheck : cmd.check cfg now data = some .success) (h : cmd.onSuccess cfg now data = some data') :
    ∃ data₁, data.descResources (cmd.costs cfg data) = some data₁ ∧ data'.resources = data₁.resources := by
  cases cmd with
  | incomeResource index => exact absurd rfl (hcmd index)
  | buildBuilding index type =>
      obtain ⟨resources, hresources, _⟩ := buildBuilding_of_success hcheck
      change data.onBuildBuildingSuccess cfg now index type = some data' at h
      rw [onBuildBuildingSuccess, hresources, Option.bind_some] at h
      obtain ⟨data₁, hdesc, rfl⟩ := Option.map_eq_some_iff.mp h
      rw [costs_buildBuilding hresources]
      exact ⟨data₁, hdesc, rfl⟩
  | upBuildingLevel index =>
      obtain ⟨b, row, resources, hb, hrow, hresources, _⟩ := upBuildingLevel_of_success hcheck
      change data.onUpBuildingLevelSuccess cfg now index = some data' at h
      rw [onUpBuildingLevelSuccess, hb, Option.bind_some, hrow, Option.bind_some, hresources, Option.bind_some] at h
      obtain ⟨data₁, hdesc, rfl⟩ := Option.map_eq_some_iff.mp h
      rw [costs_upBuildingLevel hb hrow hresources]
      exact ⟨data₁, hdesc, rfl⟩

theorem costAmounts_costs (hcfg : cfg.CostsNonneg) (hcheck : cmd.check cfg now data = some .success) :
    ∀ num ∈ costAmounts (cmd.costs cfg data), 0 ≤ num.toInt := by
  cases cmd with
  | incomeResource index => exact fun _ h => nomatch h
  | buildBuilding index type =>
      obtain ⟨resources, hresources, _⟩ := buildBuilding_of_success hcheck
      rw [costs_buildBuilding hresources]
      exact hcfg.building type resources hresources
  | upBuildingLevel index =>
      obtain ⟨b, row, resources, hb, hrow, hresources, _⟩ := upBuildingLevel_of_success hcheck
      rw [costs_upBuildingLevel hb hrow hresources]
      exact hcfg.buildingUpgrade _ row _ resources hrow hresources

/-- **One command that succeeds** takes its whole list and leaves nothing negative, exactly when of each type the list
    takes no more than is found. -/
theorem nonneg_onSuccess_iff (hcfg : cfg.CostsNonneg) (hcmd : ∀ index, cmd ≠ .incomeResource index)
    (hcheck : cmd.check cfg now data = some .success) (hdata : Nonneg data)
    (h : cmd.onSuccess cfg now data = some data') :
    (Nonneg data' ∧ ∀ type, data'.owned type = data.owned type - cost type (cmd.costs cfg data)) ↔
      ∀ type, cost type (cmd.costs cfg data) ≤ data.found type := by
  obtain ⟨data₁, hdesc, hresources⟩ := onSuccess_resources hcmd hcheck h
  have hknown := known_of_checkResources (checkResources_costs hcheck)
  have howned : ∀ type, data'.owned type = data₁.owned type := by
    intro type
    unfold owned
    rw [hresources]
  have hnonneg : Nonneg data' ↔ Nonneg data₁ := by
    unfold Nonneg
    rw [hresources]
  simp only [howned, hnonneg]
  constructor
  · rintro ⟨hdata₁, htaken⟩ type
    have hothers := owned_sub_found_descResources hdesc type
    have hfound := hdata₁.found type
    have := htaken type
    omega
  · intro hcovered
    obtain ⟨hfits, hdata₁⟩ := descResources_covered hknown (costAmounts_costs hcfg hcheck) hcovered hdata hdesc
    exact ⟨hdata₁, owned_descResources hknown hfits hdesc⟩

end GameCommand

/-! ## A run -/

namespace Ledger

open RoleInfo RoleEvent

/-- Nothing is negative, and of each type there is what there was without what was spent. -/
def Solvent (start : RoleInfo) (s : Ledger) : Prop :=
  Nonneg s.data ∧ ∀ type, s.data.owned type = start.owned type - s.spent type

/-- If the command succeeds, the role has what the whole list takes of each type. -/
def Covered (cfg : Config) (s : Ledger) (l : UInt32 × GameCommand) : Prop :=
  l.2.check cfg l.1 s.data = some .success → ∀ type, cost type (l.2.costs cfg s.data) ≤ s.data.found type

variable {cfg : Config} {start : RoleInfo} {s : Ledger} {l : UInt32 × GameCommand}

/-- **One step.** -/
theorem step_solvent_iff (haccepted : cfg.Accepted) (hcfg : cfg.CostsNonneg) (hcmd : ∀ index, l.2 ≠ .incomeResource index)
    (hgood : Solvent start s) : (∃ s', step cfg s l = some s' ∧ Solvent start s') ↔ Covered cfg s l := by
  obtain ⟨now, cmd⟩ := l
  have hguarded : cmd.Guarded cfg s.data := by
    cases cmd with
    | incomeResource index => exact absurd rfl (hcmd index)
    | buildBuilding | upBuildingLevel => trivial
  have hisSome : (cmd.apply cfg now s.data).isSome := (GameCommand.apply_isSome_iff haccepted).mpr hguarded
  obtain ⟨data, happly⟩ := Option.isSome_iff_exists.mp hisSome
  have hstep : step cfg s (now, cmd) = some (s.after cfg (now, cmd) data) := by
    rw [step, happly, Option.map_some]
  rw [hstep]
  simp only [Option.some.injEq, exists_eq_left', Covered]
  have howned : (∀ type, data.owned type = start.owned type - (s.spent type + cmd.spends cfg now s.data type)) ↔
      ∀ type, data.owned type = s.data.owned type - cmd.spends cfg now s.data type := by
    refine forall_congr' fun type => ?_
    have := hgood.2 type
    omega
  have hsolvent : Solvent start (s.after cfg (now, cmd) data) ↔
      Nonneg data ∧ ∀ type, data.owned type = s.data.owned type - cmd.spends cfg now s.data type :=
    and_congr Iff.rfl howned
  rw [hsolvent]
  by_cases hcheck : cmd.check cfg now s.data = some .success
  · rw [GameCommand.apply_of_success hcheck] at happly
    simp only [GameCommand.spends, hcheck, if_true, true_implies]
    exact GameCommand.nonneg_onSuccess_iff hcfg hcmd hcheck hgood.1 happly
  · have hdata := GameCommand.apply_of_refused happly hcheck
    refine iff_of_true ?_ fun h => absurd h hcheck
    simp only [GameCommand.spends, if_neg hcheck, hdata, Int.sub_zero, implies_true, and_true]
    exact hgood.1

/-- In no run of `build_building` and `up_building_level` does an amount become negative, or a command take a part of its
    list only, exactly when every command that succeeds is covered. -/
theorem solvent_iff {intValue : List UInt8 → Int32} {files : ConfigFiles} (hload : Config.load intValue files = some cfg)
    (hcfg : cfg.CostsNonneg) {data : RoleInfo} (hdata : Nonneg data) (now : UInt32)
    {labels : List (UInt32 × GameCommand)} (hlabels : ∀ l ∈ labels, ∀ index, l.2 ≠ .incomeResource index) :
    (∃ s, run (step cfg) { data := data, now := now } labels = some s ∧
        ∀ pre, pre <+: labels → ∀ s₁, run (step cfg) { data := data, now := now } pre = some s₁ → Solvent data s₁) ↔
      Along (step cfg) (Covered cfg) { data := data, now := now } labels := by
  have hcommands := (along_true (step cfg) { data := data, now := now } labels).and_labels hlabels
  refine total_good_iff_along_of (I := fun _ => True) (fun _ _ _ => trivial)
    (fun _ hgood hcmd => step_solvent_iff (Config.load_accepted hload) hcfg hcmd.2 hgood) trivial ?_ hcommands
  exact ⟨hdata, fun type => (Int.sub_zero _).symm⟩

/-- A row of `building.xml`: buildings of type 1 cost what the text says. -/
def priceRow (price : List UInt8) : ConfigRow
  | .buildingId      => some (ascii "1")
  | .unlockNeedMoney => some price
  | _                => none

def priceFiles (price : List UInt8) : ConfigFiles := ⟨[], [priceRow price], []⟩

def priceConfig (resources : List Int32) : Config where
  building := Function.update (fun _ => none) 1 (some resources)
  buildingUpgrade := fun _ => none
  common := none

theorem load_priceFiles {price : List UInt8} {resources : List Int32}
    (h : loadPairs (priceRow price) .unlockNeedMoney = some resources) :
    Config.load fromString (priceFiles price) = some (priceConfig resources) := by
  have hkey : loadFieldInt fromString (priceRow price) .buildingId = some 1 := by
    show some (fromString (ascii "1")) = _
    decide +kernel
  unfold Config.load priceFiles loadTable readBuilding
  rw [hkey, Option.bind_some, h]
  rfl

theorem costsNonneg_priceConfig {resources : List Int32} (h : ∀ num ∈ costAmounts resources, 0 ≤ num.toInt) :
    (priceConfig resources).CostsNonneg := by
  refine ⟨fun type resources' hresources => ?_, fun _ _ _ _ hrow => nomatch hrow⟩
  change Function.update (fun _ => none) 1 (some resources) type = some resources' at hresources
  by_cases ht : type = 1
  · subst ht
    rw [Function.update_self] at hresources
    cases hresources
    exact h
  · rw [Function.update_of_ne ht] at hresources
    cases hresources

theorem solvent_iff_price :
    (∃ s, run (step (priceConfig [1, 10])) { data := { resources := [⟨1, 15⟩] }, now := 50 }
          [(100, .buildBuilding 3 1)] = some s ∧
        ∀ pre, pre <+: [(100, .buildBuilding 3 1)] → ∀ s₁,
          run (step (priceConfig [1, 10])) { data := { resources := [⟨1, 15⟩] }, now := 50 } pre = some s₁ →
            Solvent { resources := [⟨1, 15⟩] } s₁) ↔
      Along (step (priceConfig [1, 10])) (Covered (priceConfig [1, 10]))
        { data := { resources := [⟨1, 15⟩] }, now := 50 } [(100, .buildBuilding 3 1)] := by
  refine solvent_iff (@load_priceFiles (ascii "1;10") [1, 10] (by decide +kernel))
    (costsNonneg_priceConfig (forall_of_all (by decide))) ?_ 50 ?_
  · intro r hr
    cases List.mem_singleton.mp hr
    decide
  · intro l hl index heq
    rw [List.mem_singleton.mp hl] at heq
    cases heq

/-- The list names a resource twice: the role has what each pair takes, but not what both take. -/
theorem paid_twice : ¬ ∀ files cfg data now labels, Config.load fromString files = some cfg → cfg.CostsNonneg →
    Nonneg data → (∀ l ∈ labels, ∀ index, l.2 ≠ GameCommand.incomeResource index) →
    ∃ s, run (step cfg) { data := data, now := now } labels = some s ∧
      ∀ pre, pre <+: labels → ∀ s₁, run (step cfg) { data := data, now := now } pre = some s₁ → Solvent data s₁ := by
  intro h
  let data : RoleInfo := { resources := [⟨1, 15⟩] }
  let labels : List (UInt32 × GameCommand) := [(100, .buildBuilding 3 1)]
  have hload : Config.load fromString (priceFiles (ascii "1;10;1;10")) = some (priceConfig [1, 10, 1, 10]) :=
    load_priceFiles (by decide +kernel)
  have hdata : Nonneg data := by
    intro r hr
    cases List.mem_singleton.mp hr
    decide
  have hlabels : ∀ l ∈ labels, ∀ index, l.2 ≠ GameCommand.incomeResource index := by
    intro l hl index heq
    rw [List.mem_singleton.mp hl] at heq
    cases heq
  obtain ⟨s, hrun, hall⟩ := h _ _ data 50 labels hload (costsNonneg_priceConfig (forall_of_all (by decide))) hdata hlabels
  have hresources : ((run (step (priceConfig [1, 10, 1, 10])) { data := data, now := 50 } labels).map
      fun s => s.data.resources) = some [⟨1, -5⟩] := by decide +kernel
  rw [hrun] at hresources
  have hleft : s.data.resources = [⟨1, -5⟩] := Option.some.inj hresources
  have hnonneg := (hall labels (List.prefix_refl _) s hrun).1
  rw [Nonneg, hleft] at hnonneg
  exact absurd (hnonneg ⟨1, -5⟩ List.mem_cons_self) (by decide)

end Ledger

end Mowang
