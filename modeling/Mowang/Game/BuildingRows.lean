import Mowang.Game.ConfigTables
import Mowang.Game.Login

/-!
# `Game.BuildingRows` — the configuration rows that the commands of a role look up

A role begins with `create_role` or from a stored row, and each command looks up rows by the level or the type of a
building. `build_building` and `up_building_level` ask whether the row is there, `income_resource` does not. A stored
building of a new role has level 0.

## Contents
- `checkResources_isSome`, `descResources_isSome` — lists that the loaders accept are read to their end.
- `GameCommand.HasRow`, `Guarded`, `apply_isSome_iff`, `refused_of_no_row`.
- `RoleEvent`, `RoleEvent.step` — the life of the role of a client.
- `rows_iff`, and `level_two`.
-/

namespace Mowang

namespace RoleInfo

/-! ## Lists of costs -/

theorem checkResources_isSome (data : RoleInfo) {resources : List Int32} (h : resources.length % 2 = 0) :
    (data.checkResources resources).isSome := by
  induction resources using checkResources.induct data with
  | case1 => rfl
  | case2 => cases h
  | case3 type num resources hcheck ih =>
      unfold checkResources
      rw [if_pos hcheck]
      apply ih
      rw [List.length_cons, List.length_cons] at h
      omega
  | case4 type num resources hcheck =>
      unfold checkResources
      rw [if_neg hcheck]
      rfl

theorem descResources_isSome (data : RoleInfo) {resources : List Int32} (h : resources.length % 2 = 0) :
    (data.descResources resources).isSome := by
  induction data, resources using descResources.induct with
  | case1 => rfl
  | case2 => cases h
  | case3 data type num resources ih =>
      apply ih
      rw [List.length_cons, List.length_cons] at h
      omega

end RoleInfo

/-! ## One command -/

namespace GameCommand

open RoleInfo

/-- The building that the command names and the row that it looks up for it are there. -/
def HasRow (cfg : Config) (data : RoleInfo) : GameCommand → Prop
  | .incomeResource index  => ∃ b row, data.findBuilding index = some b ∧ cfg.buildingUpgrade b.buildingLevel = some row ∧
      (row.incomeInterval b.buildingType).isSome
  | .buildBuilding _ type  => (cfg.building type).isSome
  | .upBuildingLevel index => ∃ b row, data.findBuilding index = some b ∧ cfg.buildingUpgrade b.buildingLevel = some row ∧
      (row.upgradeNeedMoney b.buildingType).isSome

/-- A building whose resources are collected has a level of the table. -/
def Guarded (cfg : Config) (data : RoleInfo) : GameCommand → Prop
  | .incomeResource index => ∀ b, data.findBuilding index = some b → (cfg.buildingUpgrade b.buildingLevel).isSome
  | _                     => True

/-- The command is answered with an error and changes nothing. -/
def Refused (cfg : Config) (now : UInt32) (data : RoleInfo) (cmd : GameCommand) : Prop :=
  ∃ code, cmd.check cfg now data = some code ∧ code ≠ .success ∧ cmd.apply cfg now data = some data

variable {cfg : Config} {now : UInt32} {data : RoleInfo} {cmd : GameCommand}

theorem apply_of_code {code : ErrorCode} (hcode : code ≠ .success) (h : cmd.check cfg now data = some code) :
    cmd.apply cfg now data = some data := by
  unfold apply
  rw [h, Option.bind_some, if_neg hcode]

/-- The check reads no missing row. -/
theorem check_isSome_iff (hcfg : cfg.Accepted) : (cmd.check cfg now data).isSome ↔ Guarded cfg data cmd := by
  cases cmd with
  | incomeResource index =>
      show (data.checkIncomeResource cfg now index).isSome ↔ ∀ b, data.findBuilding index = some b → _
      unfold checkIncomeResource
      split
      next h => exact iff_of_true rfl fun b hb => by cases h.symm.trans hb
      next b h =>
        rw [Option.isSome_map]
        constructor
        · intro hrow b' hb'
          cases h.symm.trans hb'
          exact hrow
        · exact fun hrow => hrow b h
  | buildBuilding index type =>
      refine iff_of_true ?_ trivial
      show (data.checkBuildBuilding cfg index type).isSome
      unfold checkBuildBuilding
      split
      · rfl
      next resources hresources =>
        split
        · rfl
        · rw [Option.isSome_map]
          exact checkResources_isSome data (hcfg.building type resources hresources)
  | upBuildingLevel index =>
      refine iff_of_true ?_ trivial
      show (data.checkUpBuildingLevel cfg index).isSome
      unfold checkUpBuildingLevel
      split
      · rfl
      split
      · rfl
      next row hrow =>
        split
        · rfl
        next resources hresources =>
          rw [Option.isSome_map]
          exact checkResources_isSome data ((hcfg.buildingUpgrade _ row hrow).upgradeNeedMoney _ resources hresources)

/-- A check of costs that passed. -/
theorem checkResources_of_map {resources : List Int32} {code : ErrorCode} (hcode : code ≠ .success)
    (h : ((data.checkResources resources).map fun covered => if covered then .success else code) = some .success) :
    data.checkResources resources = some true := by
  obtain ⟨covered, hcovered, h⟩ := Option.map_eq_some_iff.mp h
  cases covered with
  | true => exact hcovered
  | false => exact absurd h hcode

theorem buildBuilding_of_success {index type : UInt16} (h : data.checkBuildBuilding cfg index type = some .success) :
    ∃ resources, cfg.building type = some resources ∧ data.checkResources resources = some true := by
  unfold checkBuildBuilding at h
  split at h
  · cases h
  next resources hresources =>
    split at h
    · cases h
    · exact ⟨resources, hresources, checkResources_of_map (by decide) h⟩

theorem upBuildingLevel_of_success {index : UInt16} (h : data.checkUpBuildingLevel cfg index = some .success) :
    ∃ b row resources, data.findBuilding index = some b ∧ cfg.buildingUpgrade b.buildingLevel = some row ∧
      row.upgradeNeedMoney b.buildingType = some resources ∧ data.checkResources resources = some true := by
  unfold checkUpBuildingLevel at h
  split at h
  · cases h
  next b hb =>
    split at h
    · cases h
    next row hrow =>
      split at h
      · cases h
      next resources hresources =>
        exact ⟨b, row, resources, hb, hrow, hresources, checkResources_of_map (by decide) h⟩

/-- A check that passed has found the row. -/
theorem hasRow_of_success (h : cmd.check cfg now data = some .success) : HasRow cfg data cmd := by
  cases cmd with
  | incomeResource index =>
      change data.checkIncomeResource cfg now index = _ at h
      unfold checkIncomeResource at h
      split at h
      · cases h
      next b hb =>
        obtain ⟨row, hrow, h⟩ := Option.map_eq_some_iff.mp h
        refine ⟨b, row, hb, hrow, ?_⟩
        cases hinterval : row.incomeInterval b.buildingType with
        | none =>
            rw [hinterval] at h
            cases h
        | some interval => rfl
  | buildBuilding index type =>
      obtain ⟨resources, hresources, -⟩ := buildBuilding_of_success h
      exact Option.isSome_of_eq_some hresources
  | upBuildingLevel index =>
      obtain ⟨b, row, resources, hb, hrow, hresources, -⟩ := upBuildingLevel_of_success h
      exact ⟨b, row, hb, hrow, Option.isSome_of_eq_some hresources⟩

/-- What follows a check that passed reads the same rows. -/
theorem onSuccess_isSome (hcfg : cfg.Accepted) (h : HasRow cfg data cmd) : (cmd.onSuccess cfg now data).isSome := by
  cases cmd with
  | incomeResource index => rfl
  | buildBuilding index type =>
      obtain ⟨resources, hresources⟩ := Option.isSome_iff_exists.mp h
      show (data.onBuildBuildingSuccess cfg now index type).isSome
      rw [onBuildBuildingSuccess, hresources, Option.bind_some, Option.isSome_map]
      exact descResources_isSome data (hcfg.building type resources hresources)
  | upBuildingLevel index =>
      obtain ⟨b, row, hb, hrow, h⟩ := h
      obtain ⟨resources, hresources⟩ := Option.isSome_iff_exists.mp h
      show (data.onUpBuildingLevelSuccess cfg now index).isSome
      rw [onUpBuildingLevelSuccess, hb, Option.bind_some, hrow, Option.bind_some, hresources, Option.bind_some,
        Option.isSome_map]
      exact descResources_isSome data ((hcfg.buildingUpgrade _ row hrow).upgradeNeedMoney _ resources hresources)

/-- **One command** follows no null row and reads no list past its end exactly when it is guarded. -/
theorem apply_isSome_iff (hcfg : cfg.Accepted) : (cmd.apply cfg now data).isSome ↔ Guarded cfg data cmd := by
  have hchecked : (cmd.check cfg now data).isSome ↔ _ := check_isSome_iff hcfg
  rw [← hchecked]
  cases hcheck : cmd.check cfg now data with
  | none =>
      unfold apply
      rw [hcheck]
      rfl
  | some code =>
      refine iff_of_true ?_ rfl
      by_cases hcode : code = .success
      · subst hcode
        unfold apply
        rw [hcheck, Option.bind_some, if_pos rfl]
        exact onSuccess_isSome hcfg (hasRow_of_success hcheck)
      · rw [apply_of_code hcode hcheck]
        rfl

/-- A command without a row is refused. -/
theorem refused_of_no_row (hcfg : cfg.Accepted) (hguarded : Guarded cfg data cmd) (hrow : ¬ HasRow cfg data cmd) :
    Refused cfg now data cmd := by
  have hchecked : (cmd.check cfg now data).isSome := (check_isSome_iff hcfg).mpr hguarded
  obtain ⟨code, hcode⟩ := Option.isSome_iff_exists.mp hchecked
  have hne : code ≠ .success := by
    rintro rfl
    exact hrow (hasRow_of_success hcode)
  exact ⟨code, hcode, hne, apply_of_code hne hcode⟩

end GameCommand

/-! ## The life of a role -/

/-- What happens to the role of a client: it is created or loaded, and then gets commands. -/
inductive RoleEvent
  | create (accountId roleId : Nat) (sex : UInt8) (roleName : List UInt8)
  | load (accountId roleId : Nat) (row : RoleRow)
  | command (now : UInt32) (cmd : GameCommand)

namespace RoleEvent

/-- The data that the callback of `create_role` makes. -/
def created (cfg : Config) (accountId roleId : Nat) (sex : UInt8) (roleName : List UInt8) : Option RoleInfo :=
  (cfg.common.bind Account.firstResources).map fun resources =>
    { accountId := accountId, roleId := roleId, level := 1, sex := sex, roleName := roleName, resources := resources }

/-- The data that `on_load_role_callback` makes of a row. -/
def loaded (accountId roleId : Nat) (row : RoleRow) : RoleInfo :=
  { accountId := accountId, roleId := roleId, sex := row.sex, level := row.level, roleName := row.roleName
    buildings := row.buildings, resources := row.resources }

/-- A command of a client without a role finds no function. -/
def step (cfg : Config) (role : Option RoleInfo) : RoleEvent → Option (Option RoleInfo)
  | .create accountId roleId sex roleName => (created cfg accountId roleId sex roleName).map some
  | .load accountId roleId row            => some (some (loaded accountId roleId row))
  | .command now cmd                      =>
    match role with
    | none      => some none
    | some data => (cmd.apply cfg now data).map some

/-- The callbacks of the login hand this data on. -/
theorem onInsertRole_eq (cfg : Config) (g : Game) (this : Mailbox) (a : Account) :
    Account.onInsertRole cfg g this a true =
      (created cfg a.accountId a.roleId a.sex a.roleName).map (Account.onLoginSuccess g this a) := by
  unfold Account.onInsertRole created
  rw [if_pos rfl, Option.map_map]
  rfl

theorem onLoadRoleCallback_eq (g : Game) (this : Mailbox) {a : Account} (row : RoleRow) (ha : a.destroyed = false) :
    Account.onLoadRoleCallback g this a true (some row) =
      Account.onLoginSuccess g this a (loaded a.accountId a.roleId row) := by
  unfold Account.onLoadRoleCallback
  rw [ha]
  rfl

/-- A role is created with a row of the common table that holds pairs, and a command is guarded. -/
def Guarded (cfg : Config) (role : Option RoleInfo) : RoleEvent → Prop
  | .create ..     => ∃ common, cfg.common = some common ∧ common.length % 2 = 0
  | .load ..       => True
  | .command _ cmd => ∀ data, role = some data → cmd.Guarded cfg data

/-- A command without a row is refused. -/
def Answered (cfg : Config) (role : Option RoleInfo) : RoleEvent → Prop
  | .command now cmd => ∀ data, role = some data → ¬ cmd.HasRow cfg data → cmd.Refused cfg now data
  | _                => True

theorem firstResources_isSome_iff (resources : List Int32) :
    (Account.firstResources resources).isSome ↔ resources.length % 2 = 0 := by
  induction resources using Account.firstResources.induct with
  | case1 => exact iff_of_true rfl rfl
  | case2 num => exact iff_of_false (fun h => nomatch h) Nat.one_ne_zero
  | case3 type num rest ih =>
      unfold Account.firstResources
      rw [Option.isSome_map, ih, List.length_cons, List.length_cons]
      omega

variable {cfg : Config} {role : Option RoleInfo} {event : RoleEvent}

/-- **One step.** -/
theorem step_isSome_iff (hcfg : cfg.Accepted) :
    (∃ role', step cfg role event = some role') ↔ Guarded cfg role event := by
  rw [← Option.isSome_iff_exists]
  cases event with
  | create accountId roleId sex roleName =>
      simp only [step, created, Option.isSome_map]
      show _ ↔ ∃ common, cfg.common = some common ∧ _
      cases cfg.common with
      | none => exact iff_of_false (fun h => nomatch h) fun ⟨_, h, _⟩ => nomatch h
      | some common =>
          rw [Option.bind_some, firstResources_isSome_iff]
          constructor
          · exact fun h => ⟨common, rfl, h⟩
          · rintro ⟨_, hcommon, h⟩
            cases hcommon
            exact h
  | load accountId roleId row => exact iff_of_true rfl trivial
  | command now cmd =>
      cases role with
      | none => exact iff_of_true rfl fun _ h => nomatch h
      | some data =>
          have hiff : (cmd.apply cfg now data).isSome ↔ _ := GameCommand.apply_isSome_iff hcfg
          simp only [step, Option.isSome_map, hiff]
          constructor
          · intro h data' hdata
            cases hdata
            exact h
          · exact fun h => h data rfl

theorem answered_of_guarded (hcfg : cfg.Accepted) (h : Guarded cfg role event) : Answered cfg role event := by
  cases event with
  | create | load => trivial
  | command now cmd => exact fun data hdata hrow => GameCommand.refused_of_no_row hcfg (h data hdata) hrow

/-- In no order of events is a missing row followed or a list read past its end, and every command without a row is
    refused, exactly when all events are guarded. -/
theorem rows_iff {intValue : List UInt8 → Int32} {files : ConfigFiles} (hload : Config.load intValue files = some cfg)
    (events : List RoleEvent) :
    ((∃ role, run (step cfg) none events = some role) ∧ Along (step cfg) (Answered cfg) none events) ↔
      Along (step cfg) (Guarded cfg) none events := by
  have hcfg := Config.load_accepted hload
  constructor
  · rintro ⟨⟨role, hrun⟩, _⟩
    have hnever : ∀ {role role' : Option RoleInfo} {event : RoleEvent}, True → ¬ Guarded cfg role event →
        step cfg role event = some role' → False := fun _ hnot h => hnot ((step_isSome_iff hcfg).mp ⟨_, h⟩)
    exact along_of_not_bad (fun _ _ _ => trivial) hnever (fun h _ => h) trivial hrun not_false
  · intro halong
    obtain ⟨role, hrun, _⟩ := runs_along (I := fun _ => True)
      (fun _ h => ((step_isSome_iff hcfg).mpr h).imp fun _ h => ⟨h, trivial⟩) trivial halong
    refine ⟨⟨role, hrun⟩, ?_⟩
    exact Along.mono (I := fun _ => True) (fun _ _ => trivial) (fun _ h => answered_of_guarded hcfg h) trivial halong

/-- A row of `building_upgrade.xml` of level 1: buildings of type 1 cost 10 of resource 1 and make 2 in a second. -/
def levelOne : ConfigRow
  | .buildingLevel      => some (ascii "1")
  | .buildingIdAt 1     => some (ascii "1")
  | .upgradeNeedMoney 1 => some (ascii "1;10")
  | .productionUnit 1   => some (ascii "2")
  | .incomeInterval 1   => some (ascii "60")
  | _                   => none

def levelOneFiles : ConfigFiles where
  common := [fun | .id => some (ascii "1") | .value => some (ascii "1,100") | _ => none]
  building := [fun | .buildingId => some (ascii "1") | .unlockNeedMoney => some (ascii "1;10") | _ => none]
  buildingUpgrade := [levelOne]

theorem levelOne_loaded : ∃ cfg, Config.load fromString levelOneFiles = some cfg ∧ cfg.building 1 = some [1, 10] ∧
    RoleInfo.getResourceSpeed cfg 1 1 = ⟨1, 2⟩ := by
  have hrows : ((Config.load fromString levelOneFiles).map fun cfg =>
      (cfg.building 1, RoleInfo.getResourceSpeed cfg 1 1)) = some (some [1, 10], ⟨1, 2⟩) := by decide +kernel
  obtain ⟨cfg, hload, hcfg⟩ := Option.map_eq_some_iff.mp hrows
  exact ⟨cfg, hload, congrArg Prod.fst hcfg, congrArg Prod.snd hcfg⟩

/-- A role is created, builds, and upgrades what it has built to a level that has no row. -/
def upgraded : List RoleEvent :=
  [.create 1 1 0 (ascii "A"), .command 100 (.buildBuilding 3 1), .command 200 (.upBuildingLevel 3)]

theorem rows_iff_levelOne : ∃ cfg, Config.load fromString levelOneFiles = some cfg ∧
    (((∃ role, run (step cfg) none upgraded = some role) ∧ Along (step cfg) (Answered cfg) none upgraded) ↔
      Along (step cfg) (Guarded cfg) none upgraded) := by
  obtain ⟨cfg, hload, _⟩ := levelOne_loaded
  exact ⟨cfg, hload, rows_iff hload _⟩

/-- Then its client collects from the building. -/
theorem level_two : ¬ ∀ files cfg events, Config.load fromString files = some cfg →
    (∃ role, run (step cfg) none events = some role) ∧ Along (step cfg) (Answered cfg) none events := by
  intro h
  have hrun : ((Config.load fromString levelOneFiles).map fun cfg =>
      (run (step cfg) none (upgraded ++ [.command 300 (.incomeResource 3)])).isNone) = some true := by
    decide +kernel
  obtain ⟨cfg, hload, hnone⟩ := Option.map_eq_some_iff.mp hrun
  obtain ⟨⟨role, hrole⟩, _⟩ := h _ _ _ hload
  rw [hrole] at hnone
  cases hnone

end RoleEvent

end Mowang
