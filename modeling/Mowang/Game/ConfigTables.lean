import Mowang.Game.RoleData
import Mowang.Share.StringParse
import Mathlib.Logic.Function.Basic

/-!
# `Game.ConfigTables` — the tables that the loaders accept

Each loader reads the rows of an XML file into a table: `read_row` collects the names of the fields it cannot read, and
the row is added only if there are none and its key is new. What `Attribute` stores for a text that has to be a number
is the XML library's, and a parameter here.

`none` is a load that is refused, and also one that ends in a crash: the text of a missing list is a null pointer.

## Contents
- `stringParse`, `fromString` — the lists in a text, and `numbers_eq`, the same as `string_parse` takes from it.
- `ConfigRow`, `readBuilding`, `readBuildingUpgrade`, `readCommon`, `loadTable`, `Config.load`.
- `Config.Accepted`, and `load_accepted`.
-/

namespace Mowang

/-! ## Lists in a text -/

/-- The fields of a text. -/
def stringParse (s : List UInt8) (split : UInt8) : List (List UInt8) := tokens (fun c => c == split) s

/-- `from_string<TResourceNum_t>::convert`; it leaves 0 where it fails. -/
def fromString (s : List UInt8) : Int32 :=
  if s.contains 45 then 0
  else
    let v := strtoll s
    if v > 4294967295 then 0 else (UInt32.ofNat v.toNat).toInt32

theorem scanNumber_fst {s : List UInt8} (h : 45 ∉ s) : (scanNumber s).1 = false := by
  apply decide_eq_false
  intro hhead
  exact h ((List.dropWhile_sublist _).subset (List.mem_of_mem_head? hhead))

theorem fromLong_eq_toInt {s : List UInt8} (hs : NulFree s) {limit : Nat} (hlimit : 4294967295 ≤ limit) :
    (StringParse.fromLong .sint32 limit s).2 = (fromString s).toInt := by
  have hcast : ∀ v : Int, StringParse.IntType.cast .sint32 v = v.bmod 4294967296 := by
    intro v
    rw [StringParse.IntType.cast, if_pos (by decide : StringParse.IntType.signed .sint32 = true),
      show 2 ^ StringParse.IntType.bits .sint32 = 4294967296 from by decide]
  symm
  rw [fromString, StringParse.fromLong]
  split
  · rfl
  · rename_i hminus
    have hsign := scanNumber_fst (by simpa using hminus)
    rw [cstr_eq_self hs, strtoll]
    rcases hscan : scanNumber s with ⟨negative, digits, rest⟩
    rw [hscan] at hsign
    obtain rfl : negative = false := hsign
    simp only [Bool.false_eq_true, if_false]
    by_cases hdigits : digits = []
    · rw [if_pos (Or.inr (Or.inr hdigits)), hdigits]
      rfl
    · by_cases hmax : 4294967295 < digitsValue digits
      · rw [if_pos (Or.inr (Or.inl hmax)), if_pos (by simp; omega)]
        rfl
      · have hv : max (-2 ^ 63) (min (2 ^ 63 - 1) (digitsValue digits : Int)) = digitsValue digits := by omega
        rw [hv, if_neg (by omega), if_neg (by simp only [hdigits, or_false]; omega), Int.toNat_natCast]
        rw [UInt32.toInt32_ofNat', Int32.toInt_ofNat', hcast]

/-- The numbers are those that `string_parse` takes from the fields. -/
theorem numbers_eq (s : List UInt8) (split : UInt8) (hs : NulFree s) (hsplit : split ≠ 0) :
    StringParse.numbers .sint32 [split] s = (stringParse s split).map fun field => (fromString field).toInt := by
  have hfields : StringParse.fields s [split] = stringParse s split := by
    rw [StringParse.fields, cstr_eq_self hs, cstr_eq_self fun h => hsplit (List.mem_singleton.mp h).symm, stringParse]
    congr 1
    funext c
    rw [List.contains_cons, List.contains_nil, Bool.or_false]
  rw [StringParse.numbers, hfields]
  refine List.map_congr_left fun field hfield => fromLong_eq_toInt (fun hzero => ?_) (by decide)
  exact hs (((mem_tokens hfield).2 0 hzero).2)

/-! ## Rows -/

/-- The attributes that the loaders ask for. -/
inductive FieldName
  | id
  | value
  | buildingId
  | unlockNeedMoney
  | buildingLevel
  /-- `building_id%d` and so on, with the number. -/
  | buildingIdAt (i : Nat)
  | upgradeNeedMoney (i : Nat)
  | productionUnit (i : Nat)
  | incomeInterval (i : Nat)

/-- What `Attribute` returns. -/
abbrev ConfigRow := FieldName → Option (List UInt8)

section Rows

-- The number that `Attribute` stores for a text.
variable (intValue : List UInt8 → Int32)

def loadFieldInt (row : ConfigRow) (name : FieldName) : Option Int32 := (row name).map intValue

def loadFieldAry (row : ConfigRow) (name : FieldName) (split : UInt8) : Option (List Int32) :=
  (row name).bind fun s =>
  let value := (stringParse s split).map fromString
  if value.isEmpty then none else some value

/-- A list with an element left over is refused. -/
def loadPairs (row : ConfigRow) (name : FieldName) : Option (List Int32) :=
  (loadFieldAry row name 59).bind fun value => if value.length % 2 > 0 then none else some value

/-- `tbl_building_loader::read_row`. -/
def readBuilding (row : ConfigRow) : Option (UInt16 × List Int32) :=
  (loadFieldInt intValue row .buildingId).bind fun id =>
  (loadPairs row .unlockNeedMoney).map fun unlockNeedMoney => (id.toUInt32.toUInt16, unlockNeedMoney)

/-- The loop over the building types of a row, which ends at the first number that is missing. The product is of the
    resource that the upgrade costs first. -/
def readTypes (row : ConfigRow) : Nat → Nat → BuildingUpgradeConfig → Option BuildingUpgradeConfig
  | 0, _, building        => some building
  | fuel + 1, i, building =>
    match row (.buildingIdAt i) with
    | none      => some building
    | some text =>
      let buildingType := (intValue text).toUInt32.toUInt16
      (loadPairs row (.upgradeNeedMoney i)).bind fun upgrade =>
      (loadFieldInt intValue row (.productionUnit i)).bind fun num =>
      (loadFieldInt intValue row (.incomeInterval i)).bind fun interval =>
      upgrade.head?.bind fun type =>
      readTypes row fuel (i + 1)
        { upgradeNeedMoney := Function.update building.upgradeNeedMoney buildingType (some upgrade)
          product := Function.update building.product buildingType (some [type, num])
          incomeInterval := Function.update building.incomeInterval buildingType (some interval.toUInt32) }

/-- `tbl_building_upgrade_loader::read_row`. -/
def readBuildingUpgrade (row : ConfigRow) : Option (Int16 × BuildingUpgradeConfig) :=
  (loadFieldInt intValue row .buildingLevel).bind fun level =>
  (readTypes intValue row 99 1 ⟨fun _ => none, fun _ => none, fun _ => none⟩).map fun building =>
    (level.toInt16, building)

/-- `tbl_common_loader::read_row`. -/
def readCommon (row : ConfigRow) : Option (Int32 × List Int32) :=
  (loadFieldInt intValue row .id).bind fun id => (loadFieldAry row .value 44).map fun value => (id, value)

/-! ## Tables -/

/-- `config_loader::load`; `add` refuses a key that is there. -/
def loadTable {K V : Type} [DecidableEq K] (readRow : ConfigRow → Option (K × V)) :
    List ConfigRow → (K → Option V) → Option (K → Option V)
  | [], table          => some table
  | row :: rows, table =>
    (readRow row).bind fun entry =>
    if (table entry.1).isSome then none else loadTable readRow rows (Function.update table entry.1 (some entry.2))

/-- The rows of `common.xml`, `building.xml` and `building_upgrade.xml`. -/
structure ConfigFiles where
  common : List ConfigRow
  building : List ConfigRow
  buildingUpgrade : List ConfigRow

/-- What `game_server::init` loads. -/
def Config.load (files : ConfigFiles) : Option Config :=
  (loadTable (readCommon intValue) files.common fun _ => none).bind fun common =>
  (loadTable (readBuilding intValue) files.building fun _ => none).bind fun building =>
  (loadTable (readBuildingUpgrade intValue) files.buildingUpgrade fun _ => none).map fun buildingUpgrade =>
    { building := building, buildingUpgrade := buildingUpgrade, common := common 1 }

end Rows

/-! ## What is accepted -/

/-- The costs are pairs, a product is one pair, and the three maps of a row have the same building types. -/
structure BuildingUpgradeConfig.Accepted (row : BuildingUpgradeConfig) : Prop where
  upgradeNeedMoney : ∀ buildingType resources, row.upgradeNeedMoney buildingType = some resources →
    resources.length % 2 = 0
  product : ∀ buildingType resources, row.product buildingType = some resources → resources.length = 2
  types : ∀ buildingType, (row.upgradeNeedMoney buildingType).isSome = (row.product buildingType).isSome ∧
    (row.upgradeNeedMoney buildingType).isSome = (row.incomeInterval buildingType).isSome

structure Config.Accepted (cfg : Config) : Prop where
  building : ∀ buildingType resources, cfg.building buildingType = some resources → resources.length % 2 = 0
  buildingUpgrade : ∀ level row, cfg.buildingUpgrade level = some row → row.Accepted

/-- What holds of every row that is read holds of every entry of the table. -/
theorem loadTable_forall {K V : Type} [DecidableEq K] {readRow : ConfigRow → Option (K × V)} {P : V → Prop}
    (hread : ∀ row entry, readRow row = some entry → P entry.2) {rows : List ConfigRow} {table table' : K → Option V}
    (htable : ∀ k v, table k = some v → P v) (hload : loadTable readRow rows table = some table') :
    ∀ k v, table' k = some v → P v := by
  induction rows generalizing table with
  | nil =>
      cases hload
      exact htable
  | cons row rows ih =>
      obtain ⟨entry, hentry, hload⟩ := Option.bind_eq_some_iff.mp hload
      split at hload
      · cases hload
      refine ih ?_ hload
      intro k v hv
      by_cases hk : k = entry.1
      · subst hk
        rw [Function.update_self] at hv
        cases hv
        exact hread row entry hentry
      · rw [Function.update_of_ne hk] at hv
        exact htable k v hv

theorem loadPairs_even {row : ConfigRow} {name : FieldName} {resources : List Int32}
    (h : loadPairs row name = some resources) : resources.length % 2 = 0 := by
  obtain ⟨value, -, h⟩ := Option.bind_eq_some_iff.mp h
  split at h
  · cases h
  · cases h
    omega

theorem readBuilding_even {intValue : List UInt8 → Int32} (row : ConfigRow) (entry : UInt16 × List Int32)
    (h : readBuilding intValue row = some entry) : entry.2.length % 2 = 0 := by
  obtain ⟨id, -, h⟩ := Option.bind_eq_some_iff.mp h
  obtain ⟨resources, hresources, rfl⟩ := Option.map_eq_some_iff.mp h
  exact loadPairs_even hresources

theorem readTypes_accepted {intValue : List UInt8 → Int32} {row : ConfigRow} {fuel i : Nat}
    {building building' : BuildingUpgradeConfig} (hbuilding : building.Accepted)
    (h : readTypes intValue row fuel i building = some building') : building'.Accepted := by
  induction fuel generalizing i building with
  | zero =>
      cases h
      exact hbuilding
  | succ fuel ih =>
      unfold readTypes at h
      split at h
      · cases h
        exact hbuilding
      next text _ =>
        obtain ⟨upgrade, hupgrade, h⟩ := Option.bind_eq_some_iff.mp h
        obtain ⟨num, -, h⟩ := Option.bind_eq_some_iff.mp h
        obtain ⟨interval, -, h⟩ := Option.bind_eq_some_iff.mp h
        obtain ⟨type, -, h⟩ := Option.bind_eq_some_iff.mp h
        refine ih ⟨?_, ?_, ?_⟩ h
        · intro buildingType resources hresources
          dsimp only at hresources
          by_cases ht : buildingType = (intValue text).toUInt32.toUInt16
          · rw [ht, Function.update_self] at hresources
            cases hresources
            exact loadPairs_even hupgrade
          · rw [Function.update_of_ne ht] at hresources
            exact hbuilding.upgradeNeedMoney buildingType resources hresources
        · intro buildingType resources hresources
          dsimp only at hresources
          by_cases ht : buildingType = (intValue text).toUInt32.toUInt16
          · rw [ht, Function.update_self] at hresources
            cases hresources
            rfl
          · rw [Function.update_of_ne ht] at hresources
            exact hbuilding.product buildingType resources hresources
        · intro buildingType
          dsimp only
          by_cases ht : buildingType = (intValue text).toUInt32.toUInt16
          · rw [ht, Function.update_self, Function.update_self, Function.update_self]
            exact ⟨rfl, rfl⟩
          · rw [Function.update_of_ne ht, Function.update_of_ne ht, Function.update_of_ne ht]
            exact hbuilding.types buildingType

theorem readBuildingUpgrade_accepted {intValue : List UInt8 → Int32} (row : ConfigRow)
    (entry : Int16 × BuildingUpgradeConfig) (h : readBuildingUpgrade intValue row = some entry) :
    entry.2.Accepted := by
  obtain ⟨level, -, h⟩ := Option.bind_eq_some_iff.mp h
  obtain ⟨building, hbuilding, rfl⟩ := Option.map_eq_some_iff.mp h
  refine readTypes_accepted ⟨?_, ?_, fun _ => ⟨rfl, rfl⟩⟩ hbuilding
  · intro _ _ h
    cases h
  · intro _ _ h
    cases h

/-- What the loaders promise. -/
theorem Config.load_accepted {intValue : List UInt8 → Int32} {files : ConfigFiles} {cfg : Config}
    (h : Config.load intValue files = some cfg) : cfg.Accepted := by
  obtain ⟨common, -, h⟩ := Option.bind_eq_some_iff.mp h
  obtain ⟨building, hbuilding, h⟩ := Option.bind_eq_some_iff.mp h
  obtain ⟨buildingUpgrade, hupgrade, rfl⟩ := Option.map_eq_some_iff.mp h
  constructor
  · refine loadTable_forall readBuilding_even ?_ hbuilding
    intro _ _ h
    cases h
  · refine loadTable_forall readBuildingUpgrade_accepted ?_ hupgrade
    intro _ _ h
    cases h

end Mowang
