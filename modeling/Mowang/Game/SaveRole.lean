import Mowang.Base.SqlText
import Mowang.Game.LoadRole
import Mowang.Game.RoleData
import Mowang.Share.BinaryString

/-!
# `Game.SaveRole` — what `role::save` prints

`save` prints the level and the text of the buildings into an update of the row that `create_role` inserted. It names
no column `resources`.

## Contents
- `BuildingInfo.image`, `BuildingInfo.ofBytes`, `ResourceInfo.image`, `ResourceInfo.ofBytes`.
- `RoleInfo.buildingText`, `RoleInfo.save`, `RoleInfo.initialBuildings`.
- `readUpdate`, and `readUpdate_wholeSql` — a statement of `save` as the database reads it.
-/

namespace Mowang

open LittleEndian Block

/-! ## Objects as bytes -/

def sizeofBuildingInfo : Nat := 24

def sizeofResourceInfo : Nat := 8

/-- The bytes of a `resource_info`; three of them are padding. -/
def ResourceInfo.image (r : ResourceInfo) (padding : Fin 3 → UInt8) : Pod sizeofResourceInfo :=
  ⟨r.resourceType :: padding 0 :: padding 1 :: padding 2 :: leBytes 4 r.resourceNum.toUInt32.toNat, rfl⟩

def ResourceInfo.ofBytes (bytes : List UInt8) : ResourceInfo :=
  ⟨bytes.headD 0, (UInt32.ofNat (ofLe ((bytes.drop 4).take 4))).toInt32⟩

/-- The bytes of a `building_info`; two and three of them are padding. -/
def BuildingInfo.image (b : BuildingInfo) (padding : Fin 2 → UInt8) (padding' : Fin 3 → UInt8) :
    Pod sizeofBuildingInfo :=
  ⟨leBytes 2 b.buildingType.toNat ++ leBytes 2 b.buildingIndex.toNat ++ leBytes 2 b.buildingLevel.toUInt16.toNat ++
    [padding 0, padding 1] ++ (b.resourceData.image padding').cells ++ leBytes 4 b.startTime.toNat ++
    leBytes 4 b.incomeTime.toNat, rfl⟩

def BuildingInfo.ofBytes (bytes : List UInt8) : BuildingInfo where
  buildingType := UInt16.ofNat (ofLe (bytes.take 2))
  buildingIndex := UInt16.ofNat (ofLe ((bytes.drop 2).take 2))
  buildingLevel := (UInt16.ofNat (ofLe ((bytes.drop 4).take 2))).toInt16
  resourceData := ResourceInfo.ofBytes ((bytes.drop 8).take 8)
  startTime := UInt32.ofNat (ofLe ((bytes.drop 16).take 4))
  incomeTime := UInt32.ofNat (ofLe ((bytes.drop 20).take 4))

theorem ofNat_ofLe_two (v : UInt16) : UInt16.ofNat (ofLe (leBytes 2 v.toNat)) = v := by
  rw [ofLe_leBytes_of_lt v.toNat_lt, UInt16.ofNat_toNat]

theorem ofNat_ofLe_four (v : UInt32) : UInt32.ofNat (ofLe (leBytes 4 v.toNat)) = v := by
  rw [ofLe_leBytes_of_lt v.toNat_lt, UInt32.ofNat_toNat]

theorem ResourceInfo.ofBytes_image (r : ResourceInfo) (padding : Fin 3 → UInt8) :
    ofBytes (r.image padding).cells = r := by
  show (⟨r.resourceType, (UInt32.ofNat (ofLe (leBytes 4 r.resourceNum.toUInt32.toNat))).toInt32⟩ : ResourceInfo) = r
  rw [ofNat_ofLe_four, Int32.toInt32_toUInt32]

/-- The fields of a building are read back from its bytes. -/
theorem BuildingInfo.ofBytes_image (b : BuildingInfo) (padding : Fin 2 → UInt8) (padding' : Fin 3 → UInt8) :
    ofBytes (b.image padding padding').cells = b := by
  show (⟨UInt16.ofNat (ofLe (leBytes 2 b.buildingType.toNat)), UInt16.ofNat (ofLe (leBytes 2 b.buildingIndex.toNat)),
    (UInt16.ofNat (ofLe (leBytes 2 b.buildingLevel.toUInt16.toNat))).toInt16,
    ResourceInfo.ofBytes (b.resourceData.image padding').cells, UInt32.ofNat (ofLe (leBytes 4 b.startTime.toNat)),
    UInt32.ofNat (ofLe (leBytes 4 b.incomeTime.toNat))⟩ : BuildingInfo) = b
  rw [ofNat_ofLe_two, ofNat_ofLe_two, ofNat_ofLe_two, ofNat_ofLe_four, ofNat_ofLe_four, ResourceInfo.ofBytes_image,
    Int16.toInt16_toUInt16]

/-! ## Saving -/

/-- What the program finds in its memory: what its allocations really reserve, and the padding of its objects. -/
structure Memory where
  usable : Nat → Nat
  padding : Nat → Fin 2 → UInt8
  padding' : Nat → Fin 3 → UInt8

namespace RoleInfo

/-- The objects of the vector `buildings`. -/
def images (m : Memory) (buildings : List BuildingInfo) : List (Pod sizeofBuildingInfo) :=
  buildings.mapIdx fun i b => b.image (m.padding i) (m.padding' i)

/-- The text that `%s` finds in `building->data()`. -/
def buildingText (m : Memory) (fresh : Nat → UInt8) (now : DbTime) (buildings : List BuildingInfo) :
    Option (List UInt8) :=
  (allocateBinaryString m.usable fresh (sizeofBuildingInfo * buildings.length)).bind fun building =>
  (dynamicStruct2Bstr now (images m buildings) building).bind fun building =>
  building.readCStr 0

/-- The fields of the update, before they are cut off. -/
def saveFields (data : RoleInfo) (text : List UInt8) : List UInt8 :=
  ascii "set level = " ++ decimalInt data.level.toInt ++ ascii ", buildings = '" ++ text ++ ascii "'"

/-- `role::save`: the fields and the condition of its `db_update` of the table `role`. -/
def save (m : Memory) (fresh : Nat → UInt8) (now : DbTime) (data : RoleInfo) : Option (List UInt8 × List UInt8) :=
  (buildingText m fresh now data.buildings).map fun text =>
  (mwToString (data.saveFields text), mwToString (roleCondition (UInt64.ofNat data.roleId)))

/-- The buildings that `create_role` begins with. -/
def initialBuildings : List BuildingInfo :=
  (List.range 5).map fun i => { buildingType := UInt16.ofNat (i + 1), buildingIndex := UInt16.ofNat (i * 10 + 2) }

end RoleInfo

/-! ## The statement, as it is read -/

/-- A statement of `save`: the level, the text of the buildings, and the role it is for. -/
def readUpdate (sql : List UInt8) : Option (Int × List UInt8 × List UInt8) :=
  (expect (ascii "update role set level = ") sql).bind fun s =>
  (readInt s).bind fun (level, s) =>
  (expect (ascii ", buildings = '") s).bind fun s =>
  (readLiteral s).bind fun (buildings, s) =>
  (expect (ascii " where role_id = '") s).bind fun s =>
  (readLiteral s).bind fun (roleId, s) =>
  if s.isEmpty then some (level, buildings, roleId) else none

namespace RoleInfo

/-- The whole statement that carries the text of the buildings. -/
def wholeSql (data : RoleInfo) (text : List UInt8) : List UInt8 :=
  MysqlConn.updateSql (ascii "role") (data.saveFields text) (roleCondition (UInt64.ofNat data.roleId))

end RoleInfo

/-! ## The text of the buildings -/

namespace RoleInfo

variable {m : Memory} {now : DbTime} {fresh : Nat → UInt8} {data : RoleInfo} {buildings : List BuildingInfo}

theorem images_length (m : Memory) (buildings : List BuildingInfo) : (images m buildings).length = buildings.length :=
  List.length_mapIdx

theorem images_ne_nil (h : buildings ≠ []) : images m buildings ≠ [] := by
  intro hnil
  have hlen := images_length m buildings
  rw [hnil] at hlen
  exact h (List.eq_nil_of_length_eq_zero hlen.symm)

theorem ofBytes_images (m : Memory) (buildings : List BuildingInfo) :
    ((images m buildings).map Block.cells).map BuildingInfo.ofBytes = buildings := by
  apply List.ext_getElem
  · rw [List.length_map, List.length_map, images_length]
  · intro i h₁ h₂
    simp only [images, List.getElem_map, List.getElem_mapIdx, BuildingInfo.ofBytes_image]

/-- The text of a list that is not empty; its allocation had room for it. -/
theorem buildingText_spec (hne : buildings ≠ []) {text : List UInt8}
    (h : buildingText m fresh now buildings = some text) :
    text = dynamicText now (images m buildings) ∧
    48 * buildings.length + 21 ≤ m.usable (binaryStringMaxLen (sizeofBuildingInfo * buildings.length % 2 ^ 16)) := by
  obtain ⟨building, _, h⟩ := Option.bind_eq_some_iff.mp h
  obtain ⟨written, hwritten, hread⟩ := Option.bind_eq_some_iff.mp h
  obtain ⟨hroom, hread'⟩ := dynamicStruct2Bstr_spec now (images_ne_nil hne) hwritten
  rw [hread'] at hread
  cases hread
  rw [images_length, sizeofBuildingInfo] at hroom
  exact ⟨rfl, by rw [sizeofBuildingInfo]; omega⟩

theorem binaryStringLen_eq {k : Nat} (hle : k ≤ 40) :
    binaryStringLen (sizeofBuildingInfo * k % 2 ^ 16) = 48 * k + 17 := by
  have hsize : sizeofBuildingInfo * k % 2 ^ 16 = 24 * k := Nat.mod_eq_of_lt (by rw [sizeofBuildingInfo]; omega)
  rw [hsize, binaryStringLen, Nat.mod_eq_of_lt (by omega)]
  omega

theorem binaryStringMaxLen_eq {k : Nat} (hpos : 0 < k) (hle : k ≤ 40) :
    binaryStringMaxLen (sizeofBuildingInfo * k % 2 ^ 16) = 48 * k + 18 := by
  rw [binaryStringMaxLen, binaryStringLen_eq hle, Nat.max_eq_left (by omega), Nat.mod_eq_of_lt (by omega)]

/-- Where there is room the text is written. -/
theorem buildingText_eq (hpos : 0 < buildings.length) (hle : buildings.length ≤ 40)
    (hroom : 48 * buildings.length + 21 ≤ m.usable (48 * buildings.length + 18)) :
    buildingText m fresh now buildings = some (dynamicText now (images m buildings)) := by
  have hne : images m buildings ≠ [] := images_ne_nil (List.ne_nil_of_length_pos hpos)
  have hmax := binaryStringMaxLen_eq hpos hle
  obtain ⟨building, hbuilding⟩ : ∃ building,
      allocateBinaryString m.usable fresh (sizeofBuildingInfo * buildings.length) = some building := by
    refine ⟨_, write?_eq ?_⟩
    rw [binaryStringLen_eq hle, hmax, List.length_singleton]
    omega
  have hfit : 21 + 2 * (sizeofBuildingInfo * (images m buildings).length) ≤
      m.usable (binaryStringMaxLen (sizeofBuildingInfo * buildings.length % 2 ^ 16)) := by
    rw [images_length, hmax, sizeofBuildingInfo]
    omega
  obtain ⟨written, hwritten⟩ := dynamicStruct2Bstr_isSome now hne building hfit
  rw [buildingText, hbuilding, Option.bind_some, hwritten, Option.bind_some]
  exact (dynamicStruct2Bstr_spec now hne hwritten).2

/-- The text of an empty list is what the allocation holds at first. -/
theorem buildingText_nil {c : UInt8} (hc : c ≠ 0) {text : List UInt8}
    (h : buildingText m (fun i => if i = 0 then c else 0) now [] = some text) : text = [c] := by
  obtain ⟨building, hbuilding, h⟩ := Option.bind_eq_some_iff.mp h
  have hread : building.readCStr 0 = some text := h
  have hfit : 17 + [(0 : UInt8)].length ≤ m.usable 64 := write?_isSome.mp (Option.isSome_of_eq_some hbuilding)
  have hwrite : (newChars m.usable _ 64).write? 17 [0] = some building := hbuilding
  rw [write?_eq hfit] at hwrite
  cases hwrite
  have hfirst : (newChars m.usable (fun i => if i = 0 then c else 0) 64).slice 0 2 = [c, 0] := by
    rw [slice, newChars, List.drop_zero, ← List.map_take, List.take_range, Nat.min_eq_left (by simp at hfit; omega)]
    rfl
  have hhas : ((newChars m.usable (fun i => if i = 0 then c else 0) 64).write 17 [0] hfit).Has 0 ([c] ++ [0]) := by
    refine ⟨by simp at hfit ⊢; omega, ?_⟩
    exact (slice_write_before hfit (show 0 + 2 ≤ 17 by decide)).trans hfirst
  have hfirst' := readCStr_eq_some.mpr ⟨fun hmem => hc (List.mem_singleton.mp hmem).symm, hhas⟩
  exact Option.some.inj (hread.symm.trans hfirst')

/-! ## The statement -/

theorem wholeSql_eq (data : RoleInfo) (text : List UInt8) : data.wholeSql text =
    ascii "update role set level = " ++ (decimalInt data.level.toInt ++ (ascii ", buildings = '" ++ (text ++ quote ::
      (ascii " where role_id = '" ++ (decimal (UInt64.ofNat data.roleId).toNat ++ quote :: []))))) := by
  have hcond : ¬ (roleCondition (UInt64.ofNat data.roleId)).length < 1 := by
    rw [RoleColumns.roleCondition_length]
    omega
  have h₁ : ascii "update role set level = " = ascii "update " ++ (ascii "role" ++ (ascii " " ++ ascii "set level = ")) :=
    rfl
  have h₂ : ascii " where role_id = '" = ascii " where " ++ ascii "role_id = '" := rfl
  have h₃ : ascii "'" = [quote] := rfl
  rw [wholeSql, MysqlConn.updateSql, if_neg hcond, saveFields, roleCondition, h₁, h₂, h₃]
  simp only [List.append_assoc, List.cons_append, List.nil_append]

theorem wholeSql_length (data : RoleInfo) (text : List UInt8) : (data.wholeSql text).length =
    59 + (decimalInt data.level.toInt).length + text.length + (decimal (UInt64.ofNat data.roleId).toNat).length := by
  have h₁ : (ascii "update role set level = ").length = 24 := rfl
  have h₂ : (ascii ", buildings = '").length = 15 := rfl
  have h₃ : (ascii " where role_id = '").length = 18 := rfl
  rw [wholeSql_eq]
  simp only [List.length_append, List.length_cons, List.length_nil, h₁, h₂, h₃]
  omega

theorem plain_decimal (v : Nat) : plain (decimal v) = true := by
  apply plain_of_forall
  intro c hc
  obtain ⟨_, hle⟩ := mem_decimal hc
  constructor <;> rintro rfl <;> contradiction

theorem head?_buildings {t : List UInt8} {c : UInt8} (h : (ascii ", buildings = '" ++ t).head? = some c) :
    isDigit c = false := by
  cases h
  rfl

/-- The database reads the level and the text of the statement. -/
theorem readUpdate_wholeSql (data : RoleInfo) {text : List UInt8} (htext : plain text = true) :
    readUpdate (data.wholeSql text) =
      some (data.level.toInt, text, decimal (UInt64.ofNat data.roleId).toNat) := by
  have hwhere : ∀ t, (ascii " where role_id = '" ++ t).head? ≠ some quote := by
    intro t h
    cases h
  have hliteral := readLiteral_plain htext
    (hwhere (decimal (UInt64.ofNat data.roleId).toNat ++ quote :: []))
  have hid := readLiteral_plain (t := []) (plain_decimal (UInt64.ofNat data.roleId).toNat) (by decide)
  rw [wholeSql_eq, readUpdate, expect_append]
  simp only [Option.bind_some, readInt_decimalInt (fun _ => head?_buildings), expect_append, hliteral, hid]
  rfl

variable {text : List UInt8}

theorem plain_dynamicText (now : DbTime) {size : Nat} (objects : List (Pod size)) :
    plain (dynamicText now objects) = true :=
  plain_of_forall fun _ hc => (mem_binaryChars hc).2.2

theorem nulFree_saveFields (htext : NulFree text) : NulFree (data.saveFields text) := by
  have hconst : NulFree (ascii "set level = ") ∧ NulFree (ascii ", buildings = '") ∧ NulFree (ascii "'") := by decide
  simp only [saveFields, nulFree_append, hconst, nulFree_decimalInt, htext, and_self]

theorem nulFree_roleCondition (roleId : UInt64) : NulFree (roleCondition roleId) := by
  have hconst : NulFree (ascii "role_id = '") ∧ NulFree (ascii "'") := by decide
  simp only [roleCondition, nulFree_append, hconst, nulFree_decimal, and_self]

/-- The lengths of what `save` prints for a text of up to 40 buildings. -/
theorem save_lengths (data : RoleInfo) (htext : text.length ≤ 1940)
    (hlevel : -128 ≤ data.level.toInt ∧ data.level.toInt ≤ 127) :
    (data.saveFields text).length ≤ 2046 ∧ (roleCondition (UInt64.ofNat data.roleId)).length ≤ 2046 ∧
      (data.wholeSql text).length < sizeofSql := by
  have hlow : (decimalInt data.level.toInt).length ≤ 4 := decimalInt_length_le (by decide : 0 < 3) (by omega)
  have hid : (decimal (UInt64.ofNat data.roleId).toNat).length ≤ 20 := by
    apply decimal_length_le (by decide)
    have := (UInt64.ofNat data.roleId).toNat_lt
    omega
  have h₁ : (ascii "set level = ").length = 12 := rfl
  have h₂ : (ascii ", buildings = '").length = 15 := rfl
  have h₃ : (ascii "'").length = 1 := rfl
  refine ⟨?_, ?_, ?_⟩
  · simp only [saveFields, List.length_append, h₁, h₂, h₃]
    omega
  · rw [RoleColumns.roleCondition_length]
    omega
  · rw [wholeSql_length, sizeofSql]
    omega

end RoleInfo

end Mowang
