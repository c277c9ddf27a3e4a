import Mowang.Db.ResultSet
import Mowang.Game.RoleData

/-!
# `Game.LoadRole` — a row of the table `role`, on its way to the account

The DB process encodes a cell by the type of its column, `account::on_load_role_callback` decodes it by the type
of its own variable. The column `level` is a `TINYINT`, encoded in one byte; `TLevel_t` is decoded from two.

## Contents
- `RoleColumns`, `RoleColumns.Allowed`, `RoleColumns.cells` — the rows of `db.sql`.
- `parseRole`, with the index each field is read at.
- `role_row_misread` — no row is read back, and which rows come out right all the same.
-/

namespace Mowang

open LittleEndian Block

/-- `DQueryRoleSQL`. -/
def dQueryRoleSql : List UInt8 := ascii "sex, level, role_name, buildings, resources"

/-- The condition of `on_load_role`. -/
def roleCondition (roleId : UInt64) : List UInt8 := ascii "role_id = '" ++ decimal roleId.toNat ++ ascii "'"

/-- The selected columns of a row; the strings are their bytes. -/
structure RoleColumns where
  sex : Int
  level : Int
  roleName : List UInt8
  buildings : List UInt8
  resources : List UInt8
  deriving DecidableEq

namespace RoleColumns

/-- What the columns of `db.sql` admit. A character takes up to three bytes. -/
structure Allowed (row : RoleColumns) : Prop where
  /-- `tinyint(3)`. -/
  sex : -128 ≤ row.sex ∧ row.sex ≤ 127
  /-- `tinyint(3)`. -/
  level : -128 ≤ row.level ∧ row.level ≤ 127
  /-- `char(50)`. -/
  roleName : row.roleName.length ≤ 3 * 50
  /-- `varchar(10000)`. -/
  buildings : row.buildings.length ≤ 3 * 10000
  /-- `varchar(1000)`. -/
  resources : row.resources.length ≤ 3 * 1000

/-- The row as the connector reports it. -/
def cells (row : RoleColumns) : List Cell :=
  [⟨.tinyint, some row.sex, some row.sex, none⟩, ⟨.tinyint, some row.level, some row.level, none⟩,
    ⟨.char, none, none, some row.roleName⟩, ⟨.varchar, none, none, some row.buildings⟩,
    ⟨.varchar, none, none, some row.resources⟩]

end RoleColumns

/-- A value, and the `buffer_index` it was read at. -/
structure Located (α : Type) where
  value : α
  index : Nat

/-- What `on_load_role_callback` makes of a row, up to the two texts that it hands on to `bstr_2_dynamic_struct`. -/
structure LoadedRole where
  sex : Located Nat
  level : Located Int
  roleName : Located (Block UInt8 roleNameLen)
  buildings : Located (List UInt8)
  resources : Located (List UInt8)

/-- The 16 bits of a `sint16`. -/
def toInt16 (v : Nat) : Int := if v < 32768 then v else v - 65536

/-- The parses of `on_load_role_callback`; the name is copied into the zeroed `role_name`. -/
def parseRole {n : Nat} (result : Block UInt8 n) : Option LoadedRole :=
  (result.readU16 0).bind fun (_, i₀) =>
  (result.readBlock 1 i₀).bind fun (sex, i₁) =>
  (result.readBlock 2 i₁).bind fun (level, i₂) =>
  (parseString result DynamicString.mk' i₂).bind fun (name, i₃) =>
  ((Block.fill roleNameLen 0).write? 0 name.toList).bind fun roleName =>
  (parseString result DynamicString.mk' i₃).bind fun (buildings, i₄) =>
  (parseString result DynamicString.mk' i₄).map fun (resources, _) =>
  { sex := ⟨ofLe sex.cells, i₀⟩, level := ⟨toInt16 (ofLe level.cells), i₁⟩, roleName := ⟨roleName, i₂⟩,
    buildings := ⟨buildings.toList, i₃⟩, resources := ⟨resources.toList, i₄⟩ }

/-- The bytes of a string with the NUL behind them. -/
def dataBlock (s : DynamicString) : Block UInt8 s.data.length := ⟨s.data, rfl⟩

namespace RoleColumns

/-- The length `query` has reached when it comes to column `k`. -/
def WrittenAt (row : RoleColumns) (k i : Nat) : Prop :=
  ∃ b, MysqlConn.followed (fun b i => (writeBytes (leBytes 2 1) b i).map fun r => (r, false))
    (MysqlConn.fillRow (row.cells.take k)) (Block.fill sizeofResult 0) 0 = some ((b, i), false)

/-- The values are the row's. -/
structure SameValues (row : RoleColumns) (loaded : LoadedRole) : Prop where
  sex : (loaded.sex.value : Int) = row.sex
  level : loaded.level.value = row.level
  roleName : cstr loaded.roleName.value.cells = row.roleName
  buildings : loaded.buildings.value = row.buildings
  resources : loaded.resources.value = row.resources

/-- The values are the row's, and each was read where it was written. -/
structure ReadBack (row : RoleColumns) (loaded : LoadedRole) : Prop extends SameValues row loaded where
  sexAt : row.WrittenAt 0 loaded.sex.index
  levelAt : row.WrittenAt 1 loaded.level.index
  roleNameAt : row.WrittenAt 2 loaded.roleName.index
  buildingsAt : row.WrittenAt 3 loaded.buildings.index
  resourcesAt : row.WrittenAt 4 loaded.resources.index

/-- What the row holds, as the DB process encodes it. -/
def values (row : RoleColumns) : List Value :=
  [intValue 1 row.sex, intValue 1 row.level, .dynamicString row.roleName, .dynamicString row.buildings,
    .dynamicString row.resources]

theorem resultValues_cells (row : RoleColumns) : resultValues [some row.cells] = some [row.values] := rfl

variable {row : RoleColumns}

theorem Allowed.pushable (h : row.Allowed) : MysqlConn.AllPushable [row.values] := by
  have hn := h.roleName
  have hb := h.buildings
  have hr := h.resources
  intro vs hvs
  rw [List.mem_singleton.mp hvs, values]
  simp only [List.forall_mem_cons, intValue, Value.Pushable]
  exact ⟨trivial, trivial, by omega, by omega, by omega, fun _ h => absurd h List.not_mem_nil⟩

/-- The bytes of the row, behind the row count. -/
def bytes (row : RoleColumns) : List UInt8 :=
  [1, 0, UInt8.ofNat (row.sex % 256).toNat, UInt8.ofNat (row.level % 256).toNat] ++
    Value.encodeString row.roleName ++ Value.encodeString row.buildings ++ Value.encodeString row.resources

theorem counted_values (row : RoleColumns) : counted encodeRow [row.values] = row.bytes := by
  have hcount : leBytes 2 1 = [1, 0] := by decide
  have hbyte : ∀ v, leBytes 1 v = [UInt8.ofNat v] := fun _ => rfl
  have hpow : (2 : Int) ^ (8 * 1) = 256 := rfl
  simp only [counted, encodeRow, values, bytes, List.flatMap_cons, List.flatMap_nil, Value.encode, intValue, Pod.ofNat,
    List.append_nil, List.append_assoc, List.length_singleton, hcount, hbyte, hpow]
  rfl

theorem bytes_length (row : RoleColumns) :
    row.bytes.length = 10 + row.roleName.length + row.buildings.length + row.resources.length := by
  simp only [bytes, Value.encodeString, List.length_append, leBytes_length, List.length_cons, List.length_nil]
  omega

theorem Allowed.bytes_length_le (h : row.Allowed) : row.bytes.length ≤ 33160 := by
  have hn := h.roleName
  have hb := h.buildings
  have hr := h.resources
  rw [bytes_length]
  omega

theorem roleCondition_length (roleId : UInt64) :
    (roleCondition roleId).length = 12 + (decimal roleId.toNat).length := by
  have hquoted : (ascii "role_id = '").length = 11 ∧ (ascii "'").length = 1 := ⟨rfl, rfl⟩
  simp only [roleCondition, List.length_append]
  omega

/-- The statement of `on_load_role` fits `sql`. -/
theorem roleSql_length_lt (roleId : UInt64) :
    (MysqlConn.querySql (ascii "role") dQueryRoleSql (roleCondition roleId)).length < sizeofSql := by
  have hid : (decimal roleId.toNat).length ≤ 20 := by
    apply decimal_length_le (by decide)
    have := roleId.toNat_lt
    omega
  have hcond := roleCondition_length roleId
  have hrest : (ascii "select ").length + dQueryRoleSql.length + (ascii " from ").length + (ascii "role").length +
      (ascii " where ").length ≤ 100 := by decide
  rw [MysqlConn.querySql, if_neg (by omega), if_neg (by decide), sizeofSql]
  simp only [List.length_append]
  omega

/-- `query` encodes the row, and these bytes are handed over. -/
theorem query_bytes (h : row.Allowed) (roleId : UInt64) : ∃ queried,
    MysqlConn.query (ascii "role") dQueryRoleSql (roleCondition roleId) (Block.fill sizeofResult 0) 0
      (.rows [some row.cells]) = some queried ∧ queried.status = true ∧
    (ExecutorManager.resultData queried.result queried.len).data = row.bytes ++ [0] := by
  have hlen := h.bytes_length_le
  obtain ⟨sql, hsql⟩ := Option.isSome_iff_exists.mp (sprintf_isSome_iff.mpr (roleSql_length_lt roleId))
  have hroom : 0 + row.bytes.length ≤ sizeofResult := by
    rw [sizeofResult]
    omega
  obtain ⟨b, hwrite, hhas, _⟩ := @writeBytes_spec _ _ _ (Block.fill sizeofResult 0) _ hroom
  have hquery := @MysqlConn.query_rows _ _ _ _ (Block.fill sizeofResult 0) _ hsql _ (List.cons_ne_nil _ _) _
    row.resultValues_cells h.pushable
  rw [counted_values, hwrite] at hquery
  refine ⟨_, hquery, rfl, ?_⟩
  have hmod : (0 + row.bytes.length) % 2 ^ 16 = row.bytes.length := by
    rw [Nat.zero_add]
    exact Nat.mod_eq_of_lt (by omega)
  simp only [ExecutorManager.resultData]
  rw [hmod, if_pos (by rw [bytes_length]; omega), hhas.2]

/-! ## What the account makes of it -/

/-- The fields of a row, as they stand one behind the other for `parseRole`. -/
structure Fields where
  rowCount : Nat
  sex : Pod 1
  level : Pod 2
  name : List UInt8
  buildings : List UInt8
  resources : List UInt8

/-- Their bytes. -/
def Fields.bytes (f : Fields) : List UInt8 :=
  leBytes 2 f.rowCount ++ (f.sex.cells ++ (f.level.cells ++ (Value.encodeString f.name ++
    (Value.encodeString f.buildings ++ Value.encodeString f.resources))))

/-- What the account makes of them. -/
def Fields.loaded (f : Fields) (roleName : Block UInt8 roleNameLen) : LoadedRole :=
  { sex := ⟨ofLe f.sex.cells, 2⟩, level := ⟨toInt16 (ofLe f.level.cells), 3⟩, roleName := ⟨roleName, 5⟩,
    buildings := ⟨f.buildings, 7 + f.name.length⟩,
    resources := ⟨f.resources, 9 + f.name.length + f.buildings.length⟩ }

/-- `push_back` can take the strings, and the name fits its array. -/
structure Fields.Fit (f : Fields) (roleName : Block UInt8 roleNameLen) : Prop where
  rowCount : f.rowCount < 65536
  name : f.name.length ≤ 32767
  buildings : f.buildings.length ≤ 32767
  resources : f.resources.length ≤ 32767
  roleName : (Block.fill roleNameLen 0).write? 0 f.name = some roleName

/-- `parseRole` reads exactly such fields. -/
theorem parseRole_eq_some_iff {n : Nat} {result : Block UInt8 n} {loaded : LoadedRole} :
    parseRole result = some loaded ↔
      ∃ (f : Fields) (roleName : _), result.Has 0 f.bytes ∧ f.Fit roleName ∧ loaded = f.loaded roleName := by
  constructor
  · intro h
    -- the six reads one by one, each from where the last has stopped
    obtain ⟨⟨rowCount, i₀⟩, h₀, h⟩ := Option.bind_eq_some_iff.mp h
    obtain ⟨⟨sex, i₁⟩, h₁, h⟩ := Option.bind_eq_some_iff.mp h
    obtain ⟨⟨level, i₂⟩, h₂, h⟩ := Option.bind_eq_some_iff.mp h
    obtain ⟨⟨name, i₃⟩, h₃, h⟩ := Option.bind_eq_some_iff.mp h
    obtain ⟨roleName, hname, h⟩ := Option.bind_eq_some_iff.mp h
    obtain ⟨⟨buildings, i₄⟩, h₄, h⟩ := Option.bind_eq_some_iff.mp h
    obtain ⟨⟨resources, i₅⟩, h₅, rfl⟩ := Option.map_eq_some_iff.mp h
    obtain ⟨_, rfl, hcount, hhas₀, rfl⟩ := (decodes_readU16 result).sound (Nat.zero_le n) h₀
    obtain ⟨hhas₁, rfl⟩ := readBlock_eq_some.mp h₁
    obtain ⟨hhas₂, rfl⟩ := readBlock_eq_some.mp h₂
    obtain ⟨bs₃, ⟨⟨htl₃, _⟩, _⟩, hlen₃, hhas₃, rfl⟩ :=
      (decodes_parseString result).sound (by have := hhas₂.1; rw [level.size_eq] at this; exact this) h₃
    obtain ⟨bs₄, ⟨⟨htl₄, _⟩, _⟩, hlen₄, hhas₄, rfl⟩ := (decodes_parseString result).sound hhas₃.1 h₄
    obtain ⟨bs₅, ⟨⟨htl₅, _⟩, _⟩, hlen₅, hhas₅, rfl⟩ := (decodes_parseString result).sound hhas₄.1 h₅
    refine ⟨⟨rowCount, sex, level, bs₃, bs₄, bs₅⟩, roleName, ?_, ⟨hcount, hlen₃, hlen₄, hlen₅, htl₃ ▸ hname⟩, ?_⟩
    · simp only [Fields.bytes, has_append, leBytes_length, sex.size_eq, level.size_eq]
      exact ⟨hhas₀, hhas₁, hhas₂, hhas₃, hhas₄, hhas₅⟩
    · simp only [Fields.loaded, htl₄, htl₅, LoadedRole.mk.injEq, Located.mk.injEq, true_and, Value.encodeString,
        List.length_append, leBytes_length]
      omega
  · rintro ⟨f, roleName, hhas, ⟨hcount, hlen₃, hlen₄, hlen₅, hname⟩, rfl⟩
    simp only [Fields.bytes, has_append, leBytes_length, f.sex.size_eq, f.level.size_eq] at hhas
    obtain ⟨hhas₀, hhas₁, hhas₂, hhas₃, hhas₄, hhas₅⟩ := hhas
    obtain ⟨_, h₀, rfl⟩ := (decodes_readU16 result).complete hhas₀ hcount
    obtain ⟨s₃, h₃, ⟨⟨htl₃, _⟩, _⟩⟩ := (decodes_parseString result).complete hhas₃ hlen₃
    obtain ⟨s₄, h₄, ⟨⟨htl₄, _⟩, _⟩⟩ := (decodes_parseString result).complete hhas₄ hlen₄
    obtain ⟨s₅, h₅, ⟨⟨htl₅, _⟩, _⟩⟩ := (decodes_parseString result).complete hhas₅ hlen₅
    have h₁ := readBlock_eq_some.mpr ⟨hhas₁, rfl⟩
    have h₂ := readBlock_eq_some.mpr ⟨hhas₂, rfl⟩
    rw [← htl₃] at hname
    rw [parseRole, h₀]
    simp only [Option.bind_some, leBytes_length, h₁, h₂, h₃, h₄, h₅, hname, Option.map_some]
    simp only [Fields.loaded, htl₄, htl₅, Option.some.injEq, LoadedRole.mk.injEq, Located.mk.injEq, true_and,
      Value.encodeString, List.length_append, leBytes_length]
    omega

theorem leBytes_two (v : Nat) : leBytes 2 v = [UInt8.ofNat v, UInt8.ofNat (v / 256)] := rfl

theorem toNat_eq_mod {a : UInt8} {v : Nat} (h : a = UInt8.ofNat v) : a.toNat = v % 256 := by
  rw [h]
  exact UInt8.toNat_ofNat'

theorem mod_eq_of_ofNat_eq {a b : Nat} (h : UInt8.ofNat a = UInt8.ofNat b) : a % 256 = b % 256 := by
  rw [← toNat_eq_mod h, UInt8.toNat_ofNat']

/-- The first fields, and what stands where the name is read: it begins one byte late. -/
theorem fields_eq {f : Fields} {rest : List UInt8} (hcat : row.bytes ++ [0] = f.bytes ++ rest) :
    ofLe f.sex.cells = (row.sex % 256).toNat % 256 ∧
    ofLe f.level.cells = (row.level % 256).toNat % 256 + 256 * (row.roleName.length % 256) ∧
    UInt8.ofNat (row.roleName.length / 256) :: (row.roleName ++ (Value.encodeString row.buildings ++
        (Value.encodeString row.resources ++ [0]))) =
      Value.encodeString f.name ++ (Value.encodeString f.buildings ++ (Value.encodeString f.resources ++ rest)) := by
  obtain ⟨rowCount, ⟨sex, hsex⟩, ⟨level, hlevel⟩, name, buildings, resources⟩ := f
  obtain ⟨a, rfl⟩ := List.length_eq_one_iff.mp hsex
  obtain ⟨c, d, rfl⟩ := List.length_eq_two.mp hlevel
  simp only [RoleColumns.bytes, Fields.bytes, leBytes_two, Value.encodeString, List.cons_append, List.nil_append,
    List.append_assoc, List.cons.injEq] at hcat
  obtain ⟨_, _, hsex, hlevel, hhigh, hrest⟩ := hcat
  have ha := toNat_eq_mod hsex.symm
  have hc := toNat_eq_mod hlevel.symm
  have hd := toNat_eq_mod hhigh.symm
  refine ⟨?_, ?_, ?_⟩
  · simp only [ofLe]
    omega
  · simp only [ofLe]
    omega
  · simpa only [leBytes_two, Value.encodeString, List.cons_append, List.nil_append, List.append_assoc,
      List.cons.injEq] using hrest

/-- The second byte of `level` is the length of the name. -/
theorem name_empty (h : row.Allowed) {f : Fields} {rest : List UInt8} (hcat : row.bytes ++ [0] = f.bytes ++ rest)
    (hlevel : toInt16 (ofLe f.level.cells) = row.level) : row.roleName = [] ∧ 0 ≤ row.level := by
  have hname := h.roleName
  obtain ⟨hlow, hhigh⟩ := h.level
  rw [(fields_eq hcat).2.1] at hlevel
  unfold toInt16 at hlevel
  have hzero : row.roleName.length = 0 ∧ 0 ≤ row.level := by
    split at hlevel <;> omega
  exact ⟨List.eq_nil_of_length_eq_zero hzero.1, hzero.2⟩

/-- From there on each length is read one byte late, and right only where all texts are empty. -/
theorem texts_empty (h : row.Allowed) {f : Fields} {roleName : Block UInt8 roleNameLen} {rest : List UInt8}
    (hcat : row.bytes ++ [0] = f.bytes ++ rest) (hfit : f.Fit roleName) (hname : row.roleName = [])
    (hbuildings : f.buildings = row.buildings) (hresources : f.resources = row.resources) :
    row.buildings = [] ∧ row.resources = [] := by
  have hshift := (fields_eq hcat).2.2
  have hb := h.buildings
  have hr := h.resources
  have hlen : 0 + f.name.length ≤ roleNameLen := write?_isSome.mp (Option.isSome_of_eq_some hfit.roleName)
  rw [roleNameLen] at hlen
  rw [hname, hbuildings, hresources] at hshift
  simp only [leBytes_two, Value.encodeString, List.cons_append, List.nil_append, List.length_nil,
    List.cons.injEq] at hshift
  obtain ⟨hname₀, hname₁, hshift⟩ := hshift
  have h₀ := mod_eq_of_ofNat_eq hname₀
  have h₁ := mod_eq_of_ofNat_eq hname₁
  have hnone : f.name = [] := List.eq_nil_of_length_eq_zero (by omega)
  rw [hnone] at hshift h₁
  simp only [List.nil_append, List.cons.injEq, List.length_nil] at hshift h₁
  have h₂ := mod_eq_of_ofNat_eq hshift.1
  have hbuildings₀ : row.buildings = [] := List.eq_nil_of_length_eq_zero (by omega)
  rw [hbuildings₀] at hshift
  simp only [List.nil_append, List.cons.injEq, List.length_nil] at hshift
  have h₃ := mod_eq_of_ofNat_eq hshift.2.1
  have h₄ := mod_eq_of_ofNat_eq hshift.2.2.1
  exact ⟨hbuildings₀, List.eq_nil_of_length_eq_zero (by omega)⟩

/-- The rows without a text, whose level is not negative. -/
def Bare (row : RoleColumns) : Prop :=
  0 ≤ row.sex ∧ 0 ≤ row.level ∧ row.roleName = [] ∧ row.buildings = [] ∧ row.resources = []

/-- The values come out right for these rows alone. -/
theorem sameValues_iff (h : row.Allowed) {n : Nat} {result : Block UInt8 n} (hcells : result.cells = row.bytes ++ [0]) :
    (∃ loaded, parseRole result = some loaded ∧ row.SameValues loaded) ↔ row.Bare := by
  constructor
  · rintro ⟨loaded, hparse, hsame⟩
    obtain ⟨f, roleName, hhas, hfit, rfl⟩ := parseRole_eq_some_iff.mp hparse
    have hcat : row.bytes ++ [0] = f.bytes ++ result.cells.drop (0 + f.bytes.length) := by
      rw [← hcells]
      exact hhas.drop_eq
    obtain ⟨hname, hlevel⟩ := name_empty h hcat hsame.level
    obtain ⟨hbuildings, hresources⟩ := texts_empty h hcat hfit hname hsame.buildings hsame.resources
    refine ⟨?_, hlevel, hname, hbuildings, hresources⟩
    rw [← hsame.sex]
    exact Int.natCast_nonneg _
  · rintro ⟨hsex, hlevel, hname, hbuildings, hresources⟩
    let f : Fields := ⟨1, Pod.ofNat 1 (row.sex % 256).toNat, Pod.ofNat 2 (row.level % 256).toNat, [], [], []⟩
    have hlow := h.level
    have hbytes : result.cells = f.bytes := by
      have hzero : (row.level % 256).toNat / 256 = 0 := by omega
      rw [hcells, RoleColumns.bytes, hname, hbuildings, hresources]
      simp only [f, Fields.bytes, Pod.ofNat, leBytes_two, hzero, Value.encodeString]
      rfl
    have hwrite : (Block.fill roleNameLen (0 : UInt8)).write? 0 [] = some (Block.fill roleNameLen 0) := by
      rw [write?_eq (by decide), write_self _ (slice_zero _ 0)]
    refine ⟨f.loaded (Block.fill roleNameLen 0), parseRole_eq_some_iff.mpr ⟨f, _, ?_, ?_, rfl⟩, ?_⟩
    · rw [← hbytes]
      exact has_cells result
    · exact ⟨(by decide : 1 < 65536), Nat.zero_le _, Nat.zero_le _, Nat.zero_le _, hwrite⟩
    · have hsexHigh := h.sex
      have hsexByte : ofLe (leBytes 1 (row.sex % 256).toNat) = (row.sex % 256).toNat % 256 ^ 1 := ofLe_leBytes 1 _
      have hlevelBytes : ofLe (leBytes 2 (row.level % 256).toNat) = (row.level % 256).toNat % 256 ^ 2 := ofLe_leBytes 2 _
      refine ⟨?_, ?_, hname ▸ rfl, hbuildings.symm, hresources.symm⟩
      · show ((ofLe (leBytes 1 (row.sex % 256).toNat) : Nat) : Int) = row.sex
        omega
      · show toInt16 (ofLe (leBytes 2 (row.level % 256).toNat)) = row.level
        unfold toInt16
        omega

/-- The name is written behind the count and two bytes. -/
theorem writtenAt_two {i : Nat} (h : row.WrittenAt 2 i) : i = 4 := by
  obtain ⟨b, h⟩ := h
  have hvalues : rowValues (row.cells.take 2) = some [intValue 1 row.sex, intValue 1 row.level] := rfl
  have hpush : ∀ v ∈ [intValue 1 row.sex, intValue 1 row.level], v.Pushable := by
    simp only [List.forall_mem_cons, intValue, Value.Pushable]
    exact ⟨trivial, trivial, fun _ h => absurd h List.not_mem_nil⟩
  have hwritten := (MysqlConn.emits_count 1).followed (MysqlConn.emits_fillRow hvalues hpush)
    (Block.fill sizeofResult 0) 0 (Nat.zero_le _)
  rw [h] at hwritten
  obtain ⟨r, hr, heq⟩ := Option.map_eq_some_iff.mp hwritten.symm
  obtain ⟨b', _, rfl⟩ := Option.map_eq_some_iff.mp hr
  cases heq
  rfl

/-- **No row is read back.** The DB process encodes every row that the table admits, and whatever the account decodes
    from the bytes, the name was not read where it was written: `level` is written in one byte and read from two. The
    values alone come out right for the rows without a text, and no others. -/
theorem role_row_misread (h : row.Allowed) (roleId : UInt64) : ∃ queried,
    MysqlConn.query (ascii "role") dQueryRoleSql (roleCondition roleId) (Block.fill sizeofResult 0) 0
      (.rows [some row.cells]) = some queried ∧
    (∀ loaded, parseRole (dataBlock (ExecutorManager.resultData queried.result queried.len)) = some loaded →
      ¬ row.ReadBack loaded) ∧
    ((∃ loaded, parseRole (dataBlock (ExecutorManager.resultData queried.result queried.len)) = some loaded ∧
      row.SameValues loaded) ↔ row.Bare) := by
  obtain ⟨queried, hquery, _, hdata⟩ := query_bytes h roleId
  refine ⟨queried, hquery, ?_, sameValues_iff h hdata⟩
  intro loaded hparse hback
  obtain ⟨f, roleName, _, _, rfl⟩ := parseRole_eq_some_iff.mp hparse
  have hfour := writtenAt_two hback.roleNameAt
  have hfive : (f.loaded roleName).roleName.index = 5 := rfl
  omega

/-- The row of a role of level 5, with the name "ab" and nothing else. -/
def named : RoleColumns := ⟨1, 5, ascii "ab", [], []⟩

theorem named_allowed : named.Allowed := by
  constructor <;> decide

theorem role_row_misread_named : ∃ queried,
    MysqlConn.query (ascii "role") dQueryRoleSql (roleCondition 7) (Block.fill sizeofResult 0) 0
      (.rows [some named.cells]) = some queried ∧
    (∀ loaded, parseRole (dataBlock (ExecutorManager.resultData queried.result queried.len)) = some loaded →
      ¬ named.ReadBack loaded) ∧
    ((∃ loaded, parseRole (dataBlock (ExecutorManager.resultData queried.result queried.len)) = some loaded ∧
      named.SameValues loaded) ↔ named.Bare) :=
  role_row_misread named_allowed 7

/-- Its values are not read back either. -/
theorem named_lost : ¬ ∃ queried loaded,
    MysqlConn.query (ascii "role") dQueryRoleSql (roleCondition 7) (Block.fill sizeofResult 0) 0
      (.rows [some named.cells]) = some queried ∧
    parseRole (dataBlock (ExecutorManager.resultData queried.result queried.len)) = some loaded ∧
    named.SameValues loaded := by
  rintro ⟨queried, loaded, hquery, hparse, hsame⟩
  obtain ⟨queried', hquery', _, hdata⟩ := query_bytes named_allowed 7
  cases hquery.symm.trans hquery'
  have hbare := (sameValues_iff named_allowed hdata).mp ⟨loaded, hparse, hsame⟩
  exact absurd hbare.2.2.1 (by decide)

end RoleColumns

end Mowang
