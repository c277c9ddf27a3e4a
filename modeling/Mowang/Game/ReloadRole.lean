import Mowang.Game.LoginKey

/-!
# `Game.ReloadRole` — a role that is inserted, saved, and loaded again

`create_role` inserts a row that names no column `resources`, and the update of `save` does not name it either. What a
server makes of a statement is a parameter: of its configuration only what the manual says of every one is used. A
column that an insertion leaves out gets the default of its type, where such a row is taken at all; an update stores
what its columns admit; and a `tinyint` holds no more than its range.

## Contents
- `readInsert`, and `createRole_statement` — the insertion as the database reads it.
- `RoleServer`, `RoleServer.Documented`, `RoleServer.Inserted`.
- `RoleColumns.reload`, `RoleInfo.Survives`.
- `survives_iff`, and `resources_lost`.
-/

namespace Mowang

open Block

/-! ## The insertion, as it is read -/

/-- The columns that the insertion of `create_role` names. -/
def roleFields : List UInt8 := ascii "(account_id, role_id, sex, level, role_name, buildings)"

/-- Their values. -/
structure RoleValues where
  accountId : List UInt8
  roleId : List UInt8
  sex : Int
  level : Int
  roleName : List UInt8
  buildings : List UInt8

/-- A statement of `create_role`. -/
def readInsert (sql : List UInt8) : Option RoleValues :=
  (expect (ascii "insert into role (account_id, role_id, sex, level, role_name, buildings) values ('") sql).bind fun s =>
  (readLiteral s).bind fun (accountId, s) =>
  (expect (ascii ", '") s).bind fun s =>
  (readLiteral s).bind fun (roleId, s) =>
  (expect (ascii ", ") s).bind fun s =>
  (readInt s).bind fun (sex, s) =>
  (expect (ascii ", ") s).bind fun s =>
  (readInt s).bind fun (level, s) =>
  (expect (ascii ", '") s).bind fun s =>
  (readLiteral s).bind fun (roleName, s) =>
  (expect (ascii ", '") s).bind fun s =>
  (readLiteral s).bind fun (buildings, s) =>
  if s = ascii ")" then some ⟨accountId, roleId, sex, level, roleName, buildings⟩ else none

/-- The values that `create_role` prints. -/
def insertValues (accountId roleId : UInt64) (sex : UInt8) (roleName building : List UInt8) : List UInt8 :=
  LoginSession.roleFront accountId roleId sex ++ quote :: (roleName ++ quote :: LoginSession.roleBack building)

/-- The statement that carries the values of a new role. -/
def insertText (accountId roleId : UInt64) (sex : UInt8) (roleName building : List UInt8) : List UInt8 :=
  MysqlConn.insertSql (ascii "role") roleFields (insertValues accountId roleId sex roleName building)

/-- What `create_role` hands to the DB process. -/
def createRoleInfo (values : List UInt8) : DbOptInfo := .ofRequest 0 dbOptInsert 0 (ascii "role") roleFields values

/-- What `save` hands to it. -/
def saveInfo (fields condition : List UInt8) : DbOptInfo := .ofRequest 0 dbOptUpdate 0 (ascii "role") fields condition

section Insertion

variable {accountId roleId : UInt64} {sex : UInt8} {roleName building : List UInt8}

theorem insertText_eq : insertText accountId roleId sex roleName building =
    ascii "insert into role (account_id, role_id, sex, level, role_name, buildings) values ('" ++
      (decimal accountId.toNat ++ quote :: (ascii ", '" ++ (decimal roleId.toNat ++ quote :: (ascii ", " ++
        (decimalInt sex.toNat ++ (ascii ", " ++ (decimalInt 1 ++ (ascii ", '" ++ (roleName ++ quote ::
          (ascii ", '" ++ (building ++ quote :: ascii ")"))))))))))) := by
  have h₁ : ascii "insert into role (account_id, role_id, sex, level, role_name, buildings) values ('" =
      ascii "insert into " ++ (ascii "role" ++ (ascii " " ++ (roleFields ++ (ascii " values " ++ ascii "('")))) := rfl
  have h₂ : ascii "', '" = quote :: ascii ", '" := rfl
  have h₃ : ascii "', " = quote :: ascii ", " := rfl
  have h₄ : ascii ", '" = ascii ", " ++ [quote] := rfl
  have h₅ : ascii "')" = quote :: ascii ")" := rfl
  have hsex : decimalInt sex.toNat = decimal sex.toNat := rfl
  have hone : decimalInt 1 = decimal 1 := rfl
  rw [insertText, MysqlConn.insertSql, insertValues, LoginSession.roleFront, LoginSession.roleBack, h₁, h₂, h₃, h₄, h₅,
    hsex, hone]
  simp only [List.append_assoc, List.cons_append, List.nil_append]

theorem head?_comma {text t : List UInt8} (h : text.head? = some 44) :
    (∀ c, (text ++ t).head? = some c → isDigit c = false) ∧ (text ++ t).head? ≠ some quote := by
  cases text with
  | nil => cases h
  | cons c text =>
      cases h
      constructor
      · intro c hc
        cases hc
        rfl
      · intro hc
        cases hc

/-- A plain name and plain buildings are read, with the ids, the sex and the level 1. -/
theorem readInsert_insertText (hname : plain roleName = true) (hbuilding : plain building = true) :
    readInsert (insertText accountId roleId sex roleName building) =
      some ⟨decimal accountId.toNat, decimal roleId.toNat, sex.toNat, 1, roleName, building⟩ := by
  have hliteral : ∀ {s t text : List UInt8}, plain s = true → text.head? = some 44 →
      readLiteral (s ++ quote :: (text ++ t)) = some (s, text ++ t) := fun hs htext =>
    readLiteral_plain hs (head?_comma htext).2
  have hint : ∀ {v : Int} {t text : List UInt8}, text.head? = some 44 →
      readInt (decimalInt v ++ (text ++ t)) = some (v, text ++ t) := fun htext =>
    readInt_decimalInt (head?_comma htext).1
  have hcomma : (ascii ", '").head? = some 44 ∧ (ascii ", ").head? = some 44 := by decide
  have hlast := readLiteral_plain (t := ascii ")") hbuilding (by decide)
  rw [insertText_eq, readInsert, expect_append]
  simp only [Option.bind_some, expect_append, hliteral (RoleInfo.plain_decimal _) hcomma.1,
    hliteral (RoleInfo.plain_decimal _) hcomma.2, hint hcomma.2, hint hcomma.1, hliteral hname hcomma.1, hlast]
  rfl

theorem insertValues_length (hname : roleName.length ≤ 64) :
    (insertValues accountId roleId sex roleName building).length ≤ building.length + 200 := by
  have := LoginSession.roleFront_length accountId roleId sex
  have := LoginSession.roleBack_length building
  simp only [insertValues, List.length_append, List.length_cons]
  omega

theorem nulFree_insertValues (hname : NulFree roleName) (hbuilding : NulFree building) :
    NulFree (insertValues accountId roleId sex roleName building) := by
  have hconst : NulFree (ascii "('") ∧ NulFree (ascii "', '") ∧ NulFree (ascii "', ") ∧ NulFree (ascii ", ") ∧
      NulFree (ascii ", '") ∧ NulFree (ascii "')") ∧ NulFree [quote] := by decide
  have hcons : ∀ s, NulFree (quote :: s) ↔ NulFree s := fun s => by
    rw [← List.singleton_append, nulFree_append, and_iff_right hconst.2.2.2.2.2.2]
  rw [insertValues, LoginSession.roleFront, LoginSession.roleBack]
  simp only [nulFree_append, hcons, nulFree_decimal, hconst, hname, hbuilding, and_self]

/-- The DB process executes the statement whole. -/
theorem apply_createRoleInfo (hname : NulFree roleName) (hbuilding : NulFree building) (hlen : roleName.length ≤ 64)
    (hbuildingLen : building.length ≤ 1000) :
    ∃ done, ExecutorManager.apply (createRoleInfo (insertValues accountId roleId sex roleName building)) (.rows []) =
      some done ∧ done.executed = [insertText accountId roleId sex roleName building] := by
  have hcstr : cstr (ascii "role") = ascii "role" ∧ cstr roleFields = roleFields := by decide
  have hvalues := cstr_eq_self (@nulFree_insertValues accountId roleId sex _ _ hname hbuilding)
  have hstatement : (createRoleInfo (insertValues accountId roleId sex roleName building)).statement =
      some (insertText accountId roleId sex roleName building) := by
    rw [createRoleInfo, DbOptInfo.ofRequest, hcstr.1, hcstr.2, hvalues]
    rfl
  have hvaluesLen := @insertValues_length accountId roleId sex roleName building hlen
  have hquery : dbOptInsert ≠ dbOptQuery := by decide
  have hdone : (ExecutorManager.apply (createRoleInfo (insertValues accountId roleId sex roleName building))
      (.rows [])).isSome := by
    apply (ExecutorManager.apply_isSome_iff hquery).mpr
    intro sql hsql
    rw [hstatement] at hsql
    cases hsql
    have hfront : (ascii "insert into ").length = 12 ∧ (ascii "role").length = 4 ∧ (ascii " ").length = 1 ∧
        roleFields.length = 55 ∧ (ascii " values ").length = 8 := by decide
    simp only [insertText, MysqlConn.insertSql, List.length_append, hfront, sizeofSql]
    omega
  obtain ⟨done, hdone⟩ := Option.isSome_iff_exists.mp hdone
  refine ⟨done, hdone, ?_⟩
  rw [ExecutorManager.apply_executed ⟨nulFree_cstr _, nulFree_cstr _, nulFree_cstr _⟩ hquery hdone, hstatement]
  rfl

end Insertion

/-- **The insertion of `create_role`.** A role that fits is asked for with a text that is not cut off, and the DB
    process executes the whole statement. -/
theorem createRole_statement {w : LoginWorld} {session : LoginSession} {sex : UInt8} {roleName : List UInt8}
    (hfits : LoginSession.RoleFits w sex roleName) (now : DbTime) (fresh : Nat → UInt8) :
    ∃ session' asked done, LoginSession.createRole w session sex roleName now fresh = some session' ∧
      session'.asked = asked :: session.asked ∧
      ExecutorManager.apply (createRoleInfo asked.text) (.rows []) = some done ∧
      done.executed = [insertText session.account.accountId session.account.roleId sex roleName
        (dynamicText now (RoleInfo.images w.memory RoleInfo.initialBuildings))] := by
  obtain ⟨hsex, hlen, hfree, hplain, hroom⟩ := hfits
  obtain ⟨message, hsex⟩ := Option.isSome_iff_exists.mp hsex
  obtain ⟨copied, printed, hcopied, hprinted, hread⟩ := copied_fill_iff.mpr ⟨hlen, hfree, hplain⟩
  have hname : printed = roleName := by
    have hzero : 0 + roleName.length ≤ roleNameLen := by omega
    have hwrite := write?_eq (b := Block.fill roleNameLen (0 : UInt8)) hzero
    rw [hcopied] at hwrite
    cases hwrite
    rw [readCStr_write_zero hzero hfree, readCStr_fill.mpr ⟨hlen, rfl⟩] at hprinted
    cases hprinted
    exact List.append_nil _
  subst hname
  have hbuilding : RoleInfo.buildingText w.memory fresh now RoleInfo.initialBuildings = _ :=
    RoleInfo.buildingText_eq (by decide) (by decide) hroom
  have hbuildingLen : (dynamicText now (RoleInfo.images w.memory RoleInfo.initialBuildings)).length = 260 := by
    rw [dynamicText_length, RoleInfo.images_length]
    rfl
  obtain ⟨done, hdone, hexecuted⟩ := @apply_createRoleInfo session.account.accountId session.account.roleId sex _ _ hfree
    (nulFree_dynamicText now (RoleInfo.images w.memory RoleInfo.initialBuildings)) (Nat.le_of_lt hlen) (by omega)
  have hvaluesLen := @insertValues_length session.account.accountId session.account.roleId sex printed
    (dynamicText now (RoleInfo.images w.memory RoleInfo.initialBuildings)) (Nat.le_of_lt hlen)
  have hwhole := mwToString_eq_self (Nat.le_trans hvaluesLen (by omega : _ ≤ 2046))
  have hcreate : LoginSession.createRole w session sex printed now fresh = some
      { session with
        account := { session.account with sex := sex, roleName := copied }
        asked := .print (LoginSession.roleFront session.account.accountId session.account.roleId sex)
          (LoginSession.roleBack (dynamicText now (RoleInfo.images w.memory RoleInfo.initialBuildings))) printed
          printed :: session.asked } := by
    rw [LoginSession.createRole, hsex, Option.bind_some, hcopied, Option.bind_some, hbuilding, Option.bind_some,
      hprinted, Option.map_some]
  refine ⟨_, _, done, hcreate, rfl, ?_, hexecuted⟩
  rw [← hdone, ← hwhole]
  rfl

/-! ## The server -/

/-- A database server, as far as the table `role` of `db.sql` goes. -/
structure RoleServer where
  Table : Type
  /-- What becomes of the table with a statement. -/
  execute : Table → List UInt8 → Table
  /-- The row of a role. -/
  row : Table → UInt64 → Option RoleColumns

namespace RoleServer

/-- What holds of a server in every configuration. -/
structure Documented (server : RoleServer) : Prop where
  /-- A column that an insertion does not name gets the default of its type, where the row is taken without it. -/
  unnamed : ∀ {table sql values roleId columns}, readInsert sql = some values → server.row table roleId = none →
    server.row (server.execute table sql) roleId = some columns → columns.resources = []
  /-- An update stores the values that its columns admit, and keeps the other columns. Every ASCII text is `utf8`. -/
  updated : ∀ {table sql level buildings roleId columns},
    readUpdate sql = some (level, buildings, decimal roleId.toNat) → server.row table roleId = some columns →
    -128 ≤ level → level ≤ 127 → (∀ c ∈ buildings, c < 128) → buildings.length ≤ 10000 →
    server.row (server.execute table sql) roleId = some { columns with level := level, buildings := buildings }
  /-- The column `level` is a `tinyint`. -/
  tinyint : ∀ {table roleId columns}, server.row table roleId = some columns →
    -128 ≤ columns.level ∧ columns.level ≤ 127

/-- The table after the insertion of some `create_role` for the role, which the server took. -/
def Inserted (server : RoleServer) (w : LoginWorld) (roleId : UInt64) (table : server.Table) : Prop :=
  ∃ session sex roleName now fresh session' asked done sql values before,
    session.account.roleId = roleId ∧ LoginSession.createRole w session sex roleName now fresh = some session' ∧
    session'.asked = asked :: session.asked ∧
    ExecutorManager.apply (createRoleInfo asked.text) (.rows []) = some done ∧ done.executed = [sql] ∧
    readInsert sql = some values ∧ server.row before roleId = none ∧ server.execute before sql = table ∧
    (server.row table roleId).isSome

variable {server : RoleServer} {w : LoginWorld} {roleId : UInt64} {table : server.Table}

/-- The row that was inserted has no resources. -/
theorem Inserted.columns (hserver : server.Documented) (h : server.Inserted w roleId table) :
    ∃ columns, server.row table roleId = some columns ∧ columns.resources = [] := by
  obtain ⟨_, _, _, _, _, _, _, _, sql, _, before, _, _, _, _, _, hread, hnew, rfl, hrow⟩ := h
  obtain ⟨columns, hcolumns⟩ := Option.isSome_iff_exists.mp hrow
  exact ⟨columns, hcolumns, hserver.unnamed hread hnew hcolumns⟩

end RoleServer

/-! ## Loading -/

/-- What `on_load_role_callback` makes of the columns, each returned as it is stored. -/
structure Reloaded where
  level : Int
  buildings : List BuildingInfo
  resources : List ResourceInfo

def RoleColumns.reload (columns : RoleColumns) : Option Reloaded :=
  (bstr2DynamicStruct sizeofBuildingInfo (cstr columns.buildings)).bind fun buildings =>
  (bstr2DynamicStruct sizeofResourceInfo (cstr columns.resources)).map fun resources =>
  { level := columns.level, buildings := buildings.map BuildingInfo.ofBytes
    resources := resources.map ResourceInfo.ofBytes }

namespace RoleInfo

/-- Whatever an allocation holds at first: the role is saved, the DB process executes the whole statement, and the row
    is loaded again with the role's level, buildings and resources. -/
def Survives (server : RoleServer) (m : Memory) (now : DbTime) (table : server.Table) (data : RoleInfo) : Prop :=
  ∀ fresh, ∃ text fields condition done columns loaded, buildingText m fresh now data.buildings = some text ∧
    data.save m fresh now = some (fields, condition) ∧
    ExecutorManager.apply (saveInfo fields condition) (.rows []) = some done ∧ done.executed = [data.wholeSql text] ∧
    server.row (done.executed.foldl server.execute table) (UInt64.ofNat data.roleId) = some columns ∧
    columns.reload = some loaded ∧
    loaded.level = data.level.toInt ∧ loaded.buildings = data.buildings ∧ loaded.resources = data.resources

/-- There are no resources, and between 1 and 40 buildings, the level is one of a `tinyint`, and the allocation has the
    three bytes that the encoder writes behind its end. -/
def Survivable (m : Memory) (data : RoleInfo) : Prop :=
  data.resources = [] ∧ 0 < data.buildings.length ∧ data.buildings.length ≤ 40 ∧
  -128 ≤ data.level.toInt ∧ data.level.toInt ≤ 127 ∧
  48 * data.buildings.length + 21 ≤ m.usable (48 * data.buildings.length + 18)

variable {server : RoleServer} {w : LoginWorld} {m : Memory} {now : DbTime} {table : server.Table} {data : RoleInfo}
  {buildings : List BuildingInfo}

/-- A row with the text of up to 2000 buildings is loaded again. -/
theorem reload_eq {columns : RoleColumns} (hbuildings : columns.buildings = dynamicText now (images m buildings))
    (hle : buildings.length ≤ 2000) (hresources : columns.resources = []) :
    columns.reload = some ⟨columns.level, buildings, []⟩ := by
  have hlen := images_length m buildings
  have hread := bstr2DynamicStruct_dynamicText now (images m buildings) (by rw [hlen, sizeofBuildingInfo]; omega)
    (by omega)
  rw [RoleColumns.reload, hbuildings, hresources, cstr_eq_self (nulFree_dynamicText now _), hread, Option.bind_some,
    ofBytes_images]
  rfl

theorem reload_level {columns : RoleColumns} {loaded : Reloaded} (h : columns.reload = some loaded) :
    loaded.level = columns.level := by
  obtain ⟨_, _, h⟩ := Option.bind_eq_some_iff.mp h
  obtain ⟨_, _, rfl⟩ := Option.map_eq_some_iff.mp h
  rfl

/-- One digit is too short for a head. -/
theorem reload_digit {columns : RoleColumns} (h : columns.buildings = [49]) : columns.reload = none := by
  have hread : bstr2DynamicStruct sizeofBuildingInfo (cstr [49]) = none := by decide
  rw [RoleColumns.reload, h, hread, Option.bind_none]

/-- A plain text of the buildings is stored, and the level, in a row that has been inserted. -/
theorem row_wholeSql (hserver : server.Documented) (hinserted : server.Inserted w (UInt64.ofNat data.roleId) table)
    (hlevel : -128 ≤ data.level.toInt ∧ data.level.toInt ≤ 127) {text : List UInt8} (htext : plain text = true)
    (hascii : ∀ c ∈ text, c < 128) (hlen : text.length ≤ 10000) :
    ∃ columns, server.row (server.execute table (data.wholeSql text)) (UInt64.ofNat data.roleId) = some columns ∧
      columns.level = data.level.toInt ∧ columns.buildings = text ∧ columns.resources = [] := by
  obtain ⟨columns, hcolumns, hresources⟩ := hinserted.columns hserver
  exact ⟨_, hserver.updated (readUpdate_wholeSql data htext) hcolumns hlevel.1 hlevel.2 hascii hlen, rfl, rfl, hresources⟩

theorem survivable_of_survives (hserver : server.Documented)
    (hinserted : server.Inserted w (UInt64.ofNat data.roleId) table) (h : Survives server m now table data) :
    Survivable m data := by
  -- the allocation may hold one digit at first, which an empty list leaves there
  obtain ⟨text, fields, condition, done, columns, loaded, htext, _, hdone, hwhole, hrow, hreload, hlevel, hbuildings,
    hresources⟩ := h fun i => if i = 0 then 49 else 0
  rw [hwhole, List.foldl_cons, List.foldl_nil] at hrow
  have hrange : -128 ≤ data.level.toInt ∧ data.level.toInt ≤ 127 := by
    rw [← hlevel, reload_level hreload]
    exact hserver.tinyint hrow
  have hne : data.buildings ≠ [] := by
    intro hnil
    rw [hnil] at htext
    rw [buildingText_nil (by decide) htext] at hrow
    have hplain : plain [49] = true := by decide
    have hascii : ∀ c ∈ ([49] : List UInt8), c < 128 := List.forall_mem_singleton.mpr (by decide)
    obtain ⟨columns', hrow', _, hdigit, _⟩ := row_wholeSql hserver hinserted hrange hplain hascii (by decide)
    rw [hrow] at hrow'
    cases hrow'
    rw [reload_digit hdigit] at hreload
    cases hreload
  obtain ⟨rfl, hroom⟩ := buildingText_spec hne htext
  have hshort : (data.wholeSql (dynamicText now (images m data.buildings))).length < sizeofSql := by
    obtain ⟨hexecuted, hlen⟩ := ExecutorManager.apply_update hdone
    rw [hwhole] at hexecuted
    rw [List.singleton_inj.mp hexecuted]
    exact hlen
  rw [wholeSql_length, dynamicText_length, images_length, sizeofBuildingInfo, sizeofSql] at hshort
  have hdigits : 0 < (decimalInt data.level.toInt).length := by
    unfold decimalInt
    split
    · exact Nat.succ_pos _
    · exact List.length_pos_of_ne_nil (decimal_ne_nil _)
  have hid := List.length_pos_of_ne_nil (decimal_ne_nil (UInt64.ofNat data.roleId).toNat)
  have hpos := List.length_pos_of_ne_nil hne
  have hle : data.buildings.length ≤ 40 := by omega
  rw [binaryStringMaxLen_eq hpos hle] at hroom
  obtain ⟨columns', hrow', _, htext', hnone⟩ := row_wholeSql hserver hinserted hrange
    (plain_dynamicText now (images m data.buildings)) (ascii_dynamicText now _) (by
      rw [dynamicText_length, images_length, sizeofBuildingInfo]
      omega)
  rw [hrow] at hrow'
  cases hrow'
  rw [reload_eq htext' (by omega) hnone] at hreload
  cases hreload
  exact ⟨hresources.symm, hpos, hle, hrange.1, hrange.2, hroom⟩

theorem survives_of_survivable (hserver : server.Documented)
    (hinserted : server.Inserted w (UInt64.ofNat data.roleId) table) (h : Survivable m data) :
    Survives server m now table data := by
  obtain ⟨hresources, hpos, hle, hlow, hhigh, hroom⟩ := h
  intro fresh
  have htext : buildingText m fresh now data.buildings = _ := buildingText_eq hpos hle hroom
  have htextLen : (dynamicText now (images m data.buildings)).length = 20 + 48 * data.buildings.length := by
    rw [dynamicText_length, images_length, sizeofBuildingInfo]
    omega
  have htextLe : (dynamicText now (images m data.buildings)).length ≤ 1940 := by omega
  obtain ⟨hfields, hcondition, hshort⟩ := save_lengths data htextLe ⟨hlow, hhigh⟩
  have hfieldsFree : NulFree (data.saveFields _) :=
    nulFree_saveFields (nulFree_dynamicText now (images m data.buildings))
  have hconditionFree := nulFree_roleCondition (UInt64.ofNat data.roleId)
  have htable : cstr (ascii "role") = ascii "role" := by decide
  have hdone : ∃ done, ExecutorManager.apply (saveInfo
      (data.saveFields (dynamicText now (images m data.buildings))) (roleCondition (UInt64.ofNat data.roleId)))
      (.rows []) = some done := by
    apply Option.isSome_iff_exists.mp
    apply ExecutorManager.apply_update_isSome_iff.mpr
    rw [htable, cstr_eq_self hfieldsFree, cstr_eq_self hconditionFree]
    exact hshort
  obtain ⟨done, hdone⟩ := hdone
  have hexecuted : done.executed = [data.wholeSql (dynamicText now (images m data.buildings))] := by
    rw [(ExecutorManager.apply_update hdone).1, htable, cstr_eq_self hfieldsFree, cstr_eq_self hconditionFree]
    rfl
  obtain ⟨columns, hrow, hlevel, hbuildings, hnone⟩ := row_wholeSql hserver hinserted ⟨hlow, hhigh⟩
    (plain_dynamicText now (images m data.buildings)) (ascii_dynamicText now _) (by omega)
  refine ⟨_, _, _, done, columns, ⟨columns.level, data.buildings, []⟩, htext, ?_, hdone, hexecuted, ?_,
    reload_eq hbuildings (by omega) hnone, hlevel, rfl, hresources.symm⟩
  · rw [save, htext, Option.map_some, mwToString_eq_self hfields, mwToString_eq_self hcondition]
  · rw [hexecuted, List.foldl_cons, List.foldl_nil, hrow]

/-- **What survives.** On whatever server: a role whose insertion by `create_role` was taken is saved and loaded again
    with its level, its buildings and its resources, and no statement is cut off, if and only if it has no resources,
    from 1 to 40 buildings, a level that a `tinyint` admits, and an allocator that reserves three bytes more than it was
    asked for. -/
theorem survives_iff (server : RoleServer) (hserver : server.Documented) (w : LoginWorld) (m : Memory) (now : DbTime)
    (data : RoleInfo) (table : server.Table) (hinserted : server.Inserted w (UInt64.ofNat data.roleId) table) :
    Survives server m now table data ↔ Survivable m data :=
  ⟨survivable_of_survives hserver hinserted, survives_of_survivable hserver hinserted⟩

end RoleInfo

/-! ## A server that is not strict -/

namespace RoleServer

/-- A value that is out of range is stored as the nearest that is not. -/
def clip (v : Int) : Int := max (-128) (min 127 v)

theorem clip_mem (v : Int) : -128 ≤ clip v ∧ clip v ≤ 127 := by
  rw [clip]
  omega

theorem clip_eq {v : Int} (hlow : -128 ≤ v) (hhigh : v ≤ 127) : clip v = v := by
  rw [clip]
  omega

/-- The rows of a table `role`; a level is within its range. -/
def Rows : Type := { rows : UInt64 → Option RoleColumns //
  ∀ {roleId columns}, rows roleId = some columns → -128 ≤ columns.level ∧ columns.level ≤ 127 }

namespace Rows

def empty : Rows := ⟨fun _ => none, nofun⟩

/-- The row of an insertion: a longer string is cut off, and `resources` gets the default of a string. -/
def inserted (values : RoleValues) : RoleColumns :=
  ⟨clip values.sex, clip values.level, values.roleName.take 50, values.buildings.take 10000, []⟩

/-- A row that is there keeps its key. -/
def insert (rows : Rows) (values : RoleValues) : Rows :=
  ⟨fun roleId => if rows.1 roleId = none ∧ decimal roleId.toNat = values.roleId then some (inserted values)
    else rows.1 roleId, fun {roleId columns} h => by
      dsimp only at h
      split at h
      · cases h
        exact clip_mem values.level
      · exact rows.2 h⟩

def update (rows : Rows) (level : Int) (buildings key : List UInt8) : Rows :=
  ⟨fun roleId => if decimal roleId.toNat = key then
      (rows.1 roleId).map fun columns => { columns with level := clip level, buildings := buildings.take 10000 }
    else rows.1 roleId, fun {roleId columns} h => by
      dsimp only at h
      split at h
      · obtain ⟨_, _, rfl⟩ := Option.map_eq_some_iff.mp h
        exact clip_mem level
      · exact rows.2 h⟩

/-- Other statements are not looked at. -/
def execute (rows : Rows) (sql : List UInt8) : Rows :=
  match readUpdate sql with
  | some (level, buildings, key) => rows.update level buildings key
  | none =>
    match readInsert sql with
    | some values => rows.insert values
    | none        => rows

end Rows

/-- The server with an empty `sql_mode`. -/
def lax : RoleServer := ⟨Rows, Rows.execute, fun rows => rows.1⟩

/-- A statement is read in one way. -/
theorem readUpdate_eq_none {sql : List UInt8} {values : RoleValues} (h : readInsert sql = some values) :
    readUpdate sql = none := by
  have hhead : sql.head? ≠ some 117 := by
    intro hhead
    have hinsert : readInsert sql = none := by
      have hfirst : ascii "insert into role (account_id, role_id, sex, level, role_name, buildings) values ('" =
          105 :: ascii "nsert into role (account_id, role_id, sex, level, role_name, buildings) values ('" := rfl
      rw [readInsert, hfirst, expect_eq_none (by rw [hhead]; decide), Option.bind_none]
    rw [h] at hinsert
    cases hinsert
  have hfirst : ascii "update role set level = " = 117 :: ascii "pdate role set level = " := rfl
  rw [readUpdate, hfirst, expect_eq_none hhead, Option.bind_none]

namespace Rows

variable {rows : Rows} {sql : List UInt8} {roleId : UInt64} {columns : RoleColumns} {values : RoleValues}

theorem execute_insert (h : readInsert sql = some values) : rows.execute sql = rows.insert values := by
  rw [execute, readUpdate_eq_none h, h]

/-- A new row has no resources. -/
theorem execute_unnamed (hread : readInsert sql = some values) (hnone : rows.1 roleId = none)
    (hrow : (rows.execute sql).1 roleId = some columns) : columns.resources = [] := by
  rw [execute_insert hread] at hrow
  dsimp only [insert] at hrow
  split at hrow
  · cases hrow
    rfl
  · rw [hnone] at hrow
    cases hrow

theorem execute_updated {level : Int} {buildings : List UInt8}
    (hread : readUpdate sql = some (level, buildings, decimal roleId.toNat)) (hrow : rows.1 roleId = some columns)
    (hlow : -128 ≤ level) (hhigh : level ≤ 127) (hlen : buildings.length ≤ 10000) :
    (rows.execute sql).1 roleId = some { columns with level := level, buildings := buildings } := by
  rw [execute, hread]
  dsimp only [update]
  rw [if_pos rfl, hrow, Option.map_some, clip_eq hlow hhigh, List.take_of_length_le hlen]

theorem insert_row (hnone : rows.1 roleId = none) (hkey : decimal roleId.toNat = values.roleId) :
    (rows.insert values).1 roleId = some (inserted values) := if_pos ⟨hnone, hkey⟩

end Rows

theorem lax_documented : lax.Documented :=
  ⟨Rows.execute_unnamed, fun hread hrow hlow hhigh _ hlen => Rows.execute_updated hread hrow hlow hhigh hlen,
    fun {table _ _} h => table.2 h⟩

theorem lax_row_execute (rows : Rows) (sql : List UInt8) (roleId : UInt64) :
    lax.row (lax.execute rows sql) roleId = (rows.execute sql).1 roleId := rfl

/-- An account whose role is not created yet. -/
def newSession : LoginSession := .created ⟨1, .fill userIdLen 0, 1, 1, 0, .fill roleNameLen 0⟩

/-- An allocator that rounds up; a null pointer is printed as glibc does. -/
def newWorld : LoginWorld := ⟨⟨fun n => n + 8, fun _ _ => 0, fun _ _ => 0⟩, 1, fun sex =>
  if sex = 0 then some (ascii "(null)") else none⟩

def newTime : DbTime := ⟨1, 2, 3, 4, 5⟩

/-- The insertion of a role named `ab`. -/
def newInsertion : List UInt8 :=
  insertText 1 1 0 (ascii "ab") (dynamicText newTime (RoleInfo.images newWorld.memory RoleInfo.initialBuildings))

def newTable : lax.Table := lax.execute Rows.empty newInsertion

theorem lax_inserted : lax.Inserted newWorld 1 newTable := by
  have hfits : LoginSession.RoleFits newWorld 0 (ascii "ab") := by
    refine ⟨by decide, by decide, by decide, by decide, by decide⟩
  obtain ⟨session', asked, done, hcreate, hasked, hdone, hexecuted⟩ := @createRole_statement newWorld newSession 0
    (ascii "ab") hfits newTime fun _ => 0
  have hread : readInsert newInsertion = some _ := readInsert_insertText (by decide)
    (RoleInfo.plain_dynamicText newTime (RoleInfo.images newWorld.memory RoleInfo.initialBuildings))
  have hexecuted : done.executed = [newInsertion] := hexecuted
  refine ⟨newSession, 0, ascii "ab", newTime, fun _ => 0, session', asked, done, _, _, Rows.empty, rfl, hcreate, hasked,
    hdone, hexecuted, hread, rfl, rfl, ?_⟩
  rw [newTable, lax_row_execute, Rows.execute_insert hread, Rows.insert_row rfl rfl]
  rfl

end RoleServer

namespace RoleInfo

open RoleServer

/-- Two buildings, one of them upgraded, and no resources. -/
theorem survives_iff_two : Survives lax newWorld.memory newTime newTable
    { roleId := 1, level := -3
      buildings := [{ buildingType := 1, buildingIndex := 2 },
        { buildingType := 3, buildingIndex := 12, buildingLevel := 4 }] } :=
  (survives_iff lax lax_documented newWorld _ _ _ _ lax_inserted).mpr (by
    refine ⟨rfl, by decide, by decide, by decide, by decide, by decide⟩)

/-- One resource is not there when the role is loaded again. -/
theorem resources_lost : lax.Documented ∧ lax.Inserted newWorld 1 newTable ∧
    ¬ Survives lax newWorld.memory newTime newTable
      { roleId := 1, level := 1, buildings := initialBuildings, resources := [⟨1, 100⟩] } := by
  refine ⟨lax_documented, lax_inserted, fun h => ?_⟩
  have hnone := (survivable_of_survives lax_documented lax_inserted h).1
  cases hnone

end RoleInfo

end Mowang
