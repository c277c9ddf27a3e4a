import Mowang.Base.Json
import Mowang.Share.StringCommon
import Mowang.Gate.WsTransfer
import Mowang.Game.LoadRole
import Mowang.Game.RoleData

/-!
# `Game.ClientReplies` — what WebSocket clients are told

The texts of `account` and `role` for `call_ws_client`, from the formats the source has, and what each of them reports.
A client gets a reply if the frame the gate pushes for it is one JSON text between the two control characters, and reads
back as the report.

## Contents
- `ClientReply`, `ClientReply.text`, `ClientReply.report`, `ClientReply.Faithful`.
- `gxToString_object`: formats that print a flat object.
- `ClientReply.faithful_iff`.
-/

namespace Mowang

open Json

/-- The number of an `EErrorCode`. -/
def ErrorCode.value : ErrorCode → ℤ
  | success => 1
  | failed => 2
  | buildingNotExist => 2001
  | buildingTypeNotExist => 2002
  | buildingLock => 2003
  | buildingSameIndex => 2004
  | buildingResourceNotEnough => 2005
  | buildingIncomeTooShort => 2006

def errLoginFailedByRelay : ℤ := 1001

/-- A role in memory: its ids have 64 bits, and its name an array. -/
structure RoleState extends RoleInfo where
  accountId_lt : accountId < 2 ^ 64
  roleId_lt : roleId < 2 ^ 64
  roleName_length : roleName.length = roleNameLen

inductive ClientReply
  /-- `kick_role`, and `role::on_relay_ready`. -/
  | kick
  /-- `on_load_role_callback`, for an account without a role. -/
  | askCreateRole
  /-- `account::on_relay_ready`, and `on_register_role`. -/
  | loginFailed
  /-- `account::create_role`. -/
  | createRole (sex : UInt8) (roleName : List UInt8)
  /-- `on_login_success`. -/
  | loginSuccess (data : RoleState)
  /-- `notify_update_resource`. -/
  | updateResource (data : RoleState)
  /-- `notify_update_building`. -/
  | updateBuilding (b : BuildingInfo)
  | incomeResource (retCode : ErrorCode) (index : UInt16)
  | buildBuilding (retCode : ErrorCode) (index type : UInt16)
  | upBuildingLevel (retCode : ErrorCode) (index : UInt16)

/-! ## The texts -/

/-- What `%s` prints of an array: without a NUL in it, `vsnprintf` leaves the array. -/
def arrayString (cells : List UInt8) : Option (List UInt8) := if 0 ∈ cells then some (cstr cells) else none

def resourceText (r : ResourceInfo) : Option (List UInt8) :=
  gxToString "\x7b\"type\": %d, \"num\": %d\x7d" [.int r.resourceType.toNat, .int r.resourceNum.toInt]

/-- The last eight arguments of both formats for a building. -/
def buildingArgs (cfg : Config) (b : BuildingInfo) : List PrintfArg :=
  let resourceSpeed := RoleInfo.getResourceSpeed cfg b.buildingType b.buildingLevel
  [.int b.buildingIndex.toNat, .int b.buildingType.toNat, .int b.buildingLevel.toInt,
    .int b.resourceData.resourceType.toNat, .int b.resourceData.resourceNum.toInt, .int resourceSpeed.resourceNum.toInt,
    .uint b.startTime.toNat, .uint b.incomeTime.toNat]

def buildingFormat : String :=
  "\x7b\"index\": %d, \"type\": %d, \"level\": %d, \"resource_type\": %d, " ++
    "\"resource_num\": %d, \"speed\": %d, \"start_time\": %u, \"income_time\": %u\x7d"

def buildingText (cfg : Config) (b : BuildingInfo) : Option (List UInt8) := gxToString buildingFormat (buildingArgs cfg b)

/-- The loops over buildings and resources: `", "` before every text but the first. -/
def listText {α : Type} (text : α → Option (List UInt8)) (l : List α) : Option (List UInt8) :=
  (l.mapM text).map (ascii ", ").intercalate

def loginFormat : String :=
  "\x7b\"cmd\": \"login\", \"ret_code\": %d, \"account_id\": %llu, \"role_id\": %llu, " ++
    "\"level\": %d, \"sex\": %d, \"role_name\": \"%s\""

def loginText (cfg : Config) (data : RoleInfo) : Option (List UInt8) :=
  (arrayString data.roleName).bind fun roleName =>
  (gxToString loginFormat
    [.int ErrorCode.success.value, .ulong data.accountId, .ulong data.roleId, .int data.level.toInt, .int data.sex.toNat,
      .str roleName]).bind fun msg =>
  (listText (buildingText cfg) data.buildings).bind fun buildings =>
  (listText resourceText data.resources).map fun resources =>
  msg ++ (ascii ",\"buildings\": [" ++ buildings) ++ ascii "]" ++ (ascii ",\"resources\": [" ++ resources) ++
    ascii "]\x7d"

def updateResourceText (resources : List ResourceInfo) : Option (List UInt8) :=
  (listText resourceText resources).map fun resources =>
  ascii "\x7b\"cmd\": \"update_resource\",\"resources\": [" ++ resources ++ ascii "]\x7d"

def updateBuildingFormat : String :=
  "\x7b\"cmd\": \"update_building\", \"index\": %d, \"type\": %d, \"level\": %d, \"resource_type\": %d, " ++
    "\"resource_num\": %d, \"speed\": %d, \"start_time\": %u, \"income_time\": %u\x7d"

namespace ClientReply

def text (cfg : Config) : ClientReply → Option (List UInt8)
  | kick                 => gxToString "\x7b\"cmd\": \"kick\"\x7d" []
  | askCreateRole        => gxToString "\x7b\"cmd\": \"create_role\"\x7d" []
  | loginFailed          => gxToString "\x7b\"cmd\": \"login\", \"ret_code\": %d\x7d" [.int errLoginFailedByRelay]
  | createRole sex roleName =>
    -- the name and the sex are passed for each other's directive
    gxToString "\x7b\"cmd\": \"create_role\", \"ret_code\": %d, \"role_name\": %s, \"sex\": %d\x7d"
      [.int ErrorCode.success.value, .int sex.toNat, .str roleName]
  | loginSuccess data    => loginText cfg data.toRoleInfo
  | updateResource data  => updateResourceText data.resources
  | updateBuilding b     => gxToString updateBuildingFormat (buildingArgs cfg b)
  | incomeResource retCode index =>
    gxToString "\x7b\"cmd\": \"income_resource\", \"ret_code\": %d, \"index\": %d\x7d"
      [.int retCode.value, .int index.toNat]
  | buildBuilding retCode index type =>
    gxToString "\x7b\"cmd\": \"build_building\", \"ret_code\": %d, \"index\": %d, \"type\": %d\x7d"
      [.int retCode.value, .int index.toNat, .int type.toNat]
  | upBuildingLevel retCode index =>
    gxToString "\x7b\"cmd\": \"up_building_level\", \"ret_code\": %d, \"index\": %d\x7d"
      [.int retCode.value, .int index.toNat]

end ClientReply

/-! ## What is reported -/

def ResourceInfo.report (r : ResourceInfo) : Json :=
  .obj [(ascii "type", .int r.resourceType.toNat), (ascii "num", .int r.resourceNum.toInt)]

def BuildingInfo.reportFields (cfg : Config) (b : BuildingInfo) : List (List UInt8 × Json) :=
  [(ascii "index", .int b.buildingIndex.toNat), (ascii "type", .int b.buildingType.toNat),
    (ascii "level", .int b.buildingLevel.toInt), (ascii "resource_type", .int b.resourceData.resourceType.toNat),
    (ascii "resource_num", .int b.resourceData.resourceNum.toInt),
    (ascii "speed", .int (RoleInfo.getResourceSpeed cfg b.buildingType b.buildingLevel).resourceNum.toInt),
    (ascii "start_time", .int b.startTime.toNat), (ascii "income_time", .int b.incomeTime.toNat)]

namespace ClientReply

/-- The fields of a reply about a command. -/
def result (cmd : String) (retCode : ℤ) (fields : List (List UInt8 × Json)) : Json :=
  .obj ((ascii "cmd", .str (ascii cmd)) :: (ascii "ret_code", .int retCode) :: fields)

def report (cfg : Config) : ClientReply → Json
  | kick                             => .obj [(ascii "cmd", .str (ascii "kick"))]
  | askCreateRole                    => .obj [(ascii "cmd", .str (ascii "create_role"))]
  | loginFailed                      => result "login" errLoginFailedByRelay []
  | createRole sex roleName          =>
    result "create_role" ErrorCode.success.value
      [(ascii "role_name", .str roleName), (ascii "sex", .int sex.toNat)]
  | loginSuccess data                =>
    result "login" ErrorCode.success.value
      [(ascii "account_id", .int data.accountId), (ascii "role_id", .int data.roleId),
        (ascii "level", .int data.level.toInt), (ascii "sex", .int data.sex.toNat),
        (ascii "role_name", .str (cstr data.roleName)),
        (ascii "buildings", .arr (data.buildings.map fun b => .obj (b.reportFields cfg))),
        (ascii "resources", .arr (data.resources.map ResourceInfo.report))]
  | updateResource data              =>
    .obj [(ascii "cmd", .str (ascii "update_resource")),
      (ascii "resources", .arr (data.resources.map ResourceInfo.report))]
  | updateBuilding b                 => .obj ((ascii "cmd", .str (ascii "update_building")) :: b.reportFields cfg)
  | incomeResource retCode index     => result "income_resource" retCode.value [(ascii "index", .int index.toNat)]
  | buildBuilding retCode index type =>
    result "build_building" retCode.value [(ascii "index", .int index.toNat), (ascii "type", .int type.toNat)]
  | upBuildingLevel retCode index    => result "up_building_level" retCode.value [(ascii "index", .int index.toNat)]

/-- The gate pushes one frame for the client, and it reads back as the report. -/
def Faithful (client : RpcClient) (clientId : SocketIndex) (cfg : Config) (r : ClientReply) : Prop :=
  ∃ json, (r.text cfg).bind (wsFrames client clientId) =
      some [⟨clientId, startCharacter :: (json ++ [endCharacter])⟩] ∧
    startCharacter ∉ json ∧ endCharacter ∉ json ∧ Json.parse json = some (r.report cfg)

end ClientReply

/-! ## Formats of flat objects -/

/-- A short text of printable ASCII that needs no escapes. -/
def GoodName (s : List UInt8) : Prop := s.length ≤ 24 ∧ ∀ c ∈ s, Plain c ∧ c < 0x80

instance (s : List UInt8) : Decidable (GoodName s) :=
  @instDecidableAnd _ _ _ (List.decidableBAll (fun c => Plain c ∧ c < 0x80) s)

/-- The names of members and of commands. -/
def replyNames : List String :=
  ["cmd", "ret_code", "account_id", "role_id", "level", "sex", "role_name", "buildings", "resources", "index", "type",
    "resource_type", "resource_num", "speed", "start_time", "income_time", "num", "kick", "create_role", "login",
    "update_resource", "update_building", "income_resource", "build_building", "up_building_level"]

theorem goodName {name : String} (h : name ∈ replyNames) : GoodName (ascii name) := by
  have hall : ∀ name ∈ replyNames, GoodName (ascii name) := forall_of_all (by decide +kernel)
  exact hall name h

theorem GoodName.plain {s : List UInt8} (h : GoodName s) : ∀ c ∈ s, Plain c := fun c hc => (h.2 c hc).1

theorem GoodName.bytes {s : List UInt8} (h : GoodName s) {P : UInt8 → Prop} (hP : ∀ c, 32 ≤ c → c < 0x80 → P c) :
    ∀ c ∈ s, P c := fun c hc => hP c (h.2 c hc).1.1 (h.2 c hc).2

/-- A member that is printed and read back, in printable ASCII. -/
def GoodField (f : List UInt8 × Scalar) : Prop :=
  GoodName f.1 ∧
    match f.2 with
    | .int v => v.natAbs < 10 ^ 20
    | .nat v => v < 10 ^ 20
    | .str s => GoodName s

section GoodFields

variable {fields : List (List UInt8 × Scalar)} (h : ∀ f ∈ fields, GoodField f)

include h

theorem cleanFields_of_good : CleanFields fields := by
  rintro ⟨key, x⟩ hf
  obtain ⟨hkey, hx⟩ := h _ hf
  refine ⟨hkey.plain, ?_⟩
  cases x with
  | int v => trivial
  | nat v => trivial
  | str s => exact GoodName.plain hx

theorem bytes_of_good {P : UInt8 → Prop} (hP : ∀ c, 32 ≤ c → c < 0x80 → P c) :
    ∀ f ∈ fields, (∀ c ∈ f.1, P c) ∧ ∀ s, f.2 = .str s → ∀ c ∈ s, P c := by
  rintro ⟨key, x⟩ hf
  obtain ⟨hkey, hx⟩ := h _ hf
  refine ⟨hkey.bytes hP, ?_⟩
  rintro s rfl
  exact GoodName.bytes hx hP

theorem length_of_good : (fields.map fun f => f.1.length + f.2.width + 6).sum ≤ 56 * fields.length := by
  induction fields with
  | nil => exact Nat.zero_le _
  | cons f fields ih =>
      obtain ⟨⟨hkey, hx⟩, hrest⟩ := List.forall_mem_cons.mp h
      have hlen := hkey.1
      have hwidth : f.2.width ≤ 26 := by
        unfold Scalar.width
        cases hf : f.2 with
        | int v =>
            rw [hf] at hx
            exact Nat.le_trans (decimalInt_length_le (by decide) hx) (by decide)
        | nat v =>
            rw [hf] at hx
            exact Nat.le_trans (decimal_length_le (by decide) hx) (by decide)
        | str s =>
            rw [hf] at hx
            exact Nat.add_le_add_right hx.1 2
      have hsum := ih hrest
      rw [List.map_cons, List.sum_cons, List.length_cons]
      omega

end GoodFields

theorem gxToString_object {fmt : String} {args : List PrintfArg} {fields : List (List UInt8 × Scalar)}
    {last : List UInt8 × Scalar} (h : printf fmt.toList args = some (objectText fields last []))
    (hgood : ∀ f ∈ fields ++ [last], GoodField f) (hshort : fields.length < 32) :
    gxToString fmt args = some (objectText fields last []) := by
  apply gxToString_eq_some h
  have hlen := length_of_good hgood
  rw [objectText_length, List.length_nil]
  rw [List.length_append, List.length_singleton] at hlen
  omega

section Fields

variable {name : String} (hname : name ∈ replyNames)

include hname

theorem goodField_int {v : ℤ} (hlow : -2 ^ 31 ≤ v) (hhigh : v < 2 ^ 31) : GoodField (ascii name, .int v) :=
  ⟨goodName hname, show v.natAbs < 10 ^ 20 by omega⟩

theorem goodField_uint8 (v : UInt8) : GoodField (ascii name, .int v.toNat) := by
  have hv := v.toNat_lt
  exact goodField_int hname (by omega) (by omega)

theorem goodField_uint16 (v : UInt16) : GoodField (ascii name, .int v.toNat) := by
  have hv := v.toNat_lt
  exact goodField_int hname (by omega) (by omega)

theorem goodField_int16 (v : Int16) : GoodField (ascii name, .int v.toInt) := by
  have hlow := v.le_toInt
  have hhigh := v.toInt_lt
  exact goodField_int hname (by omega) (by omega)

theorem goodField_int32 (v : Int32) : GoodField (ascii name, .int v.toInt) :=
  goodField_int hname v.le_toInt v.toInt_lt

theorem goodField_code (c : ErrorCode) : GoodField (ascii name, .int c.value) := by
  cases c <;> exact goodField_int hname (by decide) (by decide)

theorem goodField_nat {v : Nat} (hv : v < 2 ^ 64) : GoodField (ascii name, .nat v) :=
  ⟨goodName hname, Nat.lt_trans hv (by decide)⟩

theorem goodField_str {s : String} (hs : s ∈ replyNames) : GoodField (ascii name, .str (ascii s)) :=
  ⟨goodName hname, goodName hs⟩

end Fields

def ResourceInfo.fields (r : ResourceInfo) : List (List UInt8 × Scalar) := [(ascii "type", .int r.resourceType.toNat)]

def ResourceInfo.lastField (r : ResourceInfo) : List UInt8 × Scalar := (ascii "num", .int r.resourceNum.toInt)

theorem ResourceInfo.goodFields (r : ResourceInfo) : ∀ f ∈ r.fields ++ [r.lastField], GoodField f := by
  simp only [fields, lastField, List.cons_append, List.nil_append, List.forall_mem_cons]
  exact ⟨goodField_uint8 (by simp [replyNames]) _, goodField_int32 (by simp [replyNames]) _, List.forall_mem_nil _⟩

theorem resourceText_eq (r : ResourceInfo) : resourceText r = some (objectText r.fields r.lastField []) := by
  apply gxToString_object rfl r.goodFields
  simp [ResourceInfo.fields]

/-- The members of a building, but the last. -/
def BuildingInfo.fields (cfg : Config) (b : BuildingInfo) : List (List UInt8 × Scalar) :=
  [(ascii "index", .int b.buildingIndex.toNat), (ascii "type", .int b.buildingType.toNat),
    (ascii "level", .int b.buildingLevel.toInt), (ascii "resource_type", .int b.resourceData.resourceType.toNat),
    (ascii "resource_num", .int b.resourceData.resourceNum.toInt),
    (ascii "speed", .int (RoleInfo.getResourceSpeed cfg b.buildingType b.buildingLevel).resourceNum.toInt),
    (ascii "start_time", .nat b.startTime.toNat)]

def BuildingInfo.lastField (b : BuildingInfo) : List UInt8 × Scalar := (ascii "income_time", .nat b.incomeTime.toNat)

theorem BuildingInfo.goodFields (cfg : Config) (b : BuildingInfo) : ∀ f ∈ b.fields cfg ++ [b.lastField], GoodField f := by
  have hstart := b.startTime.toNat_lt
  have hincome := b.incomeTime.toNat_lt
  simp only [fields, lastField, List.cons_append, List.nil_append, List.forall_mem_cons]
  exact ⟨goodField_uint16 (by simp [replyNames]) _, goodField_uint16 (by simp [replyNames]) _,
    goodField_int16 (by simp [replyNames]) _, goodField_uint8 (by simp [replyNames]) _,
    goodField_int32 (by simp [replyNames]) _, goodField_int32 (by simp [replyNames]) _,
    goodField_nat (by simp [replyNames]) (by omega), goodField_nat (by simp [replyNames]) (by omega),
    List.forall_mem_nil _⟩

set_option maxRecDepth 4000 in
theorem buildingText_eq (cfg : Config) (b : BuildingInfo) :
    buildingText cfg b = some (objectText (b.fields cfg) b.lastField []) := by
  apply gxToString_object rfl (b.goodFields cfg)
  simp [BuildingInfo.fields]

/-! ## Lists -/

theorem listText_eq {α : Type} {text : α → Option (List UInt8)} {text' : α → List UInt8}
    (h : ∀ a, text a = some (text' a)) (l : List α) :
    listText text l = some ([44, 32].intercalate (l.map text')) := by
  have hall : l.mapM text = some (l.map text') := by
    induction l with
    | nil => rfl
    | cons a l ih =>
        rw [List.mapM_cons, h, ih]
        rfl
  rw [listText, hall, Option.map_some, show ascii ", " = [44, 32] by decide]

def resourceObject (r : ResourceInfo) : List UInt8 := objectText r.fields r.lastField []

def buildingObject (cfg : Config) (b : BuildingInfo) : List UInt8 := objectText (b.fields cfg) b.lastField []

theorem printedAs_resources (resources : List ResourceInfo) :
    List.Forall₂ PrintedAs (resources.map resourceObject) (resources.map ResourceInfo.report) := by
  rw [List.forall₂_map_left_iff, List.forall₂_map_right_iff, List.forall₂_same]
  intro r _
  exact printedAs_object (cleanFields_of_good r.goodFields)

theorem printedAs_buildings (cfg : Config) (buildings : List BuildingInfo) :
    List.Forall₂ PrintedAs (buildings.map (buildingObject cfg)) (buildings.map fun b => .obj (b.reportFields cfg)) := by
  rw [List.forall₂_map_left_iff, List.forall₂_map_right_iff, List.forall₂_same]
  intro b _
  exact printedAs_object (cleanFields_of_good (b.goodFields cfg))

/-- The text of a list, and of the array around it. -/
def arrayText (texts : List (List UInt8)) (tail : List UInt8) : List UInt8 :=
  91 :: ([44, 32].intercalate texts ++ 93 :: tail)

/-- How long a list of texts of these lengths is. -/
def listWidth (widths : List Nat) : Nat := widths.sum + 2 * (widths.length - 1)

theorem arrayText_length (texts : List (List UInt8)) (tail : List UInt8) :
    (arrayText texts tail).length = listWidth (texts.map List.length) + 2 + tail.length := by
  have hlist : ([44, 32].intercalate texts : List UInt8).length = listWidth (texts.map List.length) := by
    induction texts with
    | nil => rfl
    | cons t texts ih =>
        cases texts with
        | nil => simp [listWidth]
        | cons t' texts =>
            rw [List.intercalate_cons_cons, List.length_append, List.length_append, ih]
            simp only [listWidth, List.map_cons, List.sum_cons, List.length_cons, List.length_map, List.length_nil]
            omega
  simp only [arrayText, List.length_cons, List.length_append, hlist]
  omega

theorem forall_mem_arrayText {P : UInt8 → Prop} (hP : ∀ c, 32 ≤ c → c < 0x80 → P c) {texts : List (List UInt8)}
    (htexts : ∀ t ∈ texts, ∀ c ∈ t, P c) {tail : List UInt8} (htail : ∀ c ∈ tail, P c) :
    ∀ c ∈ arrayText texts tail, P c := by
  have hlist : ∀ c ∈ ([44, 32].intercalate texts : List UInt8), P c := by
    induction texts with
    | nil => exact List.forall_mem_nil _
    | cons t texts ih =>
        obtain ⟨ht, hrest⟩ := List.forall_mem_cons.mp htexts
        cases texts with
        | nil =>
            rw [List.intercalate_singleton]
            exact ht
        | cons t' texts =>
            rw [List.intercalate_cons_cons, List.forall_mem_append, List.forall_mem_append]
            refine ⟨⟨ht, ?_⟩, ih hrest⟩
            rw [List.forall_mem_cons, List.forall_mem_singleton]
            exact ⟨hP 44 (by decide) (by decide), hP 32 (by decide) (by decide)⟩
  rw [arrayText, List.forall_mem_cons, List.forall_mem_append, List.forall_mem_cons]
  exact ⟨hP 91 (by decide) (by decide), hlist, hP 93 (by decide) (by decide), htail⟩

theorem forall_mem_resourceObjects {P : UInt8 → Prop} (hP : ∀ c, 32 ≤ c → c < 0x80 → P c)
    (resources : List ResourceInfo) : ∀ t ∈ resources.map resourceObject, ∀ c ∈ t, P c := by
  intro t ht
  obtain ⟨r, _, rfl⟩ := List.mem_map.mp ht
  exact forall_mem_objectText hP (bytes_of_good r.goodFields hP) (List.forall_mem_nil _)

theorem forall_mem_buildingObjects {P : UInt8 → Prop} (hP : ∀ c, 32 ≤ c → c < 0x80 → P c) (cfg : Config)
    (buildings : List BuildingInfo) : ∀ t ∈ buildings.map (buildingObject cfg), ∀ c ∈ t, P c := by
  intro t ht
  obtain ⟨b, _, rfl⟩ := List.mem_map.mp ht
  exact forall_mem_objectText hP (bytes_of_good (b.goodFields cfg) hP) (List.forall_mem_nil _)

/-! ## The login reply -/

section Login

variable (cfg : Config) (data : RoleInfo)

/-- The members in front of the name. -/
def loginFields : List (List UInt8 × Scalar) :=
  [(ascii "cmd", .str (ascii "login")), (ascii "ret_code", .int ErrorCode.success.value),
    (ascii "account_id", .nat data.accountId), (ascii "role_id", .nat data.roleId),
    (ascii "level", .int data.level.toInt), (ascii "sex", .int data.sex.toNat)]

/-- What follows the name. -/
def loginTail : List UInt8 :=
  44 :: member (ascii "buildings") (arrayText (data.buildings.map (buildingObject cfg))
    (44 :: member (ascii "resources") (arrayText (data.resources.map resourceObject) [125])))

def loginObject : List UInt8 :=
  123 :: fieldsText (loginFields data)
    (member (ascii "role_name") (34 :: (cstr data.roleName ++ 34 :: loginTail cfg data)))

variable {cfg data}

theorem loginFields_good (haccount : data.accountId < 2 ^ 64) (hrole : data.roleId < 2 ^ 64) :
    ∀ f ∈ loginFields data, GoodField f := by
  simp only [loginFields, List.forall_mem_cons]
  exact ⟨goodField_str (by simp [replyNames]) (by simp [replyNames]), goodField_code (by simp [replyNames]) _,
    goodField_nat (by simp [replyNames]) haccount, goodField_nat (by simp [replyNames]) hrole,
    goodField_int16 (by simp [replyNames]) _, goodField_uint8 (by simp [replyNames]) _, List.forall_mem_nil _⟩

variable (data) in
set_option maxRecDepth 4000 in
theorem printf_login (name : List UInt8) :
    printf loginFormat.toList
      [.int ErrorCode.success.value, .ulong data.accountId, .ulong data.roleId, .int data.level.toInt,
        .int data.sex.toNat, .str name] =
      some (123 :: fieldsText (loginFields data) (member (ascii "role_name") ((Scalar.str name).text []))) := by
  exact rfl

theorem loginText_eq (haccount : data.accountId < 2 ^ 64) (hrole : data.roleId < 2 ^ 64)
    (hname : data.roleName.length = roleNameLen) (hnul : 0 ∈ data.roleName) :
    loginText cfg data = some (loginObject cfg data) := by
  have hshort : (123 :: fieldsText (loginFields data)
      (member (ascii "role_name") ((Scalar.str (cstr data.roleName)).text []))).length ≤ 2046 := by
    have hlen := cstr_length_le data.roleName
    have hfields := length_of_good (loginFields_good haccount hrole)
    have hkey : (ascii "role_name").length = 9 := by decide
    rw [hname, roleNameLen] at hlen
    rw [show (loginFields data).length = 6 from rfl] at hfields
    rw [List.length_cons, fieldsText_length, member_length, Scalar.text_length, hkey, List.length_nil]
    simp only [Scalar.width] at hfields ⊢
    omega
  have hbuildings : ascii ",\"buildings\": [" = 44 :: 34 :: (ascii "buildings" ++ [34, 58, 32, 91]) := by decide
  have hresources : ascii ",\"resources\": [" = 44 :: 34 :: (ascii "resources" ++ [34, 58, 32, 91]) := by decide
  rw [loginText, arrayString, if_pos hnul, Option.bind_some, gxToString_eq_some (printf_login data _) hshort,
    Option.bind_some, listText_eq (buildingText_eq cfg), Option.bind_some, listText_eq resourceText_eq, Option.map_some,
    hbuildings, hresources, show ascii "]" = [93] by decide, show ascii "]\x7d" = [93, 125] by decide]
  simp only [loginObject, loginTail, member, arrayText, Scalar.text, fieldsText_append, List.cons_append,
    List.append_assoc, List.nil_append]
  rfl

/-- The members behind the name. -/
theorem membersAt_loginTail (cfg : Config) (data : RoleInfo) :
    ∃ tail, loginTail cfg data = 44 :: tail ∧
      MembersAt tail [(ascii "buildings", .arr (data.buildings.map fun b => .obj (b.reportFields cfg))),
        (ascii "resources", .arr (data.resources.map ResourceInfo.report))] [] := by
  refine ⟨_, rfl, ?_⟩
  have hresources := valueAt_array (printedAs_resources data.resources) [125]
  have hbuildings := valueAt_array (printedAs_buildings cfg data.buildings)
    (44 :: member (ascii "resources") (arrayText (data.resources.map resourceObject) [125]))
  exact .cons [] (goodName (by simp [replyNames])).plain hbuildings (List.forall_mem_nil _)
    (.last (goodName (by simp [replyNames])).plain hresources)

theorem forall_mem_loginTail {P : UInt8 → Prop} (hP : ∀ c, 32 ≤ c → c < 0x80 → P c) (cfg : Config) (data : RoleInfo) :
    ∀ c ∈ loginTail cfg data, P c := by
  have hcomma : P 44 := hP 44 (by decide) (by decide)
  rw [loginTail, List.forall_mem_cons]
  refine ⟨hcomma, forall_mem_member hP ((goodName (by simp [replyNames])).bytes hP) ?_⟩
  apply forall_mem_arrayText hP (forall_mem_buildingObjects hP cfg _)
  rw [List.forall_mem_cons]
  refine ⟨hcomma, forall_mem_member hP ((goodName (by simp [replyNames])).bytes hP) ?_⟩
  apply forall_mem_arrayText hP (forall_mem_resourceObjects hP _)
  rw [List.forall_mem_singleton]
  exact hP 125 (by decide) (by decide)

/-- The text around the name. -/
theorem loginObject_eq (cfg : Config) (data : RoleInfo) :
    loginObject cfg data = (123 :: fieldsText (loginFields data) (member (ascii "role_name") [34])) ++
      (cstr data.roleName ++ 34 :: loginTail cfg data) := by
  simp only [loginObject, member, fieldsText_append, List.cons_append, List.append_assoc, List.nil_append]

/-- **The text of a login** is read back exactly if its name needs no escapes. -/
theorem parse_loginObject_iff (cfg : Config) (haccount : data.accountId < 2 ^ 64) (hrole : data.roleId < 2 ^ 64) :
    Json.parse (loginObject cfg data) =
        some (.obj (fieldsValue (loginFields data) ++ [(ascii "role_name", .str (cstr data.roleName)),
          (ascii "buildings", .arr (data.buildings.map fun b => .obj (b.reportFields cfg))),
          (ascii "resources", .arr (data.resources.map ResourceInfo.report))])) ↔
      (∀ c ∈ cstr data.roleName, Plain c) ∧ Utf8 (cstr data.roleName) := by
  have hgood := loginFields_good haccount hrole
  have hutf8 : Utf8 (loginObject cfg data) ↔ Utf8 (cstr data.roleName) := by
    rw [loginObject_eq]
    apply utf8_middle _ (by decide) (forall_mem_loginTail (fun _ _ h => h) cfg data)
    rw [List.forall_mem_cons]
    refine ⟨by decide, ?_⟩
    apply forall_mem_fieldsText (fun _ _ h => h) (bytes_of_good hgood fun _ _ h => h)
    exact forall_mem_member (fun _ _ h => h) ((goodName (by simp [replyNames])).bytes fun _ _ h => h)
      (List.forall_mem_singleton.mpr (by decide))
  constructor
  · intro hparse
    refine ⟨plain_of_parse (cleanFields_of_good hgood) (goodName (by simp [replyNames])).plain hparse, hutf8.mp ?_⟩
    by_contra hnot
    unfold Utf8 at hnot
    rw [Json.parse, if_neg hnot] at hparse
    cases hparse
  · rintro ⟨hplain, hname⟩
    apply parse_eq_some _ (hutf8.mpr hname)
    obtain ⟨tail, htail, hmembers⟩ := membersAt_loginTail cfg data
    have hkey : ∀ c ∈ ascii "role_name", Plain c := (goodName (by simp [replyNames])).plain
    have hvalue := valueAt_str hplain (loginTail cfg data)
    rw [htail] at hvalue
    have hall := ((MembersAt.cons [] hkey hvalue (List.forall_mem_nil _) hmembers).fields
      (cleanFields_of_good hgood)).obj
    rw [loginObject, htail]
    exact hall

/-- No byte of a login is a control character, if none of the name is. -/
theorem forall_mem_loginObject (cfg : Config) (haccount : data.accountId < 2 ^ 64) (hrole : data.roleId < 2 ^ 64)
    (hplain : ∀ c ∈ cstr data.roleName, Plain c) : ∀ c ∈ loginObject cfg data, 32 ≤ c := by
  have hgood := loginFields_good haccount hrole
  rw [loginObject_eq, List.forall_mem_append, List.forall_mem_append, List.forall_mem_cons, List.forall_mem_cons]
  refine ⟨⟨by decide, ?_⟩, fun c hc => (hplain c hc).1, by decide, forall_mem_loginTail (fun _ h _ => h) cfg data⟩
  apply forall_mem_fieldsText (fun _ h _ => h) (bytes_of_good hgood fun _ h _ => h)
  exact forall_mem_member (fun _ h _ => h) ((goodName (by simp [replyNames])).bytes fun _ h _ => h)
    (List.forall_mem_singleton.mpr (by decide))

end Login

/-! ## How long the texts are -/

/-- How many characters `%d` prints. -/
def numberWidth (v : ℤ) : ℕ := (decimalInt v).length

def ResourceInfo.width (r : ResourceInfo) : ℕ :=
  19 + numberWidth r.resourceType.toNat + numberWidth r.resourceNum.toInt

def BuildingInfo.width (cfg : Config) (b : BuildingInfo) : ℕ :=
  113 + numberWidth b.buildingIndex.toNat + numberWidth b.buildingType.toNat + numberWidth b.buildingLevel.toInt +
    numberWidth b.resourceData.resourceType.toNat + numberWidth b.resourceData.resourceNum.toInt +
    numberWidth (RoleInfo.getResourceSpeed cfg b.buildingType b.buildingLevel).resourceNum.toInt +
    numberWidth b.startTime.toNat + numberWidth b.incomeTime.toNat

def resourcesWidth (data : RoleInfo) : ℕ := listWidth (data.resources.map ResourceInfo.width)

def buildingsWidth (cfg : Config) (data : RoleInfo) : ℕ := listWidth (data.buildings.map (BuildingInfo.width cfg))

def updateResourceWidth (data : RoleInfo) : ℕ := 42 + resourcesWidth data

def loginWidth (cfg : Config) (data : RoleInfo) : ℕ :=
  129 + numberWidth data.accountId + numberWidth data.roleId + numberWidth data.level.toInt +
    numberWidth data.sex.toNat + (cstr data.roleName).length + buildingsWidth cfg data + resourcesWidth data

theorem resourceObject_length (r : ResourceInfo) : (resourceObject r).length = r.width := by
  have hkeys : (ascii "type").length = 4 ∧ (ascii "num").length = 3 := by decide
  rw [resourceObject, objectText_length]
  simp only [ResourceInfo.fields, ResourceInfo.lastField, List.cons_append, List.nil_append, List.map_cons, List.map_nil,
    List.sum_cons, List.sum_nil, List.length_nil, Scalar.width, hkeys.1, hkeys.2, ResourceInfo.width, numberWidth]
  omega

theorem buildingObject_length (cfg : Config) (b : BuildingInfo) : (buildingObject cfg b).length = b.width cfg := by
  have hkeys : (ascii "index").length = 5 ∧ (ascii "type").length = 4 ∧ (ascii "level").length = 5 ∧
      (ascii "resource_type").length = 13 ∧ (ascii "resource_num").length = 12 ∧ (ascii "speed").length = 5 ∧
      (ascii "start_time").length = 10 ∧ (ascii "income_time").length = 11 := by decide
  obtain ⟨h₁, h₂, h₃, h₄, h₅, h₆, h₇, h₈⟩ := hkeys
  rw [buildingObject, objectText_length]
  simp only [BuildingInfo.fields, BuildingInfo.lastField, List.cons_append, List.nil_append, List.map_cons,
    List.map_nil, List.sum_cons, List.sum_nil, List.length_nil, Scalar.width, h₁, h₂, h₃, h₄, h₅, h₆, h₇, h₈,
    BuildingInfo.width, numberWidth, decimalInt_natCast]
  omega

theorem resourcesWidth_eq (data : RoleInfo) :
    resourcesWidth data = listWidth ((data.resources.map resourceObject).map List.length) := by
  rw [resourcesWidth, List.map_map]
  exact congrArg listWidth (List.map_congr_left fun r _ => (resourceObject_length r).symm)

theorem buildingsWidth_eq (cfg : Config) (data : RoleInfo) :
    buildingsWidth cfg data = listWidth ((data.buildings.map (buildingObject cfg)).map List.length) := by
  rw [buildingsWidth, List.map_map]
  exact congrArg listWidth (List.map_congr_left fun b _ => (buildingObject_length cfg b).symm)

theorem loginObject_length (cfg : Config) (data : RoleInfo) :
    (loginObject cfg data).length = loginWidth cfg data := by
  have hkeys : (ascii "cmd").length = 3 ∧ (ascii "ret_code").length = 8 ∧ (ascii "account_id").length = 10 ∧
      (ascii "role_id").length = 7 ∧ (ascii "level").length = 5 ∧ (ascii "sex").length = 3 ∧
      (ascii "role_name").length = 9 ∧ (ascii "buildings").length = 9 ∧ (ascii "resources").length = 9 := by decide
  have hvalues : (ascii "login").length = 5 ∧ (decimalInt ErrorCode.success.value).length = 1 := by decide
  obtain ⟨h₁, h₂, h₃, h₄, h₅, h₆, h₇, h₈, h₉⟩ := hkeys
  rw [loginWidth, buildingsWidth_eq, resourcesWidth_eq]
  simp only [loginObject, loginTail, loginFields, List.length_cons, fieldsText_length, member_length,
    List.length_append, arrayText_length, List.map_cons, List.map_nil, List.sum_cons, List.sum_nil, List.length_nil,
    Scalar.width, h₁, h₂, h₃, h₄, h₅, h₆, h₇, h₈, h₉, hvalues.1, hvalues.2, numberWidth, decimalInt_natCast]
  omega

/-! ## The update of the resources -/

def updateResourceObject (data : RoleInfo) : List UInt8 :=
  123 :: member (ascii "cmd") (34 :: (ascii "update_resource" ++ 34 ::
    44 :: member (ascii "resources") (arrayText (data.resources.map resourceObject) [125])))

theorem updateResourceText_eq (data : RoleInfo) :
    updateResourceText data.resources = some (updateResourceObject data) := by
  have hfront : ascii "\x7b\"cmd\": \"update_resource\",\"resources\": [" =
      123 :: 34 :: (ascii "cmd" ++ 34 :: 58 :: 32 :: 34 :: (ascii "update_resource" ++ 34 :: 44 :: 34 ::
        (ascii "resources" ++ [34, 58, 32, 91]))) := by decide
  rw [updateResourceText, listText_eq resourceText_eq, Option.map_some, hfront,
    show ascii "]\x7d" = [93, 125] by decide]
  simp only [updateResourceObject, member, arrayText, List.cons_append, List.append_assoc, List.nil_append]
  rfl

theorem updateResourceObject_length (data : RoleInfo) :
    (updateResourceObject data).length = updateResourceWidth data := by
  have hkeys : (ascii "cmd").length = 3 ∧ (ascii "update_resource").length = 15 ∧ (ascii "resources").length = 9 := by
    decide
  obtain ⟨h₁, h₂, h₃⟩ := hkeys
  rw [updateResourceWidth, resourcesWidth_eq]
  simp only [updateResourceObject, List.length_cons, List.length_append, member_length, arrayText_length,
    List.length_nil, h₁, h₂, h₃]
  omega

theorem forall_mem_updateResourceObject {P : UInt8 → Prop} (hP : ∀ c, 32 ≤ c → c < 0x80 → P c) (data : RoleInfo) :
    ∀ c ∈ updateResourceObject data, P c := by
  have hquote : P 34 := hP 34 (by decide) (by decide)
  rw [updateResourceObject, List.forall_mem_cons]
  refine ⟨hP 123 (by decide) (by decide), forall_mem_member hP ((goodName (by simp [replyNames])).bytes hP) ?_⟩
  rw [List.forall_mem_cons, List.forall_mem_append, List.forall_mem_cons, List.forall_mem_cons]
  refine ⟨hquote, (goodName (by simp [replyNames])).bytes hP, hquote, hP 44 (by decide) (by decide),
    forall_mem_member hP ((goodName (by simp [replyNames])).bytes hP) ?_⟩
  apply forall_mem_arrayText hP (forall_mem_resourceObjects hP _)
  rw [List.forall_mem_singleton]
  exact hP 125 (by decide) (by decide)

theorem parse_updateResourceObject (data : RoleInfo) :
    Json.parse (updateResourceObject data) =
      some (.obj [(ascii "cmd", .str (ascii "update_resource")),
        (ascii "resources", .arr (data.resources.map ResourceInfo.report))]) := by
  have hcmd : GoodName (ascii "cmd") := goodName (by simp [replyNames])
  have hupdate : GoodName (ascii "update_resource") := goodName (by simp [replyNames])
  have hkey : GoodName (ascii "resources") := goodName (by simp [replyNames])
  have hresources := valueAt_array (printedAs_resources data.resources) [125]
  have hvalue := valueAt_str hupdate.plain
    (44 :: member (ascii "resources") (arrayText (data.resources.map resourceObject) [125]))
  apply parse_eq_some (MembersAt.cons [] hcmd.plain hvalue (List.forall_mem_nil _) (.last hkey.plain hresources)).obj
  have hascii := utf8From_ascii (forall_mem_updateResourceObject (fun _ _ h => h) data) []
  rwa [List.append_nil] at hascii

namespace ClientReply

/-! ## Replies -/

section Faithful

set_option maxRecDepth 4000 in
theorem printf_update (cfg : Config) (b : BuildingInfo) :
    printf updateBuildingFormat.toList (buildingArgs cfg b) =
      some (objectText ((ascii "cmd", .str (ascii "update_building")) :: b.fields cfg) b.lastField []) := by
  exact rfl

variable {client : RpcClient} {handler clientId : SocketIndex} {cfg : Config} {r : ClientReply}

theorem faithful_iff_of_text (hh : client.handler = some handler) (hvalid : handler ≠ invalidSocketIndex)
    (hc : clientId < 2 ^ 64) {msg : List UInt8} (htext : r.text cfg = some msg) :
    Faithful client clientId cfg r ↔ msg.length ≤ sizeofBuffer ∧ startCharacter ∉ msg ∧ endCharacter ∉ msg ∧
      Json.parse msg = some (r.report cfg) := by
  unfold Faithful
  rw [htext, Option.bind_some, wsFrames_eq hh hvalid hc]
  constructor
  · rintro ⟨json, hframes, hrest⟩
    split at hframes
    · next hlen =>
      have hjson : msg = json := by
        have hbuffer := congrArg PacketSendInfo.buffer (List.cons.inj (Option.some.inj hframes)).1
        exact List.append_cancel_right (List.cons.inj hbuffer).2
      rw [hjson] at hlen ⊢
      exact ⟨hlen, hrest⟩
    · cases hframes
  · rintro ⟨hlen, hrest⟩
    exact ⟨msg, if_pos hlen, hrest⟩

/-- A byte from 32 on is neither of the control characters around a frame. -/
theorem no_control {msg : List UInt8} (h : ∀ c ∈ msg, 32 ≤ c) : startCharacter ∉ msg ∧ endCharacter ∉ msg :=
  ⟨fun hmem => absurd (h _ hmem) (by decide), fun hmem => absurd (h _ hmem) (by decide)⟩

/-- A flat object in printable ASCII. -/
theorem faithful_of_object (hh : client.handler = some handler) (hvalid : handler ≠ invalidSocketIndex)
    (hc : clientId < 2 ^ 64) {fmt : String} {args : List PrintfArg} (fields : List (List UInt8 × Scalar))
    (last : List UInt8 × Scalar) (htext : r.text cfg = gxToString fmt args)
    (hprint : printf fmt.toList args = some (objectText fields last []))
    (hreport : r.report cfg = .obj (fieldsValue (fields ++ [last])))
    (hgood : ∀ f ∈ fields ++ [last], GoodField f) (hshort : fields.length < 32) :
    Faithful client clientId cfg r := by
  have hbytes : ∀ c ∈ objectText fields last [], 32 ≤ c :=
    forall_mem_objectText (fun _ h _ => h) (bytes_of_good hgood fun _ h _ => h) (List.forall_mem_nil _)
  have hascii := utf8From_ascii (forall_mem_objectText (fun _ _ h => h) (bytes_of_good hgood fun _ _ h => h)
    (List.forall_mem_nil _)) []
  rw [List.append_nil] at hascii
  rw [gxToString_object hprint hgood hshort] at htext
  rw [faithful_iff_of_text hh hvalid hc htext, hreport]
  refine ⟨?_, (no_control hbytes).1, (no_control hbytes).2, ?_⟩
  · have hlen := length_of_good hgood
    rw [List.length_append, List.length_singleton] at hlen
    rw [objectText_length, List.length_nil, sizeofBuffer]
    omega
  · exact parse_eq_some (valueAt_object (cleanFields_of_good hgood) []) hascii

/-- What the reply needs to arrive as it is meant. -/
def Printable (cfg : Config) : ClientReply → Prop
  | createRole _ _      => False
  | loginSuccess data   =>
    0 ∈ data.roleName ∧ (∀ c ∈ cstr data.roleName, Plain c) ∧ Utf8 (cstr data.roleName) ∧
      loginWidth cfg data.toRoleInfo ≤ sizeofBuffer
  | updateResource data => updateResourceWidth data.toRoleInfo ≤ sizeofBuffer
  | _                   => True

variable (hh : client.handler = some handler) (hvalid : handler ≠ invalidSocketIndex) (hc : clientId < 2 ^ 64)

include hh hvalid hc

/-! ### Flat objects -/

theorem faithful_kick : Faithful client clientId cfg kick := by
  apply faithful_of_object hh hvalid hc [] (ascii "cmd", .str (ascii "kick")) rfl rfl rfl _ (by decide)
  rw [List.nil_append, List.forall_mem_singleton]
  exact goodField_str (by simp [replyNames]) (by simp [replyNames])

theorem faithful_askCreateRole : Faithful client clientId cfg askCreateRole := by
  apply faithful_of_object hh hvalid hc [] (ascii "cmd", .str (ascii "create_role")) rfl rfl rfl _ (by decide)
  rw [List.nil_append, List.forall_mem_singleton]
  exact goodField_str (by simp [replyNames]) (by simp [replyNames])

theorem faithful_loginFailed : Faithful client clientId cfg loginFailed := by
  apply faithful_of_object hh hvalid hc [(ascii "cmd", .str (ascii "login"))]
    (ascii "ret_code", .int errLoginFailedByRelay) rfl rfl rfl _ (by decide)
  simp only [List.cons_append, List.nil_append, List.forall_mem_cons]
  exact ⟨goodField_str (by simp [replyNames]) (by simp [replyNames]),
    goodField_int (by simp [replyNames]) (by decide) (by decide), List.forall_mem_nil _⟩

theorem faithful_incomeResource (retCode : ErrorCode) (index : UInt16) :
    Faithful client clientId cfg (incomeResource retCode index) := by
  apply faithful_of_object hh hvalid hc
    [(ascii "cmd", .str (ascii "income_resource")), (ascii "ret_code", .int retCode.value)]
    (ascii "index", .int index.toNat) rfl rfl rfl _ (by simp)
  simp only [List.cons_append, List.nil_append, List.forall_mem_cons]
  exact ⟨goodField_str (by simp [replyNames]) (by simp [replyNames]), goodField_code (by simp [replyNames]) _,
    goodField_uint16 (by simp [replyNames]) _, List.forall_mem_nil _⟩

theorem faithful_upBuildingLevel (retCode : ErrorCode) (index : UInt16) :
    Faithful client clientId cfg (upBuildingLevel retCode index) := by
  apply faithful_of_object hh hvalid hc
    [(ascii "cmd", .str (ascii "up_building_level")), (ascii "ret_code", .int retCode.value)]
    (ascii "index", .int index.toNat) rfl rfl rfl _ (by simp)
  simp only [List.cons_append, List.nil_append, List.forall_mem_cons]
  exact ⟨goodField_str (by simp [replyNames]) (by simp [replyNames]), goodField_code (by simp [replyNames]) _,
    goodField_uint16 (by simp [replyNames]) _, List.forall_mem_nil _⟩

theorem faithful_buildBuilding (retCode : ErrorCode) (index type : UInt16) :
    Faithful client clientId cfg (buildBuilding retCode index type) := by
  apply faithful_of_object hh hvalid hc
    [(ascii "cmd", .str (ascii "build_building")), (ascii "ret_code", .int retCode.value),
      (ascii "index", .int index.toNat)]
    (ascii "type", .int type.toNat) rfl rfl rfl _ (by simp)
  simp only [List.cons_append, List.nil_append, List.forall_mem_cons]
  exact ⟨goodField_str (by simp [replyNames]) (by simp [replyNames]), goodField_code (by simp [replyNames]) _,
    goodField_uint16 (by simp [replyNames]) _, goodField_uint16 (by simp [replyNames]) _, List.forall_mem_nil _⟩

theorem faithful_updateBuilding (b : BuildingInfo) : Faithful client clientId cfg (updateBuilding b) := by
  have htext : (updateBuilding b).text cfg = gxToString updateBuildingFormat (buildingArgs cfg b) := by
    rw [text]
  apply faithful_of_object hh hvalid hc ((ascii "cmd", .str (ascii "update_building")) :: b.fields cfg) b.lastField
    htext (printf_update cfg b) rfl _ (by simp [BuildingInfo.fields])
  rw [List.cons_append, List.forall_mem_cons]
  exact ⟨goodField_str (by simp [replyNames]) (by simp [replyNames]), b.goodFields cfg⟩

/-! ### The others -/

omit hh hvalid hc in
/-- The result of a creation has no text: `%s` is given a number. -/
theorem not_faithful_createRole (sex : UInt8) (roleName : List UInt8) :
    ¬ Faithful client clientId cfg (createRole sex roleName) := by
  rintro ⟨json, hframes, -⟩
  rw [show (createRole sex roleName).text cfg = none from rfl] at hframes
  cases hframes

theorem faithful_loginSuccess_iff (data : RoleState) :
    Faithful client clientId cfg (loginSuccess data) ↔ (loginSuccess data).Printable cfg := by
  by_cases hnul : 0 ∈ data.roleName
  · have htext : (loginSuccess data).text cfg = some (loginObject cfg data.toRoleInfo) :=
      loginText_eq data.accountId_lt data.roleId_lt data.roleName_length hnul
    have hparse := parse_loginObject_iff cfg data.accountId_lt data.roleId_lt
    rw [faithful_iff_of_text hh hvalid hc htext, loginObject_length]
    constructor
    · rintro ⟨hlen, -, -, hread⟩
      obtain ⟨hplain, hutf8⟩ := hparse.mp hread
      exact ⟨hnul, hplain, hutf8, hlen⟩
    · rintro ⟨-, hplain, hutf8, hlen⟩
      have hcontrol := no_control (forall_mem_loginObject cfg data.accountId_lt data.roleId_lt hplain)
      exact ⟨hlen, hcontrol.1, hcontrol.2, hparse.mpr ⟨hplain, hutf8⟩⟩
  · -- the name is read past its array
    refine iff_of_false ?_ fun h => hnul h.1
    rintro ⟨json, hframes, -⟩
    rw [show (loginSuccess data).text cfg = loginText cfg data.toRoleInfo from rfl, loginText, arrayString,
      if_neg hnul] at hframes
    cases hframes

theorem faithful_updateResource_iff (data : RoleState) :
    Faithful client clientId cfg (updateResource data) ↔ (updateResource data).Printable cfg := by
  have htext : (updateResource data).text cfg = some (updateResourceObject data.toRoleInfo) :=
    updateResourceText_eq data.toRoleInfo
  have hbytes := forall_mem_updateResourceObject (fun _ h _ => h) data.toRoleInfo
  rw [faithful_iff_of_text hh hvalid hc htext, updateResourceObject_length]
  constructor
  · exact fun h => h.1
  · exact fun h => ⟨h, (no_control hbytes).1, (no_control hbytes).2, parse_updateResourceObject data.toRoleInfo⟩

/-- **Replies.** A login arrives as the state of the role exactly if the name is a terminated string in UTF-8 that needs
    no escapes and the text fits the packet, and an update of the resources if it fits; the result of a creation never
    does, and the others always do. -/
theorem faithful_iff (cfg : Config) (r : ClientReply) : Faithful client clientId cfg r ↔ r.Printable cfg := by
  cases r with
  | kick => exact iff_of_true (faithful_kick hh hvalid hc) trivial
  | askCreateRole => exact iff_of_true (faithful_askCreateRole hh hvalid hc) trivial
  | loginFailed => exact iff_of_true (faithful_loginFailed hh hvalid hc) trivial
  | createRole sex roleName => exact iff_of_false (not_faithful_createRole sex roleName) id
  | loginSuccess data => exact faithful_loginSuccess_iff hh hvalid hc data
  | updateResource data => exact faithful_updateResource_iff hh hvalid hc data
  | updateBuilding b => exact iff_of_true (faithful_updateBuilding hh hvalid hc b) trivial
  | incomeResource retCode index => exact iff_of_true (faithful_incomeResource hh hvalid hc retCode index) trivial
  | buildBuilding retCode index type => exact iff_of_true (faithful_buildBuilding hh hvalid hc retCode index type) trivial
  | upBuildingLevel retCode index => exact iff_of_true (faithful_upBuildingLevel hh hvalid hc retCode index) trivial

end Faithful

/-- Without tables. -/
def noConfig : Config := ⟨fun _ => none, fun _ => none, none⟩

/-- A role called A, with a building and a resource. -/
def roleA : RoleState where
  roleName := ascii "A" ++ 0 :: List.replicate 62 0
  buildings := [{ buildingType := 1, buildingIndex := 2, buildingLevel := 1 }]
  resources := [{ resourceType := 1, resourceNum := -7 }]
  accountId_lt := by decide
  roleId_lt := by decide
  roleName_length := by decide

theorem faithful_iff_roleA : Faithful ⟨some 1, []⟩ 5 noConfig (loginSuccess roleA) := by
  have hname : cstr roleA.roleName = ascii "A" := cstr_append_nul (by decide) _
  apply (@faithful_iff ⟨some 1, []⟩ 1 5 rfl (by decide) (by decide) noConfig (loginSuccess roleA)).mpr
  rw [Printable, loginWidth, hname]
  exact ⟨List.mem_append_right _ List.mem_cons_self, forall_of_all (by decide), by decide, by decide⟩

/-- `create_role` for a role called A. -/
theorem created_unanswered : ¬ ∀ (client : RpcClient) (handler clientId : SocketIndex) (cfg : Config) (r : ClientReply),
    client.handler = some handler → handler ≠ invalidSocketIndex → clientId < 2 ^ 64 →
    Faithful client clientId cfg r := by
  intro h
  obtain ⟨json, hframes, -⟩ := h ⟨some 1, []⟩ 1 5 noConfig (createRole 1 (ascii "A")) rfl (by decide) (by decide)
  cases hframes

end ClientReply

end Mowang
