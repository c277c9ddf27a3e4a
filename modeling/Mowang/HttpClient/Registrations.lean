import Mowang.Base.Json
import Mowang.HttpClient.EtcdResponses
import Mowang.Share.StringCommon

/-!
# `HttpClient.Registrations` — what a process publishes in etcd, and what others find there

`register_process_entities` prints a process and its entities as a json, into the form of a `PUT`. The form is printed
by `gx_to_string`, so of a long json only the beginning goes out. `etcd` keeps what the form has as the value of a node.

The names go into the json and into the form as they are, so they must be texts that need no escape in either.

## Contents
- `Registration`, `registerProcessEntities`.
- `Clean`, `Registration.body`, `registerProcessEntities_eq` — the texts.
- `parseNodeInfo_whole`, `parseNodeInfo_cut` — one node.
- `listing`, `Publishes`, `listing_of_nodes` — a directory.
- `parseEtcdKeyId_url` — a node that is gone.
- `published_found`.
- `parseNodes_found`, `published_known` — the listener that asked.
-/

namespace Mowang

open LittleEndian Block

namespace Etcd

/-- The arguments of `register_process_entities`, but the namespace. -/
structure Registration where
  serverInfo : ServerInfo
  entities : List EntityInfo

/-! ## The request -/

/-- What `%s` prints of an array; without a NUL in it, `vsnprintf` leaves the array. -/
def stringOf {n : Nat} (array : Block UInt8 n) : Option (List UInt8) :=
  if 0 ∈ array.cells then some (cstr array.cells) else none

def serverFormat : String :=
  "\x7b\"ip\":\"%s\",\"port\":%d,\"server_id\":%d,\"process_type\":%d,\"process_id\":%d,\"entities\":["

def entityFormat : String := "\x7b\"id\":%llu,\"name\":\"%s\",\"tag\":\"%s\"\x7d"

def serverText (i : ServerInfo) : Option (List UInt8) :=
  (stringOf i.ip).bind fun ip =>
  gxToString serverFormat [.str ip, .int i.port.toNat, .int i.processInfo.serverId.toNat,
    .int i.processInfo.processType.toNat, .int i.processInfo.processId.toNat]

def entityText (e : EntityInfo) : Option (List UInt8) :=
  (stringOf e.entityName).bind fun name =>
  (stringOf e.tag).bind fun tag =>
  gxToString entityFormat [.ulong e.entityId.toNat, .str name, .str tag]

/-- The loop of `register_process_entities`, from entity `i` on. -/
def appendEntities : Nat → List EntityInfo → List UInt8 → Option (List UInt8)
  | _, [], body            => some body
  | i, e :: entities, body =>
    (entityText e).bind fun text => appendEntities (i + 1) entities ((if i > 0 then body ++ [44] else body) ++ text)

/-- `register_process_entities`: the URL and the parameters of the `PUT`. -/
def registerProcessEntities (name : List UInt8) (r : Registration) : Option (List UInt8 × List UInt8) :=
  (gxToString "/v2/keys/mw/%s/%llu" [.str name, .ulong (keyIdByProcessInfo r.serverInfo.processInfo)]).bind fun url =>
  (serverText r.serverInfo).bind fun body =>
  (appendEntities 0 r.entities body).bind fun body =>
  (gxToString "value=%s&ttl=30" [.str (cstr (body ++ ascii "]\x7d"))]).map fun params => (url, params)

/-! ## The texts -/

/-- A character that needs no escape in a json and in a form. -/
def PlainChar (c : UInt8) : Prop :=
  32 ≤ c ∧ c < 128 ∧ c ≠ 34 ∧ c ≠ 92 ∧ c ≠ 37 ∧ c ≠ 38 ∧ c ≠ 43 ∧ c ≠ 59

instance (c : UInt8) : Decidable (PlainChar c) := inferInstanceAs (Decidable (_ ∧ _))

/-- A text in an array, with zeros behind it. -/
structure Clean {n : Nat} (array : Block UInt8 n) : Prop where
  ended : 0 ∈ array.cells
  zeros : (Block.fill n 0).write? 0 (cstr array.cells) = some array
  plain : ∀ c ∈ cstr array.cells, PlainChar c

namespace Registration

variable (r : Registration)

structure Clean : Prop where
  ip : Etcd.Clean r.serverInfo.ip
  names : ∀ e ∈ r.entities, Etcd.Clean e.entityName
  tags : ∀ e ∈ r.entities, Etcd.Clean e.tag

/-- The json of an entity. -/
def entityJson (e : EntityInfo) : List UInt8 :=
  ascii "\x7b\"id\":" ++ (decimal e.entityId.toNat ++ (ascii ",\"name\":\"" ++ (cstr e.entityName.cells ++
    (ascii "\",\"tag\":\"" ++ (cstr e.tag.cells ++ ascii "\"\x7d")))))

def serverJson (i : ServerInfo) : List UInt8 :=
  ascii "\x7b\"ip\":\"" ++ (cstr i.ip.cells ++ (ascii "\",\"port\":" ++ (decimalInt i.port.toNat ++
    (ascii ",\"server_id\":" ++ (decimalInt i.processInfo.serverId.toNat ++ (ascii ",\"process_type\":" ++
      (decimalInt i.processInfo.processType.toNat ++ (ascii ",\"process_id\":" ++
        (decimalInt i.processInfo.processId.toNat ++ ascii ",\"entities\":[")))))))))

/-- The json of a process and its entities. -/
def body : List UInt8 :=
  serverJson r.serverInfo ++ ([44].intercalate (r.entities.map entityJson) ++ ascii "]\x7d")

/-- All of it goes out. -/
def Short : Prop := r.body.length ≤ 2040

instance : Decidable r.Short := inferInstanceAs (Decidable (_ ≤ _))

end Registration

theorem stringOf_clean {n : Nat} {array : Block UInt8 n} (h : Clean array) : stringOf array = some (cstr array.cells) :=
  if_pos h.ended

theorem Clean.length_le {n : Nat} {array : Block UInt8 n} (h : Clean array) : (cstr array.cells).length ≤ n :=
  fill_write?_isSome.mp (Option.isSome_of_eq_some h.zeros)

open Registration (entityJson serverJson)

theorem entityText_eq {e : EntityInfo} (hname : Clean e.entityName) (htag : Clean e.tag) :
    entityText e = some (entityJson e) := by
  have hid : (decimal e.entityId.toNat).length ≤ 20 :=
    decimal_length_le (by decide) (Nat.lt_trans e.entityId.toNat_lt (by decide))
  have hnameLen : (cstr e.entityName.cells).length ≤ 32 := hname.length_le
  have htagLen : (cstr e.tag.cells).length ≤ 32 := htag.length_le
  rw [entityText, stringOf_clean hname, Option.bind_some, stringOf_clean htag, Option.bind_some]
  apply gxToString_eq_some rfl
  show (entityJson e).length ≤ 2046
  simp only [entityJson, List.length_append, show (ascii "\x7b\"id\":").length = 6 from rfl,
    show (ascii ",\"name\":\"").length = 9 from rfl, show (ascii "\",\"tag\":\"").length = 9 from rfl,
    show (ascii "\"\x7d").length = 2 from rfl]
  omega

theorem serverText_eq {i : ServerInfo} (h : Clean i.ip) : serverText i = some (serverJson i) := by
  have hip : (cstr i.ip.cells).length ≤ 24 := h.length_le
  have hnumber : ∀ v : Nat, v < 2 ^ 16 → (decimalInt v).length ≤ 6 :=
    fun v hv => decimalInt_length_le (by decide) (show (v : Int).natAbs < 10 ^ 5 by omega)
  have hport := hnumber _ i.port.toNat_lt
  have hserverId := hnumber _ i.processInfo.serverId.toNat_lt
  have hprocessType := hnumber _ (Nat.lt_trans i.processInfo.processType.toNat_lt (by decide))
  have hprocessId := hnumber _ i.processInfo.processId.toNat_lt
  rw [serverText, stringOf_clean h, Option.bind_some]
  apply gxToString_eq_some rfl
  show (serverJson i).length ≤ 2046
  simp only [serverJson, List.length_append, show (ascii "\x7b\"ip\":\"").length = 7 from rfl,
    show (ascii "\",\"port\":").length = 9 from rfl, show (ascii ",\"server_id\":").length = 13 from rfl,
    show (ascii ",\"process_type\":").length = 16 from rfl, show (ascii ",\"process_id\":").length = 14 from rfl,
    show (ascii ",\"entities\":[").length = 13 from rfl]
  omega

/-- Behind the first entity, each has a comma in front of it. -/
theorem appendEntities_succ {i : Nat} {entities : List EntityInfo} (hnames : ∀ e ∈ entities, Clean e.entityName)
    (htags : ∀ e ∈ entities, Clean e.tag) (body : List UInt8) :
    appendEntities (i + 1) entities body = some (body ++ entities.flatMap fun e => 44 :: entityJson e) := by
  induction entities generalizing i body with
  | nil => rw [appendEntities, List.flatMap_nil, List.append_nil]
  | cons e entities ih =>
      obtain ⟨hname, hnames⟩ := List.forall_mem_cons.mp hnames
      obtain ⟨htag, htags⟩ := List.forall_mem_cons.mp htags
      rw [appendEntities, entityText_eq hname htag, Option.bind_some, ih hnames htags, if_pos (Nat.succ_pos i),
        List.flatMap_cons, List.append_assoc, List.append_assoc]
      rfl

theorem intercalate_cons {x : List UInt8} {xs : List (List UInt8)} :
    [44].intercalate (x :: xs) = x ++ xs.flatMap fun y => 44 :: y := by
  induction xs generalizing x with
  | nil => rw [List.intercalate_singleton, List.flatMap_nil, List.append_nil]
  | cons y xs ih =>
      rw [List.intercalate_cons_cons, ih, List.flatMap_cons, List.append_assoc]
      rfl

theorem appendEntities_eq {entities : List EntityInfo} (hnames : ∀ e ∈ entities, Clean e.entityName)
    (htags : ∀ e ∈ entities, Clean e.tag) (body : List UInt8) :
    appendEntities 0 entities body = some (body ++ [44].intercalate (entities.map entityJson)) := by
  cases entities with
  | nil => exact congrArg some (List.append_nil body).symm
  | cons e entities =>
      obtain ⟨hname, hnames⟩ := List.forall_mem_cons.mp hnames
      obtain ⟨htag, htags⟩ := List.forall_mem_cons.mp htags
      rw [appendEntities, entityText_eq hname htag, Option.bind_some, appendEntities_succ hnames htags, List.map_cons,
        intercalate_cons, List.flatMap_map, if_neg (Nat.lt_irrefl 0), List.append_assoc]

/-- A character that a form keeps, and no NUL. -/
def FormChar (c : UInt8) : Prop := c ≠ 0 ∧ c ≠ 37 ∧ c ≠ 38 ∧ c ≠ 43 ∧ c ≠ 59

instance (c : UInt8) : Decidable (FormChar c) := inferInstanceAs (Decidable (_ ∧ _))

theorem PlainChar.form {c : UInt8} (h : PlainChar c) : FormChar c := by
  obtain ⟨hlow, -, -, -, hpercent, hamp, hplus, hsemi⟩ := h
  refine ⟨?_, hpercent, hamp, hplus, hsemi⟩
  rintro rfl
  exact absurd hlow (by decide)

theorem formChar_decimal {v : Nat} : ∀ c ∈ decimal v, FormChar c := by
  intro c hc
  obtain ⟨hlow, hhigh⟩ := mem_decimal hc
  refine ⟨?_, ?_, ?_, ?_, ?_⟩ <;>
  · intro heq
    rw [heq] at hlow hhigh
    revert hlow hhigh
    decide

theorem formChar_append {s t : List UInt8} (hs : ∀ c ∈ s, FormChar c) (ht : ∀ c ∈ t, FormChar c) :
    ∀ c ∈ s ++ t, FormChar c :=
  fun c hc => (List.mem_append.mp hc).elim (hs c) (ht c)

theorem Clean.form {n : Nat} {array : Block UInt8 n} (h : Clean array) : ∀ c ∈ cstr array.cells, FormChar c :=
  fun c hc => (h.plain c hc).form

theorem formChar_entityJson {e : EntityInfo} (hname : Clean e.entityName) (htag : Clean e.tag) :
    ∀ c ∈ entityJson e, FormChar c := by
  refine formChar_append (forall_of_all (by decide +kernel)) (formChar_append formChar_decimal ?_)
  refine formChar_append (forall_of_all (by decide +kernel)) (formChar_append hname.form ?_)
  refine formChar_append (forall_of_all (by decide +kernel)) (formChar_append htag.form ?_)
  exact forall_of_all (by decide +kernel)

theorem formChar_serverJson {i : ServerInfo} (h : Clean i.ip) : ∀ c ∈ serverJson i, FormChar c := by
  have hnumber : ∀ v : Nat, ∀ c ∈ decimalInt v, FormChar c := fun v => Json.decimalInt_natCast v ▸ formChar_decimal
  refine formChar_append (forall_of_all (by decide +kernel)) (formChar_append h.form ?_)
  refine formChar_append (forall_of_all (by decide +kernel)) (formChar_append (hnumber _) ?_)
  refine formChar_append (forall_of_all (by decide +kernel)) (formChar_append (hnumber _) ?_)
  refine formChar_append (forall_of_all (by decide +kernel)) (formChar_append (hnumber _) ?_)
  refine formChar_append (forall_of_all (by decide +kernel)) (formChar_append (hnumber _) ?_)
  exact forall_of_all (by decide +kernel)

variable {r : Registration} {name : List UInt8}

theorem Registration.Clean.form (h : r.Clean) : ∀ c ∈ r.body, FormChar c := by
  have hentities : ∀ c ∈ [44].intercalate (r.entities.map entityJson), FormChar c := by
    have hall : ∀ e ∈ r.entities, ∀ c ∈ entityJson e, FormChar c :=
      fun e he => formChar_entityJson (h.names e he) (h.tags e he)
    cases hlist : r.entities with
    | nil => exact List.forall_mem_nil _
    | cons e entities =>
        rw [hlist] at hall
        rw [List.map_cons, intercalate_cons]
        refine formChar_append (hall e List.mem_cons_self) fun c hc => ?_
        obtain ⟨text, htext, hc⟩ := List.mem_flatMap.mp hc
        obtain ⟨e', he', rfl⟩ := List.mem_map.mp htext
        rcases List.mem_cons.mp hc with rfl | hc
        · decide
        · exact hall e' (List.mem_cons_of_mem _ he') c hc
  exact formChar_append (formChar_serverJson h.ip) (formChar_append hentities (forall_of_all (by decide +kernel)))

theorem Registration.Clean.cstr_body (h : r.Clean) : cstr r.body = r.body :=
  cstr_eq_self fun hmem => (h.form 0 hmem).1 rfl

/-- What is sent is the beginning of the form with the json. -/
theorem registerProcessEntities_eq (name : List UInt8) (h : r.Clean) : ∃ url, registerProcessEntities name r =
    some (url, (ascii "value=" ++ (r.body ++ ascii "&ttl=30")).take 2046) := by
  have hbody : serverJson r.serverInfo ++ [44].intercalate (r.entities.map entityJson) ++ ascii "]\x7d" = r.body :=
    List.append_assoc _ _ _
  obtain ⟨url, hurl⟩ : ∃ url, gxToString "/v2/keys/mw/%s/%llu"
      [.str name, .ulong (keyIdByProcessInfo r.serverInfo.processInfo)] = some url := ⟨_, rfl⟩
  have hparams : gxToString "value=%s&ttl=30" [.str r.body] =
      some ((ascii "value=" ++ (r.body ++ ascii "&ttl=30")).take 2046) := rfl
  refine ⟨url, ?_⟩
  rw [registerProcessEntities, hurl, Option.bind_some, serverText_eq h.ip, Option.bind_some,
    appendEntities_eq h.names h.tags, Option.bind_some, hbody, h.cstr_body, hparams, Option.map_some]

/-! ## One node -/

/-- A value of a json. -/
def leaf (s : List UInt8) : Ptree := .node s []

def entityTree (e : EntityInfo) : Ptree :=
  .node [] [(ascii "id", leaf (decimal e.entityId.toNat)), (ascii "name", leaf (cstr e.entityName.cells)),
    (ascii "tag", leaf (cstr e.tag.cells))]

/-- What the json of a registration says. -/
def Registration.tree (r : Registration) : Ptree :=
  .node [] [(ascii "ip", leaf (cstr r.serverInfo.ip.cells)),
    (ascii "port", leaf (decimal r.serverInfo.port.toNat)),
    (ascii "server_id", leaf (decimal r.serverInfo.processInfo.serverId.toNat)),
    (ascii "process_type", leaf (decimal r.serverInfo.processInfo.processType.toNat)),
    (ascii "process_id", leaf (decimal r.serverInfo.processInfo.processId.toNat)),
    (ascii "entities", .node [] (r.entities.map fun e => ([], entityTree e)))]

theorem scanNumber_decimal (v : Nat) : scanNumber (decimal v) = (false, decimal v, []) := by
  have hscan := @scanNumber_decimalInt (v : Int) [] fun c hc => by cases hc
  rwa [List.append_nil, Json.decimalInt_natCast, Int.natAbs_natCast,
    decide_eq_false (Int.not_lt.mpr (Int.natCast_nonneg v))] at hscan

theorem streamUnsigned_decimal {bits v : Nat} (hv : v < 2 ^ bits) : streamUnsigned bits (decimal v) = some v := by
  rw [streamUnsigned, scanNumber_decimal]
  simp only [digitsValue_decimal]
  rw [if_neg, if_neg Bool.false_ne_true]
  rintro (hnil | hlarge | hrest)
  · exact decimal_ne_nil v hnil
  · omega
  · exact hrest rfl

theorem parseEntityInfo_tree {e : EntityInfo} (hname : Clean e.entityName) (htag : Clean e.tag) :
    parseEntityInfo (entityTree e) = some e := by
  have hid : (entityTree e).getUnsigned? 64 (ascii "id") = some e.entityId.toNat :=
    streamUnsigned_decimal e.entityId.toNat_lt
  have hget : (entityTree e).get? (ascii "name") = some (cstr e.entityName.cells) := rfl
  have hget' : (entityTree e).get? (ascii "tag") = some (cstr e.tag.cells) := rfl
  rw [parseEntityInfo, hid, Option.bind_some, hget, Option.bind_some, hname.zeros, Option.bind_some, hget',
    Option.bind_some, htag.zeros, Option.map_some, Nat.toUInt64_eq, UInt64.ofNat_toNat]

theorem parseServerInfo_tree (h : Clean r.serverInfo.ip) : parseServerInfo r.tree = some r.serverInfo := by
  have hip : r.tree.get? (ascii "ip") = some (cstr r.serverInfo.ip.cells) := rfl
  have hport : r.tree.getUnsigned? 16 (ascii "port") = some r.serverInfo.port.toNat :=
    streamUnsigned_decimal r.serverInfo.port.toNat_lt
  have hserverId : r.tree.getUnsigned? 16 (ascii "server_id") = some r.serverInfo.processInfo.serverId.toNat :=
    streamUnsigned_decimal r.serverInfo.processInfo.serverId.toNat_lt
  have hprocessType : r.tree.getByte? (ascii "process_type") = some r.serverInfo.processInfo.processType.toNat := by
    have hlt := r.serverInfo.processInfo.processType.toNat_lt
    have hread : r.tree.getUnsigned? 32 (ascii "process_type") = some r.serverInfo.processInfo.processType.toNat :=
      streamUnsigned_decimal (Nat.lt_trans hlt (by decide))
    rw [Ptree.getByte?, hread, Option.filter_some, if_pos (decide_eq_true hlt)]
  have hprocessId : r.tree.getUnsigned? 16 (ascii "process_id") = some r.serverInfo.processInfo.processId.toNat :=
    streamUnsigned_decimal r.serverInfo.processInfo.processId.toNat_lt
  rw [parseServerInfo, hip, Option.bind_some, h.zeros, Option.bind_some, hport, Option.bind_some, hserverId,
    Option.bind_some, hprocessType, Option.bind_some, hprocessId, Option.map_some]
  simp only [Nat.toUInt16_eq, UInt16.ofNat_toNat, Nat.toUInt8_eq, UInt8.ofNat_toNat]

theorem foldlM_entityTree {entities : List EntityInfo} (hnames : ∀ e ∈ entities, Clean e.entityName)
    (htags : ∀ e ∈ entities, Clean e.tag) (processId : UInt16) (found : List EntityPacketInfo) :
    (entities.map fun e => (([] : List UInt8), entityTree e)).foldlM (fun found json =>
      (parseEntityInfo json.2).map fun info => found ++ [EntityPacketInfo.mk processId info]) found =
        some (found ++ entities.map (EntityPacketInfo.mk processId)) := by
  induction entities generalizing found with
  | nil => exact congrArg some (List.append_nil found).symm
  | cons e entities ih =>
      obtain ⟨hname, hnames⟩ := List.forall_mem_cons.mp hnames
      obtain ⟨htag, htags⟩ := List.forall_mem_cons.mp htags
      rw [List.map_cons, List.foldlM_cons, parseEntityInfo_tree hname htag, Option.map_some]
      show List.foldlM _ _ _ = _
      rw [ih hnames htags, List.append_assoc, List.map_cons, List.singleton_append]

variable {readJson : List UInt8 → Option Ptree} {found : Found} {node : Ptree}

/-- A json that was cut adds nothing. -/
theorem parseNodeInfo_cut {value : List UInt8} (hkey : (node.get? (ascii "key")).isSome)
    (hvalue : node.get? (ascii "value") = some value) (hparse : parseJson readJson value = none) :
    parseNodeInfo readJson found node = some found := by
  obtain ⟨key, hkey⟩ := Option.isSome_iff_exists.mp hkey
  rw [parseNodeInfo, hkey, Option.bind_some, hvalue, Option.bind_some, hparse]

/-- A whole one adds its process, if that is not there yet, and its entities. -/
theorem parseNodeInfo_whole {value : List UInt8} (hr : r.Clean) (hkey : (node.get? (ascii "key")).isSome)
    (hvalue : node.get? (ascii "value") = some value) (hparse : parseJson readJson value = some r.tree)
    (hnew : ∀ p ∈ found.processes, p.serverInfo.processInfo ≠ r.serverInfo.processInfo) :
    parseNodeInfo readJson found node =
      some ⟨found.processes ++ [⟨(found.processes.length + 1).toUInt16, r.serverInfo⟩],
        found.entities ++ r.entities.map (EntityPacketInfo.mk (found.processes.length + 1).toUInt16)⟩ := by
  obtain ⟨key, hkey⟩ := Option.isSome_iff_exists.mp hkey
  have hknown : found.processes.any (·.serverInfo.processInfo = r.serverInfo.processInfo) = false :=
    List.any_eq_false.mpr fun p hp => by simpa using hnew p hp
  have hentities : r.tree.child? (ascii "entities") =
      some (.node [] (r.entities.map fun e => ([], entityTree e))) := rfl
  rw [parseNodeInfo, hkey, Option.bind_some, hvalue, Option.bind_some, hparse]
  simp only [parseServerInfo_tree hr.ip, Option.bind_some, hknown, Bool.false_eq_true, if_false, hentities,
    Ptree.children, foldlM_entityTree hr.names hr.tags, Option.map_some]

/-! ## A directory -/

/-- What is found where these have published, in this order: the processes numbered from one, and the entities of each
    under its number. -/
def listing (rs : List Registration) : Found where
  processes := rs.zipIdx.map fun (r, i) => ⟨(i + 1).toUInt16, r.serverInfo⟩
  entities := rs.zipIdx.flatMap fun (r, i) => r.entities.map (EntityPacketInfo.mk (i + 1).toUInt16)

theorem listing_length (rs : List Registration) : (listing rs).processes.length = rs.length := by
  rw [listing, List.length_map, List.length_zipIdx]

theorem listing_concat (rs : List Registration) (r : Registration) :
    listing (rs ++ [r]) = ⟨(listing rs).processes ++ [⟨(rs.length + 1).toUInt16, r.serverInfo⟩],
      (listing rs).entities ++ r.entities.map (EntityPacketInfo.mk (rs.length + 1).toUInt16)⟩ := by
  rw [listing, List.zipIdx_append, List.map_append, List.flatMap_append, Nat.zero_add, List.zipIdx_singleton,
    List.map_singleton, List.flatMap_singleton]
  rfl

theorem listing_infos (rs : List Registration) :
    (listing rs).processes.map (·.serverInfo.processInfo) = rs.map (·.serverInfo.processInfo) := by
  rw [listing, List.map_map]
  conv_rhs => rw [← List.zipIdx_map_fst 0 rs, List.map_map]
  rfl

/-- A node as it is after a process has published: it has a key, and the value of the form. -/
structure Publishes (stored : List UInt8 → List UInt8) (name : List UInt8) (r : Registration) (node : Ptree) :
    Prop where
  key : (node.get? (ascii "key")).isSome
  value : ∃ url params, registerProcessEntities name r = some (url, params) ∧
    node.get? (ascii "value") = some (stored params)

/-- The value of a form is what stands before the next field, where nothing in it is escaped. -/
def ReadsForm (stored : List UInt8 → List UInt8) : Prop :=
  ∀ value rest, (∀ c ∈ value, FormChar c) → (rest = [] ∨ rest.head? = some 38) →
    stored (ascii "value=" ++ (value ++ rest)) = value

variable {stored : List UInt8 → List UInt8}

/-- The value of the form is the json, or its beginning. -/
theorem stored_params (hform : ReadsForm stored) (hr : r.Clean) {url params : List UInt8}
    (hparams : registerProcessEntities name r = some (url, params)) : stored params = r.body.take 2040 := by
  obtain ⟨url', heq⟩ := registerProcessEntities_eq name hr
  obtain ⟨rfl, rfl⟩ := Prod.mk.inj (Option.some.inj (hparams.symm.trans heq))
  have hrest : (ascii "&ttl=30").take (2040 - r.body.length) = [] ∨
      ((ascii "&ttl=30").take (2040 - r.body.length)).head? = some 38 := by
    cases 2040 - r.body.length with
    | zero => exact .inl rfl
    | succ k => exact .inr rfl
  rw [List.take_append, List.take_of_length_le (show (ascii "value=").length ≤ 2046 by decide), List.take_append]
  exact hform _ _ (fun c hc => hr.form c (List.mem_of_mem_take hc)) hrest

theorem Publishes.value_eq (hform : ReadsForm stored) (hr : r.Clean) (h : Publishes stored name r node) :
    node.get? (ascii "value") = some (r.body.take 2040) := by
  obtain ⟨url, params, hparams, hvalue⟩ := h.value
  rw [hvalue, stored_params hform hr hparams]

/-- One step of the loop over the nodes. -/
theorem publishes_parse (hform : ReadsForm stored) (hr : r.Clean)
    (hread : r.Short → readJson r.body = some r.tree) (hcut : ¬ r.Short → readJson (r.body.take 2040) = none)
    (h : Publishes stored name r node)
    (hnew : ∀ p ∈ found.processes, p.serverInfo.processInfo ≠ r.serverInfo.processInfo) :
    parseNodeInfo readJson found node = some (if r.Short then
      ⟨found.processes ++ [⟨(found.processes.length + 1).toUInt16, r.serverInfo⟩],
        found.entities ++ r.entities.map (EntityPacketInfo.mk (found.processes.length + 1).toUInt16)⟩ else found) := by
  have hvalue := h.value_eq hform hr
  have hparse : parseJson readJson (r.body.take 2040) = readJson (r.body.take 2040) :=
    congrArg readJson (cstr_eq_self fun hmem => (hr.form 0 (List.mem_of_mem_take hmem)).1 rfl)
  by_cases hshort : r.Short
  · rw [if_pos hshort]
    refine parseNodeInfo_whole hr h.key hvalue ?_ hnew
    rw [hparse, List.take_of_length_le hshort, hread hshort]
  · rw [if_neg hshort]
    exact parseNodeInfo_cut h.key hvalue (hparse.trans (hcut hshort))

/-- By induction on the nodes that are left: what is found so far is the listing of those whose json was whole, so the
    next process gets the next number. -/
theorem listing_of_nodes {regs done : List Registration} {children : List (List UInt8 × Ptree)}
    (hform : ReadsForm stored) (hclean : ∀ r ∈ regs, r.Clean)
    (hdistinct : ((done ++ regs).map (·.serverInfo.processInfo)).Nodup)
    (hread : ∀ r ∈ regs, r.Short → readJson r.body = some r.tree)
    (hcut : ∀ r ∈ regs, ¬ r.Short → readJson (r.body.take 2040) = none)
    (hnodes : List.Forall₂ (fun r child => Publishes stored name r child.2) regs children) :
    children.foldlM (fun found child => parseNodeInfo readJson found child.2) (listing done) =
      some (listing (done ++ regs.filter (·.Short))) := by
  induction hnodes generalizing done with
  | nil => rw [List.filter_nil, List.append_nil]; rfl
  | @cons r child regs children hnode _ ih =>
      obtain ⟨hr, hclean⟩ := List.forall_mem_cons.mp hclean
      obtain ⟨hreadr, hread⟩ := List.forall_mem_cons.mp hread
      obtain ⟨hcutr, hcut⟩ := List.forall_mem_cons.mp hcut
      have hinfo : r.serverInfo.processInfo ∉ done.map (·.serverInfo.processInfo) := by
        rw [List.map_append, List.map_cons] at hdistinct
        exact fun hmem => (List.nodup_append.mp hdistinct).2.2 _ hmem _ List.mem_cons_self rfl
      have hnew : ∀ p ∈ (listing done).processes, p.serverInfo.processInfo ≠ r.serverInfo.processInfo := by
        intro p hp heq
        rw [← listing_infos] at hinfo
        exact hinfo (List.mem_map.mpr ⟨p, hp, heq⟩)
      rw [List.foldlM_cons, publishes_parse hform hr hreadr hcutr hnode hnew, listing_length, ← listing_concat]
      show List.foldlM _ _ _ = _
      by_cases hshort : r.Short
      · have hdistinct' : ((done ++ [r] ++ regs).map (·.serverInfo.processInfo)).Nodup := by
          rwa [List.append_assoc, List.singleton_append]
        rw [if_pos hshort, ih hclean hdistinct' hread hcut, List.filter_cons_of_pos (by simpa using hshort),
          List.append_assoc, List.singleton_append]
      · have hsub : (done ++ regs).Sublist (done ++ r :: regs) := (List.sublist_cons_self r regs).append_left done
        rw [if_neg hshort, ih hclean (hdistinct.sublist (hsub.map _)) hread hcut,
          List.filter_cons_of_neg (by simpa using hshort)]

/-! ## A node that is gone -/

theorem keyIdByProcessInfo_lt (i : ProcessInfo) : keyIdByProcessInfo i < 2 ^ 63 := by
  have hserverId := i.serverId.toNat_lt
  have hprocessType := i.processType.toNat_lt
  have hprocessId := i.processId.toNat_lt
  rw [keyIdByProcessInfo]
  omega

theorem strtoll_decimal {v : Nat} (hv : v < 2 ^ 63) : strtoll (decimal v) = v := by
  rw [strtoll, scanNumber_decimal]
  simp only [digitsValue_decimal, Bool.false_eq_true, if_false]
  omega

/-- The number behind the last slash names a process. -/
theorem parseEtcdKeyId_key (dir : List UInt8) (i : ProcessInfo) :
    parseEtcdKeyId (dir ++ 47 :: decimal (keyIdByProcessInfo i)) = i := by
  have hdigits : (decimal (keyIdByProcessInfo i)).reverse.takeWhile (· ≠ 47) =
      (decimal (keyIdByProcessInfo i)).reverse := by
    apply List.takeWhile_eq_self_iff.mpr
    intro c hc
    have hlow := (mem_decimal (List.mem_reverse.mp hc)).1
    refine decide_eq_true ?_
    rintro rfl
    exact absurd hlow (by decide)
  have htail : ((dir ++ 47 :: decimal (keyIdByProcessInfo i)).reverse.takeWhile (· ≠ 47)).reverse =
      decimal (keyIdByProcessInfo i) := by
    rw [List.reverse_append, List.reverse_cons, List.append_assoc, List.singleton_append, List.takeWhile_append,
      hdigits, if_pos rfl, List.takeWhile_cons_of_neg (by decide), List.append_nil, List.reverse_reverse]
  obtain ⟨serverId, processType, processId⟩ := i
  have hserverId := serverId.toNat_lt
  have hprocessType := processType.toNat_lt
  have hprocessId := processId.toNat_lt
  rw [parseEtcdKeyId, htail, cstr_eq_self (nulFree_decimal _), strtoll_decimal (keyIdByProcessInfo_lt _)]
  simp only [keyIdByProcessInfo, ProcessInfo.mk.injEq, ← UInt16.toNat_inj, ← UInt8.toNat_inj, Nat.toUInt16_eq,
    Nat.toUInt8_eq, UInt16.toNat_ofNat', UInt8.toNat_ofNat']
  omega

/-- The URL without `/v2/keys` is the key of the node. -/
theorem parseEtcdKeyId_url (hname : name.length ≤ namespaceLen) {url params : List UInt8}
    (h : registerProcessEntities name r = some (url, params)) :
    parseEtcdKeyId (url.drop 8) = r.serverInfo.processInfo := by
  rw [registerProcessEntities] at h
  obtain ⟨url', hurl, h⟩ := Option.bind_eq_some_iff.mp h
  obtain ⟨_, _, h⟩ := Option.bind_eq_some_iff.mp h
  obtain ⟨_, _, h⟩ := Option.bind_eq_some_iff.mp h
  obtain ⟨_, _, heq⟩ := Option.map_eq_some_iff.mp h
  obtain ⟨rfl, -⟩ := Prod.mk.inj heq
  have hshort : (ascii "/v2/keys/mw/" ++ (name ++ 47 :: decimal (keyIdByProcessInfo r.serverInfo.processInfo))).length ≤
      2046 := by
    have hkey := keyIdByProcessInfo_lt r.serverInfo.processInfo
    have hlen : (decimal (keyIdByProcessInfo r.serverInfo.processInfo)).length ≤ 20 :=
      decimal_length_le (by decide) (by omega)
    have hdir : (ascii "/v2/keys/mw/").length = 12 := by decide
    rw [List.length_append, List.length_append, List.length_cons, hdir]
    rw [namespaceLen] at hname
    omega
  have hprintf : printf "/v2/keys/mw/%s/%llu".toList
      [.str name, .ulong (keyIdByProcessInfo r.serverInfo.processInfo)] =
        some (ascii "/v2/keys/mw/" ++ (name ++ 47 :: decimal (keyIdByProcessInfo r.serverInfo.processInfo))) := by
    rw [← List.append_nil (decimal _)]
    rfl
  rw [gxToString_eq_some hprintf hshort] at hurl
  obtain rfl := Option.some.inj hurl
  have hsplit : ascii "/v2/keys/mw/" = ascii "/v2/keys" ++ ascii "/mw/" := by decide
  rw [hsplit, List.append_assoc, List.drop_left' (by decide), ← List.append_assoc]
  exact parseEtcdKeyId_key _ _

/-- **What is published is found.** Processes have published in a directory, each its own entities, and another process
    lists it: it finds each process and each entity as they were, in the order of the nodes, but for those whose json
    was cut. When a node is gone, its key names the process. -/
theorem published_found {regs : List Registration} {children : List (List UInt8 × Ptree)} (hform : ReadsForm stored)
    (hclean : ∀ r ∈ regs, r.Clean) (hdistinct : (regs.map (·.serverInfo.processInfo)).Nodup)
    (hread : ∀ r ∈ regs, r.Short → readJson r.body = some r.tree)
    (hcut : ∀ r ∈ regs, ¬ r.Short → readJson (r.body.take 2040) = none)
    (hnodes : List.Forall₂ (fun r child => Publishes stored name r child.2) regs children)
    (hname : name.length ≤ namespaceLen) :
    children.foldlM (fun found child => parseNodeInfo readJson found child.2) {} =
        some (listing (regs.filter (·.Short))) ∧
      ∀ r url params, registerProcessEntities name r = some (url, params) →
        parseEtcdKeyId (url.drop 8) = r.serverInfo.processInfo :=
  ⟨@listing_of_nodes name readJson stored regs [] children hform hclean hdistinct hread hcut hnodes,
    fun _ _ _ h => parseEtcdKeyId_url hname h⟩

theorem game_ip_fits : 0 + (ascii "10.0.0.1").length ≤ ipLen := by decide

theorem roll_stub_fits : 0 + (ascii "roll_stub").length ≤ entityNameLen := by decide

/-- A game with its `roll_stub`. -/
def rollStubGame : Registration where
  serverInfo := ⟨⟨1, 2, 3⟩, 7003, (Block.fill ipLen 0).write 0 (ascii "10.0.0.1") game_ip_fits⟩
  entities := [⟨7, (Block.fill entityNameLen 0).write 0 (ascii "roll_stub") roll_stub_fits, Block.fill tagNameLen 0⟩]

theorem wall_tag_fits : 0 + (ascii "north").length ≤ tagNameLen := by decide

/-- Another game, with two entities. -/
def wallGame : Registration where
  serverInfo := ⟨⟨1, 2, 5⟩, 7005, (Block.fill ipLen 0).write 0 (ascii "10.0.0.1") game_ip_fits⟩
  entities := [⟨8, (Block.fill entityNameLen 0).write 0 (ascii "roll_stub") roll_stub_fits, Block.fill tagNameLen 0⟩,
    ⟨9, (Block.fill entityNameLen 0).write 0 (ascii "roll_stub") roll_stub_fits,
      (Block.fill tagNameLen 0).write 0 (ascii "north") wall_tag_fits⟩]

/-- One that has too many for a json. -/
def crowdedGame : Registration where
  serverInfo := ⟨⟨1, 2, 4⟩, 7004, (Block.fill ipLen 0).write 0 (ascii "10.0.0.1") game_ip_fits⟩
  entities := List.replicate 60 ⟨10, (Block.fill entityNameLen 0).write 0 (ascii "roll_stub") roll_stub_fits,
    Block.fill tagNameLen 0⟩

def games : List Registration := [rollStubGame, crowdedGame, wallGame]

/-- A reader of their json. -/
def readGames (text : List UInt8) : Option Ptree :=
  if text = rollStubGame.body then some rollStubGame.tree
  else if text = wallGame.body then some wallGame.tree
  else none

/-- The first field of a form. -/
def firstField (params : List UInt8) : List UInt8 := (params.drop 6).takeWhile (· ≠ 38)

theorem firstField_readsForm : ReadsForm firstField := by
  intro value rest hvalue hrest
  have hself : value.takeWhile (· ≠ 38) = value :=
    List.takeWhile_eq_self_iff.mpr fun c hc => decide_eq_true (hvalue c hc).2.2.1
  have hnil : rest.takeWhile (· ≠ 38) = [] := by
    rcases hrest with rfl | hhead
    · rfl
    · obtain ⟨tail, rfl⟩ := List.head?_eq_some_iff.mp hhead
      exact List.takeWhile_cons_of_neg (by decide)
  show (value ++ rest).takeWhile (· ≠ 38) = value
  rw [List.takeWhile_append, hself, if_pos rfl, hnil, List.append_nil]

/-- The node of a game. -/
def gameNode (r : Registration) : List UInt8 × Ptree :=
  ([], .node [] [(ascii "key", leaf (ascii "/mw/stub/" ++ decimal (keyIdByProcessInfo r.serverInfo.processInfo))),
    (ascii "value", leaf (r.body.take 2040))])

theorem gameNode_publishes (hr : r.Clean) : Publishes firstField (ascii "stub") r (gameNode r).2 := by
  obtain ⟨url, hparams⟩ := registerProcessEntities_eq (ascii "stub") hr
  refine ⟨rfl, url, _, hparams, ?_⟩
  rw [stored_params firstField_readsForm hr hparams]
  rfl

theorem games_clean : ∀ r ∈ games, r.Clean := by
  have hip : Clean ((Block.fill ipLen 0).write 0 (ascii "10.0.0.1") game_ip_fits) :=
    ⟨by decide +kernel, rfl, forall_of_all (by decide +kernel)⟩
  have hname : Clean ((Block.fill entityNameLen 0).write 0 (ascii "roll_stub") roll_stub_fits) :=
    ⟨by decide +kernel, rfl, forall_of_all (by decide +kernel)⟩
  have hblank : Clean (Block.fill tagNameLen 0) := ⟨by decide +kernel, rfl, forall_of_all (by decide +kernel)⟩
  have hnorth : Clean ((Block.fill tagNameLen 0).write 0 (ascii "north") wall_tag_fits) :=
    ⟨by decide +kernel, rfl, forall_of_all (by decide +kernel)⟩
  rw [games, List.forall_mem_cons, List.forall_mem_cons, List.forall_mem_singleton]
  refine ⟨⟨hip, List.forall_mem_singleton.mpr hname, List.forall_mem_singleton.mpr hblank⟩, ⟨hip, ?_, ?_⟩,
    ⟨hip, List.forall_mem_cons.mpr ⟨hname, List.forall_mem_singleton.mpr hname⟩,
      List.forall_mem_cons.mpr ⟨hblank, List.forall_mem_singleton.mpr hnorth⟩⟩⟩
  · intro e he
    rw [List.eq_of_mem_replicate he]
    exact hname
  · intro e he
    rw [List.eq_of_mem_replicate he]
    exact hblank

theorem games_publish : List.Forall₂ (fun r (child : List UInt8 × Ptree) =>
    Publishes firstField (ascii "stub") r child.2) games (games.map gameNode) := by
  obtain ⟨hroll, hrest⟩ := List.forall_mem_cons.mp games_clean
  obtain ⟨hcrowded, hwall⟩ := List.forall_mem_cons.mp hrest
  exact .cons (gameNode_publishes hroll) (.cons (gameNode_publishes hcrowded)
    (.cons (gameNode_publishes (List.forall_mem_singleton.mp hwall)) .nil))

theorem crowdedGame_not_short : ¬ crowdedGame.Short := by decide +kernel

theorem games_short : games.filter (·.Short) = [rollStubGame, wallGame] := by
  have hroll : rollStubGame.Short := by decide +kernel
  have hwall : wallGame.Short := by decide +kernel
  rw [games, List.filter_cons_of_pos (by simpa using hroll),
    List.filter_cons_of_neg (by simpa using crowdedGame_not_short), List.filter_cons_of_pos (by simpa using hwall),
    List.filter_nil]

/-- A reader that reads the two jsons that are whole, and refuses the third. -/
structure ReadsGames (readJson : List UInt8 → Option Ptree) : Prop where
  roll : readJson rollStubGame.body = some rollStubGame.tree
  wall : readJson wallGame.body = some wallGame.tree
  crowded : readJson (crowdedGame.body.take 2040) = none

theorem ReadsGames.read {readJson : List UInt8 → Option Ptree} (h : ReadsGames readJson) :
    (∀ r ∈ games, r.Short → readJson r.body = some r.tree) ∧
      ∀ r ∈ games, ¬ r.Short → readJson (r.body.take 2040) = none := by
  have hmem : ∀ r ∈ games, r = crowdedGame ∨ r ∈ games.filter (·.Short) := by
    rw [games_short]
    simp [games, or_comm, or_left_comm]
  constructor
  · intro r hr hshort
    rcases hmem r hr with rfl | hfilter
    · exact absurd hshort crowdedGame_not_short
    · rw [games_short] at hfilter
      rcases List.mem_cons.mp hfilter with rfl | hfilter
      · exact h.roll
      · rw [List.mem_singleton.mp hfilter]
        exact h.wall
  · intro r hr hnot
    rcases hmem r hr with rfl | hfilter
    · exact h.crowded
    · exact absurd (of_decide_eq_true (List.mem_filter.mp hfilter).2) hnot

theorem readGames_reads : ReadsGames readGames where
  roll := if_pos rfl
  wall := by
    rw [readGames, if_neg (by decide +kernel), if_pos rfl]
  crowded := by
    rw [readGames, if_neg (by decide +kernel), if_neg (by decide +kernel)]

/-- Of three games two are found. -/
theorem published_found_games : ∃ found, (games.map gameNode).foldlM
      (fun found (child : List UInt8 × Ptree) => parseNodeInfo readGames found child.2) {} = some found ∧
    found.processes.map (fun p => (p.processId, p.serverInfo.processInfo.processId)) = [(1, 3), (2, 5)] ∧
    found.entities.map (fun e => (e.processId, e.entityInfo.entityId)) = [(1, 7), (2, 8), (2, 9)] := by
  obtain ⟨hfound, -⟩ := published_found firstField_readsForm games_clean (by decide) readGames_reads.read.1
    readGames_reads.read.2 games_publish (show (ascii "stub").length ≤ namespaceLen by decide)
  rw [games_short] at hfound
  exact ⟨_, hfound, rfl, rfl⟩

/-! ## The listener that asked -/

/-- The entities of one process are those under its number. -/
theorem filter_entities {α : Type} {number : α → UInt16} {entities : α → List EntityInfo} {xs : List α}
    (hnodup : (xs.map number).Nodup) {x : α} (hx : x ∈ xs) :
    (xs.flatMap fun y => (entities y).map (EntityPacketInfo.mk (number y))).filter (·.processId = number x) =
      (entities x).map (EntityPacketInfo.mk (number x)) := by
  have hsame : ∀ y, ((entities y).map (EntityPacketInfo.mk (number y))).filter (·.processId = number y) =
      (entities y).map (EntityPacketInfo.mk (number y)) := by
    intro y
    refine List.filter_eq_self.mpr fun e he => ?_
    obtain ⟨info, _, rfl⟩ := List.mem_map.mp he
    exact decide_eq_true rfl
  have hother : ∀ {y z}, number y ≠ number z →
      ((entities y).map (EntityPacketInfo.mk (number y))).filter (·.processId = number z) = [] := by
    intro y z hne
    refine List.filter_eq_nil_iff.mpr fun e he => ?_
    obtain ⟨info, _, rfl⟩ := List.mem_map.mp he
    simpa using hne
  induction xs with
  | nil => cases hx
  | cons y ys ih =>
      obtain ⟨hy, hys⟩ := List.nodup_cons.mp hnodup
      rw [List.flatMap_cons, List.filter_append]
      rcases List.mem_cons.mp hx with rfl | hx
      · have hrest : (ys.flatMap fun z => (entities z).map (EntityPacketInfo.mk (number z))).filter
            (·.processId = number x) = [] := by
          rw [List.filter_flatMap, List.flatMap_eq_nil_iff]
          exact fun z hz => hother fun heq => hy (List.mem_map.mpr ⟨z, hz, heq⟩)
        rw [hsame, hrest, List.append_nil]
      · have hne : number y ≠ number x := fun heq => hy (List.mem_map.mpr ⟨x, hx, heq.symm⟩)
        rw [hother hne, List.nil_append, ih hys hx]

/-- The values of a listing. -/
theorem Values.entitiesOf_listing {rs : List Registration} {v : Values} (hv : v.found = listing rs) {r : Registration}
    (hr : r ∈ rs) : ∃ p ∈ v.found.processes, p.serverInfo = r.serverInfo ∧ v.entitiesOf p = r.entities := by
  obtain ⟨i, hi, hget⟩ := List.mem_iff_getElem.mp hr
  have hmem : (r, i) ∈ rs.zipIdx := List.mem_zipIdx_iff_getElem?.mpr (by rw [List.getElem?_eq_getElem hi, hget])
  have hids := v.ids
  rw [hv, listing, List.map_map] at hids
  refine ⟨⟨(i + 1).toUInt16, r.serverInfo⟩, ?_, rfl, ?_⟩
  · rw [hv]
    exact List.mem_map.mpr ⟨(r, i), hmem, rfl⟩
  · have hfilter := @filter_entities _ (fun x : Registration × Nat => (x.2 + 1).toUInt16) (fun x => x.1.entities)
      rs.zipIdx hids (r, i) hmem
    show (v.found.entities.filter _).map _ = _
    rw [hv]
    exact (congrArg _ hfilter).trans ((List.map_map ..).trans (List.map_id _))

theorem parseNodes_found {header body : List UInt8} {m : Message} {bodyJson node nodes : Ptree}
    (hbody : parseJson readJson body = some bodyJson) (hnode : bodyJson.child? (ascii "node") = some node)
    (hnodes : node.child? (ascii "nodes") = some nodes)
    (hfound : nodes.children.foldlM (fun found child => parseNodeInfo readJson found child.2) {} = some found)
    (h : parseNodes readJson name header body = some (some m)) :
    ∃ waitIndex, m = .onRegisterEntities name waitIndex found ∧ PacketFits name found 0 := by
  obtain ⟨_, _, _, _, _, found', _, _, hbody', _, hnode', hnodes', hfound', hm⟩ := parseNodes_some_iff.mp h
  obtain rfl := Option.some.inj (hbody.symm.trans hbody')
  obtain rfl := Option.some.inj (hnode.symm.trans hnode')
  obtain rfl := Option.some.inj (hnodes.symm.trans hnodes')
  obtain rfl := Option.some.inj (hfound.symm.trans hfound')
  have hfits := (sendEntities_isSome_iff .nil).mp (Option.isSome_of_eq_some hm)
  obtain ⟨_, _, rfl⟩ := Option.map_eq_some_iff.mp hm
  exact ⟨_, rfl, hfits⟩

/-- There is a message if what is found fits into it. -/
theorem parseNodes_get {header body : List UInt8} {bodyJson node nodes : Ptree}
    (hheader : tokens isLineEnd (cstr header) ≠ []) (hne : body ≠ []) (hbody : parseJson readJson body = some bodyJson)
    (haction : bodyJson.get? (ascii "action") = some (ascii "get"))
    (hnode : bodyJson.child? (ascii "node") = some node) (hnodes : node.child? (ascii "nodes") = some nodes)
    (hfound : nodes.children.foldlM (fun found child => parseNodeInfo readJson found child.2) {} = some found)
    (hfits : PacketFits name found 0) : ∃ m, parseNodes readJson name header body = some (some m) := by
  obtain ⟨line, lines, htokens⟩ := List.exists_cons_of_ne_nil hheader
  obtain ⟨m, hm⟩ := Option.isSome_iff_exists.mp ((sendEntities_isSome_iff .nil).mpr hfits)
  exact ⟨m, parseNodes_some_iff.mpr
    ⟨line, lines, bodyJson, node, nodes, found, htokens, hne, hbody, haction, hnode, hnodes, hfound, hm⟩⟩

/-- **What is published becomes known.** A listener has asked for the directory, and gets the message that its response
    becomes: the entry of each process whose json was whole is what it has published, if and only if that only adds to
    the entry; the entries of other processes stay. -/
theorem published_known {regs : List Registration} {header body : List UInt8} {bodyJson node nodes : Ptree}
    {m : Message} {l : Listener} (hform : ReadsForm stored) (hclean : ∀ r ∈ regs, r.Clean)
    (hdistinct : (regs.map (·.serverInfo.processInfo)).Nodup)
    (hread : ∀ r ∈ regs, r.Short → readJson r.body = some r.tree)
    (hcut : ∀ r ∈ regs, ¬ r.Short → readJson (r.body.take 2040) = none)
    (hbody : parseJson readJson body = some bodyJson) (hnode : bodyJson.child? (ascii "node") = some node)
    (hnodes : node.child? (ascii "nodes") = some nodes)
    (hpublished : List.Forall₂ (fun r child => Publishes stored name r child.2) regs nodes.children)
    (hmessage : parseNodes readJson name header body = some (some m))
    (hentries : ∀ keyId info, l.globalEntities keyId = some info → (info.entities.map (·.entityId)).Nodup) :
    ∃ l', l.onMessage m = some l' ∧
    (∀ r ∈ regs, r.Short →
      (l'.globalEntities (keyIdByProcessInfo r.serverInfo.processInfo) = some ⟨r.serverInfo, r.entities⟩ ↔
        Registry.Adds (l.globalEntities (keyIdByProcessInfo r.serverInfo.processInfo)) r.serverInfo r.entities)) ∧
    ∀ keyId, (∀ r ∈ regs, r.Short → keyId ≠ keyIdByProcessInfo r.serverInfo.processInfo) →
      l'.globalEntities keyId = l.globalEntities keyId := by
  have hfound := @listing_of_nodes name readJson stored regs [] nodes.children hform hclean hdistinct hread hcut
    hpublished
  obtain ⟨waitIndex, rfl, hfits⟩ := parseNodes_found hbody hnode hnodes hfound hmessage
  obtain ⟨v, hv⟩ := (foldlM_numbered numbered_empty hfound).values hfits
  rw [List.nil_append] at hv
  rw [List.nil_append, ← hv]
  refine ⟨_, rfl, ?_, ?_⟩
  · intro r hr hshort
    obtain ⟨p, hp, hserver, hentities⟩ :=
      Values.entitiesOf_listing hv (List.mem_filter.mpr ⟨hr, decide_eq_true hshort⟩)
    have hentry := Registry.globalEntities_of_mem l waitIndex v hp
    rw [hserver, hentities] at hentry
    show (l.onRegisterEntities waitIndex v.found).globalEntities _ = _ ↔ _
    rw [hentry]
    exact Registry.foldl_addEntity_eq_iff fun info hinfo => hentries _ info hinfo
  · intro keyId hkey
    refine Registry.globalEntities_of_not_mem l waitIndex v fun p hp => ?_
    rw [hv] at hp
    obtain ⟨⟨r, i⟩, hr, rfl⟩ := List.mem_map.mp hp
    obtain ⟨hmem, hshort⟩ := List.mem_filter.mp (List.fst_mem_of_mem_zipIdx hr)
    exact hkey r hmem (of_decide_eq_true hshort)

/-- What `etcd` answers where these games have published. -/
def directoryText : List UInt8 :=
  ascii "\x7b\"action\":\"get\",\"node\":\x7b\"nodes\":[" ++ [44].intercalate (games.map fun r =>
    ascii "\x7b\"key\":\"/mw/stub/" ++ decimal (keyIdByProcessInfo r.serverInfo.processInfo) ++
      ascii "\",\"value\":\"" ++ ((r.body.take 2040).flatMap fun c => if c = 34 then [92, 34] else [c]) ++
      ascii "\"\x7d") ++ ascii "]\x7d\x7d"

def directoryTree : Ptree :=
  .node [] [(ascii "action", leaf (ascii "get")),
    (ascii "node", .node [] [(ascii "nodes", .node [] (games.map gameNode))])]

def readDirectory (text : List UInt8) : Option Ptree :=
  if text = directoryText then some directoryTree else readGames text

theorem readDirectory_reads : ReadsGames readDirectory where
  roll := by
    rw [readDirectory, if_neg (by decide +kernel), readGames_reads.roll]
  wall := by
    rw [readDirectory, if_neg (by decide +kernel), readGames_reads.wall]
  crowded := by
    rw [readDirectory, if_neg (by decide +kernel), readGames_reads.crowded]

/-- A listener that knows nothing yet. -/
def newListener : Listener where
  name := Block.fill namespaceLen 0

/-- Two of the three games become known. -/
theorem published_known_games : ∃ m l,
    parseNodes readDirectory (ascii "stub") (ascii "X-Etcd-Index: 5") directoryText = some (some m) ∧
      newListener.onMessage m = some l ∧
      l.globalEntities (keyIdByProcessInfo rollStubGame.serverInfo.processInfo) =
        some ⟨rollStubGame.serverInfo, rollStubGame.entities⟩ ∧
      l.globalEntities (keyIdByProcessInfo wallGame.serverInfo.processInfo) =
        some ⟨wallGame.serverInfo, wallGame.entities⟩ ∧
      l.globalEntities (keyIdByProcessInfo crowdedGame.serverInfo.processInfo) = none := by
  obtain ⟨hread, hcut⟩ := readDirectory_reads.read
  have hbody : parseJson readDirectory directoryText = some directoryTree := by
    rw [parseJson, show cstr directoryText = directoryText by decide +kernel, readDirectory, if_pos rfl]
  have hdistinct : (games.map (·.serverInfo.processInfo)).Nodup := by decide
  have hfound := @listing_of_nodes _ readDirectory _ games [] (games.map gameNode) firstField_readsForm games_clean
    hdistinct hread hcut games_publish
  rw [games_short] at hfound
  obtain ⟨m, hmessage⟩ : ∃ m, parseNodes readDirectory (ascii "stub") (ascii "X-Etcd-Index: 5") directoryText =
      some (some m) :=
    parseNodes_get (by decide +kernel) (by decide +kernel) hbody rfl rfl rfl hfound (by
      show (ascii "stub").length + 33 * 2 + 74 * 3 + 10 + 0 ≤ sizeofBuffer
      decide)
  have hentries : ∀ keyId info, newListener.globalEntities keyId = some info →
      (info.entities.map (·.entityId)).Nodup := fun _ _ h => by cases h
  obtain ⟨l, hl, hknown, hother⟩ := published_known firstField_readsForm games_clean hdistinct hread hcut hbody rfl rfl
    games_publish hmessage hentries
  have hadds : ∀ r ∈ games.filter (·.Short), (r.entities.map (·.entityId)).Nodup → r.entities ≠ [] →
      l.globalEntities (keyIdByProcessInfo r.serverInfo.processInfo) = some ⟨r.serverInfo, r.entities⟩ := by
    intro r hr hnodup hne
    obtain ⟨hmem, hshort⟩ := List.mem_filter.mp hr
    exact (hknown r hmem (of_decide_eq_true hshort)).mpr ⟨hnodup, fun _ => hne, fun _ h => by cases h⟩
  rw [games_short] at hadds
  refine ⟨m, l, hmessage, hl, hadds _ (by simp) (by decide) (List.cons_ne_nil _ _),
    hadds _ (by simp) (by decide) (List.cons_ne_nil _ _), ?_⟩
  -- the json of the third one was cut
  refine hother _ fun r hr hshort => ?_
  have hmem : r ∈ games.filter (·.Short) := List.mem_filter.mpr ⟨hr, decide_eq_true hshort⟩
  rw [games_short] at hmem
  rcases List.mem_cons.mp hmem with rfl | hmem
  · decide
  · rw [List.mem_singleton.mp hmem]
    decide

end Etcd

end Mowang
