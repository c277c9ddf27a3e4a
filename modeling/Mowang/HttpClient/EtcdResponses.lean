import Mowang.Base.Lists
import Mowang.Base.PropertyTree
import Mowang.Share.EtcdRegistry
import Mowang.Share.RpcClient

/-!
# `HttpClient.EtcdResponses` — what the http client makes of a response of etcd

`request_all` and `request_one` hand their callbacks to a proxy, which calls them back with the header and the body
of the response, or with no header and a text of its own if the transport fails. A host that is not resolved calls
back nobody. A response with the right action becomes a message to the process that asked; any other one ends in a
log line, or in an exception of the property tree that nobody catches.

`none` is such an exception, which ends the process, or a write outside an object. `readJson` is `read_json`. The two
arrays of `parse_nodes` hold 32767 elements at most; here they are lists, and what goes out fits a packet.

## Contents
- `Outcome`.
- `parseNodeInfo`, `parseNodes`, `parseChange`, `react`.
- `parseNodes_some_iff`, `parseChange_some_iff` — what the callbacks have gone through when they send a message.
- `NodeReadable`, `Listing`, `Change` — the responses that become a message, and `react_message_iff`.
- `react_cases` — what a message carries.
-/

namespace Mowang

open LittleEndian Block

namespace Etcd

/-! ## Outcomes -/

/-- The errors of the transport that call back, with the text they pass as the body. -/
inductive TransportError
  | connect
  | handshake
  | write
  | readStatusLine
  | invalidResponse
  | readHeaders
  | readContent

def TransportError.text : TransportError → List UInt8
  | .connect         => ascii "connect failed"
  | .handshake       => ascii "handshake failed"
  | .write           => ascii "write failed"
  | .readStatusLine  => ascii "read status line failed"
  | .invalidResponse => ascii "invalid response"
  | .readHeaders     => ascii "read headers failed"
  | .readContent     => ascii "read content failed"

/-- What becomes of a request at etcd. -/
inductive Outcome
  /-- `handle_resolve` fails, and calls nobody back. -/
  | unresolved
  | failed (error : TransportError)
  | response (header body : List UInt8)

/-! ## The callbacks -/

section Callbacks

variable (readJson : List UInt8 → Option Ptree)

/-- `parse_json`. -/
def parseJson (result : List UInt8) : Option Ptree := readJson (cstr result)

/-- The fields of a process, out of its json. -/
def parseServerInfo (json : Ptree) : Option ServerInfo :=
  (json.get? (ascii "ip")).bind fun ip =>
  ((Block.fill ipLen 0).write? 0 ip).bind fun ip =>
  (json.getUnsigned? 16 (ascii "port")).bind fun port =>
  (json.getUnsigned? 16 (ascii "server_id")).bind fun serverId =>
  (json.getByte? (ascii "process_type")).bind fun processType =>
  (json.getUnsigned? 16 (ascii "process_id")).map fun processId =>
  ⟨⟨serverId.toUInt16, processType.toUInt8, processId.toUInt16⟩, port.toUInt16, ip⟩

def parseEntityInfo (json : Ptree) : Option EntityInfo :=
  (json.getUnsigned? 64 (ascii "id")).bind fun id =>
  (json.get? (ascii "name")).bind fun name =>
  ((Block.fill entityNameLen 0).write? 0 name).bind fun name =>
  (json.get? (ascii "tag")).bind fun tag =>
  ((Block.fill tagNameLen 0).write? 0 tag).map fun tag =>
  ⟨id.toUInt64, name, tag⟩

/-- `parse_node_info`. Only a new process gets a `process_id`, which its entities take over. -/
def parseNodeInfo (found : Found) (nodeInfo : Ptree) : Option Found :=
  (nodeInfo.get? (ascii "key")).bind fun _ =>
  (nodeInfo.get? (ascii "value")).bind fun processStr =>
  match parseJson readJson processStr with
  | none             => some found
  | some processJson =>
    (parseServerInfo processJson).bind fun serverInfo =>
    let known := found.processes.any (·.serverInfo.processInfo = serverInfo.processInfo)
    let processId := if known then 0 else (found.processes.length + 1).toUInt16
    let processes := if known then found.processes else found.processes ++ [⟨processId, serverInfo⟩]
    (processJson.child? (ascii "entities")).bind fun entitiesJson =>
    (entitiesJson.children.foldlM (fun entities entityJson =>
      (parseEntityInfo entityJson.2).map fun info => entities ++ [⟨processId, info⟩]) found.entities).map fun entities =>
    ⟨processes, entities⟩

/-- `call_remote_func` of `on_register_entities`; `request_one` passes one argument too many. -/
def sendEntities (name : List UInt8) (waitIndex : Nat) (found : Found) (more : List Param) : Option Message :=
  ((⟨some 0, []⟩ : RpcClient).callRemoteFunc (ascii "on_register_entities")
    ([.dynamicString (.ofBytes name), .pod (Pod.ofNat 4 waitIndex),
      .dynamicArray (.ofList (found.processes.map (·.image))),
      .dynamicArray (.ofList (found.entities.map (·.image)))] ++ more)).map fun _ =>
  .onRegisterEntities name waitIndex found

/-- `call_remote_func` of `on_unregister_process`. -/
def sendUnregister (name : List UInt8) (waitIndex : Nat) (processInfo : ProcessInfo) : Option Message :=
  ((⟨some 0, []⟩ : RpcClient).callRemoteFunc (ascii "on_unregister_process")
    [.dynamicString (.ofBytes name), .pod (Pod.ofNat 4 waitIndex), .pod processInfo.image]).map fun _ =>
  .onUnregisterProcess name waitIndex processInfo

def isLineEnd (c : UInt8) : Bool := c = 13 || c = 10

/-- One line of the header, in the loop of `parse_nodes`. -/
def headerLine (waitIndex : Nat) (line : List UInt8) : Nat :=
  let key := line.takeWhile (· ≠ 58)
  if 58 ∈ line ∧ key = ascii "X-Etcd-Index" then (strtoll (line.drop (key.length + 1)) % 2 ^ 32).toNat else waitIndex

/-- `parse_nodes`. A header without a line makes a string of a null pointer. -/
def parseNodes (name header body : List UInt8) : Option (Option Message) :=
  if header.length = 0 then some none
  else if body.length = 0 then some none
  else
    match tokens isLineEnd (cstr header) with
    | []            => none
    | line :: lines =>
      let waitIndex := (line :: lines).foldl headerLine 0
      match parseJson readJson body with
      | none          => some none
      | some bodyJson =>
        if (bodyJson.get? (ascii "action")).getD [] = ascii "get" then
          (bodyJson.child? (ascii "node")).bind fun node =>
          (node.child? (ascii "nodes")).bind fun nodes =>
          (nodes.children.foldlM (fun found child => parseNodeInfo readJson found child.2) {}).bind fun found =>
          (sendEntities name waitIndex found []).map some
        -- the error code 100 is looked at, for nothing
        else some none

/-- `parse_etcd_key_id` of the number behind the last slash of a key. -/
def parseEtcdKeyId (key : List UInt8) : ProcessInfo :=
  let keyId := (strtoll (cstr (key.reverse.takeWhile (· ≠ 47)).reverse) % 2 ^ 64).toNat
  ⟨(keyId / 2 ^ 24).toUInt16, (keyId / 2 ^ 16).toUInt8, keyId.toUInt16⟩

/-- The callback of `request_one`. The body of an error has no action, so the branch of the error code 401 is not
    even reached. -/
def parseChange (name body : List UInt8) : Option (Option Message) :=
  match parseJson readJson body with
  | none          => some none
  | some bodyJson =>
    (bodyJson.get? (ascii "action")).bind fun action =>
    if action = ascii "set" ∨ action = ascii "create" ∨ action = ascii "delete" ∨ action = ascii "expire" then
      (bodyJson.child? (ascii "node")).bind fun nodeInfo =>
      if nodeInfo.isEmpty then some none
      else
        let modifyIndex := (nodeInfo.getUnsigned? 32 (ascii "modifiedIndex")).getD 0
        if action = ascii "set" ∨ action = ascii "create" then
          (parseNodeInfo readJson {} nodeInfo).bind fun found =>
          (sendEntities name modifyIndex found [.pod (Pod.ofNat 1 1)]).map some
        else
          (nodeInfo.get? (ascii "key")).bind fun key =>
          if 47 ∉ key then some none
          else (sendUnregister name modifyIndex (parseEtcdKeyId key)).map some
    else some none

/-- The callback of a request. -/
def callback (request : Request) (header body : List UInt8) : Option (Option Message) :=
  match request with
  | .all name   => parseNodes readJson name header body
  | .one name _ => parseChange readJson name body

/-- The message that comes of a request. -/
def react (request : Request) : Outcome → Option (Option Message)
  | .unresolved           => some none
  | .failed error         => callback readJson request [] error.text
  | .response header body => callback readJson request header body

end Callbacks

/-! ## The responses that become a message -/

section Readable

/-- The json of a process has its fields, and they fit. -/
structure ServerReadable (json : Ptree) : Prop where
  ip : ∃ ip, json.get? (ascii "ip") = some ip ∧ ip.length ≤ ipLen
  port : (json.getUnsigned? 16 (ascii "port")).isSome
  serverId : (json.getUnsigned? 16 (ascii "server_id")).isSome
  processType : (json.getByte? (ascii "process_type")).isSome
  processId : (json.getUnsigned? 16 (ascii "process_id")).isSome

structure EntityReadable (json : Ptree) : Prop where
  id : (json.getUnsigned? 64 (ascii "id")).isSome
  name : ∃ name, json.get? (ascii "name") = some name ∧ name.length ≤ entityNameLen
  tag : ∃ tag, json.get? (ascii "tag") = some tag ∧ tag.length ≤ tagNameLen

theorem fill_write?_isSome {n : Nat} {src : List UInt8} :
    ((Block.fill n (0 : UInt8)).write? 0 src).isSome ↔ src.length ≤ n := by
  rw [write?_isSome, Nat.zero_add]

variable (readJson : List UInt8 → Option Ptree)

/-- A node has a key and a value; if the value is a json, it is that of a process and its entities. -/
structure NodeReadable (node : Ptree) : Prop where
  key : (node.get? (ascii "key")).isSome
  value : ∃ value, node.get? (ascii "value") = some value ∧ ∀ json, parseJson readJson value = some json →
    ServerReadable json ∧ ∃ entities, json.child? (ascii "entities") = some entities ∧
      ∀ entity ∈ entities.children, EntityReadable entity.2

/-- What was found fits in the packet of `on_register_entities`, with `more` bytes behind it. -/
def PacketFits (name : List UInt8) (found : Found) (more : Nat) : Prop :=
  name.length + 33 * found.processes.length + 74 * found.entities.length + 10 + more ≤ sizeofBuffer

/-- A listing of the directory: it has a header and a body, the body is the json of a `get`, with readable nodes that
    fit in the packet. -/
def Listing (name header body : List UInt8) : Prop :=
  (∃ c ∈ cstr header, isLineEnd c = false) ∧ body ≠ [] ∧
  ∃ json node nodes, parseJson readJson body = some json ∧ json.get? (ascii "action") = some (ascii "get") ∧
    json.child? (ascii "node") = some node ∧ node.child? (ascii "nodes") = some nodes ∧
    (∀ child ∈ nodes.children, NodeReadable readJson child.2) ∧
    ∀ found, nodes.children.foldlM (fun found child => parseNodeInfo readJson found child.2) {} = some found →
      PacketFits name found 0

/-- A change of a node: the json of one of the four actions, with a node that has children; where a node was set, it
    is readable and fits in the packet, and where one is gone, its key has a slash. -/
def Change (name body : List UInt8) : Prop :=
  ∃ json action node, parseJson readJson body = some json ∧ json.get? (ascii "action") = some action ∧
    json.child? (ascii "node") = some node ∧ node.isEmpty = false ∧
    ((action = ascii "set" ∨ action = ascii "create") ∧ NodeReadable readJson node ∧
        (∀ found, parseNodeInfo readJson {} node = some found → PacketFits name found 1) ∨
      (action = ascii "delete" ∨ action = ascii "expire") ∧ ∃ key, node.get? (ascii "key") = some key ∧ 47 ∈ key)

/-- What a request has to be answered with. -/
def Answers (header body : List UInt8) : Request → Prop
  | .all name   => Listing readJson name header body
  | .one name _ => Change readJson name body

/-- An outcome after which a message is on the way. -/
def Rearms (request : Request) : Outcome → Prop
  | .unresolved           => False
  | .failed error         => Answers readJson [] error.text request
  | .response header body => Answers readJson header body request

variable {readJson}

/-- The values of the arguments of `on_register_entities`. -/
def entitiesValues (name : List UInt8) (waitIndex : Nat) (found : Found) : List Value :=
  [.dynamicString name, .pod (Pod.ofNat 4 waitIndex), .dynamicArray (found.processes.map (·.image)),
    .dynamicArray (found.entities.map (·.image))]

/-- What they take in the packet. -/
theorem entitiesValues_length (name : List UInt8) (waitIndex : Nat) (found : Found) (more : List Value) :
    ((entitiesValues name waitIndex found ++ more).flatMap Value.encode).length =
      name.length + 33 * found.processes.length + 74 * found.entities.length + 10 +
        (more.flatMap Value.encode).length := by
  simp only [entitiesValues, List.cons_append, List.nil_append, List.flatMap_cons, Value.encode, Value.encodeString,
    counted, List.length_append, leBytes_length, flatMap_cells_length, List.length_map, Block.size_eq]
  omega

theorem sendEntities_isSome_iff {name : List UInt8} {waitIndex : Nat} {found : Found} {more : List Param}
    {values : List Value} (hmore : List.Forall₂ Param.Holds more values) :
    (sendEntities name waitIndex found more).isSome ↔
      PacketFits name found (values.flatMap Value.encode).length := by
  have hargs : List.Forall₂ Param.Holds ([.dynamicString (.ofBytes name), .pod (Pod.ofNat 4 waitIndex),
      .dynamicArray (.ofList (found.processes.map (·.image))),
      .dynamicArray (.ofList (found.entities.map (·.image)))] ++ more)
      (entitiesValues name waitIndex found ++ values) :=
    .cons (.dynamicString (DynamicString.ofBytes_holds _)) (.cons (.pod _)
      (.cons (.dynamicArray (DynamicArray.ofList_holds _)) (.cons (.dynamicArray (DynamicArray.ofList_holds _)) hmore)))
  have hname : (ascii "on_register_entities").length ≤ sizeofRpcName := by decide
  rw [sendEntities, Option.isSome_map, RpcClient.callRemoteFunc_isSome_iff hargs rfl, RpcClient.Call.Fits,
    entitiesValues_length, PacketFits]
  exact and_iff_right hname

/-- **`parse_nodes`.** What it has gone through when it sends a message. -/
theorem parseNodes_some_iff {name header body : List UInt8} {m : Message} :
    parseNodes readJson name header body = some (some m) ↔
      ∃ line lines json node nodes found, tokens isLineEnd (cstr header) = line :: lines ∧ body ≠ [] ∧
        parseJson readJson body = some json ∧ json.get? (ascii "action") = some (ascii "get") ∧
        json.child? (ascii "node") = some node ∧ node.child? (ascii "nodes") = some nodes ∧
        nodes.children.foldlM (fun found child => parseNodeInfo readJson found child.2) {} = some found ∧
        sendEntities name ((line :: lines).foldl headerLine 0) found [] = some m := by
  constructor
  -- each early return of the source is one `split`
  · intro h
    unfold parseNodes at h
    split at h
    · cases h
    split at h
    · cases h
    rename_i hheader hbody
    split at h
    · cases h
    rename_i line lines hlines
    dsimp only at h
    split at h
    · cases h
    rename_i json hjson
    split at h
    · rename_i haction
      obtain ⟨node, hnode, h⟩ := Option.bind_eq_some_iff.mp h
      obtain ⟨nodes, hnodes, h⟩ := Option.bind_eq_some_iff.mp h
      obtain ⟨found, hfound, h⟩ := Option.bind_eq_some_iff.mp h
      obtain ⟨m', hm, heq⟩ := Option.map_eq_some_iff.mp h
      cases heq
      refine ⟨line, lines, json, node, nodes, found, hlines, fun hnil => hbody (congrArg List.length hnil), hjson, ?_,
        hnode, hnodes, hfound, hm⟩
      cases hget : json.get? (ascii "action") with
      | none =>
          rw [hget] at haction
          cases haction
      | some action =>
          rw [hget] at haction
          exact congrArg some haction
    · cases h
  · rintro ⟨line, lines, json, node, nodes, found, hlines, hbody, hjson, haction, hnode, hnodes, hfound, hm⟩
    have hheader : header.length ≠ 0 := by
      intro hlen
      rw [List.length_eq_zero_iff.mp hlen] at hlines
      cases hlines
    rw [parseNodes, if_neg hheader, if_neg fun hlen => hbody (List.length_eq_zero_iff.mp hlen), hlines]
    dsimp only
    rw [hjson]
    dsimp only
    rw [haction, Option.getD_some, if_pos rfl, hnode, Option.bind_some, hnodes, Option.bind_some, hfound,
      Option.bind_some, hm, Option.map_some]

/-- **The callback of `request_one`.** What it has gone through when it sends a message: a process has changed, or it
    is gone. -/
theorem parseChange_some_iff {name body : List UInt8} {m : Message} :
    parseChange readJson name body = some (some m) ↔
      ∃ json action node, parseJson readJson body = some json ∧ json.get? (ascii "action") = some action ∧
        json.child? (ascii "node") = some node ∧ node.isEmpty = false ∧
        (((action = ascii "set" ∨ action = ascii "create") ∧
            ∃ found, parseNodeInfo readJson {} node = some found ∧
              sendEntities name ((node.getUnsigned? 32 (ascii "modifiedIndex")).getD 0) found [.pod (Pod.ofNat 1 1)] =
                some m) ∨
          ((action = ascii "delete" ∨ action = ascii "expire") ∧
            ∃ key, node.get? (ascii "key") = some key ∧ 47 ∈ key ∧
              sendUnregister name ((node.getUnsigned? 32 (ascii "modifiedIndex")).getD 0) (parseEtcdKeyId key) =
                some m)) := by
  constructor
  · intro h
    unfold parseChange at h
    split at h
    · cases h
    rename_i json hjson
    obtain ⟨action, haction, h⟩ := Option.bind_eq_some_iff.mp h
    split at h
    · rename_i hknown
      obtain ⟨node, hnode, h⟩ := Option.bind_eq_some_iff.mp h
      split at h
      · cases h
      rename_i hempty
      refine ⟨json, action, node, hjson, haction, hnode, Bool.eq_false_iff.mpr hempty, ?_⟩
      dsimp only at h
      split at h
      · rename_i hset
        obtain ⟨found, hfound, h⟩ := Option.bind_eq_some_iff.mp h
        obtain ⟨m', hm, heq⟩ := Option.map_eq_some_iff.mp h
        cases heq
        exact Or.inl ⟨hset, found, hfound, hm⟩
      · rename_i hset
        obtain ⟨key, hkey, h⟩ := Option.bind_eq_some_iff.mp h
        split at h
        · cases h
        rename_i hslash
        obtain ⟨m', hm, heq⟩ := Option.map_eq_some_iff.mp h
        cases heq
        -- the action is known and is none of the first two, so the node is gone
        rw [← or_assoc] at hknown
        exact Or.inr ⟨hknown.resolve_left hset, key, hkey, Decidable.not_not.mp hslash, hm⟩
    · cases h
  · rintro ⟨json, action, node, hjson, haction, hnode, hempty, hcase⟩
    have hnotEmpty : ¬ node.isEmpty = true := by
      rw [hempty]
      exact Bool.false_ne_true
    have hknown : action = ascii "set" ∨ action = ascii "create" ∨ action = ascii "delete" ∨
        action = ascii "expire" := by
      rw [← or_assoc]
      exact hcase.imp (·.1) (·.1)
    rw [parseChange, hjson]
    dsimp only
    rw [haction, Option.bind_some, if_pos hknown, hnode, Option.bind_some, if_neg hnotEmpty]
    rcases hcase with ⟨hset, found, hfound, hm⟩ | ⟨hgone, key, hkey, hslash, hm⟩
    · rw [if_pos hset, hfound, Option.bind_some, hm, Option.map_some]
    · have hset : ¬ (action = ascii "set" ∨ action = ascii "create") := by
        rcases hgone with rfl | rfl <;> decide
      rw [if_neg hset, hkey, Option.bind_some, if_neg (Decidable.not_not.mpr hslash), hm, Option.map_some]

/-- The processes are numbered from one, and none is there twice. -/
structure Numbered (found : Found) : Prop where
  ids : found.processes.map (·.processId) = (List.range found.processes.length).map fun i => (i + 1).toUInt16
  infos : (found.processes.map (·.serverInfo.processInfo)).Nodup

theorem parseNodeInfo_numbered {found found' : Found} {node : Ptree} (hfound : Numbered found)
    (h : parseNodeInfo readJson found node = some found') : Numbered found' := by
  obtain ⟨_, _, h⟩ := Option.bind_eq_some_iff.mp h
  obtain ⟨_, _, h⟩ := Option.bind_eq_some_iff.mp h
  split at h
  · cases h
    exact hfound
  · obtain ⟨serverInfo, _, h⟩ := Option.bind_eq_some_iff.mp h
    obtain ⟨_, _, h⟩ := Option.bind_eq_some_iff.mp h
    obtain ⟨_, _, heq⟩ := Option.map_eq_some_iff.mp h
    cases heq
    by_cases hknown : found.processes.any (·.serverInfo.processInfo = serverInfo.processInfo)
    · rw [if_pos hknown]
      exact ⟨hfound.ids, hfound.infos⟩
    · rw [if_neg hknown, if_neg hknown]
      constructor
      · show List.map _ (_ ++ [_]) = _
        rw [List.map_append, List.length_append, List.length_singleton, List.range_succ, List.map_append, hfound.ids]
        rfl
      · have hnew : serverInfo.processInfo ∉ found.processes.map (·.serverInfo.processInfo) := by
          intro hmem
          obtain ⟨p, hp, heq⟩ := List.mem_map.mp hmem
          exact hknown (List.any_eq_true.mpr ⟨p, hp, decide_eq_true heq⟩)
        show (List.map _ (_ ++ [_])).Nodup
        rw [List.map_append]
        refine List.nodup_append.mpr ⟨hfound.infos, List.nodup_singleton _, fun a ha c hc heq => hnew ?_⟩
        rw [List.map_singleton, List.mem_singleton] at hc
        rwa [← hc, ← heq]

theorem foldlM_numbered {nodes : List (List UInt8 × Ptree)} {found found' : Found} (hfound : Numbered found)
    (h : nodes.foldlM (fun found child => parseNodeInfo readJson found child.2) found = some found') :
    Numbered found' := by
  induction nodes generalizing found with
  | nil =>
      cases h
      exact hfound
  | cons node nodes ih =>
      rw [List.foldlM_cons] at h
      obtain ⟨found₁, hnode, hrest⟩ := Option.bind_eq_some_iff.mp h
      exact ih (parseNodeInfo_numbered hfound hnode) hrest

theorem numbered_empty : Numbered {} := ⟨rfl, List.nodup_nil⟩

/-- What goes into a packet carries values of processes. -/
theorem Numbered.values {found : Found} (hfound : Numbered found) {name : List UInt8} {more : Nat}
    (hfits : PacketFits name found more) : ∃ v : Values, v.found = found := by
  refine ⟨⟨found, ?_, hfound.infos⟩, rfl⟩
  rw [hfound.ids]
  refine List.Nodup.map_on (fun i hi j hj heq => ?_) List.nodup_range
  rw [List.mem_range] at hi hj
  have hmod := congrArg UInt16.toNat heq
  rw [PacketFits, sizeofBuffer] at hfits
  simp only [Nat.toUInt16_eq, UInt16.toNat_ofNat'] at hmod
  omega

/-- `on_register_entities` carries values of processes. -/
theorem sendEntities_values {name : List UInt8} {waitIndex : Nat} {found : Found} {more : List Param}
    {values : List Value} {m : Message} (hmore : List.Forall₂ Param.Holds more values) (hfound : Numbered found)
    (h : sendEntities name waitIndex found more = some m) :
    ∃ v : Values, m = .onRegisterEntities name waitIndex v.found := by
  obtain ⟨v, hv⟩ := hfound.values ((sendEntities_isSome_iff hmore).mp (Option.isSome_of_eq_some h))
  obtain ⟨_, _, rfl⟩ := Option.map_eq_some_iff.mp h
  exact ⟨v, by rw [hv]⟩

/-- A message is about the namespace that was asked for: values of processes, or one that is gone. -/
theorem react_cases {request : Request} {outcome : Outcome} {m : Message}
    (h : react readJson request outcome = some (some m)) :
    (∃ waitIndex, ∃ v : Values, m = .onRegisterEntities request.name waitIndex v.found) ∨
      ∃ waitIndex info, m = .onUnregisterProcess request.name waitIndex info := by
  have hcallback : ∀ {header body}, callback readJson request header body = some (some m) →
      (∃ waitIndex, ∃ v : Values, m = .onRegisterEntities request.name waitIndex v.found) ∨
        ∃ waitIndex info, m = .onUnregisterProcess request.name waitIndex info := by
    intro header body h
    cases request with
    | all name =>
        obtain ⟨_, _, _, _, _, found, _, _, _, _, _, _, hfound, hm⟩ := parseNodes_some_iff.mp h
        exact Or.inl ⟨_, sendEntities_values .nil (foldlM_numbered numbered_empty hfound) hm⟩
    | one name waitIndex =>
        obtain ⟨_, _, _, _, _, _, _, hcase⟩ := parseChange_some_iff.mp h
        rcases hcase with ⟨_, found, hfound, hm⟩ | ⟨_, key, _, _, hm⟩
        · exact Or.inl ⟨_, sendEntities_values (.cons (.pod _) .nil) (parseNodeInfo_numbered numbered_empty hfound) hm⟩
        · obtain ⟨_, _, rfl⟩ := Option.map_eq_some_iff.mp hm
          exact Or.inr ⟨_, _, rfl⟩
  cases outcome with
  | unresolved => cases h
  | failed error => exact hcallback h
  | response header body => exact hcallback h

theorem react_name {request : Request} {outcome : Outcome} {m : Message}
    (h : react readJson request outcome = some (some m)) : m.name = request.name := by
  obtain ⟨_, _, rfl⟩ | ⟨_, _, rfl⟩ := react_cases h
  · rfl
  · rfl

end Readable

end Etcd

end Mowang
