import Mowang.Base.CString
import Mowang.Share.RpcParam

/-!
# `Share.EtcdStruct` — the processes and entities that go through etcd

The packed structs of the rpc calls between a listener and the http client, and the namespaces.

## Contents
- `ProcessInfo`, `ServerInfo`, `EntityInfo`, `ProcessPacketInfo`, `EntityPacketInfo`, and their images.
- `Namespace`, `toNamespace`, `toNamespace_text`.
- `Request`, `Message` — what goes to the http client and comes back.
-/

namespace Mowang

open LittleEndian Block

namespace Etcd

/-- `IP_LEN`, `ENTITY_NAME_LEN` and `TAG_NAME_LEN`. -/
def ipLen : Nat := 24

def entityNameLen : Nat := 32

def tagNameLen : Nat := 32

/-- `game_process_info`. -/
structure ProcessInfo where
  serverId : UInt16
  processType : UInt8
  processId : UInt16
  deriving DecidableEq

/-- `game_server_info`. -/
structure ServerInfo where
  processInfo : ProcessInfo
  port : UInt16
  ip : Block UInt8 ipLen

/-- `etcd_entity_info`. -/
structure EntityInfo where
  entityId : UInt64
  entityName : Block UInt8 entityNameLen
  tag : Block UInt8 tagNameLen

/-- `etcd_process_packet_info`. -/
structure ProcessPacketInfo where
  processId : UInt16
  serverInfo : ServerInfo

/-- `etcd_entity_packet_info`. -/
structure EntityPacketInfo where
  processId : UInt16
  entityInfo : EntityInfo

/-- What the http client found in a response. -/
structure Found where
  processes : List ProcessPacketInfo := []
  entities : List EntityPacketInfo := []

/-! ## The structs on the wire -/

def ProcessInfo.image (i : ProcessInfo) : Pod 5 :=
  ⟨leBytes 2 i.serverId.toNat ++ (leBytes 1 i.processType.toNat ++ leBytes 2 i.processId.toNat), by
    simp only [List.length_append, leBytes_length]⟩

def ServerInfo.image (i : ServerInfo) : Pod 31 :=
  ⟨i.processInfo.image.cells ++ (leBytes 2 i.port.toNat ++ i.ip.cells), by
    simp only [List.length_append, leBytes_length, Block.size_eq, ipLen]⟩

def EntityInfo.image (i : EntityInfo) : Pod 72 :=
  ⟨leBytes 8 i.entityId.toNat ++ (i.entityName.cells ++ i.tag.cells), by
    simp only [List.length_append, leBytes_length, Block.size_eq, entityNameLen, tagNameLen]⟩

def ProcessPacketInfo.image (i : ProcessPacketInfo) : Pod 33 :=
  ⟨leBytes 2 i.processId.toNat ++ i.serverInfo.image.cells, by
    simp only [List.length_append, leBytes_length, Block.size_eq]⟩

def EntityPacketInfo.image (i : EntityPacketInfo) : Pod 74 :=
  ⟨leBytes 2 i.processId.toNat ++ i.entityInfo.image.cells, by
    simp only [List.length_append, leBytes_length, Block.size_eq]⟩

/-! ## Namespaces -/

/-- `NAMESPACE_LEN`. -/
def namespaceLen : Nat := 64

/-- A namespace as every caller makes it: a text, and zeros behind it. -/
structure Namespace where
  text : List UInt8
  nulFree : NulFree text
  short : text.length < namespaceLen

/-- A `TNamespace_t` is cleared, and a name is copied into it; `none` is a name too long. -/
def toNamespace (name : List UInt8) : Option (Block UInt8 namespaceLen) := (Block.fill namespaceLen 0).write? 0 name

namespace Namespace

/-- The `TNamespace_t`. -/
def array (n : Namespace) : Block UInt8 namespaceLen :=
  (Block.fill namespaceLen 0).write 0 n.text (by
    have := n.short
    omega)

theorem toNamespace_text (n : Namespace) : toNamespace n.text = some n.array := write?_eq _

/-- The array as a string is the text again. -/
theorem cstr_array (n : Namespace) : cstr n.array.cells = n.text := by
  have hshort := n.short
  have hzeros : (List.replicate namespaceLen (0 : UInt8)).drop (0 + n.text.length) =
      0 :: List.replicate (namespaceLen - n.text.length - 1) 0 := by
    rw [Nat.zero_add, List.drop_replicate, ← List.replicate_succ]
    congr 1
    omega
  show cstr (List.take 0 _ ++ (n.text ++ (List.replicate namespaceLen (0 : UInt8)).drop (0 + n.text.length))) = n.text
  rw [List.take_zero, List.nil_append, hzeros, cstr_append_nul n.nulFree]

end Namespace

/-! ## Requests and messages -/

/-- `request_all` or `request_one` of a namespace. -/
inductive Request
  | all (name : List UInt8)
  | one (name : List UInt8) (waitIndex : Nat)

def Request.name : Request → List UInt8
  | .all name   => name
  | .one name _ => name

/-- The arguments of `on_register_entities` or `on_unregister_process` on their way. -/
inductive Message
  | onRegisterEntities (name : List UInt8) (waitIndex : Nat) (found : Found)
  | onUnregisterProcess (name : List UInt8) (waitIndex : Nat) (processInfo : ProcessInfo)

def Message.name : Message → List UInt8
  | .onRegisterEntities name _ _  => name
  | .onUnregisterProcess name _ _ => name

end Etcd

end Mowang
