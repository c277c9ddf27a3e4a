import Mowang.Share.BasePacket
import Mowang.Share.RpcProxy

/-!
# `Share.PacketHandler` — dispatch of a received packet

A received packet is a block of exactly its declared length. `handle` looks the packet id up in
`m_handlers`, and the four base handlers cast the packet to its struct and call the rpc layer with a
pointer to `m_buffer`. Nothing compares a length with anything.

## Contents
- the four handlers, `setupHandlers`, `handle`.
- for each handler, exactly when it stays inside the packet (`handleRpcByName_contained`, …).
-/

namespace Mowang

open LittleEndian Block

section Handlers

variable {R : Type} {n : Nat}

/-- `handle_rpc_by_index`. -/
def handleRpcByIndex (stub : RpcProxy R) (socketIndex : SocketIndex) (packet : Block UInt8 n) :
    Option (Option R) :=
  (packet.readCell RpcByIndexPacket.offsetRpcIndex).bind fun (rpcIndex, _) =>
  stub.callIndexWithIndex rpcIndex packet RpcByIndexPacket.offsetBuffer socketIndex

/-- `handle_rpc_by_name`; `m_rpc_name` becomes a `std::string` up to its first NUL. -/
def handleRpcByName (stub : RpcProxy R) (socketIndex : SocketIndex) (packet : Block UInt8 n) :
    Option (Option R) :=
  (packet.readCStr RpcByNamePacket.offsetRpcName).bind fun rpcName =>
  stub.callWithIndex rpcName packet RpcByNamePacket.offsetBuffer socketIndex

/-- `handle_entity_rpc_by_index`. -/
def handleEntityRpcByIndex (entity : RpcEntity R) (packet : Block UInt8 n) : Option (Option R) :=
  (packet.readBlock 8 EntityRpcByIndexPacket.offsetEntityId).bind fun (entityId, _) =>
  (packet.readCell EntityRpcByIndexPacket.offsetRpcIndex).bind fun (rpcIndex, _) =>
  entity.callIndex (ofLe entityId.cells) rpcIndex packet EntityRpcByIndexPacket.offsetBuffer

/-- `handle_entity_rpc_by_name`. -/
def handleEntityRpcByName (entity : RpcEntity R) (packet : Block UInt8 n) : Option (Option R) :=
  (packet.readBlock 8 EntityRpcByNamePacket.offsetEntityId).bind fun (entityId, _) =>
  (packet.readCStr EntityRpcByNamePacket.offsetRpcName).bind fun rpcName =>
  entity.call (ofLe entityId.cells) rpcName packet EntityRpcByNamePacket.offsetBuffer

/-- `m_handlers`. -/
abbrev PacketHandlerMap (n : Nat) (R : Type) := List (UInt8 × (Block UInt8 n → Option (Option R)))

/-- `register_handler`: a later handler replaces an earlier one. -/
def registerHandler (handlers : PacketHandlerMap n R) (id : UInt8)
    (handler : Block UInt8 n → Option (Option R)) : PacketHandlerMap n R :=
  (id, handler) :: handlers

/-- `setup_handlers`. -/
def setupHandlers (stub : RpcProxy R) (entity : RpcEntity R) (socketIndex : SocketIndex) :
    PacketHandlerMap n R :=
  let handlers := registerHandler [] packetIdRpcByIndex (handleRpcByIndex stub socketIndex)
  let handlers := registerHandler handlers packetIdRpcByName (handleRpcByName stub socketIndex)
  let handlers := registerHandler handlers packetIdEntityRpcByIndex (handleEntityRpcByIndex entity)
  registerHandler handlers packetIdEntityRpcByName (handleEntityRpcByName entity)

/-- `handle`: an id without a handler is logged. -/
def handle (handlers : PacketHandlerMap n R) (packet : Block UInt8 n) : Option (Option R) :=
  (packet.readCell offsetId).bind fun (id, _) =>
  match handlers.lookup id with
  | some handler => handler packet
  | none         => some none

end Handlers

/-! ## When a handler stays inside the packet -/

section Contained

variable {R : Type} {n : Nat} {packet : Block UInt8 n}

/-- A C string stands at `i`, its terminator inside the packet. -/
def NameAt (packet : Block UInt8 n) (i : Nat) (name : FuncName) : Prop :=
  0 ∉ name ∧ packet.Has i (name ++ [0])

theorem contained_bind {X : Type} {read : Option X} {k : X → Option (Option R)} {P : Prop} :
    Contained (read.bind k) P ↔ ∃ x, read = some x ∧ Contained (k x) P := by
  cases read with
  | none => simp [Contained]
  | some x => simp

theorem contained_readCell {i : Nat} {k : UInt8 × Nat → Option (Option R)} {P : Prop} :
    Contained ((packet.readCell i).bind k) P ↔ ∃ c, packet.Has i [c] ∧ Contained (k (c, i + 1)) P := by
  simp only [contained_bind, Prod.exists, readCell_eq_some]
  constructor
  · rintro ⟨c, _, ⟨hc, rfl⟩, hk⟩
    exact ⟨c, hc, hk⟩
  · rintro ⟨c, hc, hk⟩
    exact ⟨c, _, ⟨hc, rfl⟩, hk⟩

theorem contained_readBlock {i len : Nat} {k : Block UInt8 len × Nat → Option (Option R)} {P : Prop} :
    Contained ((packet.readBlock len i).bind k) P ↔
      ∃ x : Block UInt8 len, packet.Has i x.cells ∧ Contained (k (x, i + len)) P := by
  simp only [contained_bind, Prod.exists, readBlock_eq_some]
  constructor
  · rintro ⟨x, _, ⟨hx, rfl⟩, hk⟩
    exact ⟨x, hx, hk⟩
  · rintro ⟨x, hx, hk⟩
    exact ⟨x, _, ⟨hx, rfl⟩, hk⟩

theorem contained_readCStr {i : Nat} {k : FuncName → Option (Option R)} {P : Prop} :
    Contained ((packet.readCStr i).bind k) P ↔ ∃ name, NameAt packet i name ∧ Contained (k name) P := by
  simp only [contained_bind, readCStr_eq_some]
  rfl

theorem handleRpcByIndex_contained {stub : RpcProxy R} {socketIndex : SocketIndex} :
    Contained (handleRpcByIndex stub socketIndex packet) (RpcByIndexPacket.offsetBuffer ≤ n) ↔
      ∃ rpcIndex, packet.Has RpcByIndexPacket.offsetRpcIndex [rpcIndex] ∧
        ArgsAt packet RpcByIndexPacket.offsetBuffer
          ((stub.index2Name.lookup rpcIndex).bind stub.argsTypeWithIndex) := by
  unfold handleRpcByIndex
  refine contained_readCell.trans (exists_congr fun rpcIndex => and_congr_right fun _ => ?_)
  exact RpcProxy.callIndexWithIndex_contained

theorem handleRpcByName_contained {stub : RpcProxy R} {socketIndex : SocketIndex} :
    Contained (handleRpcByName stub socketIndex packet) (RpcByNamePacket.offsetBuffer ≤ n) ↔
      ∃ rpcName, NameAt packet RpcByNamePacket.offsetRpcName rpcName ∧
        ArgsAt packet RpcByNamePacket.offsetBuffer (stub.argsTypeWithIndex rpcName) := by
  unfold handleRpcByName
  refine contained_readCStr.trans (exists_congr fun rpcName => and_congr_right fun _ => ?_)
  exact RpcProxy.callWithIndex_contained

theorem handleEntityRpcByIndex_contained {entity : RpcEntity R} :
    Contained (handleEntityRpcByIndex entity packet) (EntityRpcByIndexPacket.offsetBuffer ≤ n) ↔
      ∃ entityId : Pod 8, packet.Has EntityRpcByIndexPacket.offsetEntityId entityId.cells ∧
        ∃ rpcIndex, packet.Has EntityRpcByIndexPacket.offsetRpcIndex [rpcIndex] ∧
          ArgsAt packet EntityRpcByIndexPacket.offsetBuffer
            (entity.argsTypeIndex (ofLe entityId.cells) rpcIndex) := by
  unfold handleEntityRpcByIndex
  refine contained_readBlock.trans (exists_congr fun entityId => and_congr_right fun _ => ?_)
  refine contained_readCell.trans (exists_congr fun rpcIndex => and_congr_right fun _ => ?_)
  exact RpcEntity.callIndex_contained

theorem handleEntityRpcByName_contained {entity : RpcEntity R} :
    Contained (handleEntityRpcByName entity packet) (EntityRpcByNamePacket.offsetBuffer ≤ n) ↔
      ∃ entityId : Pod 8, packet.Has EntityRpcByNamePacket.offsetEntityId entityId.cells ∧
        ∃ rpcName, NameAt packet EntityRpcByNamePacket.offsetRpcName rpcName ∧
          ArgsAt packet EntityRpcByNamePacket.offsetBuffer
            (entity.argsType (ofLe entityId.cells) rpcName) := by
  unfold handleEntityRpcByName
  refine contained_readBlock.trans (exists_congr fun entityId => and_congr_right fun _ => ?_)
  refine contained_readCStr.trans (exists_congr fun rpcName => and_congr_right fun _ => ?_)
  exact RpcEntity.call_contained

end Contained

end Mowang
