import Mowang.Base.Codec
import Mowang.Share.SocketHandler

/-!
# `Share.BasePacket` — the packet structs and their layouts

Every struct is packed: `packet_base` (`m_len`, `m_id`, `m_check`), then the fields in order, an `m_buffer`
of 65000 bytes last. A struct that arrives is a block of its declared length, and its fields are offsets
into it; one that is sent is an object of its full size.
-/

namespace Mowang

open LittleEndian

/-- `packet_id_type`, as far as handlers are registered for it. -/
def packetIdRpcByIndex : UInt8 := 0x65
def packetIdRpcByName : UInt8 := 0x66
def packetIdEntityRpcByIndex : UInt8 := 0x6e
def packetIdEntityRpcByName : UInt8 := 0x6f
def packetIdTransferPacket : UInt8 := 0x86
def packetIdWsClient : UInt8 := 0x88

/-- Size of every `m_buffer`. -/
def sizeofBuffer : Nat := 65000

/-- Size of every `m_rpc_name`. -/
def sizeofRpcName : Nat := 100

/-! ## Packets to send

Objects of the structs that a client fills; `bytes` is the object as it lies in memory. -/

structure PacketBase where
  len : Nat
  id : UInt8
  check : Nat

def PacketBase.bytes (p : PacketBase) : List UInt8 := leBytes 2 p.len ++ ([p.id] ++ leBytes 4 p.check)

structure RpcByNamePacket extends PacketBase where
  rpcName : Block UInt8 sizeofRpcName
  buffer : Block UInt8 sizeofBuffer

structure EntityRpcByNamePacket extends PacketBase where
  entityId : Block UInt8 8
  rpcName : Block UInt8 sizeofRpcName
  buffer : Block UInt8 sizeofBuffer

structure TransferEntityPacket extends PacketBase where
  clientId : Block UInt8 8
  buffer : Block UInt8 sizeofBuffer

structure WsClientPacket extends PacketBase where
  clientId : Block UInt8 8
  buffer : Block UInt8 sizeofBuffer

/-! ## Layouts -/

/-- `m_id`, behind the two bytes of `m_len`. -/
def offsetId : Nat := 2

namespace RpcByIndexPacket
def offsetRpcIndex : Nat := sizeofPacketBase
def offsetBuffer : Nat := offsetRpcIndex + 1
/-- `sizeof(rpc_by_index_packet)`. -/
def sizeof : Nat := offsetBuffer + sizeofBuffer
end RpcByIndexPacket

namespace RpcByNamePacket
def offsetRpcName : Nat := sizeofPacketBase
def offsetBuffer : Nat := offsetRpcName + sizeofRpcName
def sizeof : Nat := offsetBuffer + sizeofBuffer
def bytes (p : RpcByNamePacket) : List UInt8 := p.toPacketBase.bytes ++ (p.rpcName.cells ++ p.buffer.cells)
end RpcByNamePacket

namespace EntityRpcByIndexPacket
def offsetEntityId : Nat := sizeofPacketBase
def offsetRpcIndex : Nat := offsetEntityId + 8
def offsetBuffer : Nat := offsetRpcIndex + 1
end EntityRpcByIndexPacket

namespace EntityRpcByNamePacket
def offsetEntityId : Nat := sizeofPacketBase
def offsetRpcName : Nat := offsetEntityId + 8
def offsetBuffer : Nat := offsetRpcName + sizeofRpcName
def sizeof : Nat := offsetBuffer + sizeofBuffer
def bytes (p : EntityRpcByNamePacket) : List UInt8 :=
  p.toPacketBase.bytes ++ (p.entityId.cells ++ (p.rpcName.cells ++ p.buffer.cells))
end EntityRpcByNamePacket

namespace TransferEntityPacket
def offsetClientId : Nat := sizeofPacketBase
def offsetBuffer : Nat := offsetClientId + 8
def sizeof : Nat := offsetBuffer + sizeofBuffer
def bytes (p : TransferEntityPacket) : List UInt8 :=
  p.toPacketBase.bytes ++ (p.clientId.cells ++ p.buffer.cells)
end TransferEntityPacket

namespace WsClientPacket
def offsetClientId : Nat := sizeofPacketBase
def offsetBuffer : Nat := offsetClientId + 8
def sizeof : Nat := offsetBuffer + sizeofBuffer
def bytes (p : WsClientPacket) : List UInt8 := p.toPacketBase.bytes ++ (p.clientId.cells ++ p.buffer.cells)
end WsClientPacket

/-! ## Sizes -/

theorem PacketBase.bytes_length (p : PacketBase) : p.bytes.length = sizeofPacketBase := by
  simp [PacketBase.bytes, sizeofPacketBase]

theorem RpcByNamePacket.bytes_length (p : RpcByNamePacket) : p.bytes.length = sizeof := by
  rw [bytes, List.length_append, List.length_append, PacketBase.bytes_length, p.rpcName.size_eq,
    p.buffer.size_eq]
  rfl

theorem EntityRpcByNamePacket.bytes_length (p : EntityRpcByNamePacket) : p.bytes.length = sizeof := by
  rw [bytes, List.length_append, List.length_append, List.length_append, PacketBase.bytes_length,
    p.entityId.size_eq, p.rpcName.size_eq, p.buffer.size_eq]
  rfl

theorem TransferEntityPacket.bytes_length (p : TransferEntityPacket) : p.bytes.length = sizeof := by
  rw [bytes, List.length_append, List.length_append, PacketBase.bytes_length, p.clientId.size_eq,
    p.buffer.size_eq]
  rfl

theorem WsClientPacket.bytes_length (p : WsClientPacket) : p.bytes.length = sizeof := by
  rw [bytes, List.length_append, List.length_append, PacketBase.bytes_length, p.clientId.size_eq,
    p.buffer.size_eq]
  rfl

/-- The first bytes of a packet object with one field before its buffer, up to byte `k` of the buffer. -/
theorem PacketBase.take_append {m n : Nat} (p : PacketBase) (field : Block UInt8 m) (buffer : Block UInt8 n) (k : Nat) :
    (p.bytes ++ (field.cells ++ buffer.cells)).take (sizeofPacketBase + m + k) =
      p.bytes ++ (field.cells ++ buffer.cells.take k) := by
  have hhead : (p.bytes ++ field.cells).length = sizeofPacketBase + m := by
    rw [List.length_append, PacketBase.bytes_length, field.size_eq]
  rw [← List.append_assoc, ← hhead, List.take_length_add_append, List.append_assoc]

theorem TransferEntityPacket.take_bytes (p : TransferEntityPacket) (k : Nat) :
    p.bytes.take (offsetBuffer + k) = p.toPacketBase.bytes ++ (p.clientId.cells ++ p.buffer.cells.take k) :=
  p.toPacketBase.take_append p.clientId p.buffer k

theorem WsClientPacket.take_bytes (p : WsClientPacket) (k : Nat) :
    p.bytes.take (offsetBuffer + k) = p.toPacketBase.bytes ++ (p.clientId.cells ++ p.buffer.cells.take k) :=
  p.toPacketBase.take_append p.clientId p.buffer k

/-- Every packet starts with its `m_len`. -/
theorem PacketBase.take_two (p : PacketBase) (rest : List UInt8) : (p.bytes ++ rest).take 2 = leBytes 2 p.len := by
  rw [PacketBase.bytes, List.append_assoc, List.take_left' (leBytes_length 2 p.len)]

end Mowang
