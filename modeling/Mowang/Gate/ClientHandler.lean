import Mowang.Game.GamePacketHandler
import Mowang.Share.RpcClient

/-!
# `Gate.ClientHandler` — client packets on their way to the game

The gate hands a client's rpc packet to the `rpc_client` of the client's game process, which wraps it in
a transfer packet; `game_packet_handler::handle_transfer_packet` takes it out again.

## Contents
- `transferServer`, `handleTransferServerByIndex`, `handleTransferServerByName`.
- `handleTransferServerByName_encapsulates_iff` — the way through both is the identity up to 65000 bytes.
-/

namespace Mowang

open LittleEndian Block

/-- `rpc_wrapper::get_client_by_client_id`, as far as the gate's handler uses it. -/
abbrev RpcOfClient := SocketIndex → Option RpcClient

namespace ClientHandler

variable {n : Nat}

/-- `rpc_wrapper::transfer_server`: without a game process for the client the packet is dropped. -/
def transferServer (rpcs : RpcOfClient) (clientId : SocketIndex) (sizeofT : Nat) (packet : Block UInt8 n) :
    Option (List PacketSendInfo) :=
  match rpcs clientId with
  | some rpc => rpc.callTransferPacket clientId sizeofT packet
  | none     => some []

/-- `handle_transfer_server_by_index`. -/
def handleTransferServerByIndex (rpcs : RpcOfClient) (socketIndex : SocketIndex) (packet : Block UInt8 n) :
    Option (List PacketSendInfo) :=
  transferServer rpcs socketIndex RpcByIndexPacket.sizeof packet

/-- `handle_transfer_server_by_name`. -/
def handleTransferServerByName (rpcs : RpcOfClient) (socketIndex : SocketIndex) (packet : Block UInt8 n) :
    Option (List PacketSendInfo) :=
  transferServer rpcs socketIndex RpcByNamePacket.sizeof packet

/-- The received transfer packet carries `15 + n` in `m_len`, the client id, and the client's packet. -/
def Carries (received : Block UInt8 (TransferEntityPacket.offsetBuffer + n)) (clientId : SocketIndex)
    (packet : Block UInt8 n) : Prop :=
  received.readU16 0 = some (TransferEntityPacket.offsetBuffer + n, 2) ∧
    ∃ transferPacket, GameDispatch.transferInfo received = some (clientId, transferPacket) ∧
      received.slice transferPacket n = packet.cells

/-- What the gate sends for the packet, if it sends anything, the game takes apart into the same client
    id and the same packet. -/
def Encapsulates (result : Option (List PacketSendInfo)) (clientId : SocketIndex) (packet : Block UInt8 n) :
    Prop :=
  ∃ sent, result = some sent ∧ ∀ info ∈ sent,
    ∃ received : Block UInt8 (TransferEntityPacket.offsetBuffer + n),
      received.cells = info.buffer ∧ Carries received clientId packet

/-- The wire image of a transfer packet, taken apart again. -/
theorem carries_transferImage {clientId : SocketIndex} (hc : clientId < 2 ^ 64) {packet : Block UInt8 n}
    (hn : n ≤ sizeofBuffer) :
    ∃ received : Block UInt8 (TransferEntityPacket.offsetBuffer + n),
      received.cells = RpcClient.transferImage clientId packet.cells ∧ Carries received clientId packet := by
  have hlen : (RpcClient.transferImage clientId packet.cells).length =
      TransferEntityPacket.offsetBuffer + n := by
    rw [RpcClient.transferImage_length, packet.size_eq]
  refine ⟨⟨RpcClient.transferImage clientId packet.cells, hlen⟩, rfl, ?_⟩
  generalize hr : Block.mk (RpcClient.transferImage clientId packet.cells) hlen = received
  have hcells : received.cells = RpcClient.transferImage clientId packet.cells := by rw [← hr]
  have hall := has_cells received
  rw [hcells, RpcClient.transferImage, packet.size_eq] at hall
  obtain ⟨hhead, hbody⟩ := has_append.mp hall
  obtain ⟨hmlen, _⟩ := has_append.mp hhead
  have hoff : 0 + (leBytes 2 (TransferEntityPacket.offsetBuffer + n) ++
      ([packetIdTransferPacket] ++ leBytes 4 0)).length = TransferEntityPacket.offsetClientId := by
    simp [TransferEntityPacket.offsetClientId, sizeofPacketBase]
  rw [hoff] at hbody
  obtain ⟨hclient, hinner⟩ := has_append.mp hbody
  have hmax : TransferEntityPacket.offsetBuffer + n < 65536 := by
    simp only [TransferEntityPacket.offsetBuffer, TransferEntityPacket.offsetClientId, sizeofPacketBase,
      sizeofBuffer] at hn ⊢
    omega
  refine ⟨?_, TransferEntityPacket.offsetBuffer, ?_, ?_⟩
  · obtain ⟨_, hread, rfl⟩ := (decodes_readU16 received).complete hmlen hmax
    exact hread
  · have hread : received.readBlock 8 TransferEntityPacket.offsetClientId =
        some (Pod.ofNat 8 clientId, TransferEntityPacket.offsetClientId + 8) :=
      readBlock_eq_some.mpr ⟨hclient, rfl⟩
    have hback : ofLe (Pod.ofNat 8 clientId).cells = clientId := ofLe_leBytes_of_lt hc
    simp only [GameDispatch.transferInfo, hread, Option.map_some, hback]
  · have hslice := hinner.2
    rwa [leBytes_length, packet.size_eq] at hslice

/-- **Encapsulation.** A client packet of declared length `n` goes through gate and game unchanged if the
    gate drops it or `n` is at most 65000; a longer one is copied past the end of the transfer packet. -/
theorem handleTransferServerByName_encapsulates_iff (rpcs : RpcOfClient) (socketIndex : SocketIndex)
    (packet : Block UInt8 n) (hn : n ≤ 65535) (hlen : packet.Has 0 (leBytes 2 n))
    (hindex : socketIndex < 2 ^ 64) (hh : ∀ rpc, rpcs socketIndex = some rpc → rpc.handler.isSome) :
    Encapsulates (handleTransferServerByName rpcs socketIndex packet) socketIndex packet ↔
      rpcs socketIndex = none ∨ n ≤ 65000 := by
  unfold handleTransferServerByName transferServer
  cases hrpc : rpcs socketIndex with
  | none => simp [Encapsulates]
  | some rpc =>
      obtain ⟨handler, hhandler⟩ := Option.isSome_iff_exists.mp (hh rpc hrpc)
      simp only [reduceCtorEq, false_or]
      rw [RpcClient.callTransferPacket_eq hlen (Nat.lt_succ_of_le hn)]
      constructor
      · rintro ⟨sent, hsent, _⟩
        by_contra hbig
        rw [RpcClient.sendTransferPacket_eq_none (Nat.lt_of_not_le hbig)] at hsent
        cases hsent
      · intro hsize
        obtain ⟨sent, hsent, himage⟩ :=
          RpcClient.sendTransferPacket_eq_some hhandler (Nat.le_of_eq packet.size_eq.symm) hsize
        refine ⟨sent, hsent, fun info hinfo => ?_⟩
        have hinfo' := himage info hinfo
        rw [List.take_of_length_le (Nat.le_of_eq packet.size_eq)] at hinfo'
        rw [hinfo']
        exact carries_transferImage hindex hsize

/-- A packet of client 5 that ends with its name, `a`. -/
theorem handleTransferServerByName_encapsulates_nine :
    Encapsulates (handleTransferServerByName (fun _ => some ⟨some 1, []⟩) 5
      (⟨[9, 0, 0x66, 0, 0, 0, 0, 0x61, 0], rfl⟩ : Block UInt8 9)) 5
      (⟨[9, 0, 0x66, 0, 0, 0, 0, 0x61, 0], rfl⟩ : Block UInt8 9) :=
  (handleTransferServerByName_encapsulates_iff _ 5 _ (by decide) ⟨by decide, rfl⟩ (by decide)
    fun rpc h => by cases h; rfl).mpr (.inr (by decide))

/-- An rpc packet of 65001 bytes. -/
def longPacket : Block UInt8 65001 :=
  ⟨leBytes 2 65001 ++ ([packetIdRpcByName] ++ List.replicate 64998 0), by
    rw [List.length_append, List.length_append, leBytes_length, List.length_replicate]
    rfl⟩

/-- One byte more than the transfer packet has room for. -/
theorem handleTransferServerByName_past_buffer :
    ¬ Encapsulates (handleTransferServerByName (fun _ => some ⟨some 1, []⟩) 5 longPacket) 5 longPacket := by
  rintro ⟨sent, hsent, _⟩
  have hlen : longPacket.Has 0 (leBytes 2 65001) :=
    (has_append.mp (has_cells longPacket)).1
  have hsend : (⟨some 1, []⟩ : RpcClient).callTransferPacket 5 RpcByNamePacket.sizeof longPacket = none := by
    rw [RpcClient.callTransferPacket_eq hlen (by decide)]
    exact RpcClient.sendTransferPacket_eq_none (by decide)
  exact absurd (hsend.symm.trans hsent) (by simp)

end ClientHandler

end Mowang
