import Mowang.Share.RpcClient

/-!
# `Gate.WsTransfer` — texts for WebSocket clients

A game process sends a text for a client in a `ws_client_packet`; the gate takes it out again and pushes it for the
client's socket, between `START_CHARACTER` and `END_CHARACTER`.

## Contents
- `handleTransferWsClient`, `wsFrames`.
- `wsFrames_eq`: a text arrives whole, if it fits the packet.
-/

namespace Mowang

open LittleEndian Block

def startCharacter : UInt8 := 0x2

def endCharacter : UInt8 := 0x3

/-- `ws_service::push_ws_write_packets`. -/
def pushWsWritePackets (socketIndex : SocketIndex) (packet : List UInt8) : PacketSendInfo :=
  ⟨socketIndex, startCharacter :: (packet ++ [endCharacter])⟩

/-- `gate_packet_handler::handle_transfer_ws_client`. -/
def handleTransferWsClient {n : Nat} (packet : Block UInt8 n) : Option PacketSendInfo :=
  (packet.readU16 0).bind fun (packetLen, _) =>
  (packet.readBlock 8 WsClientPacket.offsetClientId).bind fun (clientId, _) =>
  -- `len` would be negative
  if packetLen < WsClientPacket.offsetBuffer then none
  else
    let len := packetLen - WsClientPacket.offsetBuffer
    (packet.read? WsClientPacket.offsetBuffer len).map fun msg => pushWsWritePackets (ofLe clientId.cells) msg

/-- What the gate pushes for the packets of a `call_ws_client`. -/
def wsFrames (client : RpcClient) (clientId : SocketIndex) (msg : List UInt8) : Option (List PacketSendInfo) :=
  (client.callWsClient clientId msg).bind fun sent =>
  sent.mapM fun info => handleTransferWsClient (⟨info.buffer, rfl⟩ : Block UInt8 info.buffer.length)

/-- A `ws_client_packet` on the wire. -/
def wsImage (clientId : SocketIndex) (msg : List UInt8) : List UInt8 :=
  leBytes 2 (WsClientPacket.offsetBuffer + msg.length) ++
    (([packetIdWsClient] ++ leBytes 4 0) ++ (leBytes 8 clientId ++ msg))

theorem callWsClient_eq {client : RpcClient} {handler clientId : SocketIndex} {msg : List UInt8}
    (hh : client.handler = some handler) (hvalid : handler ≠ invalidSocketIndex) (hlen : msg.length ≤ sizeofBuffer) :
    client.callWsClient clientId msg = some [⟨handler, wsImage clientId msg⟩] := by
  have hin : 0 + msg.length ≤ sizeofBuffer := by omega
  have hsize : toPacketLen (WsClientPacket.sizeof - sizeofBuffer + msg.length) =
      WsClientPacket.offsetBuffer + msg.length := by
    rw [WsClientPacket.sizeof, Nat.add_sub_cancel]
    apply toPacketLen_of_le
    simp only [WsClientPacket.offsetBuffer, WsClientPacket.offsetClientId, sizeofPacketBase, sizeofBuffer] at hlen ⊢
    omega
  have htake : ((Block.fill sizeofBuffer (0 : UInt8)).write 0 msg hin).cells.take msg.length = msg := by
    have hself := slice_write_self (b := Block.fill sizeofBuffer (0 : UInt8)) hin
    rwa [slice, List.drop_zero] at hself
  unfold RpcClient.callWsClient
  rw [write?_eq hin, hh]
  simp only [Option.bind_some, hsize]
  generalize hp : WsClientPacket.mk _ _ _ = p
  have hfit : WsClientPacket.offsetBuffer + msg.length ≤ p.bytes.length := by
    rw [p.bytes_length, WsClientPacket.sizeof]
    exact Nat.add_le_add_left hlen _
  rw [sendPacket, if_pos hvalid, if_pos hfit, WsClientPacket.take_bytes, ← hp, htake, PacketBase.bytes,
    List.append_assoc]
  rfl

/-- The gate finds the client and the text in the packet. -/
theorem handleTransferWsClient_wsImage {clientId : SocketIndex} (hc : clientId < 2 ^ 64) {msg : List UInt8}
    (hlen : msg.length ≤ sizeofBuffer) {n : Nat} {packet : Block UInt8 n}
    (hpacket : packet.cells = wsImage clientId msg) :
    handleTransferWsClient packet = some (pushWsWritePackets clientId msg) := by
  have hmax : WsClientPacket.offsetBuffer + msg.length < 65536 := by
    simp only [WsClientPacket.offsetBuffer, WsClientPacket.offsetClientId, sizeofPacketBase, sizeofBuffer] at hlen ⊢
    omega
  have hall := has_cells packet
  rw [hpacket, wsImage] at hall
  obtain ⟨hmlen, hrest⟩ := has_append.mp hall
  obtain ⟨_, hbody⟩ := has_append.mp hrest
  have hoff : 0 + (leBytes 2 (WsClientPacket.offsetBuffer + msg.length)).length +
      ([packetIdWsClient] ++ leBytes 4 0).length = WsClientPacket.offsetClientId := by
    simp [WsClientPacket.offsetClientId, sizeofPacketBase]
  rw [hoff] at hbody
  obtain ⟨hclient, hmsg⟩ := has_append.mp hbody
  rw [leBytes_length, show WsClientPacket.offsetClientId + 8 = WsClientPacket.offsetBuffer from rfl] at hmsg
  obtain ⟨_, hu16, rfl⟩ := (decodes_readU16 packet).complete hmlen hmax
  have hread : packet.readBlock 8 WsClientPacket.offsetClientId =
      some (Pod.ofNat 8 clientId, WsClientPacket.offsetClientId + 8) := readBlock_eq_some.mpr ⟨hclient, rfl⟩
  have hback : ofLe (Pod.ofNat 8 clientId).cells = clientId := ofLe_leBytes_of_lt hc
  have hnot : ¬ WsClientPacket.offsetBuffer + msg.length < WsClientPacket.offsetBuffer := by omega
  rw [handleTransferWsClient, hu16, Option.bind_some]
  dsimp only
  rw [hread, Option.bind_some]
  dsimp only
  rw [if_neg hnot, Nat.add_sub_cancel_left, read?_eq hmsg.1, Option.map_some, hback]
  exact congrArg (fun m => some (pushWsWritePackets clientId m)) hmsg.2

/-- **A text on its way.** It is pushed as it was sent, if it fits the packet; a longer one leaves it. -/
theorem wsFrames_eq {client : RpcClient} {handler clientId : SocketIndex} (hh : client.handler = some handler)
    (hvalid : handler ≠ invalidSocketIndex) (hc : clientId < 2 ^ 64) (msg : List UInt8) :
    wsFrames client clientId msg =
      if msg.length ≤ sizeofBuffer then some [pushWsWritePackets clientId msg] else none := by
  unfold wsFrames
  split
  · next hlen =>
    have hgate : handleTransferWsClient (⟨wsImage clientId msg, rfl⟩ : Block UInt8 (wsImage clientId msg).length) =
        some (pushWsWritePackets clientId msg) := handleTransferWsClient_wsImage hc hlen rfl
    rw [callWsClient_eq hh hvalid hlen, Option.bind_some, List.mapM_cons, hgate]
    rfl
  · next hlen =>
    rw [RpcClient.callWsClient, write?_eq_none (by rw [Nat.zero_add]; exact Nat.lt_of_not_le hlen)]
    rfl

end Mowang
