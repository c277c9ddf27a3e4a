import Mowang.Share.BasePacket
import Mowang.Share.RpcParam

/-!
# `Share.RpcClient` — outgoing rpc packets

A call fills a packet object of fixed size, sets `m_len` from the end of the arguments, and lets the
handler copy the first `m_len` bytes out. A transfer call copies the packet it filled into the 65000
byte buffer of a second one. No size is checked: `none` is a write outside a buffer (or a call through a
null handler).

## Contents
- `callRemoteFunc`, `callTransferFunc`, `callEntity`, `callWsClient`, `callTransferPacket`.
- `call_sized_iff` — a call stays inside its buffers and sends the right `m_len` exactly if it fits.
-/

namespace Mowang

open LittleEndian Block

/-- `INVALID_SOCKET_INDEX`. -/
def invalidSocketIndex : SocketIndex := 2 ^ 64 - 1

/-- `packet_send_info`, with the bytes in its buffer. -/
structure PacketSendInfo where
  socketIndex : SocketIndex
  buffer : List UInt8

/-- `packet_handler::send_packet` on the object at `packet`: its first `len` bytes go to the service, if
    the handler is valid. -/
def sendPacket (socketIndex : SocketIndex) (packet : List UInt8) (len : Nat) : Option (List PacketSendInfo) :=
  if socketIndex ≠ invalidSocketIndex then
    if len ≤ packet.length then some [⟨socketIndex, packet.take len⟩] else none
  else some []

/-- `rpc_client`: the socket index of its handler, or `none` for `NULL`, and the packets cached until
    there is one. -/
structure RpcClient where
  handler : Option SocketIndex
  cachePackets : List EntityRpcByNamePacket

namespace RpcClient

/-- `init_packet`. -/
def initPacket (rpcName : Block UInt8 sizeofRpcName) (funcName : List UInt8) :
    Option (Block UInt8 sizeofRpcName) :=
  rpcName.write? 0 funcName

/-- `DRpcCreatePacket`, `fill_packet`, and the `m_len` that the send functions store. -/
def fillRpcPacket (funcName : List UInt8) (args : List Param) : Option RpcByNamePacket :=
  (initPacket (Block.fill _ 0) funcName).bind fun rpcName =>
  (fillPacket args (Block.fill sizeofBuffer 0) 0).map fun (buffer, len) =>
  { len := toPacketLen (RpcByNamePacket.sizeof - sizeofBuffer + len), id := packetIdRpcByName, check := 0,
    rpcName := rpcName, buffer := buffer }

/-- `call_remote_func`. -/
def callRemoteFunc (client : RpcClient) (funcName : List UInt8) (args : List Param) :
    Option (List PacketSendInfo) :=
  (fillRpcPacket funcName args).bind fun packet =>
  client.handler.bind fun handler => sendPacket handler packet.bytes packet.len

/-- `send_transfer_packet`, once it has set the `m_len` of the inner packet, the object at `packet`. -/
def sendTransferPacket (client : RpcClient) (clientId : SocketIndex) (packet : List UInt8)
    (packetLen : Nat) : Option (List PacketSendInfo) :=
  if packetLen ≤ packet.length then
    ((Block.fill sizeofBuffer 0).write? 0 (packet.take packetLen)).bind fun buffer =>
    let transferPacket : TransferEntityPacket :=
      { len := toPacketLen (TransferEntityPacket.sizeof - sizeofBuffer + packetLen),
        id := packetIdTransferPacket, check := 0, clientId := Pod.ofNat 8 clientId, buffer := buffer }
    client.handler.bind fun handler => sendPacket handler transferPacket.bytes transferPacket.len
  else none

/-- `call_transfer_func`. -/
def callTransferFunc (client : RpcClient) (clientId : SocketIndex) (funcName : List UInt8)
    (args : List Param) : Option (List PacketSendInfo) :=
  (fillRpcPacket funcName args).bind fun packet =>
  client.sendTransferPacket clientId packet.bytes packet.len

/-- `call_ws_client`. -/
def callWsClient (client : RpcClient) (clientId : SocketIndex) (msg : List UInt8) :
    Option (List PacketSendInfo) :=
  ((Block.fill sizeofBuffer 0).write? 0 msg).bind fun buffer =>
  let packet : WsClientPacket :=
    { len := toPacketLen (WsClientPacket.sizeof - sizeofBuffer + msg.length), id := packetIdWsClient,
      check := 0, clientId := Pod.ofNat 8 clientId, buffer := buffer }
  client.handler.bind fun handler => sendPacket handler packet.bytes packet.len

/-- `call_transfer_packet` on a received packet, whose struct has `sizeofT` bytes in all: the index is
    computed back from `m_len`, as a `size_t` narrowed to `int`, and stored again in `m_len`. -/
def callTransferPacket {n : Nat} (client : RpcClient) (clientId : SocketIndex) (sizeofT : Nat)
    (packet : Block UInt8 n) : Option (List PacketSendInfo) :=
  (packet.readU16 0).bind fun (len, _) =>
  let bufferIndex : Int := (sizeofBuffer : Int) + len - sizeofT
  let packetLen := (((sizeofT : Int) - sizeofBuffer + bufferIndex) % 65536).toNat
  (packet.write? 0 (leBytes 2 packetLen)).bind fun packet =>
  client.sendTransferPacket clientId packet.cells packetLen

/-- `call_entity`: without a handler the packet is cached. -/
def callEntity (client : RpcClient) (entityId : EntityId) (funcName : List UInt8) (args : List Param) :
    Option (RpcClient × List PacketSendInfo) :=
  (initPacket (Block.fill _ 0) funcName).bind fun rpcName =>
  (fillPacket args (Block.fill sizeofBuffer 0) 0).bind fun (buffer, len) =>
  let packet : EntityRpcByNamePacket :=
    { len := toPacketLen (EntityRpcByNamePacket.sizeof - sizeofBuffer + len),
      id := packetIdEntityRpcByName, check := 0, entityId := Pod.ofNat 8 entityId, rpcName := rpcName,
      buffer := buffer }
  match client.handler with
  | some handler => (sendPacket handler packet.bytes packet.len).map fun sent => (client, sent)
  | none         => some ({ client with cachePackets := client.cachePackets ++ [packet] }, [])

/-- `process_cache_packets`. -/
def processCachePackets (client : RpcClient) : Option (RpcClient × List PacketSendInfo) :=
  client.handler.bind fun handler =>
  (client.cachePackets.mapM fun packet => sendPacket handler packet.bytes packet.len).map fun sent =>
  ({ client with cachePackets := [] }, sent.flatten)

end RpcClient

/-! ## Sizes -/

theorem sendPacket_spec (socketIndex : SocketIndex) {packet : List UInt8} {len : Nat}
    (h : len ≤ packet.length) :
    ∃ sent, sendPacket socketIndex packet len = some sent ∧ ∀ info ∈ sent, info.buffer = packet.take len := by
  unfold sendPacket
  split
  · exact ⟨_, rfl, by simp⟩
  · exact ⟨[], rfl, by simp⟩

/-- The bytes are a packet of `size` bytes, and its `m_len` says so. -/
def WellSized (size : Nat) (bytes : List UInt8) : Prop := bytes.length = size ∧ ofLe (bytes.take 2) = size

/-- The first `m_len` bytes of a packet object. -/
theorem wellSized_take (p : PacketBase) {rest : List UInt8} (hlen : p.len ≤ (p.bytes ++ rest).length)
    (htwo : 2 ≤ p.len) (hmax : p.len ≤ 65535) : WellSized p.len ((p.bytes ++ rest).take p.len) := by
  refine ⟨List.length_take_of_le hlen, ?_⟩
  rw [List.take_take, Nat.min_eq_left htwo, p.take_two, ofLe_leBytes_of_lt (Nat.lt_succ_of_le hmax)]

/-- A packet object of at most 65535 bytes in use is sent well sized. -/
theorem sendPacket_wellSized (socketIndex : SocketIndex) (p : PacketBase) {rest : List UInt8}
    (hlen : p.len ≤ (p.bytes ++ rest).length) (htwo : 2 ≤ p.len) (hmax : p.len ≤ 65535) :
    ∃ sent, sendPacket socketIndex (p.bytes ++ rest) p.len = some sent ∧
      ∀ info ∈ sent, WellSized p.len info.buffer := by
  obtain ⟨sent, hsent, himage⟩ := sendPacket_spec socketIndex hlen
  refine ⟨sent, hsent, fun info hinfo => ?_⟩
  rw [himage info hinfo]
  exact wellSized_take p hlen htwo hmax

namespace RpcClient

section Fill

variable {funcName : List UInt8} {args : List Param} {vs : List Value}

theorem initPacket_eq_none (h : sizeofRpcName < funcName.length) (rpcName : Block UInt8 sizeofRpcName) :
    initPacket rpcName funcName = none :=
  write?_eq_none (by rw [Nat.zero_add]; exact h)

theorem initPacket_eq_some (h : funcName.length ≤ sizeofRpcName) (rpcName : Block UInt8 sizeofRpcName) :
    ∃ rpcName', initPacket rpcName funcName = some rpcName' :=
  ⟨_, write?_eq (by rw [Nat.zero_add]; exact h)⟩

theorem fillPacket_eq_none {n : Nat} (hargs : List.Forall₂ Param.Holds args vs)
    (h : n < (vs.flatMap Value.encode).length) (b : Block UInt8 n) : fillPacket args b 0 = none := by
  rw [emits_fillPacket hargs b 0 (Nat.zero_le _)]
  exact writeBytes_eq_none (by rw [Nat.zero_add]; exact h)

theorem fillPacket_eq_some {n : Nat} (hargs : List.Forall₂ Param.Holds args vs)
    (h : (vs.flatMap Value.encode).length ≤ n) (b : Block UInt8 n) :
    ∃ b', fillPacket args b 0 = some (b', (vs.flatMap Value.encode).length) := by
  rw [emits_fillPacket hargs b 0 (Nat.zero_le _)]
  obtain ⟨b', hwrite, _⟩ := writeBytes_spec (b := b) (by rw [Nat.zero_add]; exact h)
  exact ⟨b', by rw [hwrite, Nat.zero_add]⟩

/-- The packet of a call by name is filled exactly if the name and the arguments fit their fields. -/
theorem fillRpcPacket_eq_none (hargs : List.Forall₂ Param.Holds args vs)
    (h : ¬ (funcName.length ≤ sizeofRpcName ∧ (vs.flatMap Value.encode).length ≤ sizeofBuffer)) :
    fillRpcPacket funcName args = none := by
  unfold fillRpcPacket
  by_cases hname : funcName.length ≤ sizeofRpcName
  · obtain ⟨rpcName, hinit⟩ := initPacket_eq_some hname (Block.fill _ 0)
    rw [hinit, Option.bind_some, fillPacket_eq_none hargs (Nat.lt_of_not_le fun hle => h ⟨hname, hle⟩)]
    rfl
  · rw [initPacket_eq_none (Nat.lt_of_not_le hname)]
    rfl

theorem fillRpcPacket_eq_some (hargs : List.Forall₂ Param.Holds args vs)
    (hname : funcName.length ≤ sizeofRpcName) (hsize : (vs.flatMap Value.encode).length ≤ sizeofBuffer) :
    ∃ packet, fillRpcPacket funcName args = some packet ∧
      packet.len = RpcByNamePacket.offsetBuffer + (vs.flatMap Value.encode).length := by
  obtain ⟨rpcName, hinit⟩ := initPacket_eq_some hname (Block.fill _ 0)
  obtain ⟨buffer, hfill⟩ := fillPacket_eq_some hargs hsize (Block.fill sizeofBuffer 0)
  refine ⟨_, by rw [fillRpcPacket, hinit, Option.bind_some, hfill]; rfl, ?_⟩
  refine (toPacketLen_of_le ?_).trans ?_
  · simp only [RpcByNamePacket.sizeof, RpcByNamePacket.offsetBuffer, RpcByNamePacket.offsetRpcName,
      sizeofPacketBase, sizeofRpcName, sizeofBuffer] at hsize ⊢
    omega
  · rw [RpcByNamePacket.sizeof, Nat.add_sub_cancel]

end Fill

/-- A transfer packet on the wire. -/
def transferImage (clientId : SocketIndex) (inner : List UInt8) : List UInt8 :=
  leBytes 2 (TransferEntityPacket.offsetBuffer + inner.length) ++ ([packetIdTransferPacket] ++ leBytes 4 0) ++
    (leBytes 8 clientId ++ inner)

theorem transferImage_length (clientId : SocketIndex) (inner : List UInt8) :
    (transferImage clientId inner).length = TransferEntityPacket.offsetBuffer + inner.length := by
  simp only [transferImage, List.length_append, leBytes_length, List.length_singleton,
    TransferEntityPacket.offsetBuffer, TransferEntityPacket.offsetClientId, sizeofPacketBase]
  omega

theorem transferImage_drop (clientId : SocketIndex) (inner : List UInt8) :
    (transferImage clientId inner).drop TransferEntityPacket.offsetBuffer = inner := by
  rw [transferImage, ← List.append_assoc, List.drop_left']
  simp [TransferEntityPacket.offsetBuffer, TransferEntityPacket.offsetClientId, sizeofPacketBase]

theorem transferImage_wellSized (clientId : SocketIndex) {inner : List UInt8}
    (h : inner.length ≤ sizeofBuffer) :
    WellSized (TransferEntityPacket.offsetBuffer + inner.length) (transferImage clientId inner) := by
  refine ⟨transferImage_length clientId inner, ?_⟩
  rw [transferImage, List.append_assoc, List.take_left' (leBytes_length _ _), ofLe_leBytes_of_lt]
  simp only [TransferEntityPacket.offsetBuffer, TransferEntityPacket.offsetClientId, sizeofPacketBase,
    sizeofBuffer] at h ⊢
  omega

/-- An inner packet goes into the transfer packet exactly if it fits its buffer. -/
theorem sendTransferPacket_eq_none {client : RpcClient} {clientId : SocketIndex} {packet : List UInt8}
    {packetLen : Nat} (h : sizeofBuffer < packetLen) :
    client.sendTransferPacket clientId packet packetLen = none := by
  unfold sendTransferPacket
  split
  · rename_i hle
    rw [write?_eq_none (by rw [List.length_take_of_le hle, Nat.zero_add]; exact h)]
    rfl
  · rfl

theorem sendTransferPacket_eq_some {client : RpcClient} {handler : SocketIndex}
    (hh : client.handler = some handler) {clientId : SocketIndex} {packet : List UInt8} {packetLen : Nat}
    (hle : packetLen ≤ packet.length) (h : packetLen ≤ sizeofBuffer) :
    ∃ sent, client.sendTransferPacket clientId packet packetLen = some sent ∧
      ∀ info ∈ sent, info.buffer = transferImage clientId (packet.take packetLen) := by
  have hinner : (packet.take packetLen).length = packetLen := List.length_take_of_le hle
  have hin : 0 + (packet.take packetLen).length ≤ sizeofBuffer := by omega
  have hself := slice_write_self (b := Block.fill sizeofBuffer (0 : UInt8)) hin
  have hlen : toPacketLen (TransferEntityPacket.sizeof - sizeofBuffer + packetLen) =
      TransferEntityPacket.offsetBuffer + packetLen := by
    rw [TransferEntityPacket.sizeof, Nat.add_sub_cancel]
    refine toPacketLen_of_le ?_
    simp only [TransferEntityPacket.offsetBuffer, TransferEntityPacket.offsetClientId, sizeofPacketBase,
      sizeofBuffer] at h ⊢
    omega
  have htake : ((Block.fill sizeofBuffer (0 : UInt8)).write 0 (packet.take packetLen) hin).cells.take
      packetLen = packet.take packetLen := by
    rwa [hinner, slice, List.drop_zero] at hself
  unfold sendTransferPacket
  rw [if_pos hle, write?_eq hin, hh]
  simp only [Option.bind_some, hlen]
  generalize hp : TransferEntityPacket.mk _ _ _ = p
  have hfit : TransferEntityPacket.offsetBuffer + packetLen ≤ p.bytes.length := by
    rw [TransferEntityPacket.bytes_length, TransferEntityPacket.sizeof]
    exact Nat.add_le_add_left h _
  obtain ⟨sent, hsent, himage⟩ := sendPacket_spec handler hfit
  refine ⟨sent, hsent, fun info hinfo => (himage info hinfo).trans ?_⟩
  rw [TransferEntityPacket.take_bytes, ← hp, htake, transferImage, hinner]
  rfl

/-- `m_len` survives the way through `buffer_index`: as many bytes as it says are passed on as they arrived. -/
theorem callTransferPacket_eq {n len : Nat} {client : RpcClient} {clientId : SocketIndex} {sizeofT : Nat}
    {packet : Block UInt8 n} (hlen : packet.Has 0 (leBytes 2 len)) (hn : len < 65536) :
    client.callTransferPacket clientId sizeofT packet = client.sendTransferPacket clientId packet.cells len := by
  have hread : packet.readU16 0 = some (len, 2) := by
    obtain ⟨_, hr, rfl⟩ := (decodes_readU16 packet).complete hlen hn
    exact hr
  have hindex : (((sizeofT : Int) - sizeofBuffer + ((sizeofBuffer : Int) + len - sizeofT)) % 65536).toNat = len := by
    omega
  have hwrite : packet.write? 0 (leBytes 2 len) = some packet := by
    rw [write?_eq hlen.1, write_self hlen.1 hlen.2]
  unfold callTransferPacket
  rw [hread]
  simp only [Option.bind_some, hindex, hwrite]

/-! ## The calls -/

/-- What a caller asks for. -/
inductive Call
  | remoteFunc (funcName : List UInt8) (args : List Param)
  | transferFunc (clientId : SocketIndex) (funcName : List UInt8) (args : List Param)
  | entity (entityId : EntityId) (funcName : List UInt8) (args : List Param)
  | wsClient (clientId : SocketIndex) (msg : List UInt8)

def call (client : RpcClient) : Call → Option (RpcClient × List PacketSendInfo)
  | .remoteFunc funcName args            => (client.callRemoteFunc funcName args).map (client, ·)
  | .transferFunc clientId funcName args => (client.callTransferFunc clientId funcName args).map (client, ·)
  | .entity entityId funcName args       => client.callEntity entityId funcName args
  | .wsClient clientId msg               => (client.callWsClient clientId msg).map (client, ·)

namespace Call

def args : Call → List Param
  | .remoteFunc _ args     => args
  | .transferFunc _ _ args => args
  | .entity _ _ args       => args
  | .wsClient _ _          => []

/-- Size of the packet to send, given the size of the encoded arguments. -/
def size (argsSize : Nat) : Call → Nat
  | .remoteFunc _ _     => RpcByNamePacket.offsetBuffer + argsSize
  | .transferFunc _ _ _ => TransferEntityPacket.offsetBuffer + (RpcByNamePacket.offsetBuffer + argsSize)
  | .entity _ _ _       => EntityRpcByNamePacket.offsetBuffer + argsSize
  | .wsClient _ msg     => WsClientPacket.offsetBuffer + msg.length

/-- The packet has its real size in `m_len`; so has the one inside a transfer packet. -/
def Sized (argsSize : Nat) (bytes : List UInt8) : Call → Prop
  | c@(.transferFunc _ _ _) => WellSized (c.size argsSize) bytes ∧
      WellSized (RpcByNamePacket.offsetBuffer + argsSize) (bytes.drop TransferEntityPacket.offsetBuffer)
  | c                       => WellSized (c.size argsSize) bytes

/-- The function name fits `m_rpc_name`, and the body, with a transfer the whole inner packet, fits
    `m_buffer`. -/
def Fits (argsSize : Nat) : Call → Prop
  | .remoteFunc funcName _     => funcName.length ≤ sizeofRpcName ∧ argsSize ≤ sizeofBuffer
  | .transferFunc _ funcName _ =>
      funcName.length ≤ sizeofRpcName ∧ RpcByNamePacket.offsetBuffer + argsSize ≤ sizeofBuffer
  | .entity _ funcName _       => funcName.length ≤ sizeofRpcName ∧ argsSize ≤ sizeofBuffer
  | .wsClient _ msg            => msg.length ≤ sizeofBuffer

end Call

/-- The call stayed inside its buffers, and every packet it sent or cached is well sized. -/
def SendsSized (client : RpcClient) (c : Call) (argsSize : Nat) : Prop :=
  ∃ client' sent, client.call c = some (client', sent) ∧ (∀ info ∈ sent, c.Sized argsSize info.buffer) ∧
    ∀ packet ∈ client'.cachePackets, packet ∈ client.cachePackets ∨
      c.Sized argsSize (packet.bytes.take packet.len)

section Sized

variable {client : RpcClient} {funcName : List UInt8} {args : List Param} {vs : List Value}

/-- A call that left a buffer sends nothing sized. -/
theorem not_sendsSized {c : Call} {argsSize : Nat} (h : client.call c = none) :
    ¬ client.SendsSized c argsSize := by
  rintro ⟨client', sent, hcall, _⟩
  rw [h] at hcall
  cases hcall

theorem sendsSized_of_sent {c : Call} {argsSize : Nat} {sent : List PacketSendInfo}
    (h : client.call c = some (client, sent)) (hsized : ∀ info ∈ sent, c.Sized argsSize info.buffer) :
    client.SendsSized c argsSize :=
  ⟨client, sent, h, hsized, fun _ hp => .inl hp⟩

theorem callRemoteFunc_sized (hargs : List.Forall₂ Param.Holds args vs) (hh : client.handler.isSome) :
    client.SendsSized (.remoteFunc funcName args) (vs.flatMap Value.encode).length ↔
      (Call.remoteFunc funcName args).Fits (vs.flatMap Value.encode).length := by
  obtain ⟨handler, hhandler⟩ := Option.isSome_iff_exists.mp hh
  constructor
  · intro h
    by_contra hfits
    refine not_sendsSized ?_ h
    rw [call, callRemoteFunc, fillRpcPacket_eq_none hargs hfits]
    rfl
  · rintro ⟨hname, hsize⟩
    obtain ⟨packet, hfill, hlen⟩ := fillRpcPacket_eq_some hargs hname hsize
    have hmax : packet.len ≤ 65535 ∧ packet.len ≤ packet.bytes.length ∧ 2 ≤ packet.len := by
      rw [packet.bytes_length, hlen]
      simp only [RpcByNamePacket.sizeof, RpcByNamePacket.offsetBuffer, RpcByNamePacket.offsetRpcName,
        sizeofPacketBase, sizeofRpcName, sizeofBuffer] at hsize ⊢
      omega
    obtain ⟨sent, hsent, hsized⟩ :=
      sendPacket_wellSized handler packet.toPacketBase hmax.2.1 hmax.2.2 hmax.1
    refine ⟨client, sent, ?_, fun info hinfo => ?_, fun _ hp => .inl hp⟩
    · rw [call, callRemoteFunc, hfill, Option.bind_some, hhandler]
      simp only [Option.bind_some]
      rw [RpcByNamePacket.bytes, hsent]
      rfl
    · have hinfo' := hsized info hinfo
      rw [hlen] at hinfo'
      exact hinfo'

/-- A call that fits is made. -/
theorem callRemoteFunc_eq_some (hargs : List.Forall₂ Param.Holds args vs) (hh : client.handler.isSome)
    (hfits : (Call.remoteFunc funcName args).Fits (vs.flatMap Value.encode).length) :
    ∃ sent, client.callRemoteFunc funcName args = some sent := by
  obtain ⟨_, sent, hcall, _⟩ := (callRemoteFunc_sized hargs hh).mpr hfits
  obtain ⟨sent, hsent, _⟩ := Option.map_eq_some_iff.mp hcall
  exact ⟨sent, hsent⟩

theorem callRemoteFunc_isSome_iff (hargs : List.Forall₂ Param.Holds args vs) (hh : client.handler.isSome) :
    (client.callRemoteFunc funcName args).isSome ↔
      (Call.remoteFunc funcName args).Fits (vs.flatMap Value.encode).length := by
  constructor
  · intro h
    by_contra hfits
    rw [callRemoteFunc, fillRpcPacket_eq_none hargs hfits] at h
    cases h
  · intro hfits
    obtain ⟨sent, hsent⟩ := callRemoteFunc_eq_some hargs hh hfits
    exact Option.isSome_of_eq_some hsent

theorem callTransferFunc_sized {clientId : SocketIndex} (hargs : List.Forall₂ Param.Holds args vs)
    (hh : client.handler.isSome) :
    client.SendsSized (.transferFunc clientId funcName args) (vs.flatMap Value.encode).length ↔
      (Call.transferFunc clientId funcName args).Fits (vs.flatMap Value.encode).length := by
  obtain ⟨handler, hhandler⟩ := Option.isSome_iff_exists.mp hh
  by_cases hfits : funcName.length ≤ sizeofRpcName ∧ (vs.flatMap Value.encode).length ≤ sizeofBuffer
  · obtain ⟨packet, hfill, hlen⟩ := fillRpcPacket_eq_some hargs hfits.1 hfits.2
    have hmax : packet.len ≤ 65535 ∧ packet.len ≤ packet.bytes.length ∧ 2 ≤ packet.len := by
      rw [packet.bytes_length, hlen]
      have hsize := hfits.2
      simp only [RpcByNamePacket.sizeof, RpcByNamePacket.offsetBuffer, RpcByNamePacket.offsetRpcName,
        sizeofPacketBase, sizeofRpcName, sizeofBuffer] at hsize ⊢
      omega
    have hinner := wellSized_take packet.toPacketBase hmax.2.1 hmax.2.2 hmax.1
    constructor
    · intro h
      by_contra hnot
      refine not_sendsSized ?_ h
      have hbig : sizeofBuffer < packet.len := by
        rw [hlen]
        exact Nat.lt_of_not_le fun hle => hnot ⟨hfits.1, hle⟩
      rw [call, callTransferFunc, hfill, Option.bind_some, sendTransferPacket_eq_none hbig]
      rfl
    · rintro ⟨_, hsize⟩
      rw [← hlen] at hsize
      obtain ⟨sent, hsent, himage⟩ := sendTransferPacket_eq_some hhandler hmax.2.1 hsize
      refine ⟨client, sent, ?_, fun info hinfo => ?_, fun _ hp => .inl hp⟩
      · rw [call, callTransferFunc, hfill, Option.bind_some, hsent]
        rfl
      · have hk : (packet.bytes.take packet.len).length = packet.len := hinner.1
        have houter := transferImage_wellSized clientId (Nat.le_trans (Nat.le_of_eq hk) hsize)
        rw [hk] at houter
        rw [himage info hinfo]
        refine ⟨?_, ?_⟩
        · rw [Call.size, ← hlen]
          exact houter
        · rw [transferImage_drop, ← hlen]
          exact hinner
  · refine iff_of_false (not_sendsSized ?_) fun h => hfits ⟨h.1, ?_⟩
    · rw [call, callTransferFunc, fillRpcPacket_eq_none hargs hfits]
      rfl
    · exact Nat.le_trans (Nat.le_add_left _ _) h.2

theorem callEntity_sized {entityId : EntityId} (hargs : List.Forall₂ Param.Holds args vs) :
    client.SendsSized (.entity entityId funcName args) (vs.flatMap Value.encode).length ↔
      (Call.entity entityId funcName args).Fits (vs.flatMap Value.encode).length := by
  by_cases hfits : funcName.length ≤ sizeofRpcName ∧ (vs.flatMap Value.encode).length ≤ sizeofBuffer
  · refine iff_of_true ?_ hfits
    obtain ⟨hname, hsize⟩ := hfits
    obtain ⟨rpcName, hinit⟩ := initPacket_eq_some hname (Block.fill _ 0)
    obtain ⟨buffer, hfill⟩ := fillPacket_eq_some hargs hsize (Block.fill sizeofBuffer 0)
    -- what fits the buffer does not wrap the 16 bits of the length
    have hlen : toPacketLen (EntityRpcByNamePacket.sizeof - sizeofBuffer + (vs.flatMap Value.encode).length) =
        EntityRpcByNamePacket.offsetBuffer + (vs.flatMap Value.encode).length := by
      rw [EntityRpcByNamePacket.sizeof, Nat.add_sub_cancel]
      refine toPacketLen_of_le ?_
      simp only [EntityRpcByNamePacket.offsetBuffer, EntityRpcByNamePacket.offsetRpcName,
        EntityRpcByNamePacket.offsetEntityId, sizeofPacketBase, sizeofRpcName, sizeofBuffer] at hsize ⊢
      omega
    have hcall : client.call (.entity entityId funcName args) =
        client.callEntity entityId funcName args := rfl
    rw [callEntity, hinit, Option.bind_some, hfill] at hcall
    simp only [Option.bind_some, hlen] at hcall
    generalize hp : EntityRpcByNamePacket.mk _ _ _ _ = packet at hcall
    have hpl : packet.len = EntityRpcByNamePacket.offsetBuffer + (vs.flatMap Value.encode).length := by
      rw [← hp]
    have hmax : packet.len ≤ 65535 ∧ packet.len ≤ packet.bytes.length ∧ 2 ≤ packet.len := by
      rw [packet.bytes_length, hpl]
      simp only [EntityRpcByNamePacket.sizeof, EntityRpcByNamePacket.offsetBuffer,
        EntityRpcByNamePacket.offsetRpcName, EntityRpcByNamePacket.offsetEntityId, sizeofPacketBase,
        sizeofRpcName, sizeofBuffer] at hsize ⊢
      omega
    rw [← hpl] at hcall
    cases hh : client.handler with
    | some handler =>
        obtain ⟨sent, hsent, hsized⟩ :=
          sendPacket_wellSized handler packet.toPacketBase hmax.2.1 hmax.2.2 hmax.1
        simp only [hh] at hcall
        rw [EntityRpcByNamePacket.bytes, hsent] at hcall
        refine sendsSized_of_sent hcall fun info hinfo => ?_
        have hinfo' := hsized info hinfo
        rw [hpl] at hinfo'
        exact hinfo'
    | none =>
        simp only [hh] at hcall
        refine ⟨_, _, hcall, by simp, fun p hmem => ?_⟩
        rcases List.mem_append.mp hmem with hold | hnew
        · exact .inl hold
        · obtain rfl := List.mem_singleton.mp hnew
          have htake := wellSized_take p.toPacketBase hmax.2.1 hmax.2.2 hmax.1
          right
          show WellSized _ _
          rw [Call.size, ← hpl]
          exact htake
  · refine iff_of_false (not_sendsSized ?_) hfits
    rw [call, callEntity]
    by_cases hname : funcName.length ≤ sizeofRpcName
    · obtain ⟨rpcName, hinit⟩ := initPacket_eq_some hname (Block.fill _ 0)
      rw [hinit, Option.bind_some,
        fillPacket_eq_none hargs (Nat.lt_of_not_le fun hle => hfits ⟨hname, hle⟩)]
      rfl
    · rw [initPacket_eq_none (Nat.lt_of_not_le hname)]
      rfl

theorem callWsClient_sized {clientId : SocketIndex} {msg : List UInt8} {argsSize : Nat}
    (hh : client.handler.isSome) :
    client.SendsSized (.wsClient clientId msg) argsSize ↔ (Call.wsClient clientId msg).Fits argsSize := by
  obtain ⟨handler, hhandler⟩ := Option.isSome_iff_exists.mp hh
  by_cases hfits : msg.length ≤ sizeofBuffer
  · refine iff_of_true ?_ hfits
    have hlen : toPacketLen (WsClientPacket.sizeof - sizeofBuffer + msg.length) =
        WsClientPacket.offsetBuffer + msg.length := by
      rw [WsClientPacket.sizeof, Nat.add_sub_cancel]
      refine toPacketLen_of_le ?_
      simp only [WsClientPacket.offsetBuffer, WsClientPacket.offsetClientId, sizeofPacketBase,
        sizeofBuffer] at hfits ⊢
      omega
    have hcall : client.call (.wsClient clientId msg) =
        (client.callWsClient clientId msg).map (client, ·) := rfl
    rw [callWsClient, write?_eq (by rw [Nat.zero_add]; exact hfits), hhandler] at hcall
    simp only [Option.bind_some, hlen] at hcall
    generalize hp : WsClientPacket.mk _ _ _ = packet at hcall
    have hpl : packet.len = WsClientPacket.offsetBuffer + msg.length := by rw [← hp]
    have hmax : packet.len ≤ 65535 ∧ packet.len ≤ packet.bytes.length ∧ 2 ≤ packet.len := by
      rw [packet.bytes_length, hpl]
      simp only [WsClientPacket.sizeof, WsClientPacket.offsetBuffer, WsClientPacket.offsetClientId,
        sizeofPacketBase, sizeofBuffer] at hfits ⊢
      omega
    rw [← hpl] at hcall
    obtain ⟨sent, hsent, hsized⟩ :=
      sendPacket_wellSized handler packet.toPacketBase hmax.2.1 hmax.2.2 hmax.1
    rw [WsClientPacket.bytes, hsent] at hcall
    refine sendsSized_of_sent hcall fun info hinfo => ?_
    have hinfo' := hsized info hinfo
    rw [hpl] at hinfo'
    exact hinfo'
  · refine iff_of_false (not_sendsSized ?_) hfits
    rw [call, callWsClient, write?_eq_none (by rw [Nat.zero_add]; exact Nat.lt_of_not_le hfits)]
    rfl

/-- **Outgoing calls.** A call stays inside `m_rpc_name` and every `m_buffer` it fills, and what it
    sends carries its real size in `m_len`, exactly if the name and the encoding fit. -/
theorem call_sized_iff (client : RpcClient) (c : Call) (vs : List Value)
    (hargs : List.Forall₂ Param.Holds c.args vs)
    (hh : client.handler.isSome ∨ ∃ entityId funcName args, c = .entity entityId funcName args) :
    client.SendsSized c (vs.flatMap Value.encode).length ↔ c.Fits (vs.flatMap Value.encode).length := by
  cases c with
  | remoteFunc funcName args => exact callRemoteFunc_sized hargs (by simpa using hh)
  | transferFunc clientId funcName args => exact callTransferFunc_sized hargs (by simpa using hh)
  | entity entityId funcName args => exact callEntity_sized hargs
  | wsClient clientId msg => exact callWsClient_sized (by simpa using hh)

/-- A call for client 5 with a number, a string and an array of 16-bit numbers. -/
def callMixed : Call :=
  .transferFunc 5 [0x61] [.pod (Pod.ofNat 4 7), .dynamicString ⟨2, 3, [104, 105, 0]⟩,
    .dynamicArray (⟨2, 2, [Pod.ofNat 2 500, Pod.ofNat 2 1]⟩ : DynamicArray (Pod 2))]

theorem call_sized_mixed : (⟨some 1, []⟩ : RpcClient).SendsSized callMixed 14 :=
  (call_sized_iff ⟨some 1, []⟩ callMixed
    [.pod (Pod.ofNat 4 7), .dynamicString [104, 105], .dynamicArray [Pod.ofNat 2 500, Pod.ofNat 2 1]]
    (.cons (.pod _) (.cons (.dynamicString ⟨rfl, rfl⟩) (.cons (.dynamicArray ⟨rfl, rfl⟩) .nil))) (.inl rfl)).mpr
    ⟨by decide, by decide⟩

/-- The `binary_data` that `executor_manager` builds from `len` bytes of a query result. -/
def dbResult (len : Nat) : DynamicString := ⟨len, len + 1, List.replicate (len + 1) 0⟩

theorem dbResult_holds (len : Nat) : DynamicCells.Holds (dbResult len) (List.replicate len 0) := by
  refine ⟨?_, List.length_replicate.symm⟩
  show (List.replicate (len + 1) (0 : UInt8)).take len = _
  rw [List.take_replicate, Nat.min_eq_left (Nat.le_succ len)]

/-- The call by which `executor_manager` answers a query; the name is `on_opt_db_with_result`. -/
def onOptDbWithResult (len : Nat) : Call :=
  .remoteFunc [0x6f, 0x6e, 0x5f, 0x6f, 0x70, 0x74, 0x5f, 0x64, 0x62, 0x5f, 0x77, 0x69, 0x74, 0x68, 0x5f,
      0x72, 0x65, 0x73, 0x75, 0x6c, 0x74]
    [.pod (Pod.ofNat 8 1), .pod (Pod.ofNat 1 1), .dynamicString (dbResult len)]

/-- With `opt_id`, the status and the length in front, 64989 bytes of a result fit. -/
theorem onOptDbWithResult_eq_none {len : Nat} (h : 64989 < len) : client.call (onOptDbWithResult len) = none := by
  have hargs : List.Forall₂ Param.Holds (onOptDbWithResult len).args
      [.pod (Pod.ofNat 8 1), .pod (Pod.ofNat 1 1), .dynamicString (List.replicate len 0)] :=
    .cons (.pod _) (.cons (.pod _) (.cons (.dynamicString (dbResult_holds len)) .nil))
  have hsize : ([Value.pod (Pod.ofNat 8 1), .pod (Pod.ofNat 1 1),
      .dynamicString (List.replicate len 0)].flatMap Value.encode).length = 11 + len := by
    simp only [List.flatMap_cons, List.flatMap_nil, Value.encode, Value.encodeString, Pod.ofNat,
      List.length_append, leBytes_length, List.length_replicate, List.length_nil]
    omega
  have hbig : ¬ 11 + len ≤ sizeofBuffer := by
    rw [sizeofBuffer]
    omega
  simp only [onOptDbWithResult, Call.args] at hargs
  rw [onOptDbWithResult, call, callRemoteFunc,
    fillRpcPacket_eq_none hargs (by rw [hsize]; exact fun h => hbig h.2)]
  rfl

/-- 64990 bytes of the 65000 in `db_result` are one too many. -/
theorem call_dbResult_past_buffer :
    ¬ (⟨some 1, []⟩ : RpcClient).SendsSized (onOptDbWithResult 64990) 65001 :=
  not_sendsSized (onOptDbWithResult_eq_none (by decide))

end Sized

end RpcClient

end Mowang
