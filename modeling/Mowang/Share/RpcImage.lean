import Mowang.Base.PrefixFree
import Mowang.Share.PacketHandler
import Mowang.Share.RpcClient

/-!
# `Share.RpcImage` — the packet of a call, on the wire

A call by name fills a packet of 65 KB and sends the part of it that is used. That part is the image of the call: its
fields are where the handlers look for them, and no two lists of arguments of the same types have the same image.

## Contents
- `rpcImage`, `has_rpcImage`, `fillRpcPacket_image`.
- `callRemoteFunc_eq`, `callTransferFunc_eq`, `callTransferFunc_eq_none`.
- `hasArgs_unique` — a body holds one list of arguments.
-/

namespace Mowang

open LittleEndian Block

/-! ## The packet of a call -/

/-- The rpc packet on the wire. -/
def rpcImage (funcName : FuncName) (vs : List Value) : List UInt8 :=
  (leBytes 2 (RpcByNamePacket.offsetBuffer + (vs.flatMap Value.encode).length) ++ ([packetIdRpcByName] ++ leBytes 4 0)) ++
    ((funcName ++ List.replicate (sizeofRpcName - funcName.length) 0) ++ vs.flatMap Value.encode)

/-- The fields of the image. -/
theorem has_rpcImage {funcName : FuncName} {vs : List Value} {n o : Nat} {b : Block UInt8 n} (hfree : 0 ∉ funcName)
    (hname : funcName.length < sizeofRpcName) (h : b.Has o (rpcImage funcName vs)) :
    b.Has (o + offsetId) [packetIdRpcByName] ∧ NameAt b (o + RpcByNamePacket.offsetRpcName) funcName ∧
      b.Has (o + RpcByNamePacket.offsetBuffer) (vs.flatMap Value.encode) := by
  obtain ⟨hhead, hbody⟩ := has_append.mp h
  obtain ⟨_, hid⟩ := has_append.mp hhead
  obtain ⟨hfield, hargs⟩ := has_append.mp hbody
  simp only [List.length_append, leBytes_length, List.length_singleton, List.length_replicate] at hid hfield hargs
  have hplace : o + (2 + (1 + 4)) + (funcName.length + (sizeofRpcName - funcName.length)) =
      o + RpcByNamePacket.offsetBuffer := by
    simp only [RpcByNamePacket.offsetBuffer, RpcByNamePacket.offsetRpcName, sizeofPacketBase]
    omega
  refine ⟨(has_append.mp hid).1, ⟨hfree, ?_⟩, hplace ▸ hargs⟩
  -- the field is longer than the name, so there is a NUL behind it
  obtain ⟨blank, hblank⟩ : ∃ blank, sizeofRpcName - funcName.length = blank + 1 := ⟨_, (Nat.succ_pred (by omega)).symm⟩
  rw [hblank, List.replicate_succ, List.append_cons] at hfield
  exact (has_append.mp hfield).1

namespace RpcClient

variable {client : RpcClient} {handler clientId : SocketIndex} {funcName : FuncName} {args : List Param}
  {vs : List Value}

theorem write_fill {n : Nat} {bs : List UInt8} (h : 0 + bs.length ≤ n) :
    ((Block.fill n (0 : UInt8)).write 0 bs h).cells = bs ++ List.replicate (n - bs.length) 0 := by
  simp [write, fill]

theorem rpcImage_length (hname : funcName.length ≤ sizeofRpcName) :
    (rpcImage funcName vs).length = RpcByNamePacket.offsetBuffer + (vs.flatMap Value.encode).length := by
  simp only [rpcImage, List.length_append, leBytes_length, List.length_singleton, List.length_replicate,
    RpcByNamePacket.offsetBuffer, RpcByNamePacket.offsetRpcName, sizeofPacketBase]
  omega

/-- The packet that is filled has the image in front. -/
theorem fillRpcPacket_image (hargs : List.Forall₂ Param.Holds args vs) (hname : funcName.length ≤ sizeofRpcName)
    (hsize : (vs.flatMap Value.encode).length ≤ sizeofBuffer) : ∃ packet, fillRpcPacket funcName args = some packet ∧
      packet.len = (rpcImage funcName vs).length ∧ packet.bytes.take packet.len = rpcImage funcName vs := by
  have hin : 0 + funcName.length ≤ sizeofRpcName := by rwa [Nat.zero_add]
  have hin' : 0 + (vs.flatMap Value.encode).length ≤ sizeofBuffer := by rwa [Nat.zero_add]
  have hlen : toPacketLen (RpcByNamePacket.sizeof - sizeofBuffer + (vs.flatMap Value.encode).length) =
      RpcByNamePacket.offsetBuffer + (vs.flatMap Value.encode).length := by
    rw [RpcByNamePacket.sizeof, Nat.add_sub_cancel]
    refine toPacketLen_of_le ?_
    simp only [RpcByNamePacket.offsetBuffer, RpcByNamePacket.offsetRpcName, sizeofPacketBase, sizeofRpcName,
      sizeofBuffer] at hsize ⊢
    omega
  refine ⟨⟨⟨toPacketLen (RpcByNamePacket.sizeof - sizeofBuffer + (vs.flatMap Value.encode).length),
    packetIdRpcByName, 0⟩, (Block.fill _ 0).write 0 _ hin, (Block.fill _ 0).write 0 _ hin'⟩, ?_, ?_, ?_⟩
  · rw [fillRpcPacket, initPacket, write?_eq hin, Option.bind_some, emits_fillPacket hargs _ _ (Nat.zero_le _),
      writeBytes, write?_eq hin', Option.map_some, Option.map_some, Nat.zero_add]
  · rw [hlen, rpcImage_length hname]
  · dsimp only
    rw [hlen, RpcByNamePacket.bytes]
    refine (PacketBase.take_append _ _ _ _).trans ?_
    rw [write_fill, write_fill, List.take_left' rfl]
    rfl

/-- A call sends its image to the handler. -/
theorem callRemoteFunc_eq (hh : client.handler = some handler) (hvalid : handler ≠ invalidSocketIndex)
    (hargs : List.Forall₂ Param.Holds args vs) (hname : funcName.length ≤ sizeofRpcName)
    (hsize : (vs.flatMap Value.encode).length ≤ sizeofBuffer) :
    client.callRemoteFunc funcName args = some [⟨handler, rpcImage funcName vs⟩] := by
  obtain ⟨packet, hfill, hlen, hbytes⟩ := fillRpcPacket_image hargs hname hsize
  have hin : packet.len ≤ packet.bytes.length := by
    rw [packet.bytes_length, hlen, rpcImage_length hname, RpcByNamePacket.sizeof]
    omega
  rw [callRemoteFunc, hfill, Option.bind_some, hh, Option.bind_some, sendPacket, if_pos hvalid, if_pos hin, hbytes]

/-- **A transfer call** sends the packet of the call to the handler, or leaves its buffers. -/
theorem callTransferFunc_eq (hh : client.handler = some handler) (hvalid : handler ≠ invalidSocketIndex)
    (hargs : List.Forall₂ Param.Holds args vs) (hname : funcName.length ≤ sizeofRpcName)
    (hsize : (rpcImage funcName vs).length ≤ sizeofBuffer) : client.callTransferFunc clientId funcName args =
      some [⟨handler, transferImage clientId (rpcImage funcName vs)⟩] := by
  have hsize' := hsize
  rw [rpcImage_length hname] at hsize'
  obtain ⟨packet, hfill, hlen, hbytes⟩ := fillRpcPacket_image hargs hname (by omega)
  have hin : packet.len ≤ packet.bytes.length := by
    rw [packet.bytes_length, hlen, rpcImage_length hname, RpcByNamePacket.sizeof]
    omega
  obtain ⟨sent, hsent, hall⟩ := @sendTransferPacket_eq_some client handler hh clientId _ _ hin (hlen ▸ hsize)
  rw [callTransferFunc, hfill, Option.bind_some, hsent]
  obtain ⟨bytes, rfl⟩ : ∃ bytes, sent = [⟨handler, bytes⟩] := by
    simp only [sendTransferPacket, if_pos hin, hh, Option.bind_some, Option.bind_eq_some_iff, sendPacket, if_pos hvalid,
      Option.ite_none_right_eq_some, Option.some.injEq] at hsent
    obtain ⟨_, _, _, hsent⟩ := hsent
    exact ⟨_, hsent.symm⟩
  have hbuffer := hall _ (List.mem_singleton_self _)
  dsimp only at hbuffer
  rw [hbuffer, hbytes]

theorem callTransferFunc_eq_none (hargs : List.Forall₂ Param.Holds args vs) (hname : funcName.length ≤ sizeofRpcName)
    (hsize : sizeofBuffer < (rpcImage funcName vs).length) : client.callTransferFunc clientId funcName args = none := by
  rw [callTransferFunc]
  by_cases hfit : (vs.flatMap Value.encode).length ≤ sizeofBuffer
  · obtain ⟨packet, hfill, hlen, _⟩ := fillRpcPacket_image hargs hname hfit
    rw [hfill, Option.bind_some, sendTransferPacket_eq_none (hlen ▸ hsize)]
  · rw [fillRpcPacket_eq_none hargs fun h => hfit h.2]
    rfl

/-- A null handler is read. -/
theorem callTransferFunc_of_handler_none (hh : client.handler = none) :
    client.callTransferFunc clientId funcName args = none := by
  rw [callTransferFunc, Option.bind_eq_none_iff]
  intro packet _
  rw [sendTransferPacket]
  split
  · rw [Option.bind_eq_none_iff]
    intro buffer _
    rw [hh, Option.bind_none]
  · rfl

end RpcClient

/-! ## What a body holds -/

/-- Every count in the value fits its two bytes. -/
def Value.Counted : Value → Prop
  | .pod _                   => True
  | .dynamicString bs        => bs.length < 65536
  | .dynamicStringArray vs   => vs.length < 65536 ∧ ∀ bs ∈ vs, bs.length < 65536
  | .dynamicStringArray2 vss => vss.length < 65536 ∧ ∀ vs ∈ vss, vs.length < 65536 ∧ ∀ bs ∈ vs, bs.length < 65536
  | .dynamicArray vs         => vs.length < 65536

theorem Value.Pushable.counted {v : Value} (h : v.Pushable) : v.Counted := by
  cases v with
  | pod _ => trivial
  | dynamicString _ => exact Nat.lt_of_le_of_lt h (by decide)
  | dynamicStringArray _ =>
      exact ⟨Nat.lt_of_le_of_lt h.1 (by decide), fun bs hbs => Nat.lt_of_le_of_lt (h.2 bs hbs) (by decide)⟩
  | dynamicStringArray2 _ =>
      refine ⟨Nat.lt_of_le_of_lt h.1 (by decide), fun vs hvs => ⟨Nat.lt_of_le_of_lt (h.2 vs hvs).1 (by decide), ?_⟩⟩
      exact fun bs hbs => Nat.lt_of_le_of_lt ((h.2 vs hvs).2 bs hbs) (by decide)
  | dynamicArray _ => exact Nat.lt_of_le_of_lt h (by decide)

theorem prefixFree_cells (size : Nat) : PrefixFree (Block.cells : Pod size → List UInt8) fun _ => True :=
  .of_length (fun x _ => x.size_eq) fun x y _ _ h => by
    cases x
    cases y
    cases h
    rfl

theorem prefixFree_encodeString : PrefixFree Value.encodeString fun bs => bs.length < 65536 := by
  intro bs cs s t hbs hcs h
  rw [Value.encodeString, Value.encodeString, List.append_assoc, List.append_assoc] at h
  obtain ⟨hcount, h⟩ := List.append_inj h (by rw [leBytes_length, leBytes_length])
  have hlen := congrArg ofLe hcount
  rw [ofLe_leBytes_of_lt hbs, ofLe_leBytes_of_lt hcs] at hlen
  exact List.append_inj h hlen

theorem prefixFree_encode (x : ParamType) : PrefixFree Value.encode fun v => v.type = x ∧ v.Counted := by
  rintro v w s t ⟨rfl, hv⟩ ⟨htype, hw⟩ h
  cases v with
  | pod x =>
      obtain ⟨y, rfl⟩ := Value.type_eq_pod.mp htype
      obtain ⟨rfl, hst⟩ := prefixFree_cells _ trivial trivial h
      exact ⟨rfl, hst⟩
  | dynamicString bs =>
      obtain ⟨cs, rfl⟩ := Value.type_eq_dynamicString.mp htype
      obtain ⟨rfl, hst⟩ := prefixFree_encodeString hv hw h
      exact ⟨rfl, hst⟩
  | dynamicStringArray vs =>
      cases w with
      | dynamicStringArray ws =>
          obtain ⟨rfl, hst⟩ := prefixFree_encodeString.counted hv hw h
          exact ⟨rfl, hst⟩
      | _ => cases htype
  | dynamicStringArray2 vss =>
      cases w with
      | dynamicStringArray2 wss =>
          obtain ⟨rfl, hst⟩ := prefixFree_encodeString.counted.counted hv hw h
          exact ⟨rfl, hst⟩
      | _ => cases htype
  | dynamicArray vs =>
      obtain ⟨ws, rfl⟩ := Value.type_eq_dynamicArray.mp htype
      obtain ⟨rfl, hst⟩ := (prefixFree_cells _).counted ⟨hv, fun _ _ => trivial⟩ ⟨hw, fun _ _ => trivial⟩ h
      exact ⟨rfl, hst⟩

/-- **A body holds one list of arguments** of given types. -/
theorem hasArgs_unique {n i : Nat} {b : Block UInt8 n} {types : List ParamType} {vs ws : List Value}
    (h : HasArgs b i types vs) (htypes : ws.map Value.type = types) (hcounted : ∀ w ∈ ws, w.Counted)
    (hhas : b.Has i (ws.flatMap Value.encode)) : vs = ws := by
  obtain ⟨htypes', hpush, hhas'⟩ := h
  have hsplit : ∀ {bs : List UInt8}, b.Has i bs → b.cells.drop i = bs ++ b.cells.drop (i + bs.length) := by
    intro bs hbs
    conv => lhs; rw [← List.take_append_drop bs.length (b.cells.drop i)]
    rw [List.drop_drop]
    exact congrArg (· ++ _) hbs.2
  exact (PrefixFree.flatMap prefixFree_encode (fun v hv => (hpush v hv).counted) hcounted (htypes'.trans htypes.symm)
    ((hsplit hhas').symm.trans (hsplit hhas))).1

end Mowang
