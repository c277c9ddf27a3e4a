import Mowang.Share.PacketHandler

/-!
# `Game.GamePacketHandler` — dispatch on a game process

`game_packet_handler` adds one handler to the base four: a transfer packet carries a client's packet in
its `m_buffer`, and the inner rpc goes to the entity bound to the client, or, if none is, to the login
of a new account.

## Contents
- `handleTransferPacket`, `setupHandlers`, `handlePacket`.
- `handlePacket_contained_iff` — the dispatch stays inside a packet exactly if the packet is complete.
-/

namespace Mowang

open LittleEndian Block

/-- `INVALID_ENTITY_ID`. -/
def invalidEntityId : EntityId := 0

/-- What the dispatch of a game process reads. `login` is the call at the end of
    `handle_transfer_packet`: a new account for the client logs in. -/
structure GameDispatch (R : Type) where
  stub : RpcProxy R
  entity : RpcEntity R
  client2Entity : List (SocketIndex × EntityId)
  login : (gateId : ProcessId) → (clientId : SocketIndex) → (platformId : Pod 1) →
    (userId token : DynamicString) → R

namespace GameDispatch

variable {R : Type} {n : Nat}

/-- `get_entity_id_by_client_id`. -/
def getEntityIdByClientId (g : GameDispatch R) (clientId : SocketIndex) : EntityId :=
  (g.client2Entity.lookup clientId).getD invalidEntityId

/-- `func_name.find("login") != npos`. -/
def findLogin (funcName : FuncName) : Bool :=
  funcName.tails.any fun rest => [0x6c, 0x6f, 0x67, 0x69, 0x6e].isPrefixOf rest

/-- The parameters of a login, and the login. -/
def parseLogin (g : GameDispatch R) (clientId : SocketIndex) (packet : Block UInt8 n) (buffer : Nat) :
    Option (Option R) :=
  let gateId := clientId / 2 ^ 40 % 65536
  (packet.readBlock 1 buffer).bind fun (platformId, i) =>
  (parseString packet DynamicString.mk' i).bind fun (userId, i) =>
  (parseString packet DynamicString.mk' i).bind fun (token, _) =>
  some (some (g.login gateId clientId platformId userId token))

/-- `transfer_info->m_client_id`, and `transfer_info->m_buffer` as a `packet_base*`. -/
def transferInfo (packet : Block UInt8 n) : Option (SocketIndex × Nat) :=
  (packet.readBlock 8 TransferEntityPacket.offsetClientId).map fun (clientId, _) =>
  (ofLe clientId.cells, TransferEntityPacket.offsetBuffer)

/-- `handle_transfer_packet`. The inner packet's own `m_len` is not read. -/
def handleTransferPacket (g : GameDispatch R) (packet : Block UInt8 n) : Option (Option R) :=
  (transferInfo packet).bind fun (clientId, transferPacket) =>
  (packet.readCell (transferPacket + offsetId)).bind fun (packetId, _) =>
  if packetId = packetIdRpcByName then
    let rpcName := transferPacket + RpcByNamePacket.offsetRpcName
    let buffer := transferPacket + RpcByNamePacket.offsetBuffer
    let entityId := g.getEntityIdByClientId clientId
    if entityId ≠ invalidEntityId then
      (packet.readCStr rpcName).bind fun funcName => g.entity.call entityId funcName packet buffer
    else
      (packet.readCStr rpcName).bind fun funcName =>
      if findLogin funcName then g.parseLogin clientId packet buffer else some none
  else some none

/-- `setup_handlers`. -/
def setupHandlers (g : GameDispatch R) (socketIndex : SocketIndex) : PacketHandlerMap n R :=
  registerHandler (Mowang.setupHandlers g.stub g.entity socketIndex) packetIdTransferPacket
    g.handleTransferPacket

/-- The whole dispatch of one packet. -/
def handlePacket (g : GameDispatch R) (socketIndex : SocketIndex) (packet : Block UInt8 n) :
    Option (Option R) :=
  handle (g.setupHandlers socketIndex) packet

/-! ## When the dispatch stays inside the packet -/

section Contained

variable {g : GameDispatch R} {socketIndex : SocketIndex} {packet : Block UInt8 n}

/-- What an inner rpc needs, given the entity its client is bound to. -/
def TransferArgsAt (g : GameDispatch R) (packet : Block UInt8 n) (clientId : SocketIndex)
    (funcName : FuncName) : Prop :=
  let buffer := TransferEntityPacket.offsetBuffer + RpcByNamePacket.offsetBuffer
  if g.getEntityIdByClientId clientId ≠ invalidEntityId then
    ArgsAt packet buffer (g.entity.argsType (g.getEntityIdByClientId clientId) funcName)
  else
    findLogin funcName →
      buffer ≤ n ∧ ∃ vs, HasArgs packet buffer [.pod 1, .dynamicString, .dynamicString] vs

theorem parseLogin_contained {clientId : SocketIndex} {buffer : Nat} :
    Contained (g.parseLogin clientId packet buffer) (buffer ≤ n) ↔
      buffer ≤ n ∧ ∃ vs, HasArgs packet buffer [.pod 1, .dynamicString, .dynamicString] vs := by
  unfold parseLogin
  constructor
  · rintro ⟨o, ho, hle⟩
    obtain ⟨⟨platformId, i⟩, hplatform, ho⟩ := Option.bind_eq_some_iff.mp ho
    obtain ⟨⟨userId, j⟩, huser, ho⟩ := Option.bind_eq_some_iff.mp ho
    obtain ⟨⟨token, k⟩, htoken, ho⟩ := Option.bind_eq_some_iff.mp ho
    cases ho
    obtain ⟨h₁, rfl⟩ := readBlock_eq_some.mp hplatform
    have hin : buffer + 1 ≤ n := by
      have hsize := h₁.1
      rwa [platformId.size_eq] at hsize
    obtain ⟨us, _, hus, h₂, rfl⟩ := (decodes_parseString packet).sound hin huser
    obtain ⟨ts, _, hts, h₃, rfl⟩ := (decodes_parseString packet).sound h₂.1 htoken
    refine ⟨hle rfl, [.pod platformId, .dynamicString us, .dynamicString ts], rfl, ?_, ?_⟩
    · simp [Value.Pushable, hus, hts]
    · have hpod : platformId.cells.length = 1 := platformId.size_eq
      simp only [List.flatMap_cons, List.flatMap_nil, List.append_nil, Value.encode]
      exact has_append.mpr ⟨h₁, has_append.mpr ⟨by rw [hpod]; exact h₂, by rw [hpod]; exact h₃⟩⟩
  · rintro ⟨hle, vs, htypes, hpush, hhas⟩
    obtain ⟨v₁, vs, rfl, ht₁, htypes⟩ := List.map_eq_cons_iff.mp htypes
    obtain ⟨v₂, vs, rfl, ht₂, htypes₂⟩ := List.map_eq_cons_iff.mp htypes
    obtain ⟨v₃, vs, rfl, ht₃, htypes₃⟩ := List.map_eq_cons_iff.mp htypes₂
    obtain ⟨platformId, rfl⟩ := Value.type_eq_pod.mp ht₁
    obtain ⟨us, rfl⟩ := Value.type_eq_dynamicString.mp ht₂
    obtain ⟨ts, rfl⟩ := Value.type_eq_dynamicString.mp ht₃
    obtain rfl := List.map_eq_nil_iff.mp htypes₃
    simp only [List.flatMap_cons, List.flatMap_nil, List.append_nil, Value.encode] at hhas
    obtain ⟨h₁, hhas⟩ := has_append.mp hhas
    obtain ⟨h₂, h₃⟩ := has_append.mp hhas
    have hplatform : packet.readBlock 1 buffer = some (platformId, buffer + platformId.cells.length) :=
      readBlock_eq_some.mpr ⟨h₁, by rw [platformId.size_eq]⟩
    obtain ⟨userId, huser, _⟩ := (decodes_parseString packet).complete h₂
      (hpush (.dynamicString us) (by simp))
    obtain ⟨token, htoken, _⟩ := (decodes_parseString packet).complete h₃
      (hpush (.dynamicString ts) (by simp))
    rw [hplatform]
    simp only [Option.bind_some, huser, htoken]
    exact ⟨_, rfl, fun _ => hle⟩

theorem handleTransferPacket_contained :
    Contained (g.handleTransferPacket packet)
        (TransferEntityPacket.offsetBuffer + RpcByNamePacket.offsetBuffer ≤ n) ↔
      ∃ clientId : Pod 8, packet.Has TransferEntityPacket.offsetClientId clientId.cells ∧
        ∃ packetId, packet.Has (TransferEntityPacket.offsetBuffer + offsetId) [packetId] ∧
          (packetId = packetIdRpcByName →
            ∃ funcName, NameAt packet
                (TransferEntityPacket.offsetBuffer + RpcByNamePacket.offsetRpcName) funcName ∧
              g.TransferArgsAt packet (ofLe clientId.cells) funcName) := by
  unfold handleTransferPacket transferInfo
  rw [Option.bind_map]
  refine contained_readBlock.trans (exists_congr fun clientId => and_congr_right fun _ => ?_)
  refine contained_readCell.trans (exists_congr fun packetId => and_congr_right fun _ => ?_)
  by_cases hid : packetId = packetIdRpcByName
  · simp only [hid, forall_const]
    unfold TransferArgsAt
    by_cases hent : g.getEntityIdByClientId (ofLe clientId.cells) ≠ invalidEntityId
    · simp only [if_pos hent]
      refine contained_readCStr.trans (exists_congr fun funcName => and_congr_right fun _ => ?_)
      exact RpcEntity.call_contained
    · simp only [if_neg hent]
      refine contained_readCStr.trans (exists_congr fun funcName => and_congr_right fun _ => ?_)
      by_cases hlogin : findLogin funcName
      · simp only [hlogin, forall_const]
        exact parseLogin_contained
      · simp [hlogin, contained_none]
  · simp [hid, contained_none]

/-- Everything the dispatch of the packet reads lies inside it: the fields of the header its id calls
    for, the name up to its terminator, and, where a function is found, the arguments it takes. -/
inductive Complete (g : GameDispatch R) (packet : Block UInt8 n) : UInt8 → Prop
  | rpcByIndex (rpcIndex : UInt8) :
      packet.Has RpcByIndexPacket.offsetRpcIndex [rpcIndex] →
      ArgsAt packet RpcByIndexPacket.offsetBuffer
        ((g.stub.index2Name.lookup rpcIndex).bind g.stub.argsTypeWithIndex) →
      Complete g packet packetIdRpcByIndex
  | rpcByName (rpcName : FuncName) :
      NameAt packet RpcByNamePacket.offsetRpcName rpcName →
      ArgsAt packet RpcByNamePacket.offsetBuffer (g.stub.argsTypeWithIndex rpcName) →
      Complete g packet packetIdRpcByName
  | entityRpcByIndex (entityId : Pod 8) (rpcIndex : UInt8) :
      packet.Has EntityRpcByIndexPacket.offsetEntityId entityId.cells →
      packet.Has EntityRpcByIndexPacket.offsetRpcIndex [rpcIndex] →
      ArgsAt packet EntityRpcByIndexPacket.offsetBuffer
        (g.entity.argsTypeIndex (ofLe entityId.cells) rpcIndex) →
      Complete g packet packetIdEntityRpcByIndex
  | entityRpcByName (entityId : Pod 8) (rpcName : FuncName) :
      packet.Has EntityRpcByNamePacket.offsetEntityId entityId.cells →
      NameAt packet EntityRpcByNamePacket.offsetRpcName rpcName →
      ArgsAt packet EntityRpcByNamePacket.offsetBuffer
        (g.entity.argsType (ofLe entityId.cells) rpcName) →
      Complete g packet packetIdEntityRpcByName
  | transfer (clientId : Pod 8) (packetId : UInt8) :
      packet.Has TransferEntityPacket.offsetClientId clientId.cells →
      packet.Has (TransferEntityPacket.offsetBuffer + offsetId) [packetId] →
      (packetId = packetIdRpcByName →
        ∃ funcName, NameAt packet
            (TransferEntityPacket.offsetBuffer + RpcByNamePacket.offsetRpcName) funcName ∧
          g.TransferArgsAt packet (ofLe clientId.cells) funcName) →
      Complete g packet packetIdTransferPacket
  | unknown (id : UInt8) :
      id ≠ packetIdRpcByIndex → id ≠ packetIdRpcByName → id ≠ packetIdEntityRpcByIndex →
      id ≠ packetIdEntityRpcByName → id ≠ packetIdTransferPacket → Complete g packet id

/-- Where the parameters of a packet with this id begin. -/
def offsetParams (id : UInt8) : Nat :=
  if id = packetIdRpcByIndex then RpcByIndexPacket.offsetBuffer
  else if id = packetIdRpcByName then RpcByNamePacket.offsetBuffer
  else if id = packetIdEntityRpcByIndex then EntityRpcByIndexPacket.offsetBuffer
  else if id = packetIdEntityRpcByName then EntityRpcByNamePacket.offsetBuffer
  else TransferEntityPacket.offsetBuffer + RpcByNamePacket.offsetBuffer

/-- **Dispatch.** No length is ever compared, so the dispatch reads inside the declared length, and
    invokes a function only if its parameters begin inside, exactly when the packet is complete. -/
theorem handlePacket_contained_iff (g : GameDispatch R) (socketIndex : SocketIndex)
    (packet : Block UInt8 n) (id : UInt8) (hid : packet.Has offsetId [id]) :
    Contained (g.handlePacket socketIndex packet) (offsetParams id ≤ n) ↔ g.Complete packet id := by
  rw [handlePacket, handle, readCell_eq_some.mpr ⟨hid, rfl⟩]
  by_cases h₁ : id = packetIdRpcByIndex
  · subst h₁
    refine handleRpcByIndex_contained.trans ⟨?_, ?_⟩
    · rintro ⟨rpcIndex, hindex, hargs⟩
      exact .rpcByIndex rpcIndex hindex hargs
    · intro h
      cases h with
      | rpcByIndex rpcIndex hindex hargs => exact ⟨rpcIndex, hindex, hargs⟩
      | unknown _ h => exact absurd rfl h
  by_cases h₂ : id = packetIdRpcByName
  · subst h₂
    refine handleRpcByName_contained.trans ⟨?_, ?_⟩
    · rintro ⟨rpcName, hname, hargs⟩
      exact .rpcByName rpcName hname hargs
    · intro h
      cases h with
      | rpcByName rpcName hname hargs => exact ⟨rpcName, hname, hargs⟩
      | unknown _ _ h => exact absurd rfl h
  by_cases h₃ : id = packetIdEntityRpcByIndex
  · subst h₃
    refine handleEntityRpcByIndex_contained.trans ⟨?_, ?_⟩
    · rintro ⟨entityId, hentity, rpcIndex, hindex, hargs⟩
      exact .entityRpcByIndex entityId rpcIndex hentity hindex hargs
    · intro h
      cases h with
      | entityRpcByIndex entityId rpcIndex hentity hindex hargs =>
          exact ⟨entityId, hentity, rpcIndex, hindex, hargs⟩
      | unknown _ _ _ h => exact absurd rfl h
  by_cases h₄ : id = packetIdEntityRpcByName
  · subst h₄
    refine handleEntityRpcByName_contained.trans ⟨?_, ?_⟩
    · rintro ⟨entityId, hentity, rpcName, hname, hargs⟩
      exact .entityRpcByName entityId rpcName hentity hname hargs
    · intro h
      cases h with
      | entityRpcByName entityId rpcName hentity hname hargs =>
          exact ⟨entityId, hentity, rpcName, hname, hargs⟩
      | unknown _ _ _ _ h => exact absurd rfl h
  by_cases h₅ : id = packetIdTransferPacket
  · subst h₅
    refine handleTransferPacket_contained.trans ⟨?_, ?_⟩
    · rintro ⟨clientId, hclient, packetId, hinner, hcall⟩
      exact .transfer clientId packetId hclient hinner hcall
    · intro h
      cases h with
      | transfer clientId packetId hclient hinner hcall =>
          exact ⟨clientId, hclient, packetId, hinner, hcall⟩
      | unknown _ _ _ _ _ h => exact absurd rfl h
  · have hnone : (g.setupHandlers (n := n) socketIndex).lookup id = none := by
      simp only [setupHandlers, Mowang.setupHandlers, registerHandler, List.lookup_cons, List.lookup_nil,
        beq_eq_false_iff_ne.mpr h₁, beq_eq_false_iff_ne.mpr h₂, beq_eq_false_iff_ne.mpr h₃,
        beq_eq_false_iff_ne.mpr h₄, beq_eq_false_iff_ne.mpr h₅]
    simp only [Option.bind_some, hnone]
    exact iff_of_true contained_none (.unknown id h₁ h₂ h₃ h₄ h₅)

/-- An entity with a function `a` of a number and a string, bound to client 5. -/
def oneFunction : GameDispatch (List Param) where
  stub := .init
  entity := [(1, RpcProxy.init.registerFunc [0x61] ⟨2, [.pod 2, .dynamicString], id, rfl⟩)]
  client2Entity := [(5, 1)]
  login _ _ platformId userId token := [.pod platformId, .dynamicString userId, .dynamicString token]

/-- A call of it with 500 and `hi`, in a transfer packet of that client. -/
def functionPacket : List UInt8 :=
  [128, 0, 0x86, 0, 0, 0, 0, 5, 0, 0, 0, 0, 0, 0, 0] ++ ([113, 0, 0x66, 0, 0, 0, 0] ++
    (0x61 :: List.replicate 99 0) ++ [0xf4, 1, 2, 0, 104, 105])

theorem handlePacket_contained_function :
    Contained (oneFunction.handlePacket 0 (⟨functionPacket, rfl⟩ : Block UInt8 128)) (offsetParams 0x86 ≤ 128) := by
  apply (handlePacket_contained_iff _ 0 _ 0x86 ⟨by decide, rfl⟩).mpr
  refine .transfer (Pod.ofNat 8 5) packetIdRpcByName ⟨by decide, rfl⟩ ⟨by decide, rfl⟩ fun _ => ?_
  refine ⟨[0x61], ⟨by decide, by decide, rfl⟩, ?_⟩
  intro types htypes
  cases htypes
  refine ⟨by decide, [.pod (Pod.ofNat 2 500), .dynamicString [104, 105]], rfl, ?_, by decide, rfl⟩
  simp [Value.Pushable]

/-- A packet that ends with its header: the name is read past its end. -/
theorem handlePacket_past_header :
    ¬ Contained ((⟨.init, [], [], fun _ _ _ _ _ => ()⟩ : GameDispatch Unit).handlePacket 0
      (⟨[7, 0, 0x66, 0, 0, 0, 0], rfl⟩ : Block UInt8 7)) (offsetParams 0x66 ≤ 7) := by
  rintro ⟨o, ho, _⟩
  cases ho

end Contained

end GameDispatch

end Mowang
