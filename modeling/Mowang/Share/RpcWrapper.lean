import Mowang.Base.Lists
import Mowang.Base.Run
import Mowang.Share.RpcClient
import Mathlib.Logic.Function.Basic

/-!
# `Share.RpcWrapper` — `rpc_wrapper`, and the entity calls of one connection

`call_entity` finds the `rpc_client` of an address in `m_directly_games`, or puts one there that has no
handler yet and asks for a connection. Such a client caches its packets. `register_handler_info` runs when
a connection is up: it gives the client of the remote address its handler and flushes the cache.

A client is a raw pointer that `unregister_handler_info` deletes; `clients` holds those that live, and a
step through any other has no result. Connections come and go as they like, and so do the addresses their
servers register.

## Contents
- `RpcWrapper` and its functions, `WrapperLabel`, `RpcWrapper.step`.
- `RpcWrapper.Sound`, what holds in every run.
- `entity_calls_in_order` — what a connection was given is what was called through its client.
-/

namespace Mowang

/-- `game_process_type`. -/
inductive ProcessType
  | gate | game | db | httpClient | robot
  deriving DecidableEq

/-- An ip and a port. -/
structure Host where
  ip : List Char
  port : Nat
  deriving DecidableEq

abbrev AddressKey := List Char

/-- `gx_to_string("%s%d", ip, port)`. -/
def Host.key (h : Host) : AddressKey := h.ip ++ Nat.toDigits 10 h.port

namespace RpcClient

/-- `DRpcCreateEntityPacket`, `fill_packet`, and the `m_len` that `send_entity_packet` stores. -/
def fillEntityPacket (entityId : EntityId) (funcName : List UInt8) (args : List Param) :
    Option EntityRpcByNamePacket :=
  (initPacket (Block.fill _ 0) funcName).bind fun rpcName =>
  (fillPacket args (Block.fill sizeofBuffer 0) 0).map fun (buffer, len) =>
  { len := toPacketLen (EntityRpcByNamePacket.sizeof - sizeofBuffer + len), id := packetIdEntityRpcByName,
    check := 0, entityId := Pod.ofNat 8 entityId, rpcName := rpcName, buffer := buffer }

/-- `send_entity_packet`. -/
def sendEntityPacket (client : RpcClient) (packet : EntityRpcByNamePacket) :
    Option (RpcClient × List PacketSendInfo) :=
  match client.handler with
  | some handler => (sendPacket handler packet.bytes packet.len).map fun sent => (client, sent)
  | none         => some ({ client with cachePackets := client.cachePackets ++ [packet] }, [])

theorem callEntity_eq (client : RpcClient) (entityId : EntityId) (funcName : List UInt8)
    (args : List Param) : client.callEntity entityId funcName args =
      (fillEntityPacket entityId funcName args).bind client.sendEntityPacket := by
  unfold callEntity fillEntityPacket
  cases initPacket (Block.fill _ 0) funcName with
  | none => rfl
  | some rpcName =>
      rw [Option.bind_some, Option.bind_some]
      cases fillPacket args (Block.fill sizeofBuffer 0) 0 <;> rfl

end RpcClient

structure RpcWrapper where
  /-- The process type of `m_service`. -/
  processType : ProcessType
  /-- `m_directly_games`, in the order of its keys. -/
  directlyGames : List (AddressKey × Nat) := []
  socketIndex2Client : SocketIndex → Option Nat := fun _ => none
  /-- The `rpc_client`s that live. -/
  clients : Nat → Option RpcClient := fun _ => none
  /-- The next `new rpc_client`. -/
  newClient : Nat := 0
  /-- What handlers passed to the service. -/
  sent : List PacketSendInfo := []
  -- the rest is read by the theorems only
  /-- The entity calls made, and the clients they went through. -/
  calls : List (Nat × EntityRpcByNamePacket) := []
  opened : List SocketIndex := []
  /-- The addresses a connection goes by: the remote one, and those its server registered. -/
  addresses : SocketIndex → List AddressKey := fun _ => []

namespace RpcWrapper

def init (processType : ProcessType) : RpcWrapper := { processType := processType }

/-- Insertion into a map with ordered keys. -/
def insertKey (key : AddressKey) (c : Nat) : List (AddressKey × Nat) → List (AddressKey × Nat)
  | []           => [(key, c)]
  | entry :: rest => if key < entry.1 then (key, c) :: entry :: rest else entry :: insertKey key c rest

/-- `new rpc_client`. -/
def create (w : RpcWrapper) (client : RpcClient) : RpcWrapper :=
  { w with clients := Function.update w.clients w.newClient (some client), newClient := w.newClient + 1 }

/-- What a method of the client at `c` leaves there, and the packets it sent. -/
def setClient (w : RpcWrapper) (c : Nat) (client : RpcClient) (infos : List PacketSendInfo) : RpcWrapper :=
  { w with clients := Function.update w.clients c (some client), sent := w.sent ++ infos }

/-- `get_client_by_address`. -/
def getClientByAddress (w : RpcWrapper) (key : AddressKey) : RpcWrapper × Nat :=
  match w.directlyGames.lookup key with
  | some c => (w, c)
  | none   =>
    ({ w.create ⟨none, []⟩ with directlyGames := insertKey key w.newClient w.directlyGames }, w.newClient)

/-- `call_entity`. -/
def callEntity (w : RpcWrapper) (host : Host) (entityId : EntityId) (funcName : List UInt8)
    (args : List Param) : Option RpcWrapper :=
  let (w, c) := w.getClientByAddress host.key
  (w.clients c).bind fun client =>
  (RpcClient.fillEntityPacket entityId funcName args).bind fun packet =>
  (client.sendEntityPacket packet).map fun (client, infos) =>
  { w.setClient c client infos with calls := w.calls ++ [(c, packet)] }

/-- `register_handler_info`. -/
def registerHandlerInfo (w : RpcWrapper) (s : SocketIndex) (key : AddressKey) : Option RpcWrapper :=
  match w.directlyGames.lookup key with
  | none   => some { w.create ⟨some s, []⟩ with
      socketIndex2Client := Function.update w.socketIndex2Client s (some w.newClient) }
  | some c =>
    (w.clients c).bind fun client =>
    ({ client with handler := some s } : RpcClient).processCachePackets.map fun (client, infos) =>
    { w.setClient c client infos with
      socketIndex2Client := Function.update w.socketIndex2Client s (some c) }

/-- `update_handler_info`. -/
def updateHandlerInfo (w : RpcWrapper) (s : SocketIndex) (processType : ProcessType) (key : AddressKey) :
    RpcWrapper :=
  match w.socketIndex2Client s with
  | none   => w
  | some c =>
    if w.processType = .game ∧ processType = .game then
      match w.directlyGames.lookup key with
      | none   => { w with directlyGames := insertKey key c w.directlyGames }
      | some _ => w
    else w

/-- The first loop of `unregister_handler_info`: the first entry whose client has the handler goes. -/
def eraseHandler (w : RpcWrapper) (s : SocketIndex) :
    List (AddressKey × Nat) → Option (List (AddressKey × Nat))
  | []             => some []
  | (key, c) :: rest =>
    (w.clients c).bind fun client =>
    if client.handler = some s then some rest else (w.eraseHandler s rest).map ((key, c) :: ·)

/-- `unregister_handler_info`. -/
def unregisterHandlerInfo (w : RpcWrapper) (s : SocketIndex) : Option RpcWrapper :=
  (w.eraseHandler s w.directlyGames).bind fun directlyGames =>
  match w.socketIndex2Client s with
  | none   => some { w with directlyGames := directlyGames }
  | some c =>
    (w.clients c).map fun _ =>
    { w with
      directlyGames := directlyGames
      clients := Function.update w.clients c none
      socketIndex2Client := Function.update w.socketIndex2Client s none }

end RpcWrapper

/-- What happens on the logic thread: `call_entity`, a connection's `handle_init`, its server's
    `register_server`, its `handle_close`. -/
inductive WrapperLabel
  | call (host : Host) (entityId : EntityId) (funcName : List UInt8) (args : List Param)
  | handleInit (s : SocketIndex) (remote : Host)
  | registerServer (s : SocketIndex) (processType : ProcessType) (host : Host)
  | handleClose (s : SocketIndex)

namespace RpcWrapper

/-- One step. A socket index is valid, and used for one connection only. -/
def step (w : RpcWrapper) : WrapperLabel → Option RpcWrapper
  | .call host entityId funcName args => w.callEntity host entityId funcName args
  | .handleInit s remote =>
    if s ≠ invalidSocketIndex ∧ s ∉ w.opened then
      (w.registerHandlerInfo s remote.key).map fun w =>
      { w with opened := s :: w.opened, addresses := Function.update w.addresses s [remote.key] }
    else none
  | .registerServer s processType host =>
    some { w.updateHandlerInfo s processType host.key with
      addresses := Function.update w.addresses s (host.key :: w.addresses s) }
  | .handleClose s => w.unregisterHandlerInfo s

/-- The entity packets called through the client `c`, in order. -/
def callsThrough (w : RpcWrapper) (c : Nat) : List EntityRpcByNamePacket :=
  (w.calls.filter (·.1 = c)).map (·.2)

/-- The entity packets passed to `send_packet` of the connection `s`, in order. -/
def sentTo (w : RpcWrapper) (s : SocketIndex) : List PacketSendInfo :=
  w.sent.filter (·.socketIndex = s)

/-- `packet` as `s` sends it. -/
def image (s : SocketIndex) (packet : EntityRpcByNamePacket) : PacketSendInfo :=
  ⟨s, packet.bytes.take packet.len⟩

/-! ## Maps and single sends -/

theorem mem_insertKey {key : AddressKey} {c : Nat} {entries : List (AddressKey × Nat)}
    {entry : AddressKey × Nat} :
    entry ∈ insertKey key c entries ↔ entry = (key, c) ∨ entry ∈ entries := by
  induction entries with
  | nil => simp [insertKey]
  | cons e rest ih =>
      unfold insertKey
      split
      · simp
      · rw [List.mem_cons, ih, List.mem_cons]
        tauto

theorem mem_insertKey_of_ne {key key' : AddressKey} {c c' : Nat} {entries : List (AddressKey × Nat)}
    (hne : c' ≠ c) (h : (key', c') ∈ insertKey key c entries) : (key', c') ∈ entries := by
  rcases mem_insertKey.mp h with heq | h
  · cases heq
    exact absurd rfl hne
  · exact h

/-- What stands in a map after an insertion. -/
theorem update_some {α : Type} {f : Nat → Option α} {a b : Nat} {x y : α}
    (h : Function.update f a (some x) b = some y) : b = a ∧ y = x ∨ b ≠ a ∧ f b = some y := by
  by_cases hb : b = a
  · subst hb
    rw [Function.update_self] at h
    cases h
    exact .inl ⟨rfl, rfl⟩
  · rw [Function.update_of_ne hb] at h
    exact .inr ⟨hb, h⟩

/-- What stands in a map after a removal. -/
theorem update_none {α : Type} {f : Nat → Option α} {a b : Nat} {y : α}
    (h : Function.update f a none b = some y) : b ≠ a ∧ f b = some y := by
  by_cases hb : b = a
  · subst hb
    rw [Function.update_self] at h
    cases h
  · rw [Function.update_of_ne hb] at h
    exact ⟨hb, h⟩

theorem mem_of_eraseHandler {w : RpcWrapper} {s : SocketIndex} {entries entries' : List (AddressKey × Nat)}
    (h : w.eraseHandler s entries = some entries') {entry : AddressKey × Nat} (he : entry ∈ entries') :
    entry ∈ entries := by
  induction entries generalizing entries' with
  | nil =>
      cases h
      exact he
  | cons e rest ih =>
      simp only [eraseHandler, Option.bind_eq_some_iff] at h
      obtain ⟨client, _, h⟩ := h
      split at h
      · cases h
        exact List.mem_cons_of_mem e he
      · obtain ⟨rest', hrest, rfl⟩ := Option.map_eq_some_iff.mp h
        rcases List.mem_cons.mp he with rfl | he
        · exact List.mem_cons_self
        · exact List.mem_cons_of_mem e (ih hrest he)

/-- A valid handler passes the packet on. -/
theorem sendPacket_valid {s : SocketIndex} (hs : s ≠ invalidSocketIndex) {packet : EntityRpcByNamePacket}
    {infos : List PacketSendInfo} (h : sendPacket s packet.bytes packet.len = some infos) :
    infos = [image s packet] := by
  unfold sendPacket at h
  rw [if_pos hs] at h
  split at h
  · cases h
    rfl
  · cases h

/-- What `send_entity_packet` does: with a handler it sends, without it caches. -/
theorem sendEntityPacket_cases {client client' : RpcClient} {packet : EntityRpcByNamePacket}
    {infos : List PacketSendInfo} (hvalid : ∀ s, client.handler = some s → s ≠ invalidSocketIndex)
    (h : client.sendEntityPacket packet = some (client', infos)) :
    (∃ s, client.handler = some s ∧ client' = client ∧ infos = [image s packet]) ∨
    (client.handler = none ∧ infos = [] ∧
      client' = { client with cachePackets := client.cachePackets ++ [packet] }) := by
  unfold RpcClient.sendEntityPacket at h
  cases hh : client.handler with
  | some s =>
      rw [hh] at h
      obtain ⟨sent, hsent, heq⟩ := Option.map_eq_some_iff.mp h
      cases heq
      exact .inl ⟨s, rfl, rfl, sendPacket_valid (hvalid s hh) hsent⟩
  | none =>
      rw [hh] at h
      cases h
      exact .inr ⟨rfl, rfl, rfl⟩

theorem mapM_sendPacket {s : SocketIndex} (hs : s ≠ invalidSocketIndex)
    {cached : List EntityRpcByNamePacket} {sent : List (List PacketSendInfo)}
    (h : (cached.mapM fun packet => sendPacket s packet.bytes packet.len) = some sent) :
    sent.flatten = cached.map (image s) := by
  induction cached generalizing sent with
  | nil =>
      cases h
      rfl
  | cons packet cached ih =>
      simp only [List.mapM_cons, bind, Option.bind_eq_some_iff] at h
      obtain ⟨infos, hone, rest, hrest, heq⟩ := h
      cases heq
      rw [List.flatten_cons, ih hrest, sendPacket_valid hs hone]
      rfl

/-- The flush sends every cached packet once, in order, and empties the cache. -/
theorem processCachePackets_spec {client client' : RpcClient} {s : SocketIndex}
    {infos : List PacketSendInfo} (hs : s ≠ invalidSocketIndex)
    (h : ({ client with handler := some s } : RpcClient).processCachePackets = some (client', infos)) :
    client' = ⟨some s, []⟩ ∧ infos = client.cachePackets.map (image s) := by
  obtain ⟨sent, hsent, heq⟩ := Option.map_eq_some_iff.mp h
  cases heq
  exact ⟨rfl, mapM_sendPacket hs hsent⟩

/-! ## What holds in every run -/

/-- Which clients there are, and what they hold.

    A client without a handler is a placeholder: it stands under one key, and its cache is what was called
    through it. A client with a handler belongs to the connection of that handler, and every key it stands
    under is one by which some connection of it goes. -/
structure Sound (w : RpcWrapper) : Prop where
  clients_new : ∀ c client, w.clients c = some client → c < w.newClient
  direct_new : ∀ key c, (key, c) ∈ w.directlyGames → c < w.newClient
  calls_new : ∀ c packet, (c, packet) ∈ w.calls → c < w.newClient
  socket_new : ∀ s c, w.socketIndex2Client s = some c → c < w.newClient
  unopened : ∀ s, s ∉ w.opened → w.socketIndex2Client s = none ∧ w.sentTo s = []
  handler : ∀ c client s, w.clients c = some client → client.handler = some s →
    w.socketIndex2Client s = some c ∧ s ≠ invalidSocketIndex
  registered : ∀ s c client, w.socketIndex2Client s = some c → w.clients c = some client →
    client.handler ≠ none
  cached : ∀ c client, w.clients c = some client → client.handler = none →
    client.cachePackets = w.callsThrough c
  placeholder : ∀ c client key key', w.clients c = some client → client.handler = none →
    (key, c) ∈ w.directlyGames → (key', c) ∈ w.directlyGames → key = key'
  owned : ∀ key c client, (key, c) ∈ w.directlyGames → w.clients c = some client → client.handler ≠ none →
    ∃ s, w.socketIndex2Client s = some c ∧ key ∈ w.addresses s

/-- While `s` is open it has its client for itself, the cache is empty, and what it sent is what was
    called through the client. -/
def Delivered (s : SocketIndex) (w : RpcWrapper) : Prop :=
  ∀ c, w.socketIndex2Client s = some c →
    (∀ s', w.socketIndex2Client s' = some c → s' = s) ∧ w.clients c = some ⟨some s, []⟩ ∧
    w.sentTo s = (w.callsThrough c).map (image s)

/-- No connection is opened under an address that an open connection goes by, as far as `s` is one of the
    two. -/
def Exclusive (s : SocketIndex) (w : RpcWrapper) : WrapperLabel → Prop
  | .handleInit s₁ remote =>
    ∀ s₂ c, w.socketIndex2Client s₂ = some c → remote.key ∈ w.addresses s₂ → s₁ ≠ s ∧ s₂ ≠ s
  | _ => True

theorem sound_init (processType : ProcessType) : Sound (init processType) := by
  constructor <;> simp [init, sentTo]

theorem delivered_init (s : SocketIndex) (processType : ProcessType) : Delivered s (init processType) := by
  simp [Delivered, init]

/-! ## `call_entity` -/

theorem callsThrough_new {w : RpcWrapper} (hw : Sound w) {c : Nat} (hc : w.newClient ≤ c) :
    w.callsThrough c = [] := by
  unfold callsThrough
  rw [List.map_eq_nil_iff, List.filter_eq_nil_iff]
  rintro ⟨c', packet⟩ hmem
  have := hw.calls_new c' packet hmem
  simp only [decide_eq_true_eq]
  omega

/-- A placeholder under a key that has no client yet. -/
theorem sound_placeholder {w : RpcWrapper} (hw : Sound w) (key : AddressKey) :
    Sound { w.create ⟨none, []⟩ with directlyGames := insertKey key w.newClient w.directlyGames } where
  clients_new c client h := by
    rcases update_some h with ⟨rfl, rfl⟩ | ⟨_, h⟩
    · exact Nat.lt_succ_self _
    · exact Nat.lt_succ_of_lt (hw.clients_new c client h)
  direct_new key' c h := by
    rcases mem_insertKey.mp h with heq | h
    · cases heq
      exact Nat.lt_succ_self _
    · exact Nat.lt_succ_of_lt (hw.direct_new key' c h)
  calls_new c packet h := Nat.lt_succ_of_lt (hw.calls_new c packet h)
  socket_new s c h := Nat.lt_succ_of_lt (hw.socket_new s c h)
  unopened := hw.unopened
  handler c client s h hs := by
    rcases update_some h with ⟨rfl, rfl⟩ | ⟨_, h⟩
    · cases hs
    · exact hw.handler c client s h hs
  registered s c client hs h := by
    rcases update_some h with ⟨rfl, rfl⟩ | ⟨_, h⟩
    · exact absurd (hw.socket_new s _ hs) (Nat.lt_irrefl _)
    · exact hw.registered s c client hs h
  cached c client h hnone := by
    rcases update_some h with ⟨rfl, rfl⟩ | ⟨_, h⟩
    · exact (callsThrough_new hw (Nat.le_refl _)).symm
    · exact hw.cached c client h hnone
  placeholder c client k k' h hnone hk hk' := by
    rcases update_some h with ⟨rfl, rfl⟩ | ⟨hc, h⟩
    · -- the new client stands under the new key only
      have honly : ∀ k, (k, w.newClient) ∈ insertKey key w.newClient w.directlyGames → k = key := by
        intro k hk
        rcases mem_insertKey.mp hk with heq | hk
        · cases heq
          rfl
        · exact absurd (hw.direct_new k _ hk) (Nat.lt_irrefl _)
      rw [honly k hk, honly k' hk']
    · exact hw.placeholder c client k k' h hnone (mem_insertKey_of_ne hc hk) (mem_insertKey_of_ne hc hk')
  owned k c client hk h hsome := by
    rcases update_some h with ⟨rfl, rfl⟩ | ⟨hc, h⟩
    · exact absurd rfl hsome
    · exact hw.owned k c client (mem_insertKey_of_ne hc hk) h hsome

theorem callsThrough_append {w w' : RpcWrapper} {c : Nat} {packet : EntityRpcByNamePacket}
    (h : w'.calls = w.calls ++ [(c, packet)]) (c' : Nat) :
    w'.callsThrough c' = w.callsThrough c' ++ if c = c' then [packet] else [] := by
  unfold callsThrough
  rw [h, List.filter_append, List.map_append]
  split <;> simp [*]

theorem sentTo_append {w w' : RpcWrapper} {infos : List PacketSendInfo} (h : w'.sent = w.sent ++ infos)
    (s : SocketIndex) : w'.sentTo s = w.sentTo s ++ infos.filter (·.socketIndex = s) := by
  unfold sentTo
  rw [h, List.filter_append]

/-- Packets of one connection, seen from another. -/
theorem filter_of_ne {infos : List PacketSendInfo} {s s' : SocketIndex}
    (h : ∀ info ∈ infos, info.socketIndex = s') (hne : s' ≠ s) :
    infos.filter (·.socketIndex = s) = [] := by
  rw [List.filter_eq_nil_iff]
  intro info hinfo
  rw [h info hinfo]
  simpa using hne

section Call

variable {w : RpcWrapper} {c : Nat} {client client' : RpcClient} {packet : EntityRpcByNamePacket}
  {infos : List PacketSendInfo}

/-- What a call through the client at `c` leaves. -/
def called (w : RpcWrapper) (c : Nat) (client : RpcClient) (packet : EntityRpcByNamePacket)
    (infos : List PacketSendInfo) : RpcWrapper :=
  { w.setClient c client infos with calls := w.calls ++ [(c, packet)] }

theorem sound_called (hw : Sound w) (hc : w.clients c = some client)
    (hsend : client.sendEntityPacket packet = some (client', infos)) :
    Sound (w.called c client' packet infos) := by
  -- the packet was sent over the handler, or cached for want of one
  have hcases := sendEntityPacket_cases (fun s hs => (hw.handler c client s hc hs).2) hsend
  have hhandler : client'.handler = client.handler := by
    rcases hcases with ⟨_, _, rfl, _⟩ | ⟨_, _, rfl⟩ <;> rfl
  have hcalls : (w.called c client' packet infos).calls = w.calls ++ [(c, packet)] := rfl
  constructor
  case clients_new =>
    intro c' cl h
    rcases update_some h with ⟨rfl, rfl⟩ | ⟨_, h⟩
    · exact hw.clients_new c' client hc
    · exact hw.clients_new c' cl h
  case direct_new => exact hw.direct_new
  case calls_new =>
    intro c' p h
    rcases List.mem_append.mp h with h | h
    · exact hw.calls_new c' p h
    · cases List.mem_singleton.mp h
      exact hw.clients_new c client hc
  case socket_new => exact hw.socket_new
  case unopened =>
    intro s hs
    obtain ⟨hnone, hsent⟩ := hw.unopened s hs
    refine ⟨hnone, ?_⟩
    rw [sentTo_append (w := w) rfl, hsent, List.nil_append]
    rcases hcases with ⟨s', hs', _, rfl⟩ | ⟨_, rfl, _⟩
    · refine @filter_of_ne _ _ s' (by simp [image]) ?_
      rintro rfl
      rw [(hw.handler c client s' hc hs').1] at hnone
      cases hnone
    · rfl
  case handler =>
    intro c' cl s h hs
    rcases update_some h with ⟨rfl, rfl⟩ | ⟨_, h⟩
    · exact hw.handler c' client s hc (hhandler ▸ hs)
    · exact hw.handler c' cl s h hs
  case registered =>
    intro s c' cl hs h
    rcases update_some h with ⟨rfl, rfl⟩ | ⟨_, h⟩
    · rw [hhandler]
      exact hw.registered s c' client hs hc
    · exact hw.registered s c' cl hs h
  case cached =>
    intro c' cl h hnone
    rw [callsThrough_append hcalls]
    rcases update_some h with ⟨rfl, rfl⟩ | ⟨hne, h⟩
    · rcases hcases with ⟨s, hs, rfl, _⟩ | ⟨hnone', _, rfl⟩
      · rw [hs] at hnone
        cases hnone
      · rw [if_pos rfl, ← hw.cached c' client hc hnone']
    · rw [if_neg (Ne.symm hne), List.append_nil, hw.cached c' cl h hnone]
  case placeholder =>
    intro c' cl k k' h hnone
    rcases update_some h with ⟨rfl, rfl⟩ | ⟨_, h⟩
    · exact hw.placeholder c' client k k' hc (hhandler ▸ hnone)
    · exact hw.placeholder c' cl k k' h hnone
  case owned =>
    intro k c' cl hk h hsome
    rcases update_some h with ⟨rfl, rfl⟩ | ⟨_, h⟩
    · exact hw.owned k c' client hk hc (hhandler ▸ hsome)
    · exact hw.owned k c' cl hk h hsome

theorem delivered_called {s : SocketIndex} (hw : Sound w) (hs : Delivered s w) (hc : w.clients c = some client)
    (hsend : client.sendEntityPacket packet = some (client', infos)) :
    Delivered s (w.called c client' packet infos) := by
  have hcases := sendEntityPacket_cases (fun s hs => (hw.handler c client s hc hs).2) hsend
  have hcalls : (w.called c client' packet infos).calls = w.calls ++ [(c, packet)] := rfl
  intro c' hc'
  change w.socketIndex2Client s = some c' at hc'
  obtain ⟨honly, hclient, hsent⟩ := hs c' hc'
  refine ⟨honly, ?_⟩
  rw [sentTo_append (w := w) rfl, callsThrough_append hcalls, hsent, List.map_append]
  by_cases hcc : c = c'
  · -- the call goes through the client of `s`, and out at once
    subst hcc
    rw [hclient] at hc
    cases hc
    rcases hcases with ⟨s', hs', rfl, rfl⟩ | ⟨hnone, _, _⟩
    · cases hs'
      exact ⟨Function.update_self _ _ _, by simp [image]⟩
    · cases hnone
  · refine ⟨(Function.update_of_ne (Ne.symm hcc) _ _).trans hclient, ?_⟩
    rw [if_neg hcc, List.map_nil]
    congr 1
    rcases hcases with ⟨s', hs', _, rfl⟩ | ⟨_, rfl, _⟩
    · refine @filter_of_ne _ _ s' (by simp [image]) ?_
      rintro rfl
      rw [(hw.handler c client s' hc hs').1] at hc'
      exact hcc (Option.some.inj hc')
    · rfl

end Call

/-! ## `handle_init` -/

section Attach

variable {w : RpcWrapper} {s : SocketIndex} {key : AddressKey} {c : Nat} {client : RpcClient}
  {infos : List PacketSendInfo}

/-- What `register_handler_info` leaves when it gives the client at `c` its handler. -/
def attach (w : RpcWrapper) (s : SocketIndex) (key : AddressKey) (c : Nat) (infos : List PacketSendInfo) :
    RpcWrapper :=
  { w.setClient c ⟨some s, []⟩ infos with
    socketIndex2Client := Function.update w.socketIndex2Client s (some c)
    opened := s :: w.opened
    addresses := Function.update w.addresses s [key] }

theorem addresses_attach {s' : SocketIndex} (h : s' ≠ s) :
    (w.attach s key c infos).addresses s' = w.addresses s' :=
  Function.update_of_ne h _ _

/-- A socket that is not open yet is not one that has a client. -/
theorem ne_of_unopened (hw : Sound w) (hs : s ∉ w.opened) {s' : SocketIndex} {c' : Nat}
    (h : w.socketIndex2Client s' = some c') : s' ≠ s := by
  rintro rfl
  rw [(hw.unopened s' hs).1] at h
  cases h

theorem sound_attach (hw : Sound w) (hc : w.clients c = some client) (hs : s ≠ invalidSocketIndex)
    (hnew : s ∉ w.opened) (hkey : client.handler = none → ∀ k, (k, c) ∈ w.directlyGames → k = key)
    (hinfos : ∀ info ∈ infos, info.socketIndex = s) : Sound (w.attach s key c infos) where
  clients_new c' cl h := by
    rcases update_some h with ⟨rfl, rfl⟩ | ⟨_, h⟩
    · exact hw.clients_new c' client hc
    · exact hw.clients_new c' cl h
  direct_new := hw.direct_new
  calls_new := hw.calls_new
  socket_new s' c' h := by
    rcases update_some h with ⟨rfl, rfl⟩ | ⟨_, h⟩
    · exact hw.clients_new c' client hc
    · exact hw.socket_new s' c' h
  unopened s' hs' := by
    obtain ⟨hne, hold⟩ := not_or.mp (fun h => hs' (List.mem_cons.mpr h))
    obtain ⟨hnone, hsent⟩ := hw.unopened s' hold
    refine ⟨(Function.update_of_ne hne _ _).trans hnone, ?_⟩
    rw [sentTo_append (w := w) rfl, hsent, filter_of_ne hinfos (Ne.symm hne), List.append_nil]
  handler c' cl s' h hs' := by
    rcases update_some h with ⟨rfl, rfl⟩ | ⟨_, h⟩
    · cases hs'
      exact ⟨Function.update_self _ _ _, hs⟩
    · obtain ⟨hsock, hvalid⟩ := hw.handler c' cl s' h hs'
      exact ⟨(Function.update_of_ne (ne_of_unopened hw hnew hsock) _ _).trans hsock, hvalid⟩
  registered s' c' cl hs' h := by
    rcases update_some h with ⟨rfl, rfl⟩ | ⟨hne, h⟩
    · exact Option.some_ne_none s
    · rcases update_some hs' with ⟨rfl, rfl⟩ | ⟨_, hs'⟩
      · exact absurd rfl hne
      · exact hw.registered s' c' cl hs' h
  cached c' cl h hnone := by
    rcases update_some h with ⟨rfl, rfl⟩ | ⟨_, h⟩
    · cases hnone
    · exact hw.cached c' cl h hnone
  placeholder c' cl k k' h hnone := by
    rcases update_some h with ⟨rfl, rfl⟩ | ⟨_, h⟩
    · cases hnone
    · exact hw.placeholder c' cl k k' h hnone
  owned k c' cl hk h hsome := by
    -- a connection that a client had before keeps it, and its addresses
    have hkeep : ∀ s₀, w.socketIndex2Client s₀ = some c' → k ∈ w.addresses s₀ →
        ∃ s', (w.attach s key c infos).socketIndex2Client s' = some c' ∧
          k ∈ (w.attach s key c infos).addresses s' := by
      intro s₀ hs₀ hk₀
      have hne := ne_of_unopened hw hnew hs₀
      exact ⟨s₀, (Function.update_of_ne hne _ _).trans hs₀, by rwa [addresses_attach hne]⟩
    rcases update_some h with ⟨rfl, rfl⟩ | ⟨_, h⟩
    · cases hnone : client.handler with
      | none =>
          refine ⟨s, Function.update_self _ _ _, ?_⟩
          show k ∈ Function.update w.addresses s [key] s
          rw [Function.update_self, hkey hnone k hk]
          exact List.mem_singleton_self key
      | some s' =>
          obtain ⟨s₀, hs₀, hk₀⟩ := hw.owned k c' client hk hc (by simp [hnone])
          exact hkeep s₀ hs₀ hk₀
    · obtain ⟨s₀, hs₀, hk₀⟩ := hw.owned k c' cl hk h hsome
      exact hkeep s₀ hs₀ hk₀

/-- The connection that is opened, or one that is open, gets what was called through its client. -/
theorem delivered_attach {s₀ : SocketIndex} {remote : Host} (hw : Sound w) (hs₀ : Delivered s₀ w)
    (hc : w.clients c = some client) (hnew : s ∉ w.opened)
    (hkey : client.handler ≠ none → (remote.key, c) ∈ w.directlyGames)
    (hone : Exclusive s₀ w (.handleInit s remote)) :
    Delivered s₀ (w.attach s remote.key c (client.cachePackets.map (image s))) := by
  have hinfos : ∀ info ∈ client.cachePackets.map (image s), info.socketIndex = s := by simp [image]
  -- a client that has a handler has a connection that goes by the key
  have howner : client.handler ≠ none →
      ∃ s₁, w.socketIndex2Client s₁ = some c ∧ s ≠ s₀ ∧ s₁ ≠ s₀ := by
    intro hsome
    obtain ⟨s₁, hs₁, hk₁⟩ := hw.owned remote.key c client (hkey hsome) hc hsome
    exact ⟨s₁, hs₁, hone s₁ c hs₁ hk₁⟩
  intro c' hc'
  by_cases heq : s₀ = s
  · subst heq
    change Function.update w.socketIndex2Client s₀ (some c) s₀ = some c' at hc'
    rw [Function.update_self] at hc'
    cases hc'
    have hnone : client.handler = none := by
      by_contra hsome
      obtain ⟨_, _, hne, _⟩ := howner hsome
      exact hne rfl
    refine ⟨?_, Function.update_self _ _ _, ?_⟩
    · intro s' hs'
      rcases update_some hs' with ⟨rfl, _⟩ | ⟨_, hs'⟩
      · rfl
      · exact absurd hnone (hw.registered s' c client hs' hc)
    · rw [sentTo_append (w := w) rfl, (hw.unopened s₀ hnew).2, List.nil_append,
        List.filter_eq_self.mpr (by simpa using hinfos), hw.cached c client hc hnone]
      rfl
  · have hold : w.socketIndex2Client s₀ = some c' := (Function.update_of_ne heq _ _).symm.trans hc'
    obtain ⟨honly, hclient, hsent⟩ := hs₀ c' hold
    have hcc : c' ≠ c := by
      rintro rfl
      rw [hc] at hclient
      cases hclient
      obtain ⟨s₁, hs₁, _, hne⟩ := howner (Option.some_ne_none s₀)
      exact hne (honly s₁ hs₁)
    refine ⟨?_, (Function.update_of_ne hcc _ _).trans hclient, ?_⟩
    · intro s' hs'
      rcases update_some hs' with ⟨_, h⟩ | ⟨_, hs'⟩
      · exact absurd h hcc
      · exact honly s' hs'
    · rw [sentTo_append (w := w) rfl, filter_of_ne hinfos (Ne.symm heq), List.append_nil, hsent]
      rfl

end Attach

/-! ## `register_server` and `handle_close` -/

/-- Entries may go, and others come that a connection of their client goes by; an address may be added. -/
theorem sound_redirect {w : RpcWrapper} (hw : Sound w) {entries : List (AddressKey × Nat)}
    {addresses : SocketIndex → List AddressKey}
    (hentries : ∀ k c, (k, c) ∈ entries →
      (k, c) ∈ w.directlyGames ∨ ∃ s, w.socketIndex2Client s = some c ∧ k ∈ addresses s)
    (haddresses : ∀ s k, k ∈ w.addresses s → k ∈ addresses s) :
    Sound { w with directlyGames := entries, addresses := addresses } where
  clients_new := hw.clients_new
  direct_new k c h := by
    rcases hentries k c h with h | ⟨s, hs, _⟩
    · exact hw.direct_new k c h
    · exact hw.socket_new s c hs
  calls_new := hw.calls_new
  socket_new := hw.socket_new
  unopened := hw.unopened
  handler := hw.handler
  registered := hw.registered
  cached := hw.cached
  placeholder c client k k' h hnone hk hk' := by
    have hold : ∀ k, (k, c) ∈ entries → (k, c) ∈ w.directlyGames := by
      intro k hk
      rcases hentries k c hk with hk | ⟨s, hs, _⟩
      · exact hk
      · exact absurd hnone (hw.registered s c client hs h)
    exact hw.placeholder c client k k' h hnone (hold k hk) (hold k' hk')
  owned k c client hk h hsome := by
    rcases hentries k c hk with hk | hs
    · obtain ⟨s, hs, hks⟩ := hw.owned k c client hk h hsome
      exact ⟨s, hs, haddresses s k hks⟩
    · exact hs

theorem mem_addresses {w : RpcWrapper} {s s' : SocketIndex} {key k : AddressKey} (h : k ∈ w.addresses s') :
    k ∈ Function.update w.addresses s (key :: w.addresses s) s' := by
  by_cases hs : s' = s
  · subst hs
    rw [Function.update_self]
    exact List.mem_cons_of_mem key h
  · rwa [Function.update_of_ne hs]

theorem sound_registerServer {w : RpcWrapper} (hw : Sound w) (s : SocketIndex) (processType : ProcessType)
    (key : AddressKey) :
    Sound { w.updateHandlerInfo s processType key with
      addresses := Function.update w.addresses s (key :: w.addresses s) } := by
  unfold updateHandlerInfo
  cases hs : w.socketIndex2Client s with
  | none => exact sound_redirect hw (fun _ _ h => .inl h) (fun _ _ => mem_addresses)
  | some c =>
      dsimp only
      split
      · cases w.directlyGames.lookup key with
        | none =>
            refine sound_redirect hw ?_ (fun _ _ => mem_addresses)
            intro k c' h
            rcases mem_insertKey.mp h with heq | h
            · cases heq
              exact .inr ⟨s, hs, by simp⟩
            · exact .inl h
        | some _ => exact sound_redirect hw (fun _ _ h => .inl h) (fun _ _ => mem_addresses)
      · exact sound_redirect hw (fun _ _ h => .inl h) (fun _ _ => mem_addresses)

/-- What `register_server` changes is not what a connection was given. -/
theorem delivered_registerServer {w : RpcWrapper} {s₀ : SocketIndex} (hs₀ : Delivered s₀ w) (s : SocketIndex)
    (processType : ProcessType) (key : AddressKey) (addresses : SocketIndex → List AddressKey) :
    Delivered s₀ { w.updateHandlerInfo s processType key with addresses := addresses } := by
  unfold updateHandlerInfo
  cases w.socketIndex2Client s with
  | none => exact hs₀
  | some c =>
      dsimp only
      split
      · cases w.directlyGames.lookup key <;> exact hs₀
      · exact hs₀

section Close

variable {w : RpcWrapper} {s : SocketIndex} {c : Nat}

/-- What `unregister_handler_info` leaves when it deletes the client at `c`. -/
def detach (w : RpcWrapper) (s : SocketIndex) (c : Nat) : RpcWrapper :=
  { w with
    clients := Function.update w.clients c none
    socketIndex2Client := Function.update w.socketIndex2Client s none }

/-- The connections of other clients stay. -/
theorem detach_socket (hs : w.socketIndex2Client s = some c) {s' : SocketIndex} {c' : Nat}
    (hs' : w.socketIndex2Client s' = some c') (hne : c' ≠ c) :
    (w.detach s c).socketIndex2Client s' = some c' := by
  have hss : s' ≠ s := by
    rintro rfl
    rw [hs] at hs'
    exact hne (Option.some.inj hs').symm
  exact (Function.update_of_ne hss _ _).trans hs'

theorem sound_detach (hw : Sound w) (hs : w.socketIndex2Client s = some c) : Sound (w.detach s c) where
  clients_new c' client h := hw.clients_new c' client (update_none h).2
  direct_new := hw.direct_new
  calls_new := hw.calls_new
  socket_new s' c' h := hw.socket_new s' c' (update_none h).2
  unopened s' hs' := by
    obtain ⟨hnone, hsent⟩ := hw.unopened s' hs'
    refine ⟨?_, hsent⟩
    by_cases hss : s' = s
    · rw [hss]
      exact Function.update_self _ _ _
    · exact (Function.update_of_ne hss _ _).trans hnone
  handler c' client s' h hs' := by
    obtain ⟨hne, h⟩ := update_none h
    obtain ⟨hsock, hvalid⟩ := hw.handler c' client s' h hs'
    exact ⟨detach_socket hs hsock hne, hvalid⟩
  registered s' c' client hs' h := hw.registered s' c' client (update_none hs').2 (update_none h).2
  cached c' client h := hw.cached c' client (update_none h).2
  placeholder c' client k k' h := hw.placeholder c' client k k' (update_none h).2
  owned k c' client hk h hsome := by
    obtain ⟨hne, h⟩ := update_none h
    obtain ⟨s', hs', hk'⟩ := hw.owned k c' client hk h hsome
    exact ⟨s', detach_socket hs hs' hne, hk'⟩

theorem delivered_detach {s₀ : SocketIndex} (hs₀ : Delivered s₀ w) (hs : w.socketIndex2Client s = some c) :
    Delivered s₀ (w.detach s c) := by
  intro c' hc'
  obtain ⟨hne, hc'⟩ := update_none hc'
  obtain ⟨honly, hclient, hsent⟩ := hs₀ c' hc'
  have hcc : c' ≠ c := by
    rintro rfl
    exact hne (honly s hs).symm
  exact ⟨fun s' hs' => honly s' (update_none hs').2, (Function.update_of_ne hcc _ _).trans hclient, hsent⟩

end Close

/-! ## Every step -/

theorem sound_getClientByAddress {w : RpcWrapper} (hw : Sound w) (key : AddressKey) :
    Sound (w.getClientByAddress key).1 := by
  unfold getClientByAddress
  cases w.directlyGames.lookup key with
  | some c => exact hw
  | none   => exact sound_placeholder hw key

/-- What is created beside the client of an open connection does not touch it. -/
theorem delivered_create {w : RpcWrapper} {s₀ : SocketIndex} (hw : Sound w) (hs₀ : Delivered s₀ w)
    (entries : List (AddressKey × Nat)) :
    Delivered s₀ { w.create ⟨none, []⟩ with directlyGames := entries } := by
  intro c hc
  obtain ⟨honly, hclient, hsent⟩ := hs₀ c hc
  have hne : c ≠ w.newClient := Nat.ne_of_lt (hw.socket_new s₀ c hc)
  exact ⟨honly, (Function.update_of_ne hne _ _).trans hclient, hsent⟩

theorem delivered_getClientByAddress {w : RpcWrapper} {s₀ : SocketIndex} (hw : Sound w) (hs₀ : Delivered s₀ w)
    (key : AddressKey) : Delivered s₀ (w.getClientByAddress key).1 := by
  unfold getClientByAddress
  cases w.directlyGames.lookup key with
  | some c => exact hs₀
  | none   => exact delivered_create hw hs₀ _

/-- What `call_entity` does: the client of the address, or a new placeholder, sends a packet or caches it. -/
theorem call_cases {w w' : RpcWrapper} {host : Host} {entityId : EntityId} {funcName : List UInt8}
    {args : List Param} (h : w.step (.call host entityId funcName args) = some w') :
    ∃ w₁ c client client' packet infos, w.getClientByAddress host.key = (w₁, c) ∧ w₁.sent = w.sent ∧
      w₁.clients c = some client ∧ client.sendEntityPacket packet = some (client', infos) ∧
      w' = w₁.called c client' packet infos := by
  obtain ⟨client, hc, h⟩ := Option.bind_eq_some_iff.mp h
  obtain ⟨packet, _, h⟩ := Option.bind_eq_some_iff.mp h
  obtain ⟨⟨client', infos⟩, hsend, rfl⟩ := Option.map_eq_some_iff.mp h
  refine ⟨(w.getClientByAddress host.key).1, (w.getClientByAddress host.key).2, client, client', packet, infos, rfl,
    ?_, hc, hsend, rfl⟩
  unfold getClientByAddress
  cases w.directlyGames.lookup host.key <;> rfl

/-- What `register_handler_info` does: the client of the key, or a new one, gets its handler, and its
    cache goes out. -/
theorem handleInit_cases {w w' : RpcWrapper} {s : SocketIndex} {remote : Host}
    (h : w.step (.handleInit s remote) = some w') :
    s ≠ invalidSocketIndex ∧ s ∉ w.opened ∧
      (w' = (w.create ⟨none, []⟩).attach s remote.key w.newClient [] ∨
        ∃ c client, (remote.key, c) ∈ w.directlyGames ∧ w.clients c = some client ∧
          w' = w.attach s remote.key c (client.cachePackets.map (image s))) := by
  simp only [step] at h
  split at h
  · rename_i hs
    refine ⟨hs.1, hs.2, ?_⟩
    obtain ⟨w₁, hreg, rfl⟩ := Option.map_eq_some_iff.mp h
    unfold registerHandlerInfo at hreg
    cases hlook : w.directlyGames.lookup remote.key with
    | none =>
        rw [hlook] at hreg
        cases hreg
        refine .inl ?_
        simp [attach, setClient, create]
    | some c =>
        rw [hlook] at hreg
        obtain ⟨client, hc, hmap⟩ := Option.bind_eq_some_iff.mp hreg
        obtain ⟨⟨client', infos⟩, hflush, rfl⟩ := Option.map_eq_some_iff.mp hmap
        obtain ⟨rfl, rfl⟩ := processCachePackets_spec hs.1 hflush
        exact .inr ⟨c, client, mem_of_lookup hlook, hc, rfl⟩
  · cases h

/-- A new client without a key, before it gets its handler. -/
theorem sound_create {w : RpcWrapper} (hw : Sound w) : Sound (w.create ⟨none, []⟩) :=
  sound_redirect (sound_placeholder hw []) (fun _ _ h => .inl (mem_insertKey.mpr (.inr h))) (fun _ _ h => h)

theorem sound_handleClose {w w' : RpcWrapper} {s : SocketIndex} (hw : Sound w)
    (h : w.step (.handleClose s) = some w') : Sound w' := by
  obtain ⟨entries, herase, h⟩ := Option.bind_eq_some_iff.mp h
  have hsound : Sound { w with directlyGames := entries } :=
    sound_redirect hw (fun _ _ he => .inl (mem_of_eraseHandler herase he)) (fun _ _ h => h)
  cases hs : w.socketIndex2Client s with
  | none =>
      rw [hs] at h
      cases h
      exact hsound
  | some c =>
      rw [hs] at h
      obtain ⟨_, _, rfl⟩ := Option.map_eq_some_iff.mp h
      exact sound_detach hsound hs

theorem step_sound {w w' : RpcWrapper} {l : WrapperLabel} (hw : Sound w) (h : w.step l = some w') :
    Sound w' := by
  cases l with
  | call host entityId funcName args =>
      obtain ⟨w₁, c, client, client', packet, infos, hget, _, hc, hsend, rfl⟩ := call_cases h
      have hw₁ := sound_getClientByAddress hw host.key
      rw [hget] at hw₁
      exact sound_called hw₁ hc hsend
  | handleInit s remote =>
      obtain ⟨hvalid, hnew, rfl | ⟨c, client, hkey, hc, rfl⟩⟩ := handleInit_cases h
      · have hc : (w.create ⟨none, []⟩).clients w.newClient = some ⟨none, []⟩ := Function.update_self _ _ _
        refine sound_attach (sound_create hw) hc hvalid hnew ?_ (by simp)
        intro _ k hk
        exact absurd (hw.direct_new k w.newClient hk) (Nat.lt_irrefl _)
      · refine sound_attach hw hc hvalid hnew ?_ (by simp [image])
        intro hnone k hk
        exact hw.placeholder c client k remote.key hc hnone hk hkey
  | registerServer s processType host =>
      cases h
      exact sound_registerServer hw s processType host.key
  | handleClose s => exact sound_handleClose hw h

theorem step_delivered {w w' : RpcWrapper} {l : WrapperLabel} {s₀ : SocketIndex} (hw : Sound w)
    (hs₀ : Delivered s₀ w) (hone : Exclusive s₀ w l) (h : w.step l = some w') : Delivered s₀ w' := by
  cases l with
  | call host entityId funcName args =>
      obtain ⟨w₁, c, client, client', packet, infos, hget, _, hc, hsend, rfl⟩ := call_cases h
      have hw₁ := sound_getClientByAddress hw host.key
      have hs₁ := delivered_getClientByAddress hw hs₀ host.key
      rw [hget] at hw₁ hs₁
      exact delivered_called hw₁ hs₁ hc hsend
  | handleInit s remote =>
      obtain ⟨hvalid, hnew, rfl | ⟨c, client, hkey, hc, rfl⟩⟩ := handleInit_cases h
      · have hc : (w.create ⟨none, []⟩).clients w.newClient = some ⟨none, []⟩ := Function.update_self _ _ _
        exact delivered_attach (sound_create hw) (delivered_create hw hs₀ _) hc hnew (fun hsome => absurd rfl hsome)
          hone
      · exact delivered_attach hw hs₀ hc hnew (fun _ => hkey) hone
  | registerServer s processType host =>
      cases h
      exact delivered_registerServer hs₀ s processType host.key _
  | handleClose s =>
      obtain ⟨entries, _, h⟩ := Option.bind_eq_some_iff.mp h
      cases hs : w.socketIndex2Client s with
      | none =>
          rw [hs] at h
          cases h
          exact hs₀
      | some c =>
          rw [hs] at h
          obtain ⟨_, _, rfl⟩ := Option.map_eq_some_iff.mp h
          exact delivered_detach (w := { w with directlyGames := entries }) hs₀ hs

/-- **Cached calls are delivered once and in order.** Over any run of calls to any addresses, connections,
    registrations and closes: from a connection's `handle_init` to its `handle_close`, what was passed to
    its `send_packet` is what was called through its client so far, before the connection was there or
    since, in the order of the calls; nothing is left in the cache. Nothing is asked of the run but that
    no second connection is open under an address of this one. -/
theorem entity_calls_in_order {processType : ProcessType} {labels : List WrapperLabel} {w : RpcWrapper}
    {s : SocketIndex} {c : Nat} (hone : Along step (Exclusive s) (init processType) labels)
    (hrun : run step (init processType) labels = some w) (hopen : w.socketIndex2Client s = some c) :
    w.clients c = some ⟨some s, []⟩ ∧ w.sentTo s = (w.callsThrough c).map (image s) := by
  have hinv : Sound w ∧ Delivered s w :=
    run_invariant_along (I := fun w => Sound w ∧ Delivered s w)
      (fun hinv hone h => ⟨step_sound hinv.1 h, step_delivered hinv.1 hinv.2 hone h⟩)
      ⟨sound_init processType, delivered_init s processType⟩ hone hrun
  exact (hinv.2 c hopen).2

/-- A call without arguments is filled, into a packet that holds the bytes it declares. -/
theorem fillEntityPacket_empty (entityId : EntityId) :
    ∃ packet, RpcClient.fillEntityPacket entityId [] [] = some packet ∧ packet.len ≤ packet.bytes.length := by
  have hshort : ([] : List UInt8).length ≤ sizeofRpcName := Nat.zero_le _
  obtain ⟨rpcName, hname⟩ := RpcClient.initPacket_eq_some hshort (Block.fill _ 0)
  obtain ⟨buffer, hfill⟩ := RpcClient.fillPacket_eq_some .nil (Nat.zero_le _) (Block.fill sizeofBuffer 0)
  refine ⟨_, by rw [RpcClient.fillEntityPacket, hname, Option.bind_some, hfill]; rfl, ?_⟩
  rw [EntityRpcByNamePacket.bytes_length]
  show toPacketLen (EntityRpcByNamePacket.sizeof - sizeofBuffer + 0) ≤ EntityRpcByNamePacket.sizeof
  decide

def peer : Host := ⟨['1', '2', '7'], 7001⟩

/-- A call before the connection and one after it. -/
theorem entity_calls_in_order_cached : ∃ w,
    run step (init .game) [.call peer 1 [] [], .handleInit 1 peer, .call peer 2 [] []] = some w ∧
    w.socketIndex2Client 1 = some 0 ∧ (w.callsThrough 0).length = 2 ∧
    w.sentTo 1 = (w.callsThrough 0).map (image 1) := by
  obtain ⟨p, hp, hplen⟩ := fillEntityPacket_empty 1
  obtain ⟨q, hq, hqlen⟩ := fillEntityPacket_empty 2
  have hrun : ∃ w, run step (init .game) [.call peer 1 [] [], .handleInit 1 peer, .call peer 2 [] []] = some w ∧
      w.socketIndex2Client 1 = some 0 ∧ (w.callsThrough 0).length = 2 := by
    simp [run, step, callEntity, getClientByAddress, registerHandlerInfo, init, create, setClient, insertKey,
      RpcClient.sendEntityPacket, RpcClient.processCachePackets, sendPacket, invalidSocketIndex, callsThrough,
      hp, hq, hplen, hqlen]
  obtain ⟨w, hw, hopen, htwo⟩ := hrun
  have hone : Along step (Exclusive 1) (init .game)
      [.call peer 1 [] [], .handleInit 1 peer, .call peer 2 [] []] := by
    refine ⟨trivial, fun w₁ h₁ => ⟨?_, fun w₂ _ => ⟨trivial, fun _ _ => trivial⟩⟩⟩
    -- no connection is open before the first `handle_init`
    simp only [step, callEntity, getClientByAddress, init, Option.bind_eq_some_iff, Option.map_eq_some_iff] at h₁
    obtain ⟨_, _, _, _, _, _, rfl⟩ := h₁
    intro s₂ c hs₂
    cases hs₂
  exact ⟨w, hw, hopen, htwo, (entity_calls_in_order hone hw hopen).2⟩

end RpcWrapper

end Mowang
