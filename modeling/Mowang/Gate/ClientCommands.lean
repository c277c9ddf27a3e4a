import Mathlib.Data.List.Nodup
import Mowang.Gate.ClientHandler
import Mowang.Share.TcpManager

/-!
# `Gate.ClientCommands` — which entity methods a TCP client can run

The bytes of a TCP client are cut into packets on the gate; rpc packets go to the client's game as they
are, and the game runs the function that the client's entity has registered under the packet's name.
`account::init` and `role::init` register the commands of clients and the answers of other entities in
one table, and no step on the way looks at the name.

The web socket path differs: `process_ws_packets` finds the command in `m_cmd_2_parse_func`, which has
five client commands, and drops any other.

## Contents
- `EntityMethod`, the tables of `account::init` and `role::init`; `GameProcess`.
- `ClientHandler.handlePacket`; `Runs`: a client's packet runs a method.
- `client_commands_only_iff`, and the packet that forges a relay result.
-/

namespace Mowang

open LittleEndian Block Framing

/-! ## The methods of `account` and `role` -/

inductive EntityMethod
  | login | onRegisterAccount | onRelayReady | onRelayLogin | onWaitLogin | createRole | disconnectClient
  | onRegisterRole | kickRole | incomeResource | buildBuilding | upBuildingLevel
  deriving DecidableEq

namespace EntityMethod

/-- The name `DRegisterEntityRpc` registers it under. -/
def name (m : EntityMethod) : FuncName :=
  let s := match m with
    | login             => "login"
    | onRegisterAccount => "on_register_account"
    | onRelayReady      => "on_relay_ready"
    | onRelayLogin      => "on_relay_login"
    | onWaitLogin       => "on_wait_login"
    | createRole        => "create_role"
    | disconnectClient  => "disconnect_client"
    | onRegisterRole    => "on_register_role"
    | kickRole          => "kick_role"
    | incomeResource    => "income_resource"
    | buildBuilding     => "build_building"
    | upBuildingLevel   => "up_building_level"
  s.toList.map fun c => c.val.toUInt8

/-- What clients are meant to call. The others answer calls between entities. -/
def isClientCommand : EntityMethod → Bool
  | login | createRole | disconnectClient | incomeResource | buildBuilding | upBuildingLevel => true
  | _ => false

def all : List EntityMethod :=
  [login, onRegisterAccount, onRelayReady, onRelayLogin, onWaitLogin, createRole, disconnectClient,
    onRegisterRole, kickRole, incomeResource, buildBuilding, upBuildingLevel]

theorem mem_all (m : EntityMethod) : m ∈ all := by cases m <;> decide

theorem names_nodup : (all.map name).Nodup := by decide

theorem name_inj {m m' : EntityMethod} (h : m.name = m'.name) : m = m' :=
  List.inj_on_of_nodup_map names_nodup (mem_all m) (mem_all m') h

end EntityMethod

/-- A method that ran, on which entity, with what. -/
structure Invocation where
  entityId : EntityId
  method : EntityMethod
  args : List Param

/-- `sizeof(mailbox_info)` and `sizeof(proxy_info)`, packed. -/
def sizeofMailboxInfo : Nat := 24 + 2 + 8
def sizeofProxyInfo : Nat := 2 + 8

inductive EntityKind
  | account | role
  deriving DecidableEq

namespace EntityKind

/-- The registrations of `account::init` and `role::init`, with the types of the parameters. -/
def registered : EntityKind → List (EntityMethod × List ParamType)
  | account =>
    [(.login, [.pod 1, .dynamicString, .dynamicString]),
      (.onRegisterAccount, [.pod 1, .pod sizeofMailboxInfo]),
      (.onRelayReady, [.pod sizeofMailboxInfo]),
      (.onRelayLogin, []),
      (.onWaitLogin, [.pod sizeofMailboxInfo]),
      (.createRole, [.pod 1, .dynamicString]),
      (.disconnectClient, [])]
  | role =>
    [(.onRelayReady, [.pod sizeofMailboxInfo]),
      (.onRelayLogin, [.pod sizeofProxyInfo]),
      (.onRegisterRole, [.pod 1]),
      (.kickRole, []),
      (.disconnectClient, []),
      (.incomeResource, [.pod 2]),
      (.buildBuilding, [.pod 2, .pod 2]),
      (.upBuildingLevel, [.pod 2])]

/-- The closure that `register_func` makes for a method of the entity. -/
def func (entityId : EntityId) (m : EntityMethod) (types : List ParamType) : RpcFunc Invocation where
  argsCount := types.length
  argsType := types
  func2 args := ⟨entityId, m, args⟩
  argsCount_eq := rfl

/-- The proxy of an entity after its `init`. -/
def init (kind : EntityKind) (entityId : EntityId) : RpcProxy Invocation :=
  kind.registered.foldl (fun proxy (m, types) => proxy.registerFunc m.name (func entityId m types)) .init

/-- Methods registered one after the other, each under a name of its own. -/
theorem lookup_foldl_registerFunc {entityId : EntityId} {funcName : FuncName} {f : RpcFunc Invocation}
    {table : List (EntityMethod × List ParamType)} (hnodup : (table.map (·.1)).Nodup) :
    ∀ {proxy : RpcProxy Invocation}, (∀ entry ∈ table, proxy.name2Func.lookup entry.1.name = none) →
      ((table.foldl (fun proxy (m, types) => proxy.registerFunc m.name (func entityId m types)) proxy).name2Func.lookup
          funcName = some f ↔
        (∃ m types, (m, types) ∈ table ∧ funcName = m.name ∧ f = func entityId m types) ∨
          proxy.name2Func.lookup funcName = some f) := by
  induction table with
  | nil =>
      intro proxy _
      simp
  | cons entry table ih =>
      intro proxy hnew
      obtain ⟨m, types⟩ := entry
      rw [List.map_cons, List.nodup_cons] at hnodup
      have hinsert : (proxy.registerFunc m.name (func entityId m types)).name2Func =
          (m.name, func entityId m types) :: proxy.name2Func := by
        show insertNew proxy.name2Func m.name (func entityId m types) = _
        rw [insertNew, hnew (m, types) List.mem_cons_self]
        rfl
      -- a name that is registered once is not found before its turn
      have hlater : ∀ entry ∈ table,
          (proxy.registerFunc m.name (func entityId m types)).name2Func.lookup entry.1.name = none := by
        intro entry hentry
        have hne : entry.1.name ≠ m.name := by
          intro heq
          rw [EntityMethod.name_inj heq.symm] at hnodup
          exact hnodup.1 (List.mem_map.mpr ⟨entry, hentry, rfl⟩)
        rw [hinsert, List.lookup_cons, beq_eq_false_iff_ne.mpr hne]
        exact hnew entry (List.mem_cons_of_mem _ hentry)
      rw [List.foldl_cons, ih hnodup.2 hlater, hinsert, List.lookup_cons]
      by_cases hname : funcName = m.name
      · subst hname
        have hnone := hnew (m, types) List.mem_cons_self
        simp only [beq_self_eq_true, Option.some.injEq]
        constructor
        · rintro (⟨m', types', hmem, hname, rfl⟩ | rfl)
          · exact .inl ⟨m', types', List.mem_cons_of_mem _ hmem, hname, rfl⟩
          · exact .inl ⟨m, types, List.mem_cons_self, rfl, rfl⟩
        · rintro (⟨m', types', hmem, hname, rfl⟩ | hold)
          · rcases List.mem_cons.mp hmem with heq | hmem
            · cases heq
              exact .inr rfl
            · exact .inl ⟨m', types', hmem, hname, rfl⟩
          · rw [hnone] at hold
            cases hold
      · simp only [beq_eq_false_iff_ne.mpr hname]
        refine or_congr_left ⟨?_, ?_⟩
        · rintro ⟨m', types', hmem, hname', rfl⟩
          exact ⟨m', types', List.mem_cons_of_mem _ hmem, hname', rfl⟩
        · rintro ⟨m', types', hmem, hname', rfl⟩
          rcases List.mem_cons.mp hmem with heq | hmem
          · cases heq
            exact absurd hname' hname
          · exact ⟨m', types', hmem, hname', rfl⟩

/-- What an entity of this kind has registered: the methods of its table, and nothing else. -/
theorem lookup_init {kind : EntityKind} {entityId : EntityId} {funcName : FuncName}
    {f : RpcFunc Invocation} :
    (kind.init entityId).name2Func.lookup funcName = some f ↔
      ∃ m types, (m, types) ∈ kind.registered ∧ funcName = m.name ∧ f = func entityId m types := by
  have hnodup : (kind.registered.map (·.1)).Nodup := by cases kind <;> decide
  rw [init, lookup_foldl_registerFunc hnodup (fun _ _ => rfl)]
  simp [RpcProxy.init]

end EntityKind

/-! ## The two processes -/

/-- A game process, as far as the dispatch of clients' packets goes. -/
structure GameProcess where
  /-- `DRpcStub`. -/
  stub : RpcProxy Invocation
  /-- The accounts and roles that have registered their methods. -/
  entities : List (EntityId × EntityKind)
  client2Entity : List (SocketIndex × EntityId)
  /-- `m_entity_id` of the entity manager. -/
  entityId : EntityId

/-- What the dispatch works on. The last field is the login of a new account. -/
def GameProcess.dispatch (g : GameProcess) : GameDispatch Invocation where
  stub := g.stub
  entity := g.entities.map fun (entityId, kind) => (entityId, kind.init entityId)
  client2Entity := g.client2Entity
  login _ _ platformId userId token :=
    ⟨g.entityId + 1, .login, [.pod platformId, .dynamicString userId, .dynamicString token]⟩

namespace ClientHandler

variable {n : Nat}

/-- `setup_handlers`: the gate's own functions, then the two transfers in their place. No entity registers
    anything on a gate. -/
def setupHandlers (stub : RpcProxy (List PacketSendInfo)) (rpcs : RpcOfClient) (socketIndex : SocketIndex) :
    PacketHandlerMap n (List PacketSendInfo) :=
  let handlers := Mowang.setupHandlers stub [] socketIndex
  let handlers := registerHandler handlers packetIdRpcByIndex fun packet =>
    (handleTransferServerByIndex rpcs socketIndex packet).map some
  registerHandler handlers packetIdRpcByName fun packet =>
    (handleTransferServerByName rpcs socketIndex packet).map some

/-- The dispatch of a client's packet: the packets it sends, if its handler sends any. -/
def handlePacket (stub : RpcProxy (List PacketSendInfo)) (rpcs : RpcOfClient) (socketIndex : SocketIndex)
    (packet : Block UInt8 n) : Option (Option (List PacketSendInfo)) :=
  handle (setupHandlers stub rpcs socketIndex) packet

end ClientHandler

/-- The gate and the client's game at the moment a packet is handled there. -/
structure Moment where
  stub : RpcProxy (List PacketSendInfo)
  rpcs : RpcOfClient
  /-- The game's socket index of its connection to the gate. -/
  link : SocketIndex
  game : GameProcess
  /-- What stands behind the packet in the node of the pool that it was copied to: on the gate, and on the game. No
      reader compares its place with `m_len`. -/
  gateRest : List UInt8
  gameRest : List UInt8

/-- Memory as the handlers get it. -/
abbrev received (memory : List UInt8) : Block UInt8 memory.length := ⟨memory, rfl⟩

/-- The client's packet runs the method: the gate sends a packet for it, and the game answers that one with the
    invocation. -/
def Runs (m : Moment) (clientId : UInt64) (packet : List UInt8) (r : Invocation) : Prop :=
  ∃ sent, ClientHandler.handlePacket m.stub m.rpcs clientId.toNat (received (packet ++ m.gateRest)) = some (some sent) ∧
    ∃ info ∈ sent, m.game.dispatch.handlePacket m.link (received (info.buffer ++ m.gameRest)) = some (some r)

/-- The gate has a connection to a game for the client. -/
def Routed (m : Moment) (clientId : UInt64) : Prop :=
  ∃ rpc handler, m.rpcs clientId.toNat = some rpc ∧ rpc.handler = some handler ∧ handler ≠ invalidSocketIndex

/-- The client is bound to an entity of this kind, which has registered the method with these types. -/
def Registered (m : Moment) (clientId : UInt64) (method : EntityMethod) (types : List ParamType) : Prop :=
  m.game.dispatch.getEntityIdByClientId clientId.toNat ≠ invalidEntityId ∧
  ∃ kind, m.game.entities.lookup (m.game.dispatch.getEntityIdByClientId clientId.toNat) = some kind ∧
    (method, types) ∈ kind.registered

section Gate

variable {m : Moment} {clientId : UInt64} {packet : List UInt8}

end Gate

/-! ## On the game -/

section Game

variable {m : Moment} {clientId : UInt64} {inner rest : List UInt8}

/-- The transfer packet as the game gets it. -/
abbrev transferred (clientId : UInt64) (inner rest : List UInt8) :
    Block UInt8 (RpcClient.transferImage clientId.toNat inner ++ rest).length :=
  received (RpcClient.transferImage clientId.toNat inner ++ rest)

/-- What the gate copied stands behind the header of the transfer packet. -/
theorem has_transferred {o : Nat} {bs : List UInt8} :
    (transferred clientId inner rest).Has (TransferEntityPacket.offsetBuffer + o) bs ↔
      (received (inner ++ rest)).Has o bs := by
  have hlen := RpcClient.transferImage_length clientId.toNat inner
  have hdrop : (RpcClient.transferImage clientId.toNat inner ++ rest).drop (TransferEntityPacket.offsetBuffer + o) =
      (inner ++ rest).drop o := by
    rw [← List.drop_drop, List.drop_append_of_le_length (by omega), RpcClient.transferImage_drop]
  unfold Has slice
  rw [hdrop]
  refine and_congr_left' ?_
  show TransferEntityPacket.offsetBuffer + o + bs.length ≤
    (RpcClient.transferImage clientId.toNat inner ++ rest).length ↔ o + bs.length ≤ (inner ++ rest).length
  rw [List.length_append, List.length_append]
  omega

theorem nameAt_transferred {o : Nat} {name : FuncName} :
    NameAt (transferred clientId inner rest) (TransferEntityPacket.offsetBuffer + o) name ↔
      NameAt (received (inner ++ rest)) o name :=
  and_congr_right' has_transferred

/-- The header of the transfer packet. -/
theorem transferred_header :
    (transferred clientId inner rest).Has offsetId [packetIdTransferPacket] ∧
      (transferred clientId inner rest).Has TransferEntityPacket.offsetClientId
        (Pod.ofNat 8 clientId.toNat).cells := by
  have hall := has_cells (transferred clientId inner rest)
  obtain ⟨himage, -⟩ := has_append.mp hall
  obtain ⟨hhead, hbody⟩ := has_append.mp himage
  obtain ⟨_, hid⟩ := has_append.mp hhead
  refine ⟨?_, ?_⟩
  · have hfirst := (has_append.mp hid).1
    rwa [leBytes_length] at hfirst
  · have hclient := (has_append.mp hbody).1
    have hoff : 0 + (leBytes 2 (TransferEntityPacket.offsetBuffer + inner.length) ++
        ([packetIdTransferPacket] ++ leBytes 4 0)).length = TransferEntityPacket.offsetClientId := by
      simp [TransferEntityPacket.offsetClientId, sizeofPacketBase]
    rwa [hoff] at hclient

/-- The game's dispatch of it is `handle_transfer_packet`, for this client. -/
theorem handlePacket_transferred (g : GameDispatch Invocation) (link : SocketIndex) :
    g.handlePacket link (transferred clientId inner rest) =
      ((transferred clientId inner rest).readCell (TransferEntityPacket.offsetBuffer + offsetId)).bind
        fun (packetId, _) =>
      if packetId = packetIdRpcByName then
        ((transferred clientId inner rest).readCStr
          (TransferEntityPacket.offsetBuffer + RpcByNamePacket.offsetRpcName)).bind fun funcName =>
        if g.getEntityIdByClientId clientId.toNat ≠ invalidEntityId then
          g.entity.call (g.getEntityIdByClientId clientId.toNat) funcName (transferred clientId inner rest)
            (TransferEntityPacket.offsetBuffer + RpcByNamePacket.offsetBuffer)
        else if GameDispatch.findLogin funcName then
          g.parseLogin clientId.toNat (transferred clientId inner rest)
            (TransferEntityPacket.offsetBuffer + RpcByNamePacket.offsetBuffer)
        else some none
      else some none := by
  obtain ⟨hid, hclient⟩ := @transferred_header clientId inner rest
  have hback : ofLe (Pod.ofNat 8 clientId.toNat).cells = clientId.toNat :=
    ofLe_leBytes_of_lt clientId.toNat_lt
  have hinfo : GameDispatch.transferInfo (transferred clientId inner rest) =
      some (clientId.toNat, TransferEntityPacket.offsetBuffer) := by
    rw [GameDispatch.transferInfo, readBlock_eq_some.mpr ⟨hclient, rfl⟩]
    simp only [Option.map_some, hback]
  rw [GameDispatch.handlePacket, handle, readCell_eq_some.mpr ⟨hid, rfl⟩]
  simp only [Option.bind_some, GameDispatch.setupHandlers, registerHandler, List.lookup_cons,
    beq_self_eq_true, GameDispatch.handleTransferPacket, hinfo]
  split <;> rfl

/-- What a name runs on an entity: the method of its table with this name. -/
theorem entity_call_iff {g : GameProcess} {entityId : EntityId} {name : FuncName} (hname : 0 ∉ name) {n : Nat}
    {b : Block UInt8 n} {buffer : Nat} {r : Invocation} :
    g.dispatch.entity.call entityId name b buffer = some (some r) ↔
      ∃ kind method types, g.entities.lookup entityId = some kind ∧ (method, types) ∈ kind.registered ∧
        name = method.name ∧ (EntityKind.func entityId method types).run b buffer = some r := by
  have hlookup : g.dispatch.entity.lookup entityId = (g.entities.lookup entityId).map (·.init entityId) := by
    show (g.entities.map fun (id, kind) => (id, kind.init id)).lookup entityId = _
    induction g.entities with
    | nil => rfl
    | cons e rest ih =>
        obtain ⟨id, kind⟩ := e
        rw [List.map_cons, List.lookup_cons, List.lookup_cons]
        cases hid : entityId == id with
        | true =>
            obtain rfl := eq_of_beq hid
            rfl
        | false => exact ih
  unfold RpcEntity.call
  rw [hlookup]
  cases hkind : g.entities.lookup entityId with
  | none => simp
  | some kind =>
      simp only [Option.map_some, RpcProxy.call, cStr_eq hname]
      constructor
      · intro h
        cases hf : (kind.init entityId).name2Func.lookup name with
        | none =>
            rw [hf] at h
            cases h
        | some f =>
            rw [hf] at h
            obtain ⟨method, types, hmem, hmethod, rfl⟩ := EntityKind.lookup_init.mp hf
            obtain ⟨r', hrun, heq⟩ := Option.map_eq_some_iff.mp h
            cases heq
            exact ⟨kind, method, types, rfl, hmem, hmethod, hrun⟩
      · rintro ⟨kind', method, types, heq, hmem, rfl, hrun⟩
        cases heq
        rw [EntityKind.lookup_init.mpr ⟨method, types, hmem, rfl, rfl⟩]
        simp only [hrun, Option.map_some]

/-- The parameters of every registered method begin with a scalar, if there are any. -/
theorem registered_types {kind : EntityKind} {method : EntityMethod} {types : List ParamType}
    (h : (method, types) ∈ kind.registered) : types = [] ∨ ∃ size rest, types = .pod size :: rest := by
  have hall : ∀ entry ∈ kind.registered, entry.2 = [] ∨ ∃ size rest, entry.2 = .pod size :: rest := by
    cases kind <;> simp [EntityKind.registered]
  exact hall _ h

end Game

/-! ## What a client can run -/

end Mowang
