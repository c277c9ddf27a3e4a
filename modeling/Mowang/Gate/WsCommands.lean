import Mowang.Base.PropertyTree
import Mowang.Base.Trail
import Mowang.Gate.GateRegistry
import Mowang.Gate.ServerCalls

/-!
# `Gate.WsCommands` — the commands of web socket clients

A web socket client sends json texts. The gate looks its command up in `m_cmd_2_parse_func`, takes the arguments from
the fields of the text, and makes the call at the client's game. A login first draws the game. A client that leaves is
logged out of its game in the same way.

The reader of json texts is a parameter; `none` is its exception, which is caught.

## Contents
- `WsGate`, `processLogin` and the other commands, `cmd2ParseFunc`, `processWsPacket`, `WsGate.step`.
- `Asks`, `fields`, `Calls`: what a text asks for.
- `ws_calls_only`, `ws_command_runs`, `ws_gate_survives_iff`.
-/

namespace Mowang

/-- A gate, as far as its web socket clients go. -/
structure WsGate where
  server : GateServer
  registry : GateRegistry
  random : GameRandom
  /-- What was sent to the games, with the client it was sent for. Read by the theorems only. -/
  sent : List (UInt64 × PacketSendInfo) := []

namespace WsGate

/-! ## Calls -/

/-- `get_client_by_client_id`. -/
def getClientByClientId (g : WsGate) (clientId : UInt64) : Option Nat :=
  g.registry.getClientByProcessId .game (g.server.getProcessIdByClientId clientId)

/-- `call_server`; `none` is a call through a client that is deleted, or one that leaves the buffers of its packets. -/
def callServer (g : WsGate) (clientId : UInt64) (funcName : FuncName) (args : List Param) : Option WsGate :=
  match g.getClientByClientId clientId with
  | some c =>
    (g.registry.client? c).bind fun rpc =>
    (rpc.callTransferFunc clientId.toNat funcName args).map fun sent =>
      { g with sent := g.sent ++ sent.map (clientId, ·) }
  | none   => some g

/-- `on_client_connect`. -/
def onClientConnect (g : WsGate) (socketIndex : UInt64) : Option WsGate :=
  (g.registry.registry.getRandomProcessId g.random .game).map fun (processId, random) =>
    { g with server := g.server.onClientConnect socketIndex processId, random := random }

/-- `on_client_disconnect`. -/
def onClientDisconnect (g : WsGate) (socketIndex : UInt64) : Option WsGate :=
  if (g.server.client2Process socketIndex).isSome then
    (g.callServer socketIndex (ascii "disconnect_client") []).map fun g =>
      { g with server := g.server.onClientDisconnect socketIndex }
  else some g

/-! ## Commands -/

/-- `process_login`. It reads a `server_id` too, and does not use it. -/
def processLogin (g : WsGate) (socketIndex : UInt64) (json : Ptree) : Option WsGate :=
  let curToken := (json.get? (ascii "token")).getD []
  (DynamicString.ofCStr curToken).bind fun token =>
  let curUserId := (json.get? (ascii "user_id")).getD []
  (DynamicString.ofCStr curUserId).bind fun userId =>
  let platformId := (json.getByte? (ascii "platform_id")).getD 1
  (g.onClientConnect socketIndex).bind fun g =>
  g.callServer socketIndex (ascii "login") [.pod (Pod.ofNat 1 platformId), .dynamicString userId, .dynamicString token]

/-- `process_create_role`. -/
def processCreateRole (g : WsGate) (socketIndex : UInt64) (json : Ptree) : Option WsGate :=
  let sex := (json.getByte? (ascii "sex")).getD 1
  let roleName := (json.get? (ascii "role_name")).getD []
  (DynamicString.ofCStr roleName).bind fun name =>
  g.callServer socketIndex (ascii "create_role") [.pod (Pod.ofNat 1 sex), .dynamicString name]

/-- `INVALID_BUILDING_INDEX` and `INVALID_BUILDING_TYPE`. -/
def invalidBuildingIndex : Nat := 0
def invalidBuildingType : Nat := 0

/-- `process_income_resource`. -/
def processIncomeResource (g : WsGate) (socketIndex : UInt64) (json : Ptree) : Option WsGate :=
  let buildingIndex := (json.getUnsigned? 16 (ascii "index")).getD invalidBuildingIndex
  g.callServer socketIndex (ascii "income_resource") [.pod (Pod.ofNat 2 buildingIndex)]

/-- `process_build_building`. -/
def processBuildBuilding (g : WsGate) (socketIndex : UInt64) (json : Ptree) : Option WsGate :=
  let buildingType := (json.getUnsigned? 16 (ascii "type")).getD invalidBuildingType
  let buildingIndex := (json.getUnsigned? 16 (ascii "index")).getD invalidBuildingIndex
  g.callServer socketIndex (ascii "build_building")
    [.pod (Pod.ofNat 2 buildingIndex), .pod (Pod.ofNat 2 buildingType)]

/-- `process_up_building_level`. -/
def processUpBuildingLevel (g : WsGate) (socketIndex : UInt64) (json : Ptree) : Option WsGate :=
  let buildingIndex := (json.getUnsigned? 16 (ascii "index")).getD invalidBuildingIndex
  g.callServer socketIndex (ascii "up_building_level") [.pod (Pod.ofNat 2 buildingIndex)]

/-- `m_cmd_2_parse_func` after `init_ws_process_func`. -/
def cmd2ParseFunc : List (List UInt8 × (WsGate → UInt64 → Ptree → Option WsGate)) :=
  [(ascii "login", processLogin),
    (ascii "create_role", processCreateRole),
    (ascii "income_resource", processIncomeResource),
    (ascii "build_building", processBuildBuilding),
    (ascii "up_building_level", processUpBuildingLevel)]

section Packets

variable (readJson : List UInt8 → Option Ptree)

/-- `process_ws_packets`, with one packet. -/
def processWsPacket (g : WsGate) (socketIndex : UInt64) (packet : List UInt8) : Option WsGate :=
  match readJson packet with
  | none      => some g
  | some json =>
    match (json.get? (ascii "cmd")).bind fun cmd => cmd2ParseFunc.lookup cmd with
    | none      => some g
    | some func => func g socketIndex json

end Packets

end WsGate

/-- What the logic loop of a gate does for its clients and its games. -/
inductive WsGateLabel
  /-- A packet of a web socket client. -/
  | packet (socketIndex : UInt64) (packet : List UInt8)
  /-- A web socket client is closed. -/
  | close (socketIndex : UInt64)
  /-- `handle_init` and `handle_close` of a TCP client. -/
  | clientInit (socketIndex : UInt64) (remote : Host)
  | clientClose (socketIndex : UInt64)
  /-- A game's rpc. -/
  | updateClientProcessInfo (socketIndex : UInt64) (info : GameProcessInfo)
  /-- `handle_init` and `handle_close` of a connection to a server, and its `register_server`. -/
  | serverInit (socketIndex : UInt64) (remote : Host)
  | registerServer (socketIndex : UInt64) (info : GameServerInfo)
  | serverClose (socketIndex : UInt64)
  /-- Another draw of `game_random`. -/
  | randUint

/-- What happens to the connections. -/
def WsGateLabel.connection? : WsGateLabel → Option ConnectionLabel
  | .clientInit socketIndex remote   => some (.clientInit socketIndex.toNat remote)
  | .clientClose socketIndex         => some (.handleClose socketIndex.toNat)
  | .serverInit socketIndex remote   => some (.serverInit socketIndex.toNat remote)
  | .registerServer socketIndex info => some (.registerServer socketIndex.toNat info)
  | .serverClose socketIndex         => some (.handleClose socketIndex.toNat)
  | _                                => none

namespace WsGate

/-- The rpc wrapper, with the connections. -/
def connection (g : WsGate) (label : WsGateLabel) : Option WsGate :=
  match label.connection? with
  | some l => (g.registry.step l).map fun registry => { g with registry := registry }
  | none   => some g

section Steps

variable (readJson : List UInt8 → Option Ptree)

def step (g : WsGate) (label : WsGateLabel) : Option WsGate :=
  match label with
  | .packet socketIndex packet => g.processWsPacket readJson socketIndex packet
  | .close socketIndex         => g.onClientDisconnect socketIndex
  | .clientInit socketIndex _  => (g.connection label).bind fun g => g.onClientConnect socketIndex
  | .clientClose socketIndex   => (g.onClientDisconnect socketIndex).bind fun g => g.connection label
  | .updateClientProcessInfo socketIndex info =>
    some { g with server := g.server.updateClientProcessInfo socketIndex info }
  | .serverInit _ _ | .registerServer _ _ | .serverClose _ => g.connection label
  | .randUint                  => some { g with random := g.random.randUint.2 }

end Steps

end WsGate

/-! ## What a packet asks for -/

section Fields

variable (json : Ptree)

/-- A field that is a string, a byte, or a number of 16 bits. -/
def textField (key : String) : List UInt8 := (json.get? (ascii key)).getD []
def byteField (key : String) : Value := .pod (Pod.ofNat 1 ((json.getByte? (ascii key)).getD 1))
def wordField (key : String) : Value := .pod (Pod.ofNat 2 ((json.getUnsigned? 16 (ascii key)).getD 0))

/-- The strings in the fields of a command. -/
def texts : EntityMethod → List (List UInt8)
  | .login      => [textField json "user_id", textField json "token"]
  | .createRole => [textField json "role_name"]
  | _           => []

/-- The numbers in the fields of a command, in the order of its arguments. -/
def numbers : EntityMethod → List Value
  | .login         => [byteField json "platform_id"]
  | .createRole    => [byteField json "sex"]
  | .incomeResource | .upBuildingLevel => [wordField json "index"]
  | .buildBuilding => [wordField json "index", wordField json "type"]
  | _              => []

/-- The arguments of a command. -/
def fields (method : EntityMethod) : List Value :=
  numbers json method ++ (texts json method).map fun s => .dynamicString (DynamicString.taken s)

end Fields

/-- The commands of `m_cmd_2_parse_func`. -/
def wsCommands : List EntityMethod := [.login, .createRole, .incomeResource, .buildBuilding, .upBuildingLevel]

/-- The packet asks for the command. -/
structure Asks (readJson : List UInt8 → Option Ptree) (packet : List UInt8) (json : Ptree) (method : EntityMethod) :
    Prop where
  parsed : readJson packet = some json
  command : method ∈ wsCommands
  named : json.get? (ascii "cmd") = some method.name

/-- The string has no room for its NUL. -/
def Unstorable (s : List UInt8) : Prop := (cstr s).length % 65536 = 65535

instance (s : List UInt8) : Decidable (Unstorable s) := inferInstanceAs (Decidable (_ = _))

namespace WsGate

/-- The connection that a call for the client goes out on, if there is one; `none` is a client that is deleted, or has no
    connection. -/
def route? (g : WsGate) (clientId : UInt64) : Option (Option SocketIndex) :=
  match g.getClientByClientId clientId with
  | some c => (g.registry.client? c).bind fun rpc => rpc.handler.map some
  | none   => some none

/-- A call with these values. -/
def called (g : WsGate) (clientId : UInt64) (method : EntityMethod) (vs : List Value) : Option WsGate :=
  (g.route? clientId).bind fun route =>
  match route with
  | some handler =>
    if (rpcImage method.name vs).length ≤ sizeofBuffer then
      some { g with
        sent := g.sent ++ [(clientId, ⟨handler, RpcClient.transferImage clientId.toNat (rpcImage method.name vs)⟩)] }
    else none
  | none => some g

variable {readJson : List UInt8 → Option Ptree} {g g' : WsGate} {clientId : UInt64} {packet : List UInt8}
  {json : Ptree} {method : EntityMethod}

theorem callServer_eq {args : List Param} {vs : List Value} (hargs : List.Forall₂ Param.Holds args vs) :
    g.callServer clientId method.name args = g.called clientId method vs := by
  rw [callServer, called, route?]
  cases hc : g.getClientByClientId clientId with
  | none => rfl
  | some c =>
      dsimp only
      cases hclient : g.registry.client? c with
      | none => rfl
      | some rpc =>
          have hname := Nat.le_of_lt method.name_length_lt
          rw [Option.bind_some, Option.bind_some]
          cases hhandler : rpc.handler with
          | none =>
              rw [RpcClient.callTransferFunc_of_handler_none hhandler]
              rfl
          | some handler =>
              have hvalid := GateRegistry.handler_valid hclient hhandler
              rw [Option.map_some, Option.bind_some]
              dsimp only
              by_cases hsize : (rpcImage method.name vs).length ≤ sizeofBuffer
              · rw [if_pos hsize, RpcClient.callTransferFunc_eq hhandler hvalid hargs hname hsize]
                rfl
              · rw [if_neg hsize, RpcClient.callTransferFunc_eq_none hargs hname (Nat.lt_of_not_le hsize)]
                rfl

/-- The names that the gate calls are those of the methods. -/
theorem ascii_names : ascii "login" = EntityMethod.login.name ∧ ascii "create_role" = EntityMethod.createRole.name ∧
    ascii "income_resource" = EntityMethod.incomeResource.name ∧
    ascii "build_building" = EntityMethod.buildBuilding.name ∧
    ascii "up_building_level" = EntityMethod.upBuildingLevel.name ∧
    ascii "disconnect_client" = EntityMethod.disconnectClient.name := by decide

theorem processLogin_eq : g.processLogin clientId json =
    if ∃ s ∈ texts json .login, Unstorable s then none
    else (g.onClientConnect clientId).bind fun g => g.called clientId .login (fields json .login) := by
  simp only [processLogin, ascii_names]
  by_cases htoken : Unstorable (textField json "token")
  · rw [if_pos ⟨_, by simp [texts], htoken⟩, ← textField, DynamicString.ofCStr_eq_none htoken, Option.bind_none]
  obtain ⟨token, hstore, hholds⟩ := DynamicString.ofCStr_holds htoken
  rw [← textField, ← textField, hstore, Option.bind_some]
  by_cases huser : Unstorable (textField json "user_id")
  · rw [if_pos ⟨_, by simp [texts], huser⟩, DynamicString.ofCStr_eq_none huser, Option.bind_none]
  obtain ⟨userId, hstore', hholds'⟩ := DynamicString.ofCStr_holds huser
  rw [if_neg (by simp [texts, htoken, huser]), hstore', Option.bind_some]
  refine congrArg (Option.bind _) (funext fun g => callServer_eq ?_)
  exact .cons (.pod _) (.cons (.dynamicString hholds') (.cons (.dynamicString hholds) .nil))

theorem processCreateRole_eq : g.processCreateRole clientId json =
    if ∃ s ∈ texts json .createRole, Unstorable s then none
    else g.called clientId .createRole (fields json .createRole) := by
  simp only [processCreateRole, ascii_names]
  by_cases hname : Unstorable (textField json "role_name")
  · rw [if_pos ⟨_, by simp [texts], hname⟩, ← textField, DynamicString.ofCStr_eq_none hname, Option.bind_none]
  obtain ⟨name, hstore, hholds⟩ := DynamicString.ofCStr_holds hname
  rw [if_neg (by simp [texts, hname]), ← textField, hstore, Option.bind_some]
  exact callServer_eq (.cons (.pod _) (.cons (.dynamicString hholds) .nil))

theorem processIncomeResource_eq :
    g.processIncomeResource clientId json = g.called clientId .incomeResource (fields json .incomeResource) := by
  simp only [processIncomeResource, ascii_names]
  exact callServer_eq (.cons (.pod _) .nil)

theorem processUpBuildingLevel_eq :
    g.processUpBuildingLevel clientId json = g.called clientId .upBuildingLevel (fields json .upBuildingLevel) := by
  simp only [processUpBuildingLevel, ascii_names]
  exact callServer_eq (.cons (.pod _) .nil)

theorem processBuildBuilding_eq :
    g.processBuildBuilding clientId json = g.called clientId .buildBuilding (fields json .buildBuilding) := by
  simp only [processBuildBuilding, ascii_names]
  exact callServer_eq (.cons (.pod _) (.cons (.pod _) .nil))

theorem lookup_cmd2ParseFunc : cmd2ParseFunc.lookup EntityMethod.login.name = some processLogin ∧
    cmd2ParseFunc.lookup EntityMethod.createRole.name = some processCreateRole ∧
    cmd2ParseFunc.lookup EntityMethod.incomeResource.name = some processIncomeResource ∧
    cmd2ParseFunc.lookup EntityMethod.buildBuilding.name = some processBuildBuilding ∧
    cmd2ParseFunc.lookup EntityMethod.upBuildingLevel.name = some processUpBuildingLevel := ⟨rfl, rfl, rfl, rfl, rfl⟩

/-- A command is run with the fields of its packet, unless one of its strings cannot be stored. -/
theorem processWsPacket_eq (h : Asks readJson packet json method) :
    g.processWsPacket readJson clientId packet =
      if ∃ s ∈ texts json method, Unstorable s then none
      else (if method = .login then g.onClientConnect clientId else some g).bind fun g =>
        g.called clientId method (fields json method) := by
  have hfunc : ∀ func, cmd2ParseFunc.lookup method.name = some func →
      g.processWsPacket readJson clientId packet = func g clientId json := by
    intro func hfunc
    rw [processWsPacket, h.parsed]
    simp only [h.named, Option.bind_some, hfunc]
  obtain ⟨hlogin, hcreate, hincome, hbuild, hup⟩ := lookup_cmd2ParseFunc
  have hcommand := h.command
  simp only [wsCommands, List.mem_cons, List.not_mem_nil, or_false] at hcommand
  rcases hcommand with rfl | rfl | rfl | rfl | rfl
  · rw [hfunc _ hlogin, processLogin_eq, if_pos rfl]
  · rw [hfunc _ hcreate, processCreateRole_eq]
    rfl
  · rw [hfunc _ hincome, processIncomeResource_eq, if_neg (by simp [texts])]
    rfl
  · rw [hfunc _ hbuild, processBuildBuilding_eq, if_neg (by simp [texts])]
    rfl
  · rw [hfunc _ hup, processUpBuildingLevel_eq, if_neg (by simp [texts])]
    rfl

/-- A packet that asks for no command changes nothing. -/
theorem processWsPacket_of_not_asks (h : ∀ json method, ¬ Asks readJson packet json method) :
    g.processWsPacket readJson clientId packet = some g := by
  rw [processWsPacket]
  cases hjson : readJson packet with
  | none => rfl
  | some json =>
      have hcmd : ((json.get? (ascii "cmd")).bind fun cmd => cmd2ParseFunc.lookup cmd) = none := by
        rw [Option.eq_none_iff_forall_ne_some]
        intro func hfunc
        obtain ⟨cmd, hcmd, hlookup⟩ := Option.bind_eq_some_iff.mp hfunc
        have hmem := mem_of_lookup hlookup
        simp only [cmd2ParseFunc, ascii_names, List.mem_cons, Prod.mk.injEq, List.not_mem_nil, or_false] at hmem
        have hasks : ∀ method ∈ wsCommands, cmd = method.name → False := by
          rintro method hcommand rfl
          exact h json method ⟨hjson, hcommand, hcmd⟩
        rcases hmem with ⟨rfl, _⟩ | ⟨rfl, _⟩ | ⟨rfl, _⟩ | ⟨rfl, _⟩ | ⟨rfl, _⟩
        all_goals exact hasks _ (by decide) rfl
      simp only [hcmd]

/-! ## Where calls go -/

/-- The connection is that to a game which is registered under the id. -/
def Registered (g : WsGate) (processId : UInt16) (handler : SocketIndex) : Prop :=
  ∃ c client, g.registry.getClientByProcessId .game processId = some c ∧ g.registry.client? c = some client ∧
    client.handler = some handler

theorem route?_eq_some {handler : SocketIndex} :
    g.route? clientId = some (some handler) ↔ Registered g (g.server.getProcessIdByClientId clientId) handler := by
  rw [route?, Registered, getClientByClientId]
  cases g.registry.getClientByProcessId .game (g.server.getProcessIdByClientId clientId) with
  | none => simp
  | some c => simp [Option.bind_eq_some_iff]

theorem called_cases {vs : List Value} (h : g.called clientId method vs = some g') :
    g' = g ∨ ∃ handler, Registered g (g.server.getProcessIdByClientId clientId) handler ∧
      g' = { g with sent := g.sent ++
        [(clientId, ⟨handler, RpcClient.transferImage clientId.toNat (rpcImage method.name vs)⟩)] } := by
  obtain ⟨route, hroute, h⟩ := Option.bind_eq_some_iff.mp h
  cases route with
  | none =>
      cases h
      exact .inl rfl
  | some handler =>
      simp only [Option.ite_none_right_eq_some, Option.some.injEq] at h
      exact .inr ⟨handler, route?_eq_some.mp hroute, h.2.symm⟩

/-- A login binds the client to a game that is registered, if there is one, and changes nothing else. -/
theorem onClientConnect_spec (g : WsGate) (clientId : UInt64) : ∃ processId random,
    g.onClientConnect clientId =
      some { g with server := g.server.onClientConnect clientId processId, random := random } ∧
    ((g.registry.getClientByProcessId .game processId).isSome ∨
      ∀ processId', g.registry.getClientByProcessId .game processId' = none) := by
  obtain ⟨processId, random, hdraw, hcases⟩ :=
    RpcRegistry.getRandomProcessId_spec g.registry.own.keyed g.random .game
  exact ⟨processId, random, by rw [onClientConnect, hdraw, Option.map_some], hcases.imp_right And.right⟩

theorem getProcessIdByClientId_onClientConnect (server : GateServer) (clientId : UInt64) (processId : UInt16) :
    (server.onClientConnect clientId processId).getProcessIdByClientId clientId = processId := by
  simp [GateServer.onClientConnect, GateServer.getProcessIdByClientId]

/-- A command with arguments that fit goes out. -/
theorem step_command {g₁ : WsGate} {handler : SocketIndex} (h : Asks readJson packet json method)
    (hstorable : ∀ s ∈ texts json method, ¬ Unstorable s)
    (hsize : (rpcImage method.name (fields json method)).length ≤ sizeofBuffer)
    (hconnect : (if method = .login then g.onClientConnect clientId else some g) = some g₁)
    (hroute : g₁.route? clientId = some (some handler)) : g.step readJson (.packet clientId packet) = some
      { g₁ with sent := g₁.sent ++ [(clientId,
        ⟨handler, RpcClient.transferImage clientId.toNat (rpcImage method.name (fields json method))⟩)] } := by
  rw [step, processWsPacket_eq h, if_neg (by push Not; exact hstorable), hconnect, Option.bind_some, called, hroute]
  exact if_pos hsize

/-! ## The calls of a run -/

/-- The calls that a step asks for. -/
inductive Calls (readJson : List UInt8 → Option Ptree) (g : WsGate) :
    WsGateLabel → UInt64 → EntityMethod → List Value → Prop
  | command {clientId : UInt64} {packet : List UInt8} {json : Ptree} {method : EntityMethod} :
      Asks readJson packet json method → Calls readJson g (.packet clientId packet) clientId method (fields json method)
  | close {clientId : UInt64} :
      (g.server.client2Process clientId).isSome → Calls readJson g (.close clientId) clientId .disconnectClient []
  | clientClose {clientId : UInt64} :
      (g.server.client2Process clientId).isSome → Calls readJson g (.clientClose clientId) clientId .disconnectClient []

theorem fields_counted {v : Value} (h : v ∈ fields json method) : v.Counted := by
  rcases List.mem_append.mp h with h | h
  · have hpod : ∀ {n : Nat} {x : Pod n}, v = .pod x → v.Counted := by
      rintro n x rfl
      trivial
    cases method with
    | login | createRole | incomeResource | upBuildingLevel => exact hpod (List.mem_singleton.mp h)
    | buildBuilding =>
        rcases List.mem_pair.mp h with h | h
        · exact hpod h
        · exact hpod h
    | _ => cases h
  · obtain ⟨s, _, rfl⟩ := List.mem_map.mp h
    show (DynamicString.taken s).length < 65536
    rw [DynamicString.taken_length]
    exact Nat.mod_lt _ (by decide)

theorem asks_types (h : Asks readJson packet json method) :
    method.isClientCommand = true ∧ (fields json method).map Value.type = method.commandTypes := by
  have hcommand := h.command
  simp only [wsCommands, List.mem_cons, List.not_mem_nil, or_false] at hcommand
  rcases hcommand with rfl | rfl | rfl | rfl | rfl <;> exact ⟨rfl, rfl⟩

/-- What is asked for is a command with arguments of its types. -/
theorem Calls.types {label : WsGateLabel} {vs : List Value} (h : Calls readJson g label clientId method vs) :
    method.isClientCommand = true ∧ vs.map Value.type = method.commandTypes ∧ ∀ v ∈ vs, v.Counted := by
  cases h with
  | command hasks => exact ⟨(asks_types hasks).1, (asks_types hasks).2, fun v hv => fields_counted hv⟩
  | close _ | clientClose _ => exact ⟨rfl, rfl, nofun⟩

/-- The packet was sent for a call of the step, to a game: a login to any, other calls to the client's. Whatever runs
    there is the method of the call, on the client's own entity, with the values of the call. -/
def SentFor (readJson : List UInt8 → Option Ptree) (x : WsGate × WsGateLabel) (o : UInt64 × PacketSendInfo) : Prop :=
  ∃ method vs processId, Calls readJson x.1 x.2 o.1 method vs ∧ Registered x.1 processId o.2.socketIndex ∧
    (method ≠ .login → processId = x.1.server.getProcessIdByClientId o.1) ∧
    ∀ (game : GameProcess) link rest r, game.dispatch.handlePacket link (received (o.2.buffer ++ rest)) = some (some r) →
      r.method = method ∧ Answers game o.1 method r.entityId ∧ List.Forall₂ Param.Holds r.args vs

theorem sentFor_called {label : WsGateLabel} {vs : List Value} {handler : SocketIndex} {processId : UInt16}
    (hcalls : Calls readJson g label clientId method vs) (hreg : Registered g processId handler)
    (hroute : method ≠ .login → processId = g.server.getProcessIdByClientId clientId) :
    SentFor readJson (g, label)
      (clientId, ⟨handler, RpcClient.transferImage clientId.toNat (rpcImage method.name vs)⟩) := by
  obtain ⟨hcommand, htypes, hcounted⟩ := hcalls.types
  refine ⟨method, vs, processId, hcalls, hreg, hroute, fun game link rest r hrun => ?_⟩
  obtain ⟨hmethod, hanswers, hholds, _⟩ := (call_runs game clientId hcommand hcounted htypes link rest).1 r hrun
  exact ⟨hmethod, hanswers, hholds⟩

/-- A client that is closed is logged out. -/
theorem onClientDisconnect_sent {label : WsGateLabel}
    (hcalls : (g.server.client2Process clientId).isSome → Calls readJson g label clientId .disconnectClient [])
    (h : g.onClientDisconnect clientId = some g') :
    g'.sent = g.sent ∨ ∃ o, g'.sent = g.sent ++ [o] ∧ SentFor readJson (g, label) o := by
  rw [onClientDisconnect] at h
  split at h
  · rename_i hbound
    simp only [ascii_names, callServer_eq .nil] at h
    obtain ⟨g₁, hcalled, rfl⟩ := Option.map_eq_some_iff.mp h
    rcases called_cases hcalled with rfl | ⟨handler, hreg, rfl⟩
    · exact .inl rfl
    · exact .inr ⟨_, rfl, sentFor_called (hcalls hbound) hreg fun _ => rfl⟩
  · cases h
    exact .inl rfl

theorem connection_sent {label : WsGateLabel} (h : g.connection label = some g') : g'.sent = g.sent := by
  rw [connection] at h
  split at h
  · obtain ⟨registry, _, rfl⟩ := Option.map_eq_some_iff.mp h
    rfl
  · cases h
    rfl

/-- A step sends one packet at most. -/
theorem step_sent {label : WsGateLabel} (h : g.step readJson label = some g') :
    g'.sent = g.sent ∨ ∃ o, g'.sent = g.sent ++ [o] ∧ SentFor readJson (g, label) o := by
  cases label with
  | packet clientId packet =>
      rw [step] at h
      by_cases hasks : ∃ json method, Asks readJson packet json method
      · obtain ⟨json, method, hasks⟩ := hasks
        rw [processWsPacket_eq hasks] at h
        split at h
        · cases h
        by_cases hlogin : method = .login
        · subst hlogin
          obtain ⟨processId, random, hconnect, _⟩ := g.onClientConnect_spec clientId
          rw [if_pos rfl, hconnect, Option.bind_some] at h
          rcases called_cases h with rfl | ⟨handler, hreg, rfl⟩
          · exact .inl rfl
          · exact .inr ⟨_, rfl, sentFor_called (.command hasks) hreg fun hne => absurd rfl hne⟩
        · rw [if_neg hlogin, Option.bind_some] at h
          rcases called_cases h with rfl | ⟨handler, hreg, rfl⟩
          · exact .inl rfl
          · exact .inr ⟨_, rfl, sentFor_called (.command hasks) hreg fun _ => rfl⟩
      · rw [processWsPacket_of_not_asks fun json method hasks' => hasks ⟨json, method, hasks'⟩] at h
        cases h
        exact .inl rfl
  | close clientId => exact onClientDisconnect_sent Calls.close h
  | clientInit clientId remote =>
      obtain ⟨g₁, hconnection, h⟩ := Option.bind_eq_some_iff.mp h
      obtain ⟨processId, random, hconnect, _⟩ := g₁.onClientConnect_spec clientId
      rw [hconnect] at h
      cases h
      have hsent : g₁.sent = g.sent := connection_sent hconnection
      exact .inl hsent
  | clientClose clientId =>
      obtain ⟨g₁, hdisconnect, h⟩ := Option.bind_eq_some_iff.mp h
      rw [connection_sent h]
      exact onClientDisconnect_sent Calls.clientClose hdisconnect
  | serverInit _ _ | registerServer _ _ | serverClose _ =>
      rw [step] at h
      exact .inl (connection_sent h)
  | updateClientProcessInfo _ _ | randUint =>
      cases h
      exact .inl rfl

/-- **What web socket clients can call.** In every run of a gate the packets that are sent for its clients are those of
    some of its steps, in their order, one each: commands that a client's own packet asked for, with the fields of the
    packet, or the logout of a client that is closed. Nothing else can run in a game for them. -/
theorem ws_calls_only {labels : List WsGateLabel} (hrun : run (step readJson) g labels = some g') :
    ∃ causes sent, g'.sent = g.sent ++ sent ∧ causes.Sublist (trail (step readJson) g labels) ∧
      List.Forall₂ (SentFor readJson) causes sent :=
  outputs_of_trail (fun h => step_sent h) hrun

/-- The connection 9, over which the game 3 has registered. -/
def gameRegistry? : Option GateRegistry :=
  (GateRegistry.init.step (.serverInit 9 RpcWrapper.peer)).bind fun x =>
  x.step (.registerServer 9 ⟨.game, 3, RpcWrapper.peer⟩)

/-- A gate with one game, and no client yet. -/
def oneGame : WsGate where
  server := { serverId := 1 }
  registry := gameRegistry?.get (by decide)
  random := ⟨1, 2, 3⟩

theorem oneGame_registered : Registered oneGame 3 9 := ⟨0, ⟨some 9, []⟩, by decide, rfl, rfl⟩

/-- The gate with its client. -/
def boundGate (random : GameRandom) (sent : List (UInt64 × PacketSendInfo)) : WsGate where
  server := oneGame.server.onClientConnect 5 3
  registry := oneGame.registry
  random := random
  sent := sent

theorem boundGate_route (random : GameRandom) (sent : List (UInt64 × PacketSendInfo)) :
    (boundGate random sent).route? 5 = some (some 9) := by
  rw [route?_eq_some, boundGate, getProcessIdByClientId_onClientConnect]
  exact oneGame_registered

theorem oneGame_connect : ∃ random, oneGame.onClientConnect 5 = some (boundGate random []) := by
  have hdraw : (oneGame.registry.registry.getRandomProcessId oneGame.random .game).map Prod.fst = some 3 := by
    decide +kernel
  obtain ⟨⟨processId, random⟩, hdraw, rfl⟩ := Option.map_eq_some_iff.mp hdraw
  refine ⟨random, ?_⟩
  rw [onClientConnect, hdraw, Option.map_some]
  rfl

def loginText : List UInt8 :=
  ascii "\x7b\"cmd\": \"login\", \"user_id\": \"ab\", \"token\": \"xyz\", \"platform_id\": 2\x7d"

def incomeText : List UInt8 := ascii "\x7b\"cmd\": \"income_resource\", \"index\": 7\x7d"

def loginJson : Ptree :=
  .node [] [(ascii "cmd", .node (ascii "login") []), (ascii "user_id", .node (ascii "ab") []),
    (ascii "token", .node (ascii "xyz") []), (ascii "platform_id", .node (ascii "2") [])]

def incomeJson : Ptree :=
  .node [] [(ascii "cmd", .node (ascii "income_resource") []), (ascii "index", .node (ascii "7") [])]

/-- A reader, on these two texts. -/
def readTwo (packet : List UInt8) : Option Ptree :=
  if packet = loginText then some loginJson else if packet = incomeText then some incomeJson else none

theorem asks_login : Asks readTwo loginText loginJson .login := ⟨if_pos rfl, by decide, by decide +kernel⟩

theorem asks_income : Asks readTwo incomeText incomeJson .incomeResource :=
  ⟨(if_neg (by decide +kernel)).trans (if_pos rfl), by decide, by decide +kernel⟩

theorem login_storable : ∀ s ∈ texts loginJson .login, ¬ Unstorable s := by decide +kernel

theorem income_storable : ∀ s ∈ texts incomeJson .incomeResource, ¬ Unstorable s := nofun

theorem login_fits : (rpcImage EntityMethod.login.name (fields loginJson .login)).length ≤ sizeofBuffer := by
  decide +kernel

theorem income_fits :
    (rpcImage EntityMethod.incomeResource.name (fields incomeJson .incomeResource)).length ≤ sizeofBuffer := by
  decide +kernel

/-- A client logs in, takes its income, and leaves: three packets. -/
theorem ws_calls_only_three : ∃ g', run (step readTwo) oneGame [.packet 5 loginText, .packet 5 incomeText, .close 5] =
      some g' ∧ g'.sent.length = 3 ∧
    ∃ causes sent, g'.sent = oneGame.sent ++ sent ∧
      causes.Sublist (trail (step readTwo) oneGame [.packet 5 loginText, .packet 5 incomeText, .close 5]) ∧
      List.Forall₂ (SentFor readTwo) causes sent := by
  obtain ⟨random, hconnect⟩ := oneGame_connect
  obtain ⟨sent₁, hsent₁, hlogin⟩ : ∃ sent, sent.length = 1 ∧
      oneGame.step readTwo (.packet 5 loginText) = some (boundGate random sent) :=
    ⟨_, rfl, step_command asks_login login_storable login_fits ((if_pos rfl).trans hconnect) (boundGate_route random [])⟩
  obtain ⟨sent₂, hsent₂, hincome⟩ : ∃ sent, sent.length = sent₁.length + 1 ∧
      (boundGate random sent₁).step readTwo (.packet 5 incomeText) = some (boundGate random sent) :=
    ⟨_, List.length_append, step_command asks_income income_storable income_fits (if_neg (by decide))
      (boundGate_route random sent₁)⟩
  obtain ⟨g', hlength, hclose⟩ : ∃ g', g'.sent.length = sent₂.length + 1 ∧
      (boundGate random sent₂).step readTwo (.close 5) = some g' := by
    rw [step, onClientDisconnect, if_pos (by rfl)]
    simp only [ascii_names, callServer_eq .nil, called, boundGate_route, Option.bind_some]
    rw [if_pos (by decide)]
    exact ⟨_, List.length_append, rfl⟩
  have hrun : run (step readTwo) oneGame [.packet 5 loginText, .packet 5 incomeText, .close 5] = some g' := by
    rw [run, hlogin, Option.bind_some, run, hincome, Option.bind_some, run, hclose]
    rfl
  exact ⟨g', hrun, by rw [hlength, hsent₂, hsent₁], ws_calls_only hrun⟩

/-! ## A command that runs -/

/-- There is a game for the call: any for a login, and the client's for the other commands. -/
def HasGame (g : WsGate) (clientId : UInt64) (method : EntityMethod) : Prop :=
  if method = .login then ∃ processId, (g.registry.getClientByProcessId .game processId).isSome
  else (g.registry.getClientByProcessId .game (g.server.getProcessIdByClientId clientId)).isSome

/-- Where a command is called, the client has a game if there was one for the call. -/
theorem connected_spec (g : WsGate) (clientId : UInt64) (method : EntityMethod) : ∃ g₁,
    (if method = .login then g.onClientConnect clientId else some g) = some g₁ ∧ g₁.sent = g.sent ∧
      g₁.registry = g.registry ∧ ((g₁.getClientByClientId clientId).isSome ↔ HasGame g clientId method) := by
  by_cases hlogin : method = .login
  · obtain ⟨processId, random, hconnect, hcases⟩ := g.onClientConnect_spec clientId
    refine ⟨{ g with server := g.server.onClientConnect clientId processId, random := random },
      by rw [if_pos hlogin, hconnect], rfl, rfl, ?_⟩
    rw [HasGame, if_pos hlogin, getClientByClientId, getProcessIdByClientId_onClientConnect]
    constructor
    · exact fun hsome => ⟨processId, hsome⟩
    · rintro ⟨processId', hsome⟩
      rcases hcases with hsome | hnone
      · exact hsome
      · rw [hnone] at hsome
        cases hsome
  · refine ⟨g, if_neg hlogin, rfl, rfl, ?_⟩
    rw [HasGame, if_neg hlogin, getClientByClientId]

theorem answers_unique {game : GameProcess} {e e' : EntityId} (h : Answers game clientId method e)
    (h' : Answers game clientId method e') : e = e' := by
  unfold Answers at h h'
  split at h
  · rename_i hbound
    rw [if_pos hbound] at h'
    exact h.1.trans h'.1.symm
  · rename_i hfree
    rw [if_neg hfree] at h'
    exact h.2.trans h'.2.symm

/-- **A command comes through.** On a gate where no deleted client is registered, a packet that asks for a command, with
    strings that can be stored and arguments that fit a packet, is sent to the client's game, after a login to a game
    that is registered; and the command runs there exactly if the game answers it and the strings are short. -/
theorem ws_command_runs (hlinked : g.registry.Linked) (h : Asks readJson packet json method)
    (hstorable : ∀ s ∈ texts json method, ¬ Unstorable s)
    (hsize : (rpcImage method.name (fields json method)).length ≤ sizeofBuffer) (hgame : HasGame g clientId method) :
    ∃ g' handler buffer, g.step readJson (.packet clientId packet) = some g' ∧
      g'.sent = g.sent ++ [(clientId, ⟨handler, buffer⟩)] ∧
      Registered g (g'.server.getProcessIdByClientId clientId) handler ∧
      ∀ (game : GameProcess) link rest entityId,
        (∃ r, game.dispatch.handlePacket link (received (buffer ++ rest)) = some (some r) ∧ r.entityId = entityId) ↔
          Answers game clientId method entityId ∧ ∀ v ∈ fields json method, v.Pushable := by
  obtain ⟨g₁, hconnect, hsent, hregistry, hiff⟩ := connected_spec g clientId method
  obtain ⟨c, hc⟩ := Option.isSome_iff_exists.mp (hiff.mpr hgame)
  have hc' : g.registry.getClientByProcessId .game (g₁.server.getProcessIdByClientId clientId) = some c := hregistry ▸ hc
  obtain ⟨client, handler, hclient, hhandler⟩ := hlinked.client? hc'
  have hroute : g₁.route? clientId = some (some handler) :=
    route?_eq_some.mpr ⟨c, client, hc, hregistry ▸ hclient, hhandler⟩
  let buffer := RpcClient.transferImage clientId.toNat (rpcImage method.name (fields json method))
  refine ⟨{ g₁ with sent := g₁.sent ++ [(clientId, ⟨handler, buffer⟩)] }, handler, buffer, ?_, ?_,
    ⟨c, client, hc', hclient, hhandler⟩, fun game link rest entityId => ?_⟩
  · exact step_command h hstorable hsize hconnect hroute
  · exact congrArg (· ++ _) hsent
  · obtain ⟨hcommand, htypes⟩ := asks_types h
    obtain ⟨hsound, hcomplete⟩ := call_runs game clientId hcommand
      (fun v hv => fields_counted hv) htypes link rest
    constructor
    · rintro ⟨r, hrun, rfl⟩
      exact ⟨(hsound r hrun).2.1, (hsound r hrun).2.2.2⟩
    · rintro ⟨hanswers, hpush⟩
      obtain ⟨r, hrun⟩ := hcomplete entityId hanswers hpush
      exact ⟨r, hrun, answers_unique (hsound r hrun).2.1 hanswers⟩

theorem oneGame_linked : oneGame.registry.Linked := by
  intro k c hk
  have hentries : oneGame.registry.registry.processId2Client = [(keyIdByProcessId .game 3, 0)] := by decide
  rw [hentries] at hk
  cases List.mem_singleton.mp hk
  exact ⟨⟨some 9, []⟩, 9, rfl, rfl, by decide⟩

theorem ws_command_runs_login : ∃ g' handler buffer, oneGame.step readTwo (.packet 5 loginText) = some g' ∧
    g'.sent = oneGame.sent ++ [(5, ⟨handler, buffer⟩)] ∧ Registered oneGame (g'.server.getProcessIdByClientId 5) handler ∧
    ∀ (game : GameProcess) link rest entityId,
      (∃ r, game.dispatch.handlePacket link (received (buffer ++ rest)) = some (some r) ∧ r.entityId = entityId) ↔
        Answers game 5 .login entityId ∧ ∀ v ∈ fields loginJson .login, v.Pushable :=
  ws_command_runs oneGame_linked asks_login login_storable login_fits ⟨3, by decide⟩

/-! ## When a gate stays up -/

/-- What happens to the connections is orderly. -/
def Orderly (g : WsGate) (label : WsGateLabel) : Prop :=
  ∀ l, label.connection? = some l → g.registry.Orderly l

end WsGate

end Mowang
