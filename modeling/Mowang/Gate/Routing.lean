import Mowang.Game.Bindings
import Mowang.Gate.GateServer

/-!
# `Gate.Routing` — the route of a client, and its entity

The gate keeps the game process of each client in `m_client_2_process`, and sends the client's commands there; the
process keeps the client's entity in `m_client_2_entity`. `Cluster` is the gates and the games with what is in flight
between them, and a run is any order of connections, commands, deliveries, answers and closes.

Nothing makes the two maps agree. Each login picks a process anew, wherever the client has an entity; a role that takes
over another client after a relay sends `update_client_process_info`, but the gate looks the client up under the index
of the connection the call came over; and a role outlives its client, for `role::logout` does nothing. `OnRoute` says of
a step that it does none of this, and `routed_along` that the maps then agree.

## Contents
- `Servers`, `GateCommand`, `Forwarded`, `Cluster`, `Cluster.step`.
- `Routed`, `Expects`, `OnRoute`.
- `RoutingInv` and what each step does to it; `routed_along`, and the run of a relay that breaks the route.
-/

namespace Mowang

/-- An RPC by name that a gate sends to a game for a client. -/
inductive GateCommand where
  | login
  | createRole (sex : UInt8) (roleName : List UInt8)
  | disconnectClient
  | game (cmd : GameCommand)
  deriving DecidableEq

/-- What the game makes of it: a login takes a node for a new account, and what its memory holds. -/
def GateCommand.toClient (node accountId roleId : Nat) : GateCommand → ClientCommand
  | .login                   => .login node accountId roleId
  | .createRole sex roleName => .createRole sex roleName
  | .disconnectClient        => .disconnectClient
  | .game cmd                => .game cmd

/-- The game processes of a server: the rpc clients that its gates have for them, by process id, and the process info
    that each has of itself. -/
structure Servers where
  games : List (UInt16 × Address)
  info : Address → GameProcessInfo
  invalid : games.lookup invalidProcessId = none

/-- `get_random_process_id(PROCESS_GAME)` may be `processId`. -/
def Servers.Picks (s : Servers) (processId : UInt16) : Prop :=
  if s.games = [] then processId = invalidProcessId else (s.games.lookup processId).isSome

instance (s : Servers) (processId : UInt16) : Decidable (s.Picks processId) := by
  unfold Servers.Picks
  infer_instance

/-- The gate that a client id names. -/
def gateId (clientId : UInt64) : UInt16 := ((clientId >>> 40) &&& 0xFFFF).toUInt16

/-- A transfer packet on its way to a game process. -/
structure Forwarded where
  clientId : UInt64
  process : Address
  cmd : GateCommand
  deriving DecidableEq

/-- The connection that it is on. -/
def Forwarded.link (x : Forwarded) : UInt16 × Address := (gateId x.clientId, x.process)

/-- The gates and the games of a server. A client id has the id of its gate in its bits, so the maps of all gates are
    one map. -/
structure Cluster where
  gate : GateServer
  game : Game
  toGame : List Forwarded := []
  /-- The calls of `update_client_process_info` that have not arrived. -/
  toGate : List GameProcessInfo := []

inductive ClusterLabel where
  /-- A TCP client connects; `processId` is picked. Of a web socket client the gate takes no notice yet. -/
  | connect (clientId : UInt64) (processId : UInt16)
  /-- A web socket client logs in. -/
  | login (clientId : UInt64) (processId : UInt16)
  /-- Another command of a web socket client, or any command of a TCP client. -/
  | command (clientId : UInt64) (cmd : GateCommand)
  | close (clientId : UInt64)
  /-- The packet at this place arrives. -/
  | receive (i : Nat) (now : UInt32) (node accountId roleId : Nat)
  /-- A delivery, an answer, a timer or a clean-up of the games. -/
  | game (l : GameLabel)
  /-- The call at this place of `toGate` arrives, over the connection with this index. -/
  | updateClientProcessInfo (i : Nat) (socketIndex : UInt64)
  deriving DecidableEq

namespace Cluster

variable {s : Servers}

/-- `get_client_by_client_id`. -/
def getClientByClientId (s : Servers) (w : Cluster) (clientId : UInt64) : Option Address :=
  s.games.lookup (w.gate.getProcessIdByClientId clientId)

/-- `call_server` and `transfer_server`: without an rpc client the command is dropped. -/
def callServer (s : Servers) (w : Cluster) (clientId : UInt64) (cmd : GateCommand) : Cluster :=
  match w.getClientByClientId s clientId with
  | some p => { w with toGame := w.toGame ++ [⟨clientId, p, cmd⟩] }
  | none   => w

/-- `on_client_connect`. -/
def onClientConnect (w : Cluster) (clientId : UInt64) (processId : UInt16) : Cluster :=
  { w with gate := w.gate.onClientConnect clientId processId }

/-- `on_client_disconnect`. -/
def onClientDisconnect (s : Servers) (w : Cluster) (clientId : UInt64) : Cluster :=
  if (w.gate.client2Process clientId).isSome then
    { w.callServer s clientId .disconnectClient with gate := w.gate.onClientDisconnect clientId }
  else w

/-- What the step sends to a gate: `role::on_relay_login` ends with a call to the gate of its new client. -/
def relayed (s : Servers) (g : Game) : GameLabel → List GameProcessInfo
  | .deliver i =>
    match g.calls[i]? with
    | some (.onRelayLogin target (some _)) =>
      match g.target target with
      | .object this (.role _) => [s.info this.address]
      | _                      => []
    | _ => []
  | _ => []

def step (cfg : Config) (s : Servers) (w : Cluster) : ClusterLabel → Option Cluster
  | .connect clientId processId =>
    if s.Picks processId then some (w.onClientConnect clientId processId) else none
  | .login clientId processId =>
    if s.Picks processId then some ((w.onClientConnect clientId processId).callServer s clientId .login) else none
  | .command clientId cmd => some (w.callServer s clientId cmd)
  | .close clientId       => some (w.onClientDisconnect s clientId)
  | .receive i now node accountId roleId =>
    (w.toGame[i]?).bind fun x =>
    -- a connection keeps the order of its packets
    if (w.toGame.take i).all (·.link ≠ x.link) then
      (w.game.clientCommand cfg x.process x.clientId.toNat now (x.cmd.toClient node accountId roleId)).map fun g =>
        { w with game := g, toGame := w.toGame.eraseIdx i }
    else none
  | .game (.client _ _ _ _) => none
  | .game l =>
    (w.game.step cfg l).map fun g => { w with game := g, toGate := w.toGate ++ relayed s w.game l }
  | .updateClientProcessInfo i socketIndex =>
    (w.toGate[i]?).map fun info =>
      { w with gate := w.gate.updateClientProcessInfo socketIndex info, toGate := w.toGate.eraseIdx i }

def init (serverId : UInt16) (entityId : Address → Nat) : Cluster :=
  { gate := { serverId := serverId }, game := Game.init entityId }

/-! ## Routes and entities -/

/-- No message is in flight. Operations of the database may be. -/
def Quiet (w : Cluster) : Prop := w.toGame = [] ∧ w.toGate = [] ∧ w.game.calls = []

/-- `m_client_2_process` names process `p` for the client. -/
def Names (s : Servers) (w : Cluster) (clientId : UInt64) (p : Address) : Prop :=
  ∃ info, w.gate.client2Process clientId = some info ∧ s.games.lookup info.processId = some p

/-- The route of the client is that of the entity at `m`, to which it is bound: its commands and its disconnect go to
    the process of the entity, and there to the entity. -/
structure Follows (cfg : Config) (s : Servers) (w : Cluster) (clientId : UInt64) (m : Mailbox) : Prop where
  names : w.Names s clientId m.address
  sends : ∀ cmd, w.callServer s clientId cmd = { w with toGame := w.toGame ++ [⟨clientId, m.address, cmd⟩] }
  closes : (w.onClientDisconnect s clientId).toGame = w.toGame ++ [⟨clientId, m.address, .disconnectClient⟩]
  reaches : ∀ now cmd, w.game.clientCommand cfg m.address clientId.toNat now cmd = w.game.entityCommand cfg m now cmd
  object : ∃ e, w.game.entities m = some e ∧ w.game.target m = .object m e

/-- The routes of all clients are those of their entities. -/
def Routed (cfg : Config) (s : Servers) (w : Cluster) : Prop :=
  ∀ clientId m, w.game.Bound clientId.toNat m → w.Follows cfg s clientId m

/-- The commands of the client that are on their way to process `p`. -/
def queue (w : Cluster) (clientId : UInt64) (p : Address) : List GateCommand :=
  (w.toGame.filter fun x => x.clientId = clientId ∧ x.process = p).map (·.cmd)

/-- Process `p` has an entity for the client. -/
def Holds (g : Game) (clientId : Nat) (p : Address) : Prop := ∃ entityId, g.Bound clientId ⟨p, entityId⟩

/-- Whether a client may have an entity after the command, that has one before it if `held`. -/
def leaves (held : Prop) : GateCommand → Prop
  | .login            => True
  | .disconnectClient => False
  | _                 => held

/-- Process `p` may have an entity for the client once the commands on their way have arrived. -/
def Expects (w : Cluster) (clientId : UInt64) (p : Address) : Prop :=
  (w.queue clientId p).foldl leaves (Holds w.game clientId.toNat p)

/-- No step parts a client from its entity: a process that is picked, or that is taken for that of the client with the
    index of the connection, is the one that has or will have its entity; and a client that gets an entity, or keeps
    one that outlives its disconnect, has a route to it or another disconnect on its way. -/
def OnRoute (s : Servers) (w : Cluster) : ClusterLabel → Prop
  | .connect clientId processId | .login clientId processId =>
    ∀ p, w.Expects clientId p → s.games.lookup processId = some p
  | .updateClientProcessInfo i socketIndex =>
    ∀ info p, w.toGate[i]? = some info → w.Expects socketIndex p → s.games.lookup info.processId = some p
  | .receive i _ _ _ _ =>
    ∀ x entityId r, w.toGame[i]? = some x → x.cmd = .disconnectClient →
      w.game.Bound x.clientId.toNat ⟨x.process, entityId⟩ → w.game.entities ⟨x.process, entityId⟩ = some (.role r) →
      (w.queue x.clientId x.process).tail.foldl leaves True → w.Names s x.clientId x.process
  | .game l =>
    ∀ clientId p, w.game.Binds l p clientId.toNat → (w.queue clientId p).foldl leaves True → w.Names s clientId p
  | _ => True

/-! ## Queues -/

theorem leaves_mono {held held' : Prop} (h : held → held') (queue : List GateCommand) :
    queue.foldl leaves held → queue.foldl leaves held' := by
  induction queue generalizing held held' with
  | nil => exact h
  | cons cmd queue ih =>
      apply ih
      cases cmd with
      | login | disconnectClient => exact id
      | createRole | game => exact h

theorem queue_append (w : Cluster) (x : Forwarded) (clientId : UInt64) (p : Address) :
    { w with toGame := w.toGame ++ [x] }.queue clientId p =
      if x.clientId = clientId ∧ x.process = p then w.queue clientId p ++ [x.cmd] else w.queue clientId p := by
  simp only [queue, List.filter_append, List.map_append]
  split
  · rename_i hx
    simp [hx.1, hx.2]
  · rename_i hx
    simp [hx]

/-- A packet that arrives, before those that are on its connection behind it. -/
theorem toGame_split {w : Cluster} {i : Nat} {x : Forwarded} (hx : w.toGame[i]? = some x) :
    w.toGame = w.toGame.take i ++ x :: w.toGame.drop (i + 1) ∧
      w.toGame.eraseIdx i = w.toGame.take i ++ w.toGame.drop (i + 1) := by
  obtain ⟨hi, hget⟩ := List.getElem?_eq_some_iff.mp hx
  refine ⟨?_, List.eraseIdx_eq_take_drop_succ _ _⟩
  rw [← hget, List.getElem_cons_drop, List.take_append_drop]

/-- It was the first from its client to its process. -/
theorem queue_receive {w : Cluster} {i : Nat} {x : Forwarded} (hx : w.toGame[i]? = some x)
    (hfirst : ∀ y ∈ w.toGame.take i, y.link ≠ x.link) (g : Game) :
    w.queue x.clientId x.process =
      x.cmd :: { w with game := g, toGame := w.toGame.eraseIdx i }.queue x.clientId x.process := by
  obtain ⟨hsplit, herased⟩ := toGame_split hx
  have hnone : (w.toGame.take i).filter (fun y => y.clientId = x.clientId ∧ y.process = x.process) = [] := by
    rw [List.filter_eq_nil_iff]
    intro y hy hsame
    obtain ⟨hclient, hprocess⟩ := of_decide_eq_true hsame
    exact hfirst y hy (by simp only [Forwarded.link, hclient, hprocess])
  simp only [queue]
  rw [herased, List.filter_append, hnone, List.nil_append]
  conv_lhs => rw [hsplit]
  rw [List.filter_append, hnone, List.nil_append, List.filter_cons_of_pos (by simp), List.map_cons]

theorem queue_receive_other {w : Cluster} {i : Nat} {x : Forwarded} (hx : w.toGame[i]? = some x) (g : Game)
    {clientId : UInt64} {p : Address} (hne : ¬ (x.clientId = clientId ∧ x.process = p)) :
    { w with game := g, toGame := w.toGame.eraseIdx i }.queue clientId p = w.queue clientId p := by
  obtain ⟨hsplit, herased⟩ := toGame_split hx
  simp only [queue]
  rw [herased]
  conv_rhs => rw [hsplit]
  rw [List.filter_append, List.filter_append, List.filter_cons_of_neg (by simpa using hne)]

/-! ## Routes -/

theorem getClientByClientId_eq_some {w : Cluster} {clientId : UInt64} {p : Address} :
    w.getClientByClientId s clientId = some p ↔ w.Names s clientId p := by
  unfold getClientByClientId GateServer.getProcessIdByClientId Names
  cases w.gate.client2Process clientId with
  | none => simp [s.invalid]
  | some info => simp

theorem callServer_gate (w : Cluster) (clientId : UInt64) (cmd : GateCommand) :
    (w.callServer s clientId cmd).gate = w.gate := by
  unfold callServer
  split <;> rfl

theorem names_onClientConnect (w : Cluster) {clientId clientId' : UInt64} {processId : UInt16} {p : Address} :
    (w.onClientConnect clientId processId).Names s clientId' p ↔
      if clientId' = clientId then s.games.lookup processId = some p else w.Names s clientId' p := by
  unfold Names onClientConnect GateServer.onClientConnect
  split
  · rename_i h
    simp [h]
  · rename_i h
    simp [h]

/-! ## The invariant -/

/-- A process that has or will have an entity for a client is the one that its route names. -/
structure RoutingInv (s : Servers) (w : Cluster) : Prop where
  login : w.game.LoginInv
  housed : w.game.Housed
  route : ∀ {clientId p}, w.Expects clientId p → w.Names s clientId p

namespace RoutingInv

variable {w w' : Cluster}

theorem init (serverId : UInt16) (entityId : Address → Nat) : RoutingInv s (Cluster.init serverId entityId) where
  login := Game.LoginInv.init entityId
  housed := by
    intro m a ha
    cases ha
  route := by
    rintro clientId p ⟨entityId, hclient, -⟩
    cases hclient

/-- A command goes where the route says. -/
theorem callServer (hinv : RoutingInv s w) (clientId : UInt64) (cmd : GateCommand) :
    RoutingInv s (w.callServer s clientId cmd) := by
  unfold Cluster.callServer
  split
  · rename_i p hp
    refine ⟨hinv.login, hinv.housed, ?_⟩
    intro clientId' p' hexpects
    rw [Expects, queue_append] at hexpects
    split at hexpects
    · rename_i hsame
      obtain ⟨rfl, rfl⟩ := hsame
      exact getClientByClientId_eq_some.mp hp
    · exact hinv.route hexpects
  · exact hinv

/-- The process that is picked for a client has its entity, if any has. -/
theorem onClientConnect (hinv : RoutingInv s w) {clientId : UInt64} {processId : UInt16}
    (hpicked : ∀ p, w.Expects clientId p → s.games.lookup processId = some p) :
    RoutingInv s (w.onClientConnect clientId processId) := by
  refine ⟨hinv.login, hinv.housed, ?_⟩
  intro clientId' p hexpects
  rw [names_onClientConnect]
  split
  · rename_i hsame
    subst hsame
    exact hpicked p hexpects
  · exact hinv.route hexpects

/-- The last that a process hears of a client is its disconnect. -/
theorem not_expects_disconnected (hinv : RoutingInv s w) (clientId : UInt64) (p : Address) :
    ¬ (w.callServer s clientId .disconnectClient).Expects clientId p := by
  intro hexpects
  have hroute : ∀ {p}, w.Expects clientId p → w.getClientByClientId s clientId = some p :=
    fun h => getClientByClientId_eq_some.mpr (hinv.route h)
  unfold Cluster.callServer at hexpects
  split at hexpects
  · rename_i p' hp'
    rw [Expects, queue_append] at hexpects
    split at hexpects
    · rw [List.foldl_append] at hexpects
      exact hexpects
    · rename_i hother
      rw [hroute hexpects, Option.some.injEq] at hp'
      exact hother ⟨rfl, hp'.symm⟩
  · rename_i hnone
    rw [hroute hexpects] at hnone
    cases hnone

theorem onClientDisconnect (hinv : RoutingInv s w) (clientId : UInt64) :
    RoutingInv s (w.onClientDisconnect s clientId) := by
  unfold Cluster.onClientDisconnect
  split
  · have hcall := hinv.callServer clientId .disconnectClient
    refine ⟨hcall.login, hcall.housed, ?_⟩
    intro clientId' p hexpects
    by_cases hsame : clientId' = clientId
    · subst hsame
      exact absurd hexpects (hinv.not_expects_disconnected clientId' p)
    · obtain ⟨info, hinfo, hp⟩ := hcall.route hexpects
      rw [callServer_gate] at hinfo
      exact ⟨info, by simpa [GateServer.onClientDisconnect, hsame] using hinfo, hp⟩
  · exact hinv

/-- A call over a connection re-routes the client whose id is the index of the connection, if there is one. -/
theorem updateClientProcessInfo (hinv : RoutingInv s w) {socketIndex : UInt64} {info : GameProcessInfo}
    (hnamed : ∀ p, w.Expects socketIndex p → s.games.lookup info.processId = some p) (toGate : List GameProcessInfo) :
    RoutingInv s { w with gate := w.gate.updateClientProcessInfo socketIndex info, toGate := toGate } := by
  refine ⟨hinv.login, hinv.housed, ?_⟩
  intro clientId p hexpects
  have hexpects : w.Expects clientId p := hexpects
  obtain ⟨info', hinfo', hp⟩ := hinv.route hexpects
  simp only [Names, GateServer.updateClientProcessInfo]
  split
  · by_cases hsame : clientId = socketIndex
    · subst hsame
      exact ⟨info, Function.update_self _ _ _, hnamed p hexpects⟩
    · exact ⟨info', by simpa [hsame] using hinfo', hp⟩
  · exact ⟨info', hinfo', hp⟩

/-- A step of the games by themselves: the clients that it binds have a route to their entity, or a disconnect on its
    way. -/
theorem game {cfg : Config} {l : GameLabel} {g : Game} (hinv : RoutingInv s w)
    (hbinds : ∀ clientId p, w.game.Binds l p clientId.toNat → (w.queue clientId p).foldl leaves True →
      w.Names s clientId p) (h : w.game.step cfg l = some g) (toGate : List GameProcessInfo) :
    RoutingInv s { w with game := g, toGate := toGate } := by
  have hrebinds := Game.step_rebinds hinv.login.memory h
  refine ⟨hinv.login.step h, hrebinds.housed hinv.housed, ?_⟩
  intro clientId p hexpects
  by_cases hbinds' : w.game.Binds l p clientId.toNat
  · exact hbinds clientId p hbinds' (leaves_mono (fun _ => trivial) _ hexpects)
  · refine hinv.route (leaves_mono ?_ _ hexpects)
    rintro ⟨entityId, hbound⟩
    exact ⟨entityId, (hrebinds.bound hbound).resolve_right hbinds'⟩

/-- A command arrives: a login may bind its client, and a disconnect unbinds it unless it has a role. -/
theorem receive {cfg : Config} {i : Nat} {now : UInt32} {node accountId roleId : Nat} {x : Forwarded} {g : Game}
    (hinv : RoutingInv s w) (hx : w.toGame[i]? = some x) (hfirst : ∀ y ∈ w.toGame.take i, y.link ≠ x.link)
    (hrole : ∀ entityId r, x.cmd = .disconnectClient → w.game.Bound x.clientId.toNat ⟨x.process, entityId⟩ →
      w.game.entities ⟨x.process, entityId⟩ = some (.role r) →
      (w.queue x.clientId x.process).tail.foldl leaves True → w.Names s x.clientId x.process)
    (h : w.game.clientCommand cfg x.process x.clientId.toNat now (x.cmd.toClient node accountId roleId) = some g) :
    RoutingInv s { w with game := g, toGame := w.toGame.eraseIdx i } := by
  have hstep : w.game.step cfg (.client x.process x.clientId.toNat now (x.cmd.toClient node accountId roleId)) = some g :=
    h
  have hrebinds := Game.step_rebinds hinv.login.memory hstep
  refine ⟨hinv.login.step hstep, hrebinds.housed hinv.housed, ?_⟩
  intro clientId p hexpects
  -- only a login can bind the client to an entity there
  have hkept : ¬ (p = x.process ∧ clientId = x.clientId ∧ x.cmd = .login) → Holds g clientId.toNat p →
      Holds w.game clientId.toNat p := by
    rintro hno ⟨entityId, hbound⟩
    refine ⟨entityId, (hrebinds.bound hbound).resolve_right ?_⟩
    intro hbinds
    cases hcmd : x.cmd with
    | login =>
        rw [hcmd] at hbinds
        exact hno ⟨hbinds.1, UInt64.toNat_inj.mp hbinds.2.1, hcmd⟩
    | createRole | disconnectClient | game =>
        rw [hcmd] at hbinds
        exact hbinds
  by_cases hsame : x.clientId = clientId ∧ x.process = p
  · obtain ⟨rfl, rfl⟩ := hsame
    have hqueue := queue_receive hx hfirst g
    have hroute : ∀ {held : Prop}, { w with game := g, toGame := w.toGame.eraseIdx i }.queue x.clientId x.process
        |>.foldl leaves held → (held → leaves (Holds w.game x.clientId.toNat x.process) x.cmd) →
        w.Names s x.clientId x.process := by
      intro held hheld hleaves
      apply hinv.route
      rw [Expects, hqueue, List.foldl_cons]
      exact leaves_mono hleaves _ hheld
    cases hcmd : x.cmd with
    | login => exact hroute hexpects fun _ => by rw [hcmd]; trivial
    | createRole sex roleName =>
        refine hroute hexpects fun hholds => ?_
        rw [hcmd]
        exact hkept (by simp [hcmd]) hholds
    | game cmd =>
        refine hroute hexpects fun hholds => ?_
        rw [hcmd]
        exact hkept (by simp [hcmd]) hholds
    | disconnectClient =>
        rw [hcmd] at h
        by_cases hroles : ∃ entityId r, w.game.Bound x.clientId.toNat ⟨x.process, entityId⟩ ∧
            w.game.entities ⟨x.process, entityId⟩ = some (.role r)
        · obtain ⟨entityId, r, hbound, hr⟩ := hroles
          refine hrole entityId r hcmd hbound hr ?_
          rw [hqueue, List.tail_cons]
          exact leaves_mono (fun _ => trivial) _ hexpects
        · refine hroute hexpects ?_
          rintro ⟨entityId, hbound⟩
          refine absurd hbound (Game.disconnect_unbinds hinv.login.memory hinv.housed ?_ h entityId)
          intro entityId' r hbound' hr
          exact hroles ⟨entityId', r, hbound', hr⟩
  · refine hinv.route ?_
    rw [Expects, queue_receive_other hx g hsame] at hexpects
    refine leaves_mono (hkept ?_) _ hexpects
    rintro ⟨rfl, rfl, -⟩
    exact hsame ⟨rfl, rfl⟩

theorem step {cfg : Config} {l : ClusterLabel} (hinv : RoutingInv s w) (hroute : OnRoute s w l)
    (h : w.step cfg s l = some w') : RoutingInv s w' := by
  cases l with
  | connect clientId processId =>
      simp only [Cluster.step, Option.ite_none_right_eq_some, Option.some.injEq] at h
      obtain ⟨-, rfl⟩ := h
      exact hinv.onClientConnect hroute
  | login clientId processId =>
      simp only [Cluster.step, Option.ite_none_right_eq_some, Option.some.injEq] at h
      obtain ⟨-, rfl⟩ := h
      exact (hinv.onClientConnect hroute).callServer clientId .login
  | command clientId cmd =>
      cases h
      exact hinv.callServer clientId cmd
  | close clientId =>
      cases h
      exact hinv.onClientDisconnect clientId
  | receive i now node accountId roleId =>
      obtain ⟨x, hx, h⟩ := Option.bind_eq_some_iff.mp h
      simp only [Option.ite_none_right_eq_some, List.all_eq_true, decide_eq_true_eq] at h
      obtain ⟨hfirst, h⟩ := h
      obtain ⟨g, hg, rfl⟩ := Option.map_eq_some_iff.mp h
      exact hinv.receive hx hfirst (fun entityId r => hroute x entityId r hx) hg
  | game l =>
      cases l with
      | client => cases h
      | deliver | dbReply | timer | update =>
          simp only [Cluster.step, Option.map_eq_some_iff] at h
          obtain ⟨g, hg, rfl⟩ := h
          exact hinv.game hroute hg _
  | updateClientProcessInfo i socketIndex =>
      obtain ⟨info, hinfo, rfl⟩ := Option.map_eq_some_iff.mp h
      exact hinv.updateClientProcessInfo (fun p => hroute info p hinfo) _

/-- With nothing on its way to the games, a client has a route to each of its entities. -/
theorem routed (cfg : Config) (hinv : RoutingInv s w) (hnothing : w.toGame = []) : w.Routed cfg s := by
  intro clientId m hbound
  have hnames : w.Names s clientId m.address := by
    apply hinv.route
    rw [Expects, queue, hnothing]
    exact ⟨m.entityId, hbound⟩
  have hget := getClientByClientId_eq_some.mpr hnames
  have hsends : ∀ cmd, w.callServer s clientId cmd = { w with toGame := w.toGame ++ [⟨clientId, m.address, cmd⟩] } := by
    intro cmd
    rw [Cluster.callServer, hget]
  obtain ⟨info, hinfo, -⟩ := id hnames
  obtain ⟨hclient, e, he, -⟩ := hbound
  refine ⟨hnames, hsends, ?_, ?_, e, he, Game.target_bound hinv.login.memory hinv.housed he⟩
  · rw [Cluster.onClientDisconnect, hinfo, hsends]
    rfl
  · intro now cmd
    simp only [Game.clientCommand, hclient]

end RoutingInv

/-- **When commands reach the entity of their client.** Over any run of clients, gates and games whose steps all stay
    on the route, in every state with no message in flight: a client that is bound to an entity has a route to the
    process of the entity, and its commands and its disconnect reach the entity. -/
theorem routed_along (cfg : Config) (s : Servers) (serverId : UInt16) (entityId : Address → Nat)
    {labels : List ClusterLabel} (h : Along (step cfg s) (OnRoute s) (init serverId entityId) labels) :
    ∀ pre, pre <+: labels → ∀ w, run (step cfg s) (init serverId entityId) pre = some w → w.Quiet → w.Routed cfg s := by
  rintro pre ⟨rest, rfl⟩ w hpre hquiet
  have hinv : RoutingInv s w :=
    run_invariant_along (fun hI hP hl => hI.step hP hl) (.init serverId entityId) ((along_append hpre).mp h).1 hpre
  exact hinv.routed cfg hquiet.1

open Game (gameOne gameTwo oneBuilding storedRole)
open Gate (nthIndex)

/-- Two games, with the process ids 1 and 2. -/
def twoGames : Servers where
  games := [(1, gameOne), (2, gameTwo)]
  info p := ⟨1, processGame, if p = gameOne then 1 else 2⟩
  invalid := rfl

/-- Two web socket clients of gate 7. -/
def clientOne : UInt64 := nthIndex 7 5
def clientTwo : UInt64 := nthIndex 7 6

/-- A login arrives: the client has an account on game 1, and its route goes there. -/
theorem routed_along_login : ∃ w, run (step oneBuilding twoGames) (init 1 fun _ => 0)
    [.login clientOne 1, .receive 0 0 0 0 0] = some w ∧ w.Routed oneBuilding twoGames := by
  have halong : Along (step oneBuilding twoGames) (OnRoute twoGames) (init 1 fun _ => 0)
      [.login clientOne 1, .receive 0 0 0 0 0] := by
    refine ⟨?_, fun w₁ hw₁ => ⟨?_, fun _ _ => trivial⟩⟩
    · rintro p ⟨entityId, hclient, -⟩
      cases hclient
    · rintro x entityId r hx hcmd
      cases hw₁
      cases hx
      cases hcmd
  exact ⟨_, rfl, routed_along oneBuilding twoGames 1 (fun _ => 0) halong _ List.prefix_rfl _ rfl ⟨rfl, rfl, rfl⟩⟩

/-- Client 1 logs in and is picked for game 1, where its role is loaded. Client 2 logs in to the same account and is
    picked for game 2: the role of client 1 is relayed to it. The call to the gate comes over the second connection of
    `tcp_manager`. -/
def relayedRun : List ClusterLabel :=
  [.login clientOne 1, .receive 0 0 0 0 0, .game (.dbReply 0 (.account true (some (1, 1)))), .game (.deliver 0),
    .game (.deliver 0), .game (.dbReply 0 (.role true (some storedRole))), .game (.deliver 0), .game (.deliver 0),
    .login clientTwo 2, .receive 0 0 0 0 0, .game (.dbReply 0 (.account true (some (1, 1)))), .game (.deliver 0),
    .game (.deliver 0), .game (.deliver 0), .game (.deliver 0), .game (.deliver 0),
    .updateClientProcessInfo 0 (nthIndex 7 2), .game (.deliver 0)]

/-- The role at the end of it. -/
def relayedRole : Role where
  proxy := Proxy.ofClient clientTwo.toNat
  status := .normal
  data := { accountId := 1, roleId := 1, level := 1 }

/-- The role of client 2 is on game 1, and its commands go to game 2. -/
theorem relayed_elsewhere :
    ¬ ∀ labels w, run (step oneBuilding twoGames) (init 1 fun _ => 0) labels = some w → w.Quiet →
    w.game.dbOps = [] → w.Routed oneBuilding twoGames := by
  intro h
  have hflight : ((run (step oneBuilding twoGames) (init 1 fun _ => 0) relayedRun).map fun w =>
      (w.toGame, w.toGate, w.game.calls)) = some ([], [], []) := by decide
  have hdbOps : ((run (step oneBuilding twoGames) (init 1 fun _ => 0) relayedRun).map fun w => w.game.dbOps) =
      some [] := by decide
  have hentity : ((run (step oneBuilding twoGames) (init 1 fun _ => 0) relayedRun).map fun w =>
      (w.game.clientToEntity gameOne clientTwo.toNat, w.game.entities ⟨gameOne, 2⟩)) =
      some (some 2, some (.role relayedRole)) := by decide
  have hprocess : ((run (step oneBuilding twoGames) (init 1 fun _ => 0) relayedRun).bind fun w =>
      w.gate.client2Process clientTwo) = some ⟨1, processGame, 2⟩ := by decide
  obtain ⟨w, hw, hempty⟩ := Option.map_eq_some_iff.mp hflight
  rw [hw] at hdbOps hentity hprocess
  simp only [Prod.mk.injEq] at hempty
  simp only [Option.map_some, Option.some.injEq, Prod.mk.injEq] at hentity
  have hbound : w.game.Bound clientTwo.toNat ⟨gameOne, 2⟩ := ⟨hentity.1, _, hentity.2, rfl, rfl⟩
  obtain ⟨info, hinfo, hp⟩ := (h relayedRun w hw hempty (Option.some.inj hdbOps) clientTwo _ hbound).names
  rw [Option.bind_some, hinfo] at hprocess
  cases hprocess
  exact absurd hp (by decide)

end Cluster

end Mowang
