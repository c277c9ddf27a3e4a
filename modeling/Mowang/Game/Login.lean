import Mathlib.Logic.Function.Basic
import Mowang.Base.Run
import Mowang.Game.RoleData

/-!
# `Game.Login` — accounts, roles and the roll stub

The login protocol of any number of game processes with one `roll_stub`. `Game` is their joint state
with the entity RPCs in flight (`calls`) and the database operations without an answer (`dbOps`). One
step is a command of a client, the delivery of any of the calls, the answer to any of the operations,
a timer, or the clean-up of a process; so a list of labels is a run with its order of deliveries and
answers.

An entity is named by its mailbox; `m_entity_id` is a `Nat`. The methods that an account registered, and
its database callbacks, keep the pointer to its node of `m_account_pool`: once `entity_manager::update`
has freed the account they run on the account that lives in the node by then, and while none does the
behaviour is undefined and there is no step. Texts sent to the client, the platform and user that a query
names, and logging are left out.

## Contents
- `Mailbox`, `Account`, `Role`, `Call`, `DbOp`, `Game`.
- The methods of `account`, of `role` and of `roll_stub`.
- `deliver`, `dbReply`, `client`, and `step`.
-/

namespace Mowang

/-- The IP and the port of a game process. -/
structure Address where
  ip : List UInt8
  port : UInt16
  deriving DecidableEq

/-- `mailbox_info`. -/
structure Mailbox where
  address : Address
  entityId : Nat
  deriving DecidableEq

/-- `proxy_info`. -/
structure Proxy where
  gateId : Nat
  clientId : Nat
  deriving DecidableEq

/-- The proxy of a client, with the gate that its id names. -/
def Proxy.ofClient (clientId : Nat) : Proxy := ⟨(clientId >>> 40) &&& 0xFFFF, clientId⟩

structure Account where
  proxy : Proxy
  destroyed : Bool := false
  accountId : Nat
  roleId : Nat
  sex : UInt8 := 0
  roleName : List UInt8 := []
  deriving DecidableEq

/-- `ROLE_STATUS_*`. -/
inductive RoleStatus where
  | invalid
  | normal
  | relay
  | disconnect
  deriving DecidableEq

/-- A role has no `destroyed`: only `logout` would destroy it, and its body is commented out. -/
structure Role where
  proxy : Proxy
  status : RoleStatus := .invalid
  data : RoleInfo
  deriving DecidableEq

/-- `entity_info`: the entity and its name. -/
inductive Entity where
  | account (a : Account)
  | role (r : Role)
  deriving DecidableEq

/-- An entity RPC in flight: first those to `roll_stub`, then those to the entity `target`. -/
inductive Call where
  | registerAccount (accountId : Nat) (mailbox : Mailbox)
  | unregisterAccount (accountId : Nat)
  | registerRole (accountId roleId : Nat) (mailbox : Mailbox)
  | unregisterRole (accountId roleId : Nat)
  | updateByRelay (accountId roleId : Nat) (mailbox : Mailbox)
  | onRegisterAccount (target : Mailbox) (status : Bool) (mailbox : Mailbox)
  | onRelayReady (target mailbox : Mailbox)
  | onWaitLogin (target mailbox : Mailbox)
  /-- `account::on_relay_login` has no parameter, `role::on_relay_login` a proxy. -/
  | onRelayLogin (target : Mailbox) (proxy : Option Proxy)
  | onRegisterRole (target : Mailbox) (status : Bool)
  | kickRole (target : Mailbox)
  deriving DecidableEq

/-- A database operation of an account that has no answer yet. -/
inductive DbOp where
  | loadAccount (this : Mailbox)
  | insertAccount (this : Mailbox)
  | loadRole (this : Mailbox)
  | insertRole (this : Mailbox)
  deriving DecidableEq

/-- The columns of `DQueryRoleSQL`. -/
structure RoleRow where
  sex : UInt8
  level : Int16
  roleName : List UInt8
  buildings : List BuildingInfo
  resources : List ResourceInfo
  deriving DecidableEq

/-- The answer to a query of the account table or of the role table, or to an insert. A query without a
    row has the empty result. -/
inductive DbReply where
  | account (status : Bool) (row : Option (Nat × Nat))
  | role (status : Bool) (row : Option RoleRow)
  | insert (status : Bool)
  deriving DecidableEq

/-- The game processes, the stub, and what is in flight. -/
structure Game where
  -- of each process
  entities : Mailbox → Option Entity := fun _ => none
  /-- The node of `m_account_pool` that the functions of an account in `DRpcEntity` point to. -/
  accountNode : Mailbox → Option Nat := fun _ => none
  /-- The account that lives in a node. -/
  occupant : Address → Nat → Option Mailbox := fun _ _ => none
  /-- `m_entity_id`, the last id given out; the end of its 64 bits is out of reach of a run. -/
  entityId : Address → Nat
  destroyIds : Address → List Nat := fun _ => []
  delayDestroyIds : Address → List Nat := fun _ => []
  lastTime : Address → UInt32 := fun _ => 0
  clientToEntity : Address → Nat → Option Nat := fun _ _ => none
  /-- The roles whose `disconnect_client` timer runs. -/
  timers : List Mailbox := []
  -- of `roll_stub`
  accountToMailbox : Nat → Option Mailbox := fun _ => none
  roleToMailbox : Nat → Option Mailbox := fun _ => none
  /-- The mailboxes that `register_role` refused. Read by the theorems only. -/
  refused : List Mailbox := []
  -- in flight
  calls : List Call := []
  dbOps : List DbOp := []

namespace Game

/-- All processes after `entity_manager::init`, and the stub created. -/
def init (entityId : Address → Nat) : Game := { entityId := entityId }

/-- `call_entity` and `call_stub`. -/
def call (g : Game) (c : Call) : Game := { g with calls := g.calls ++ [c] }

/-- `db_query` and `db_insert`. -/
def query (g : Game) (op : DbOp) : Game := { g with dbOps := g.dbOps ++ [op] }

/-- What a method of the entity at `m` leaves in `this`. -/
def setEntity (g : Game) (m : Mailbox) (e : Entity) : Game :=
  { g with entities := Function.update g.entities m (some e) }

/-- The mailbox of the next entity that process `p` creates. -/
def nextMailbox (g : Game) (p : Address) : Mailbox := ⟨p, g.entityId p + 1⟩

/-- `entity_manager::create_entity`. -/
def createEntity (g : Game) (p : Address) (e : Entity) : Game :=
  { g with
    entities := Function.update g.entities (g.nextMailbox p) (some e)
    entityId := Function.update g.entityId p (g.entityId p + 1) }

/-- The pool gives out `node` for the account `m`. -/
def allocate (g : Game) (m : Mailbox) (node : Nat) : Game :=
  { g with
    accountNode := Function.update g.accountNode m (some node)
    occupant := Function.update g.occupant m.address (Function.update (g.occupant m.address) node (some m)) }

/-- `entity_manager::destroy_entity`. -/
def destroyEntity (g : Game) (m : Mailbox) : Game :=
  { g with
    delayDestroyIds :=
      Function.update g.delayDestroyIds m.address (g.delayDestroyIds m.address ++ [m.entityId]) }

/-- `entity_manager::update` of process `p`. -/
def update (g : Game) (p : Address) (now : UInt32) : Game :=
  if g.lastTime p + 10 > now then g else
  { g with
    lastTime := Function.update g.lastTime p now
    entities := fun m => if m.address = p ∧ m.entityId ∈ g.destroyIds p then none else g.entities m
    occupant := Function.update g.occupant p fun node =>
      (g.occupant p node).filter fun m => m.entityId ∉ g.destroyIds p
    destroyIds := Function.update g.destroyIds p (g.delayDestroyIds p)
    delayDestroyIds := Function.update g.delayDestroyIds p [] }

/-- `add_timer` of the role at `m`, for 5 seconds. -/
def addTimer (g : Game) (m : Mailbox) : Game := { g with timers := g.timers ++ [m] }

def updateClientEntityId (g : Game) (p : Address) (clientId entityId : Nat) : Game :=
  { g with
    clientToEntity :=
      Function.update g.clientToEntity p (Function.update (g.clientToEntity p) clientId (some entityId)) }

def removeClientId (g : Game) (p : Address) (clientId : Nat) : Game :=
  { g with
    clientToEntity := Function.update g.clientToEntity p (Function.update (g.clientToEntity p) clientId none) }

end Game

/-! ## `role` -/

namespace Role

/-- The body is commented out. -/
def logout (g : Game) (_needUnregister : Bool) : Game := g

def onRelayReady (g : Game) (this : Mailbox) (r : Role) (mailbox : Mailbox) : Game :=
  ((g.setEntity this (.role { r with status := .relay })).call (.onWaitLogin mailbox this)).removeClientId
    this.address r.proxy.clientId

def onRelayLogin (g : Game) (this : Mailbox) (r : Role) (proxy : Proxy) : Game :=
  ((g.setEntity this (.role { r with status := .normal, proxy := proxy })).call
    (.updateByRelay r.data.accountId r.data.roleId this)).updateClientEntityId
    this.address proxy.clientId this.entityId

def registerRole (g : Game) (this : Mailbox) (r : Role) : Game :=
  g.call (.registerRole r.data.accountId r.data.roleId this)

def onRegisterRole (g : Game) (this : Mailbox) (r : Role) (status : Bool) : Game :=
  if status then
    if r.status = .disconnect then logout g true else g.setEntity this (.role { r with status := .normal })
  else logout g false

def kickRole (g : Game) : Game := logout g true

def disconnectClient (g : Game) (this : Mailbox) (r : Role) : Game :=
  if r.status = .normal then logout g true
  else (g.setEntity this (.role { r with status := .disconnect })).addTimer this

/-- The timer of `disconnect_client`. -/
def onTimer (g : Game) (r : Role) : Game := if r.status ≠ .normal then logout g true else g

/-- `income_resource`, `build_building` and `up_building_level`. -/
def onCommand (cfg : Config) (now : UInt32) (g : Game) (this : Mailbox) (r : Role) (cmd : GameCommand) :
    Option Game :=
  (cmd.apply cfg now r.data).map fun data => g.setEntity this (.role { r with data := data })

end Role

/-! ## `account` -/

namespace Account

def destroy (g : Game) (this : Mailbox) (a : Account) : Game :=
  (g.setEntity this (.account { a with destroyed := true })).destroyEntity this

def login (g : Game) (this : Mailbox) : Game := g.query (.loadAccount this)

/-- The ids are the constants 1: the lines that make unique ones are commented out. -/
def createAccount (g : Game) (this : Mailbox) (a : Account) : Game :=
  (g.setEntity this (.account { a with accountId := 1, roleId := 1 })).query (.insertAccount this)

def registerAccount (g : Game) (this : Mailbox) (a : Account) : Game :=
  g.call (.registerAccount a.accountId this)

def onLoadAccountCallback (g : Game) (this : Mailbox) (a : Account) (status : Bool) (row : Option (Nat × Nat)) :
    Game :=
  if !status then g else
  match row with
  | none                     => createAccount g this a
  | some (accountId, roleId) =>
    let a := { a with accountId := accountId, roleId := roleId }
    registerAccount (g.setEntity this (.account a)) this a

/-- The callback of the insert in `create_account`. -/
def onInsertAccount (g : Game) (this : Mailbox) (a : Account) (status : Bool) : Game :=
  if status then registerAccount g this a else g

def onLoadRole (g : Game) (this : Mailbox) : Game := g.query (.loadRole this)

def onRegisterAccount (g : Game) (this : Mailbox) (status : Bool) (mailbox : Mailbox) : Game :=
  if status then onLoadRole g this else g.call (.onRelayReady mailbox this)

def onRelayReady (g : Game) (this : Mailbox) (a : Account) (mailbox : Mailbox) : Game :=
  destroy (g.call (.onRelayLogin mailbox none)) this a

def onWaitLogin (g : Game) (this : Mailbox) (a : Account) (mailbox : Mailbox) : Game :=
  destroy (g.call (.onRelayLogin mailbox (some a.proxy))) this a

def onRelayLogin (g : Game) (this : Mailbox) (a : Account) : Game :=
  if a.destroyed then g else onLoadRole g this

def unregisterAccount (g : Game) (this : Mailbox) (a : Account) : Game :=
  destroy (g.call (.unregisterAccount a.accountId)) this a

/-- The role is created in the process of the account, for its client, and registered. -/
def onLoginSuccess (g : Game) (this : Mailbox) (a : Account) (data : RoleInfo) : Game :=
  let mailbox := g.nextMailbox this.address
  let r : Role := { proxy := a.proxy, data := data }
  let g := (g.createEntity this.address (.role r)).updateClientEntityId
    this.address a.proxy.clientId mailbox.entityId
  destroy (r.registerRole g mailbox) this a

def onLoadRoleCallback (g : Game) (this : Mailbox) (a : Account) (status : Bool) (row : Option RoleRow) : Game :=
  if a.destroyed then g
  else if !status then unregisterAccount g this a
  else match row with
  | none     => g
  | some row =>
    onLoginSuccess g this a
      { accountId := a.accountId, roleId := a.roleId, sex := row.sex, level := row.level,
        roleName := row.roleName, buildings := row.buildings, resources := row.resources }

/-- It does not ask whether the account is destroyed. The message to the client passes `sex` for a `%s`: 0 prints as a
    null string, with any other address the process ends. A name that fills its array is read past the end of it. -/
def createRole (g : Game) (this : Mailbox) (a : Account) (sex : UInt8) (roleName : List UInt8) : Option Game :=
  if sex ≠ 0 ∨ roleNameLen ≤ roleName.length then none
  else some ((g.setEntity this (.account { a with sex := sex, roleName := roleName })).query (.insertRole this))

theorem createRole_eq_some {g g' : Game} {this : Mailbox} {a : Account} {sex : UInt8} {roleName : List UInt8}
    (h : a.createRole g this sex roleName = some g') : sex = 0 ∧ roleName.length < roleNameLen ∧
      g' = (g.setEntity this (.account { a with sex := sex, roleName := roleName })).query (.insertRole this) := by
  unfold createRole at h
  split at h
  · cases h
  · rename_i hfits
    obtain ⟨hsex, hname⟩ := not_or.mp hfits
    exact ⟨not_not.mp hsex, Nat.lt_of_not_le hname, (Option.some.inj h).symm⟩

/-- The resources that `create_role` reads from the common table, two by two. -/
def firstResources : List Int32 → Option (List ResourceInfo)
  | []                  => some []
  | [_]                 => none
  | type :: num :: rest => (firstResources rest).map fun l => ⟨type.toUInt32.toUInt8, num⟩ :: l

/-- The callback of the insert in `create_role`. -/
def onInsertRole (cfg : Config) (g : Game) (this : Mailbox) (a : Account) (status : Bool) : Option Game :=
  if status then
    (cfg.common.bind firstResources).map fun resources =>
      onLoginSuccess g this a
        { accountId := a.accountId, roleId := a.roleId, level := 1, sex := a.sex, roleName := a.roleName,
          resources := resources }
  else some (unregisterAccount g this a)

def disconnectClient (g : Game) (this : Mailbox) (a : Account) : Game :=
  if a.destroyed then g else unregisterAccount g this a

end Account

/-! ## `roll_stub` -/

namespace RollStub

def registerAccount (g : Game) (accountId : Nat) (mailbox : Mailbox) : Game :=
  let reply := match g.accountToMailbox accountId with
    | none     => Call.onRegisterAccount mailbox true mailbox
    | some old => Call.onRegisterAccount mailbox false old
  { g.call reply with accountToMailbox := Function.update g.accountToMailbox accountId (some mailbox) }

/-- Whoever is registered, the account is erased. -/
def unregisterAccount (g : Game) (accountId : Nat) : Game :=
  { g with accountToMailbox := Function.update g.accountToMailbox accountId none }

/-- `register_role` accepts: the account is registered, the role is not. -/
def Accepts (g : Game) (accountId roleId : Nat) : Prop :=
  (g.accountToMailbox accountId).isSome ∧ g.roleToMailbox roleId = none

instance (g : Game) (accountId roleId : Nat) : Decidable (Accepts g accountId roleId) :=
  inferInstanceAs (Decidable (_ ∧ _))

def registerRole (g : Game) (accountId roleId : Nat) (mailbox : Mailbox) : Game :=
  if Accepts g accountId roleId then
    { g.call (.onRegisterRole mailbox true) with
      accountToMailbox := Function.update g.accountToMailbox accountId (some mailbox)
      roleToMailbox := Function.update g.roleToMailbox roleId (some mailbox) }
  else { g.call (.onRegisterRole mailbox false) with refused := mailbox :: g.refused }

def unregisterRole (g : Game) (accountId roleId : Nat) : Game :=
  { g with
    accountToMailbox := Function.update g.accountToMailbox accountId none
    roleToMailbox := Function.update g.roleToMailbox roleId none }

/-- Mailboxes are compared by port and entity id. -/
def updateByRelay (g : Game) (accountId roleId : Nat) (mailbox : Mailbox) : Game :=
  match g.roleToMailbox roleId with
  | none         => g.call (.kickRole mailbox)
  | some current =>
    if current.address.port ≠ mailbox.address.port ∨ current.entityId ≠ mailbox.entityId then
      (g.call (.kickRole mailbox)).call (.kickRole current)
    else { g with accountToMailbox := Function.update g.accountToMailbox accountId (some current) }

end RollStub

/-! ## Steps -/

/-- What `DRpcEntity` finds for a mailbox: no functions, functions bound to a freed account, or `this`. -/
inductive Target where
  | unregistered
  | freed
  | object (this : Mailbox) (e : Entity)

/-- What a client sends: an RPC by name. -/
inductive ClientCommand where
  /-- With the node of a new account, and what its memory holds for `m_account_id` and `m_role_id`. -/
  | login (node accountId roleId : Nat)
  | createRole (sex : UInt8) (roleName : List UInt8)
  | disconnectClient
  | game (cmd : GameCommand)
  deriving DecidableEq

inductive GameLabel where
  /-- The command reaches process `p` at time `now`. -/
  | client (p : Address) (clientId : Nat) (now : UInt32) (cmd : ClientCommand)
  /-- The call at this place of `calls` is delivered. -/
  | deliver (i : Nat)
  | dbReply (i : Nat) (reply : DbReply)
  | timer (i : Nat)
  /-- `entity_manager::update` runs in process `p`. -/
  | update (p : Address) (now : UInt32)
  deriving DecidableEq

namespace Game

def target (g : Game) (m : Mailbox) : Target :=
  match g.accountNode m with
  | some node =>
    match g.occupant m.address node with
    | some this => ((g.entities this).map (.object this)).getD .freed
    | none      => .freed
  | none => ((g.entities m).map (.object m)).getD .unregistered

/-- The call, taken out of `calls`, runs. A method that the entity did not register is not called; a
    role cannot read the proxy of an `on_relay_login` sent without one. -/
def handle (g : Game) : Call → Option Game
  | .registerAccount accountId mailbox      => some (RollStub.registerAccount g accountId mailbox)
  | .unregisterAccount accountId            => some (RollStub.unregisterAccount g accountId)
  | .registerRole accountId roleId mailbox  => some (RollStub.registerRole g accountId roleId mailbox)
  | .unregisterRole accountId roleId        => some (RollStub.unregisterRole g accountId roleId)
  | .updateByRelay accountId roleId mailbox => some (RollStub.updateByRelay g accountId roleId mailbox)
  | .onRegisterAccount target status mailbox =>
    match g.target target with
    | .object this (.account _) => some (Account.onRegisterAccount g this status mailbox)
    | .freed                    => none
    | _                         => some g
  | .onRelayReady target mailbox =>
    match g.target target with
    | .object this (.account a) => some (a.onRelayReady g this mailbox)
    | .object this (.role r)    => some (r.onRelayReady g this mailbox)
    | .freed                    => none
    | .unregistered             => some g
  | .onWaitLogin target mailbox =>
    match g.target target with
    | .object this (.account a) => some (a.onWaitLogin g this mailbox)
    | .freed                    => none
    | _                         => some g
  | .onRelayLogin target proxy =>
    match g.target target, proxy with
    | .object this (.account a), _       => some (a.onRelayLogin g this)
    | .object this (.role r), some proxy => some (r.onRelayLogin g this proxy)
    | .object _ (.role _), none          => none
    | .freed, _                          => none
    | .unregistered, _                   => some g
  | .onRegisterRole target status =>
    match g.target target with
    | .object this (.role r) => some (r.onRegisterRole g this status)
    | _                      => some g
  | .kickRole target =>
    match g.target target with
    | .object _ (.role _) => some (Role.kickRole g)
    | _                   => some g

/-- The answer runs the callback of the operation, which was taken out of `dbOps`. -/
def handleReply (cfg : Config) (g : Game) : DbOp → DbReply → Option Game
  | .loadAccount m, .account status row =>
    match g.target m with
    | .object this (.account a) => some (a.onLoadAccountCallback g this status row)
    | _                         => none
  | .insertAccount m, .insert status =>
    match g.target m with
    | .object this (.account a) => some (a.onInsertAccount g this status)
    | _                         => none
  | .loadRole m, .role status row =>
    match g.target m with
    | .object this (.account a) => some (a.onLoadRoleCallback g this status row)
    | _                         => none
  | .insertRole m, .insert status =>
    match g.target m with
    | .object this (.account a) => a.onInsertRole cfg g this status
    | _                         => none
  | _, _ => none

/-- The RPC of a client that is bound to the entity at `m`. -/
def entityCommand (cfg : Config) (g : Game) (m : Mailbox) (now : UInt32) (cmd : ClientCommand) : Option Game :=
  match g.target m, cmd with
  | .object this (.account _), .login _ _ _         => some (Account.login g this)
  | .object this (.account a), .createRole sex name => a.createRole g this sex name
  | .object this (.account a), .disconnectClient    => some (a.disconnectClient g this)
  | .object this (.role r), .disconnectClient       => some (r.disconnectClient g this)
  | .object this (.role r), .game cmd               => r.onCommand cfg now g this cmd
  | .freed, .game _                                 => some g
  | .freed, _                                       => none
  | _, _                                            => some g

/-- `handle_transfer_packet` with an RPC by name: to the entity of the client, or to a new account when
    the client has none and logs in. -/
def clientCommand (cfg : Config) (g : Game) (p : Address) (clientId : Nat) (now : UInt32) (cmd : ClientCommand) :
    Option Game :=
  match g.clientToEntity p clientId, cmd with
  | some entityId, _ => g.entityCommand cfg ⟨p, entityId⟩ now cmd
  | none, .login node accountId roleId =>
    if (g.occupant p node).isSome then none else
    let m := g.nextMailbox p
    let a : Account := { proxy := Proxy.ofClient clientId, accountId := accountId, roleId := roleId }
    some (Account.login
      (((g.createEntity p (.account a)).allocate m node).updateClientEntityId p clientId m.entityId) m)
  | none, _ => some g

/-- The call at place `i` is no longer in flight. -/
def takeCall (g : Game) (i : Nat) : Game := { g with calls := g.calls.eraseIdx i }

def step (cfg : Config) (g : Game) : GameLabel → Option Game
  | .client p clientId now cmd => g.clientCommand cfg p clientId now cmd
  | .deliver i                 => (g.calls[i]?).bind fun c => (g.takeCall i).handle c
  | .dbReply i reply =>
    (g.dbOps[i]?).bind fun op => { g with dbOps := g.dbOps.eraseIdx i }.handleReply cfg op reply
  | .timer i =>
    (g.timers[i]?).bind fun m =>
      match g.entities m with
      | some (.role r) => some (r.onTimer { g with timers := g.timers.eraseIdx i })
      | _              => none
  | .update p now => some (g.update p now)

end Game

end Mowang
