import Mowang.Base.Lists
import Mowang.Game.Destroyed
import Mowang.Game.OneRole

/-!
# `Game.LoginOnce` — clients that log in once and create a role when asked

A login is one token that is handed on: a query of the account table, a `register_account`, the grant or the
calls of a relay, a query of the role. `Call.owner` and `DbOp.login` name the account whose login it is, and
`logins` counts what is left of it. As long as a client logs in once, no account has two logins under way; then
the ids of an account do not change after they were asked for, and its role is either loaded or asked for.

## Contents
- `logins`, `inserts`.
- `Outcome`: what a step does to the logins under way.
- `Disciplined`, `LoginsInv`.
- `one_role`, and `twoRolesRun_two`, where a client sends `create_role` twice.
-/

namespace Mowang

/-- The account whose login the call is part of. -/
def Call.owner : Call → Option Mailbox
  | .registerAccount _ m          => some m
  | .onRegisterAccount target _ _ => some target
  | .onRelayReady _ m             => some m
  | .onWaitLogin target _         => some target
  | .onRelayLogin target none     => some target
  | _                             => none

/-- The account whose login the operation is part of. -/
def DbOp.login : DbOp → Option Mailbox
  | .loadAccount m   => some m
  | .insertAccount m => some m
  | .loadRole m      => some m
  | .insertRole _    => none

@[simp] theorem Call.owner_registerAccount (accountId : Nat) (m : Mailbox) :
    (Call.registerAccount accountId m).owner = some m := rfl

@[simp] theorem DbOp.login_loadAccount (m : Mailbox) : (DbOp.loadAccount m).login = some m := rfl

@[simp] theorem DbOp.login_insertAccount (m : Mailbox) : (DbOp.insertAccount m).login = some m := rfl

@[simp] theorem DbOp.login_loadRole (m : Mailbox) : (DbOp.loadRole m).login = some m := rfl

@[simp] theorem DbOp.login_insertRole (m : Mailbox) : (DbOp.insertRole m).login = none := rfl

namespace Logged

variable {s s' : Logged} {l : GameLabel} {g' : Game} {m : Mailbox}

/-- The calls in flight that the step leaves there. -/
def restCalls (s : Logged) : GameLabel → List Call
  | .deliver i => s.game.calls.eraseIdx i
  | _          => s.game.calls

/-- The operations without an answer that the step leaves there. -/
def restOps (s : Logged) : GameLabel → List DbOp
  | .dbReply i _ => s.game.dbOps.eraseIdx i
  | _            => s.game.dbOps

/-- The event is no concern of a role. -/
def Plain (s : Logged) (l : GameLabel) : Prop := ∀ e, s.event l = some e → ∃ m ids, e = .granted m ids

/-- What a step that uses functions of live accounts only does to the logins: the calls and the operations that
    it adds. -/
inductive Outcome (s : Logged) (l : GameLabel) (g' : Game) : List Call → List DbOp → Prop where
  | quiet (posted : List Call) (hposted : ∀ c ∈ posted, c.owner = none) (hevent : s.Plain l) : Outcome s l g' posted []
  | login (m : Mailbox) (hnew : s.game.kind m = none) (hknown : (g'.kind m).isSome) (hevent : s.Plain l) :
      Outcome s l g' [] [.loadAccount m]
  /-- The client's `create_role`. -/
  | createRole (m : Mailbox) (ids : Nat × Nat) (hevent : s.event l = some (.inserted m ids)) :
      Outcome s l g' [] [.insertRole m]
  /-- `create_account`. -/
  | insertAccount (i : Nat) (reply : DbReply) (m : Mailbox) (hl : l = .dbReply i reply)
      (hop : s.game.dbOps[i]? = some (.loadAccount m)) (hevent : s.Plain l) : Outcome s l g' [] [.insertAccount m]
  | registerAccount (i : Nat) (reply : DbReply) (op : DbOp) (m : Mailbox) (a : Account) (hl : l = .dbReply i reply)
      (hop : s.game.dbOps[i]? = some op) (howner : op.login = some m) (ha : g'.entities m = some (.account a))
      (hevent : s.Plain l) : Outcome s l g' [.registerAccount a.accountId m] []
  /-- The stub or another entity passes the login on. -/
  | passOn (i : Nat) (c c' : Call) (m : Mailbox) (hl : l = .deliver i) (hc : s.game.calls[i]? = some c)
      (howner : c.owner = some m) (howner' : c'.owner = some m) (hevent : s.Plain l) : Outcome s l g' [c'] []
  /-- `on_load_role`. -/
  | loadRole (i : Nat) (c : Call) (m : Mailbox) (ids : Nat × Nat) (hl : l = .deliver i)
      (hc : s.game.calls[i]? = some c) (howner : c.owner = some m) (hids : s.asks[i]? = some ids)
      (hevent : s.event l = some (.granted m ids)) : Outcome s l g' [] [.loadRole m]
  | asked (i : Nat) (reply : DbReply) (m : Mailbox) (hl : l = .dbReply i reply)
      (hop : s.game.dbOps[i]? = some (.loadRole m)) (hevent : s.event l = some (.asked m)) : Outcome s l g' [] []
  /-- A role is loaded, or its insert has succeeded. -/
  | created (i : Nat) (reply : DbReply) (op : DbOp) (m : Mailbox) (ids : Nat × Nat) (posted : List Call)
      (hl : l = .dbReply i reply) (hop : s.game.dbOps[i]? = some op) (hthis : op = .loadRole m ∨ op = .insertRole m)
      (hposted : ∀ c ∈ posted, c.owner = none) (hevent : s.event l = some (.created m ids)) :
      Outcome s l g' posted []

/-- The outcome of a step, with the calls and the operations that it leaves. -/
def Does (s : Logged) (l : GameLabel) (g' : Game) : Prop :=
  ∃ posted queries, g'.calls = s.restCalls l ++ posted ∧ g'.dbOps = s.restOps l ++ queries ∧
    Outcome s l g' posted queries

/-- The functions that the step uses run on the account that registered them. -/
def OnItself (s : Logged) (l : GameLabel) : Prop :=
  ∀ {m this a}, s.game.Invokes m l → s.game.accountAt m = some (this, a) → this = m

theorem Does.quiet (posted : List Call) (hcalls : g'.calls = s.restCalls l ++ posted) (hdbOps : g'.dbOps = s.restOps l)
    (hposted : ∀ c ∈ posted, c.owner = none) (hevent : s.Plain l) : Does s l g' :=
  ⟨posted, [], hcalls, by simp [hdbOps], .quiet posted hposted hevent⟩

theorem plain_of_none (h : s.event l = none) : s.Plain l := by
  intro e he
  rw [h] at he
  cases he

theorem plain_deliver (i : Nat) : s.Plain (.deliver i) := by
  intro e he
  simp only [event] at he
  split at he
  · cases he
    exact ⟨_, _, rfl⟩
  · obtain ⟨x, -, rfl⟩ := Option.map_eq_some_iff.mp he
    exact ⟨_, _, rfl⟩
  · cases he

theorem registerRole_calls (g : Game) (accountId roleId : Nat) (m : Mailbox) : ∃ status,
    (RollStub.registerRole g accountId roleId m).calls = g.calls ++ [.onRegisterRole m status] ∧
      (RollStub.registerRole g accountId roleId m).dbOps = g.dbOps := by
  unfold RollStub.registerRole
  split
  · exact ⟨true, rfl, rfl⟩
  · exact ⟨false, rfl, rfl⟩

theorem onRegisterRole_calls (g : Game) (this : Mailbox) (r : Role) (status : Bool) :
    (r.onRegisterRole g this status).calls = g.calls ∧ (r.onRegisterRole g this status).dbOps = g.dbOps := by
  unfold Role.onRegisterRole Role.logout
  split
  · split <;> exact ⟨rfl, rfl⟩
  · exact ⟨rfl, rfl⟩

theorem onRelayLogin_queries (g : Game) (this : Mailbox) (a : Account) :
    (a.onRelayLogin g this).calls = g.calls ∧
      ((a.onRelayLogin g this).dbOps = g.dbOps ∨ (a.onRelayLogin g this).dbOps = g.dbOps ++ [.loadRole this]) := by
  unfold Account.onRelayLogin
  split
  · exact ⟨rfl, Or.inl rfl⟩
  · exact ⟨rfl, Or.inr rfl⟩

theorem deliver_does {cfg : Config} {i : Nat} (hlogin : s.game.LoginInv) (hlength : s.asks.length = s.game.calls.length)
    (hself : s.OnItself (.deliver i)) (h : s.game.step cfg (.deliver i) = some g') : Does s (.deliver i) g' := by
  obtain ⟨c, hc, hhandle⟩ := Option.bind_eq_some_iff.mp h
  have hm := (hlogin.takeCall i).memory
  have hok := hlogin.calls c (List.mem_of_getElem? hc)
  have hevent : s.Plain (.deliver i) := plain_deliver i
  obtain ⟨hi, -⟩ := List.getElem?_eq_some_iff.mp hc
  obtain ⟨ids, hids⟩ : ∃ ids, s.asks[i]? = some ids := ⟨_, List.getElem?_eq_getElem (hlength ▸ hi)⟩
  have hquiet : ∀ posted, g'.calls = (s.game.takeCall i).calls ++ posted → g'.dbOps = s.game.dbOps →
      (∀ c ∈ posted, c.owner = none) → Does s (.deliver i) g' := fun _ hcalls hdbOps hposted =>
    .quiet _ hcalls hdbOps hposted hevent
  have hsilent : g'.calls = (s.game.takeCall i).calls → g'.dbOps = s.game.dbOps → Does s (.deliver i) g' :=
    fun hcalls hdbOps => hquiet [] (by rw [hcalls, List.append_nil]) hdbOps (by simp)
  have hpassOn : ∀ c' m, g'.calls = (s.game.takeCall i).calls ++ [c'] → g'.dbOps = s.game.dbOps →
      c.owner = some m → c'.owner = some m → Does s (.deliver i) g' := fun c' m hcalls hdbOps howner howner' =>
    ⟨[c'], [], hcalls, by rw [hdbOps, List.append_nil]; rfl, .passOn i c c' m rfl hc howner howner' hevent⟩
  -- the account that runs a method is the one that the call names
  have hthis : ∀ {target this a}, c.account = some target →
      (s.game.takeCall i).target target = .object this (.account a) → this = target := fun hname htarget =>
    hself ⟨c, hc, hname⟩ (Game.accountAt_eq.mpr htarget)
  cases c with
  | registerAccount accountId m =>
      cases hhandle
      refine hpassOn _ m rfl rfl rfl ?_
      split <;> rfl
  | unregisterAccount accountId =>
      cases hhandle
      exact hsilent rfl rfl
  | registerRole accountId roleId m =>
      cases hhandle
      obtain ⟨status, hcalls, hdbOps⟩ := registerRole_calls (s.game.takeCall i) accountId roleId m
      exact hquiet [.onRegisterRole m status] hcalls hdbOps (by simp [Call.owner])
  | unregisterRole => exact hok.elim
  | updateByRelay accountId roleId m =>
      cases hhandle
      have hrole : (s.game.takeCall i).roleToMailbox roleId = some m := hok.2
      rw [Game.LoginInv.updateByRelay_eq hrole] at hsilent ⊢
      exact hsilent rfl rfl
  | onRegisterAccount target status old =>
      rcases Game.target_of_account hm hok.1 with htarget | ⟨this, a, htarget, -, -⟩
      · simp [Game.handle, htarget] at hhandle
      · obtain rfl := hthis rfl htarget
        simp only [Game.handle, htarget, Option.some.injEq] at hhandle
        cases status with
        | false =>
            subst hhandle
            exact hpassOn (.onRelayReady old this) this rfl rfl rfl rfl
        | true =>
            subst hhandle
            refine ⟨[], [.loadRole this], by simp [restCalls]; rfl, rfl, ?_⟩
            exact .loadRole i _ this ids rfl hc rfl hids (by simp [event, hc, hids])
  | onRelayReady target m =>
      rcases hok.1 with haccount | hregistered
      · rcases Game.target_of_account hm haccount with htarget | ⟨this, a, htarget, -, -⟩
        · simp [Game.handle, htarget] at hhandle
        · simp only [Game.handle, htarget, Option.some.injEq] at hhandle
          subst hhandle
          exact hpassOn (.onRelayLogin m none) m rfl rfl rfl rfl
      · obtain ⟨r, hr⟩ := hregistered.entity
        have htarget := Game.target_role hm (g := s.game.takeCall i) hr
        simp only [Game.handle, htarget, Option.some.injEq] at hhandle
        subst hhandle
        exact hpassOn (.onWaitLogin m target) m rfl rfl rfl rfl
  | onWaitLogin target m =>
      rcases Game.target_of_account hm hok.1 with htarget | ⟨this, a, htarget, -, -⟩
      · simp [Game.handle, htarget] at hhandle
      · simp only [Game.handle, htarget, Option.some.injEq] at hhandle
        subst hhandle
        exact hquiet [.onRelayLogin m (some a.proxy)] rfl rfl (by simp [Call.owner])
  | onRelayLogin target proxy =>
      cases proxy with
      | none =>
          rcases Game.target_of_account hm hok with htarget | ⟨this, a, htarget, -, -⟩
          · simp [Game.handle, htarget] at hhandle
          · obtain rfl := hthis rfl htarget
            simp only [Game.handle, htarget, Option.some.injEq] at hhandle
            have haccount : s.game.accountAt this = some (this, a) := Game.accountAt_eq.mpr htarget
            subst hhandle
            obtain ⟨hcalls, hsame | hquery⟩ := onRelayLogin_queries (s.game.takeCall i) this a
            · exact hsilent hcalls hsame
            · refine ⟨[], [.loadRole this], by rw [hcalls, List.append_nil]; rfl, hquery, ?_⟩
              exact .loadRole i _ this ids rfl hc rfl hids (by simp [event, hc, hids, haccount])
      | some proxy =>
          obtain ⟨r, hr⟩ := Game.Registered.entity hok
          have htarget := Game.target_role hm (g := s.game.takeCall i) hr
          simp only [Game.handle, htarget, Option.some.injEq] at hhandle
          subst hhandle
          exact hquiet [.updateByRelay r.data.accountId r.data.roleId target] rfl rfl (by simp [Call.owner])
  | onRegisterRole target status =>
      simp only [Game.handle] at hhandle
      split at hhandle
      · rename_i this r htarget
        cases hhandle
        obtain ⟨hcalls, hdbOps⟩ := onRegisterRole_calls (s.game.takeCall i) this r status
        exact hsilent hcalls hdbOps
      · cases hhandle
        exact hsilent rfl rfl
  | kickRole => exact hok.elim

theorem loadAccount_does {i : Nat} {a : Account} {status : Bool} {row : Option (Nat × Nat)}
    (hop : s.game.dbOps[i]? = some (.loadAccount m)) :
    Does s (.dbReply i (.account status row))
      (a.onLoadAccountCallback { s.game with dbOps := s.game.dbOps.eraseIdx i } m status row) := by
  have hevent : s.Plain (.dbReply i (.account status row)) := plain_of_none rfl
  unfold Account.onLoadAccountCallback
  split
  · exact ⟨[], [], by simp [restCalls], by simp [restOps], .quiet [] (by simp) hevent⟩
  · split
    · exact ⟨[], [.insertAccount m], by simp [restCalls]; rfl, rfl, .insertAccount i _ m rfl hop hevent⟩
    · rename_i accountId roleId
      refine ⟨[.registerAccount accountId m], [], rfl, by simp [restOps]; rfl, ?_⟩
      exact .registerAccount i _ _ m { a with accountId := accountId, roleId := roleId } rfl hop rfl
        (Function.update_self _ _ _) hevent

theorem insertAccount_does {i : Nat} {a : Account} {status : Bool} (hop : s.game.dbOps[i]? = some (.insertAccount m))
    (ha : s.game.entities m = some (.account a)) :
    Does s (.dbReply i (.insert status))
      (a.onInsertAccount { s.game with dbOps := s.game.dbOps.eraseIdx i } m status) := by
  have hevent : s.Plain (.dbReply i (.insert status)) := by
    apply plain_of_none
    cases status <;> simp [event, hop]
  unfold Account.onInsertAccount
  split
  · exact ⟨[.registerAccount a.accountId m], [], rfl, by simp [restOps]; rfl,
      .registerAccount i _ _ m a rfl hop rfl ha hevent⟩
  · exact ⟨[], [], by simp [restCalls], by simp [restOps], .quiet [] (by simp) hevent⟩

theorem unregisterAccount_does {a : Account} {i : Nat} {reply : DbReply} (hevent : s.Plain (.dbReply i reply)) :
    Does s (.dbReply i reply) (a.unregisterAccount { s.game with dbOps := s.game.dbOps.eraseIdx i } m) :=
  ⟨[.unregisterAccount a.accountId], [], rfl, by simp [restOps]; rfl, .quiet _ (by simp [Call.owner]) hevent⟩

theorem onLoginSuccess_does {a : Account} {i : Nat} {reply : DbReply} {op : DbOp} {data : RoleInfo}
    (hop : s.game.dbOps[i]? = some op) (hthis : op = .loadRole m ∨ op = .insertRole m)
    (hevent : s.event (.dbReply i reply) = some (.created m a.ids)) :
    Does s (.dbReply i reply) (a.onLoginSuccess { s.game with dbOps := s.game.dbOps.eraseIdx i } m data) := by
  refine ⟨[.registerRole data.accountId data.roleId (s.game.nextMailbox m.address)], [], rfl, ?_, ?_⟩
  · simp [restOps]
    rfl
  · exact .created i _ op m a.ids _ rfl hop hthis (by simp [Call.owner]) hevent

theorem loadRole_does {i : Nat} {a : Account} {status : Bool} {row : Option RoleRow}
    (hop : s.game.dbOps[i]? = some (.loadRole m)) (haccount : s.game.accountAt m = some (m, a)) :
    Does s (.dbReply i (.role status row))
      (a.onLoadRoleCallback { s.game with dbOps := s.game.dbOps.eraseIdx i } m status row) := by
  unfold Account.onLoadRoleCallback
  split
  · rename_i hdestroyed
    refine ⟨[], [], by simp [restCalls], by simp [restOps], .quiet [] (by simp) (plain_of_none ?_)⟩
    cases status <;> simp [event, hop, haccount, hdestroyed]
  · rename_i hlives
    cases status with
    | false => exact unregisterAccount_does (plain_of_none rfl)
    | true =>
        cases row with
        | none =>
            refine ⟨[], [], by simp [restCalls], by simp [restOps], .asked i _ m rfl hop ?_⟩
            simp [event, hop, haccount, hlives]
        | some row => exact onLoginSuccess_does hop (Or.inl rfl) (by simp [event, hop, haccount, hlives])

theorem insertRole_does {cfg : Config} {i : Nat} {a : Account} {status : Bool}
    (hop : s.game.dbOps[i]? = some (.insertRole m)) (haccount : s.game.accountAt m = some (m, a))
    (h : a.onInsertRole cfg { s.game with dbOps := s.game.dbOps.eraseIdx i } m status = some g') :
    Does s (.dbReply i (.insert status)) g' := by
  unfold Account.onInsertRole at h
  cases status with
  | false =>
      cases h
      exact unregisterAccount_does (plain_of_none rfl)
  | true =>
      obtain ⟨resources, -, rfl⟩ := Option.map_eq_some_iff.mp h
      exact onLoginSuccess_does hop (Or.inr rfl) (by simp [event, hop, haccount])

theorem dbReply_does {cfg : Config} {i : Nat} {reply : DbReply} (hlogin : s.game.LoginInv)
    (hself : s.OnItself (.dbReply i reply)) (h : s.game.step cfg (.dbReply i reply) = some g') :
    Does s (.dbReply i reply) g' := by
  obtain ⟨op, hop, hhandle⟩ := Option.bind_eq_some_iff.mp h
  -- the account that runs the callback is the one that sent the query
  have hthis : ∀ {this a}, s.game.target op.this = .object this (.account a) → this = op.this := fun htarget =>
    hself ⟨op, hop, rfl⟩ (Game.accountAt_eq.mpr htarget)
  unfold Game.handleReply at hhandle
  split at hhandle
  case h_1 m status row =>
    split at hhandle
    · rename_i this a htarget
      obtain rfl : this = m := hthis htarget
      cases hhandle
      exact loadAccount_does hop
    · cases hhandle
  case h_2 m status =>
    split at hhandle
    · rename_i this a htarget
      obtain rfl : this = m := hthis htarget
      cases hhandle
      have ha := (Game.target_object hlogin.memory (m := this) htarget).1
      exact insertAccount_does hop ha
    · cases hhandle
  case h_3 m status row =>
    split at hhandle
    · rename_i this a htarget
      obtain rfl : this = m := hthis htarget
      cases hhandle
      exact loadRole_does hop (Game.accountAt_eq.mpr htarget)
    · cases hhandle
  case h_4 m status =>
    split at hhandle
    · rename_i this a htarget
      obtain rfl : this = m := hthis htarget
      exact insertRole_does hop (Game.accountAt_eq.mpr htarget) hhandle
    · cases hhandle
  case h_5 => cases hhandle

/-- Clients log in only when they have no account, and send `create_role` once, when they were asked to; and the
    step uses no function of a freed account on another one. -/
structure Disciplined (s : Logged) (l : GameLabel) : Prop where
  self : s.OnItself l
  login : ∀ {p clientId now node accountId roleId entityId}, l = .client p clientId now (.login node accountId roleId) →
    s.game.clientToEntity p clientId = some entityId → s.game.accountAt ⟨p, entityId⟩ = none
  createRole : ∀ {p clientId now sex name entityId this a}, l = .client p clientId now (.createRole sex name) →
    s.game.clientToEntity p clientId = some entityId → s.game.accountAt ⟨p, entityId⟩ = some (this, a) →
      .asked this ∈ s.trace ∧ ∀ ids, .inserted this ids ∉ s.trace

theorem accountDisconnectClient_calls (g : Game) (this : Mailbox) (a : Account) :
    (a.disconnectClient g this).dbOps = g.dbOps ∧
      ∃ posted, (a.disconnectClient g this).calls = g.calls ++ posted ∧ ∀ c ∈ posted, c.owner = none := by
  unfold Account.disconnectClient
  split
  · exact ⟨rfl, [], by simp, by simp⟩
  · exact ⟨rfl, [.unregisterAccount a.accountId], rfl, by simp [Call.owner]⟩

theorem roleDisconnectClient_calls (g : Game) (this : Mailbox) (r : Role) :
    (r.disconnectClient g this).calls = g.calls ∧ (r.disconnectClient g this).dbOps = g.dbOps := by
  unfold Role.disconnectClient Role.logout
  split <;> exact ⟨rfl, rfl⟩

theorem update_calls (g : Game) (p : Address) (now : UInt32) :
    (g.update p now).calls = g.calls ∧ (g.update p now).dbOps = g.dbOps := by
  unfold Game.update
  split <;> exact ⟨rfl, rfl⟩

/-- A command that no account gets. -/
theorem plain_client {p : Address} {clientId : Nat} {now : UInt32} {cmd : ClientCommand}
    (h : ∀ sex name entityId this a, cmd = .createRole sex name → s.game.clientToEntity p clientId = some entityId →
      s.game.target ⟨p, entityId⟩ ≠ .object this (.account a)) : s.Plain (.client p clientId now cmd) := by
  intro e he
  cases cmd with
  | createRole sex name =>
      obtain ⟨entityId, this, a, hclient, haccount, -⟩ := event_createRole.mp he
      exact absurd (Game.accountAt_eq.mp haccount) (h sex name entityId this a rfl hclient)
  | login | disconnectClient | game => cases he

theorem entityCommand_does {cfg : Config} {p : Address} {clientId entityId : Nat} {now : UInt32} {cmd : ClientCommand}
    (hself : s.Disciplined (.client p clientId now cmd)) (hclient : s.game.clientToEntity p clientId = some entityId)
    (h : s.game.entityCommand cfg ⟨p, entityId⟩ now cmd = some g') : Does s (.client p clientId now cmd) g' := by
  -- a command that posts and asks nothing is quiet
  have hsilent : g'.calls = s.game.calls → g'.dbOps = s.game.dbOps → s.Plain (.client p clientId now cmd) →
      Does s (.client p clientId now cmd) g' := fun hcalls hdbOps hevent =>
    .quiet [] (by simp [hcalls, restCalls]) hdbOps (by simp) hevent
  unfold Game.entityCommand at h
  split at h
  case h_1 this a node accountId roleId htarget =>
    have hnone := hself.login rfl hclient
    rw [Game.accountAt_eq.mpr htarget] at hnone
    cases hnone
  case h_2 this a sex name htarget =>
    obtain ⟨-, -, rfl⟩ := Account.createRole_eq_some h
    have haccount := Game.accountAt_eq.mpr htarget
    obtain rfl := hself.self ⟨rfl, hclient⟩ haccount
    refine ⟨[], [.insertRole ⟨p, entityId⟩], by simp [restCalls]; rfl, rfl, .createRole _ a.ids ?_⟩
    exact event_createRole.mpr ⟨entityId, _, a, hclient, haccount, rfl⟩
  case h_3 this a htarget =>
    cases h
    obtain ⟨hdbOps, posted, hcalls, hposted⟩ := accountDisconnectClient_calls s.game this a
    exact .quiet posted hcalls hdbOps hposted (plain_of_none rfl)
  case h_4 this r htarget =>
    cases h
    obtain ⟨hcalls, hdbOps⟩ := roleDisconnectClient_calls s.game this r
    exact hsilent hcalls hdbOps (plain_of_none rfl)
  case h_5 this r cmd htarget =>
    obtain ⟨data, -, rfl⟩ := Option.map_eq_some_iff.mp h
    exact hsilent rfl rfl (plain_of_none rfl)
  case h_6 =>
    cases h
    exact hsilent rfl rfl (plain_of_none rfl)
  case h_7 => cases h
  case h_8 =>
    rename_i hcreate _ _ _ _
    cases h
    refine hsilent rfl rfl (plain_client ?_)
    intro sex name entityId' this a hcmd hclient' htarget
    rw [hclient] at hclient'
    cases hclient'
    exact hcreate this a sex name htarget hcmd

theorem client_does {cfg : Config} {p : Address} {clientId : Nat} {now : UInt32} {cmd : ClientCommand}
    (hlogin : s.game.LoginInv) (hself : s.Disciplined (.client p clientId now cmd))
    (h : s.game.step cfg (.client p clientId now cmd) = some g') : Does s (.client p clientId now cmd) g' := by
  simp only [Game.step, Game.clientCommand] at h
  split at h
  case h_1 entityId hclient => exact entityCommand_does hself hclient h
  case h_2 hclient =>
    split at h
    · cases h
    · cases h
      refine ⟨[], [.loadAccount (s.game.nextMailbox p)], by simp [restCalls]; rfl, rfl, ?_⟩
      refine .login _ (Game.kind_nextMailbox hlogin.memory p) ?_ (plain_of_none rfl)
      simp [Game.kind, Account.login, Game.createEntity, Game.allocate, Game.updateClientEntityId, Game.query]
  case h_3 hclient _ =>
    cases h
    refine .quiet [] (by simp [restCalls]) rfl (by simp) (plain_client ?_)
    intro sex name entityId this a _ hclient'
    rw [hclient] at hclient'
    cases hclient'

/-- **What a disciplined step does to the logins.** -/
theorem does {cfg : Config} (hlogin : s.game.LoginInv) (hlength : s.asks.length = s.game.calls.length)
    (hdisciplined : s.Disciplined l) (h : s.game.step cfg l = some g') : Does s l g' := by
  cases l with
  | client p clientId now cmd => exact client_does hlogin hdisciplined h
  | deliver i => exact deliver_does hlogin hlength hdisciplined.self h
  | dbReply i reply => exact dbReply_does hlogin hdisciplined.self h
  | timer i =>
      obtain ⟨m, -, hhandle⟩ := Option.bind_eq_some_iff.mp h
      split at hhandle
      · cases hhandle
        refine .quiet [] ?_ ?_ (by simp) (plain_of_none rfl)
        · unfold Role.onTimer Role.logout
          split <;> simp [restCalls]
        · unfold Role.onTimer Role.logout
          split <;> rfl
      · cases hhandle
  | update p now =>
      cases h
      obtain ⟨hcalls, hdbOps⟩ := update_calls s.game p now
      exact .quiet [] (by simp [hcalls, restCalls]) hdbOps (by simp) (plain_of_none rfl)

/-! ## Counting logins -/

/-- What is left of the login of the account at `m`. -/
def logins (s : Logged) (m : Mailbox) : Nat :=
  s.game.calls.countP (fun c => c.owner = some m) + s.game.dbOps.countP fun op => op.login = some m

/-- The inserts of a role that the account at `m` waits for. -/
def inserts (s : Logged) (m : Mailbox) : Nat := s.game.dbOps.count (.insertRole m)

theorem restCalls_countP (p : Call → Bool) : (s.restCalls l).countP p ≤ s.game.calls.countP p := by
  cases l with
  | deliver i => exact (List.eraseIdx_sublist _ _).countP_le
  | _ => exact Nat.le_refl _

theorem restOps_countP (p : DbOp → Bool) : (s.restOps l).countP p ≤ s.game.dbOps.countP p := by
  cases l with
  | dbReply i reply => exact (List.eraseIdx_sublist _ _).countP_le
  | _ => exact Nat.le_refl _

/-- How often the client of the account was asked for a role, and how many rows and entities the account made. -/
def askedFor (s : Logged) (m : Mailbox) : Nat := s.trace.count (.asked m)

def inserted (s : Logged) (m : Mailbox) : Nat := s.trace.countP (AccountEvent.insertedBy m)

def created (s : Logged) (m : Mailbox) : Nat := s.trace.countP (AccountEvent.createdBy m)

/-- A step takes what it adds for the account at `m` from what is left of its login. -/
structure Counts (s s' : Logged) (m : Mailbox) : Prop where
  logins : s'.logins m + s'.askedFor m ≤ s.logins m + s.askedFor m
  roles : s'.logins m + s'.inserts m + s'.created m + s.inserted m ≤
    s.logins m + s.inserts m + s.created m + s'.inserted m
  inserts : s'.inserts m + s.inserted m ≤ s.inserts m + s'.inserted m

/-- The step starts the login of a new account. -/
structure Starts (s s' : Logged) (m : Mailbox) : Prop where
  new : s.game.kind m = none
  logins : s'.logins m ≤ s.logins m + 1
  inserts : s'.inserts m ≤ s.inserts m
  trace : s'.askedFor m = s.askedFor m ∧ s'.inserted m = s.inserted m ∧ s'.created m = s.created m

/-- What an event adds to the counts. -/
theorem event_counts {cfg : Config} {e : AccountEvent} (hevent : s.event l = some e) (hstep : s.step cfg l = some s')
    (m : Mailbox) : s'.askedFor m = s.askedFor m + (if e == .asked m then 1 else 0) ∧
      s'.inserted m = s.inserted m + (if AccountEvent.insertedBy m e then 1 else 0) ∧
      s'.created m = s.created m + (if AccountEvent.createdBy m e then 1 else 0) := by
  unfold askedFor inserted created
  rw [(step_eq hstep).2, hevent]
  exact ⟨List.count_cons, List.countP_cons, List.countP_cons⟩

theorem Plain.trace {cfg : Config} (h : s.Plain l) (hstep : s.step cfg l = some s') (m : Mailbox) :
    s'.askedFor m = s.askedFor m ∧ s'.inserted m = s.inserted m ∧ s'.created m = s.created m := by
  cases he : s.event l with
  | none => simp [askedFor, inserted, created, (step_eq hstep).2, he]
  | some e =>
      obtain ⟨m', ids, rfl⟩ := h e he
      simpa [AccountEvent.insertedBy, AccountEvent.createdBy] using event_counts he hstep m

theorem countP_owner {posted : List Call} (h : ∀ c ∈ posted, c.owner = none) (m : Mailbox) :
    posted.countP (fun c => decide (c.owner = some m)) = 0 := by
  apply List.countP_eq_zero.mpr
  intro c hc
  simp [h c hc]

theorem Does.counts {cfg : Config} (hdoes : Does s l s'.game) (hstep : s.step cfg l = some s') (m : Mailbox) :
    Counts s s' m ∨ Starts s s' m := by
  obtain ⟨posted, queries, hcalls, hdbOps, houtcome⟩ := hdoes
  have hlogins : s'.logins m =
      (s.restCalls l).countP (fun c => c.owner = some m) + posted.countP (fun c => c.owner = some m) +
      ((s.restOps l).countP (fun op => op.login = some m) + queries.countP fun op => op.login = some m) := by
    simp only [logins, hcalls, hdbOps, List.countP_append]
  have hinserts : s'.inserts m = (s.restOps l).count (.insertRole m) + queries.count (.insertRole m) := by
    simp only [inserts, hdbOps, List.count_append]
  have hrestCalls := s.restCalls_countP (l := l) fun c => c.owner = some m
  have hrestOps := s.restOps_countP (l := l) fun op => op.login = some m
  have hrestInserts : (s.restOps l).count (.insertRole m) ≤ s.inserts m := s.restOps_countP (l := l) _
  have hold : s.logins m =
      s.game.calls.countP (fun c => c.owner = some m) + s.game.dbOps.countP fun op => op.login = some m := rfl
  cases houtcome with
  | quiet posted hposted hevent =>
      obtain ⟨hasked, hinserted, hcreated⟩ := hevent.trace hstep m
      rw [countP_owner hposted] at hlogins
      simp only [List.countP_nil, List.count_nil] at hlogins hinserts
      left
      constructor <;> omega
  | login m₀ hnew hknown hevent =>
      obtain ⟨hasked, hinserted, hcreated⟩ := hevent.trace hstep m
      simp only [List.countP_nil, List.countP_singleton, List.count_singleton, DbOp.login_loadAccount] at hlogins hinserts
      by_cases hm : m₀ = m
      · right
        subst hm
        simp at hlogins hinserts
        exact ⟨hnew, by omega, by omega, hasked, hinserted, hcreated⟩
      · left
        simp [hm] at hlogins hinserts
        constructor <;> omega
  | createRole m₀ ids hevent =>
      obtain ⟨hasked, hinserted, hcreated⟩ := event_counts hevent hstep m
      simp [AccountEvent.insertedBy, AccountEvent.createdBy] at hlogins hasked hinserted hcreated
      have hone : List.count (DbOp.insertRole m) [.insertRole m₀] = if m₀ = m then 1 else 0 := by
        simp [List.count_singleton]
      left
      constructor <;> omega
  | insertAccount i reply m₀ hl hop hevent =>
      obtain ⟨hasked, hinserted, hcreated⟩ := hevent.trace hstep m
      subst hl
      have htaken := countP_eraseIdx (fun op => decide (op.login = some m)) hop
      simp [restOps, restCalls] at hlogins hinserts htaken hrestInserts
      left
      constructor <;> omega
  | registerAccount i reply op m₀ a hl hop howner ha hevent =>
      obtain ⟨hasked, hinserted, hcreated⟩ := hevent.trace hstep m
      subst hl
      have htaken := countP_eraseIdx (fun op => decide (op.login = some m)) hop
      simp [howner, restOps, restCalls] at hlogins hinserts htaken hrestInserts
      left
      constructor <;> omega
  | passOn i c c' m₀ hl hc howner howner' hevent =>
      obtain ⟨hasked, hinserted, hcreated⟩ := hevent.trace hstep m
      subst hl
      have htaken := countP_eraseIdx (fun c => decide (c.owner = some m)) hc
      simp [howner, howner', restOps, restCalls] at hlogins hinserts htaken hrestInserts
      left
      constructor <;> omega
  | loadRole i c m₀ ids hl hc howner hids hevent =>
      have hplain : s.Plain l := fun e he => ⟨m₀, ids, by simpa [hevent] using he.symm⟩
      obtain ⟨hasked, hinserted, hcreated⟩ := hplain.trace hstep m
      subst hl
      have htaken := countP_eraseIdx (fun c => decide (c.owner = some m)) hc
      simp [howner, restOps, restCalls] at hlogins hinserts htaken hrestInserts
      left
      constructor <;> omega
  | asked i reply m₀ hl hop hevent =>
      obtain ⟨hasked, hinserted, hcreated⟩ := event_counts hevent hstep m
      simp [AccountEvent.insertedBy, AccountEvent.createdBy] at hasked hinserted hcreated
      subst hl
      have htaken := countP_eraseIdx (fun op => decide (op.login = some m)) hop
      simp [restOps, restCalls] at hlogins hinserts htaken hrestInserts
      left
      constructor <;> omega
  | created i reply op m₀ ids posted hl hop hthis hposted hevent =>
      obtain ⟨hasked, hinserted, hcreated⟩ := event_counts hevent hstep m
      simp [AccountEvent.insertedBy, AccountEvent.createdBy] at hasked hinserted hcreated
      subst hl
      have htaken := countP_eraseIdx (fun op => decide (op.login = some m)) hop
      have htakenInserts := countP_eraseIdx (fun op => op == DbOp.insertRole m) hop
      rw [countP_owner hposted] at hlogins
      left
      -- the answer was to the query of the role, which is part of the login, or to the insert
      rcases hthis with rfl | rfl
      · simp [restOps, restCalls] at hlogins hinserts htaken hrestInserts
        constructor <;> omega
      · simp [restOps, restCalls] at hlogins hinserts htaken
        have hinserts' : s.inserts m = ((s.game.dbOps.eraseIdx i).count (.insertRole m)) + if m₀ = m then 1 else 0 := by
          simpa [inserts, List.count] using htakenInserts
        constructor <;> omega

/-! ## Disciplined runs -/

/-- What the call in flight asks for are the ids of its account. -/
def Tagged (g : Game) (c : Call) (ids : Nat × Nat) : Prop :=
  ∀ {m a}, c.owner = some m → g.entities m = some (.account a) → a.ids = ids

/-- The invariant of a disciplined run. -/
structure LoginsInv (s : Logged) : Prop where
  base : Inv s
  /-- An account has one login, until its client is asked for a role. -/
  login : ∀ m, s.logins m + s.askedFor m ≤ 1
  /-- It makes one role: at the end of its login, or by an insert. -/
  role : ∀ m, s.logins m + s.inserts m + s.created m ≤ 1
  insert : ∀ {m}, .asked m ∈ s.trace → s.inserts m + s.created m ≤ s.inserted m
  unasked : ∀ {m}, .asked m ∉ s.trace → s.inserts m = 0
  known : ∀ {m}, (∃ op ∈ s.game.dbOps, op.this = m) ∨ .asked m ∈ s.trace → (s.game.kind m).isSome
  tags : List.Forall₂ (Tagged s.game) s.game.calls s.asks
  granted : ∀ {m a}, .loadRole m ∈ s.game.dbOps ∨ .asked m ∈ s.trace → s.game.entities m = some (.account a) →
    .granted m a.ids ∈ s.trace

namespace LoginsInv

theorem init (entityId : Address → Nat) : LoginsInv (Logged.init entityId) := by
  refine ⟨Inv.init entityId, ?_, ?_, ?_, ?_, ?_, .nil, ?_⟩
  · intro m
    simp [logins, askedFor, Logged.init, Game.init]
  · intro m
    simp [logins, inserts, created, Logged.init, Game.init]
  · intro m h
    cases h
  · intro m h
    simp [inserts, Logged.init, Game.init]
  · rintro m (⟨op, hop, -⟩ | h)
    · cases hop
    · cases h
  · rintro m a (h | h)
    · cases h
    · cases h

theorem inserts_pos {i : Nat} (hop : s.game.dbOps[i]? = some (.insertRole m)) : 0 < s.inserts m :=
  List.count_pos_iff.mpr (List.mem_of_getElem? hop)

/-- Steps in a disciplined run are in order. -/
theorem inOrder (hinv : LoginsInv s) (h : s.Disciplined l) : s.InOrder l := by
  have hentity : ∀ {old this a}, s.game.accountAt old = some (this, a) → s.game.entities this = some (.account a) :=
    fun haccount => (Game.target_object hinv.base.login.memory (Game.accountAt_eq.mp haccount)).1
  cases l with
  | client p clientId now cmd =>
      cases cmd with
      | createRole sex name =>
          intro entityId this a hclient haccount
          obtain ⟨hasked, hfirst⟩ := h.createRole rfl hclient haccount
          exact ⟨hinv.granted (Or.inr hasked) (hentity haccount), hfirst⟩
      | login | disconnectClient | game => trivial
  | dbReply i reply =>
      match reply with
      | .insert true =>
          intro old this a hop haccount
          obtain rfl := h.self ⟨.insertRole old, hop, rfl⟩ haccount
          have hpos := inserts_pos hop
          have hasked : .asked this ∈ s.trace := by
            by_contra hno
            rw [hinv.unasked hno] at hpos
            cases hpos
          have hone := hinv.role this
          refine ⟨hinv.granted (Or.inr hasked) (hentity haccount), AccountEvent.countP_createdBy.mp ?_⟩
          show s.created this = 0
          omega
      | .role true (some row) =>
          intro old this a hop haccount hlives
          obtain rfl := h.self ⟨.loadRole old, hop, rfl⟩ haccount
          exact hinv.granted (Or.inl (List.mem_of_getElem? hop)) (hentity haccount)
      | .role true none | .insert false | .role false _ | .account _ _ => trivial
  | deliver | timer | update => trivial

/-- Only the account whose query of the account table is answered changes its ids, and it has nothing else under
    way. -/
theorem ids_eq {cfg : Config} {a' : Account} (hinv : LoginsInv s) (h : s.step cfg l = some s') (hself : s.OnItself l)
    (hknown : (s.game.kind m).isSome) (ha' : s'.game.entities m = some (.account a')) :
    (∃ a, s.game.entities m = some (.account a) ∧ a'.ids = a.ids) ∨
      ∃ i reply, l = .dbReply i reply ∧ s.game.dbOps[i]? = some (.loadAccount m) := by
  rcases Game.step_account hinv.base.login.memory (step_eq h).1 ha' with hnew | ⟨a, ha, -, hids⟩
  · rw [hnew] at hknown
    cases hknown
  · rcases hids with ⟨i, reply, old, a₁, rfl, hop, htarget⟩ | hids
    · obtain rfl := hself ⟨.loadAccount old, hop, rfl⟩ (Game.accountAt_eq.mpr htarget)
      exact Or.inr ⟨i, reply, rfl, hop⟩
    · exact Or.inl ⟨a, ha, hids⟩

theorem logins_pos_of_op {op : DbOp} (hop : op ∈ s.game.dbOps) (howner : op.login = some m) :
    0 < s.game.dbOps.countP fun op => op.login = some m :=
  List.countP_pos_iff.mpr ⟨op, hop, by simp [howner]⟩

theorem logins_pos_of_call {c : Call} (hc : c ∈ s.game.calls) (howner : c.owner = some m) :
    0 < s.game.calls.countP fun c => c.owner = some m :=
  List.countP_pos_iff.mpr ⟨c, hc, by simp [howner]⟩

theorem mem_asked : .asked m ∈ s.trace ↔ 0 < s.askedFor m := List.count_pos_iff.symm

/-- The owner of a call of the protocol was given out. -/
theorem owner_known {c : Call} (hok : s.game.CallOk c) (howner : c.owner = some m) : (s.game.kind m).isSome := by
  cases c with
  | registerAccount accountId m' | onRegisterAccount m' status old | onWaitLogin m' old =>
      cases howner
      first
        | rw [show s.game.kind m = some .account from hok]
        | rw [hok.1]
      rfl
  | onRelayReady target m' =>
      cases howner
      rw [hok.2]
      rfl
  | onRelayLogin target proxy =>
      cases proxy with
      | none =>
          cases howner
          rw [show s.game.kind m = some .account from hok]
          rfl
      | some proxy => cases howner
  | _ => cases howner

/-- Nothing is under way for a mailbox that was not given out. -/
theorem unknown (hinv : LoginsInv s) (hm : s.game.kind m = none) :
    s.logins m = 0 ∧ s.inserts m = 0 ∧ s.askedFor m = 0 ∧ s.created m = 0 := by
  have hno : ¬ (s.game.kind m).isSome := by simp [hm]
  refine ⟨?_, ?_, ?_, ?_⟩
  · rw [logins, Nat.add_eq_zero_iff, List.countP_eq_zero, List.countP_eq_zero]
    constructor
    · intro c hc howner
      exact hno (owner_known (hinv.base.login.calls c hc) (of_decide_eq_true howner))
    · intro op hop howner
      have hthis : op.this = m := by
        cases op <;> simp at howner <;> exact howner
      exact hno (hinv.known (Or.inl ⟨op, hop, hthis⟩))
  · exact List.count_eq_zero.mpr fun hop => hno (hinv.known (Or.inl ⟨_, hop, rfl⟩))
  · exact List.count_eq_zero.mpr fun hasked => hno (hinv.known (Or.inr hasked))
  · exact AccountEvent.countP_createdBy.mpr fun ids hcreated => hno (hinv.base.known hcreated)

/-- What a step adds to the trace of the account at `m`. -/
theorem trace_cases {cfg : Config} (hdisciplined : s.Disciplined l) (h : s.step cfg l = some s') (m : Mailbox) :
    (s'.askedFor m = s.askedFor m ∧ s'.inserted m = s.inserted m) ∨
      (s.askedFor m ≤ s'.askedFor m ∧ s'.inserted m = s.inserted m ∧ s'.created m = s.created m) ∨
      (s'.askedFor m = s.askedFor m ∧ s'.inserted m = 1 ∧ s.inserted m = 0 ∧ .asked m ∈ s.trace) := by
  cases he : s.event l with
  | none => simp [askedFor, inserted, (step_eq h).2, he]
  | some e =>
      have hcounts := event_counts he h m
      cases e with
      | granted m' ids | created m' ids =>
          left
          simpa [AccountEvent.insertedBy] using ⟨hcounts.1, hcounts.2.1⟩
      | asked m' =>
          simp only [AccountEvent.insertedBy, AccountEvent.createdBy] at hcounts
          right
          left
          exact ⟨hcounts.1 ▸ Nat.le_add_right _ _, hcounts.2.1, hcounts.2.2⟩
      | inserted m' ids =>
          simp only [AccountEvent.insertedBy] at hcounts
          by_cases hm : m' = m
          · subst hm
            obtain ⟨p, clientId, now, sex, name, entityId, a, rfl, hclient, haccount⟩ := event_inserted he
            obtain ⟨hasked, hfirst⟩ := hdisciplined.createRole rfl hclient haccount
            have hzero : s.inserted m' = 0 := AccountEvent.countP_insertedBy.mpr hfirst
            right
            right
            exact ⟨hcounts.1, by simpa [hzero] using hcounts.2.1, hzero, hasked⟩
          · left
            exact ⟨hcounts.1, by simpa [hm] using hcounts.2.1⟩

/-- The counts of the invariant. -/
theorem counts {cfg : Config} (hinv : LoginsInv s) (hdisciplined : s.Disciplined l) (h : s.step cfg l = some s')
    (m : Mailbox) : s'.logins m + s'.askedFor m ≤ 1 ∧ s'.logins m + s'.inserts m + s'.created m ≤ 1 ∧
      (.asked m ∈ s'.trace → s'.inserts m + s'.created m ≤ s'.inserted m) ∧
      (.asked m ∉ s'.trace → s'.inserts m = 0) := by
  have hlength : s.asks.length = s.game.calls.length := hinv.tags.length_eq.symm
  have hdoes := does hinv.base.login hlength hdisciplined (step_eq h).1
  have hlogin := hinv.login m
  have hrole := hinv.role m
  have hinsert : 0 < s.askedFor m → s.inserts m + s.created m ≤ s.inserted m := fun hasked =>
    hinv.insert (mem_asked.mpr hasked)
  have hunasked : s.askedFor m = 0 → s.inserts m = 0 := fun hzero =>
    hinv.unasked fun hasked => absurd (mem_asked.mp hasked) (by omega)
  have htrace := trace_cases hdisciplined h m
  simp only [mem_asked] at htrace ⊢
  rcases hdoes.counts h m with ⟨hlogins, hroles, hinserts⟩ | ⟨hnew, hlogins, hinserts, hasked, hinserted, hcreated⟩
  · refine ⟨?_, ?_, ?_, ?_⟩ <;> omega
  · obtain ⟨hlogins₀, hinserts₀, hasked₀, hcreated₀⟩ := hinv.unknown hnew
    refine ⟨?_, ?_, ?_, ?_⟩ <;> omega

theorem mem_trace {cfg : Config} {e : AccountEvent} (h : s.step cfg l = some s') :
    e ∈ s'.trace ↔ s.event l = some e ∨ e ∈ s.trace := by
  rw [(step_eq h).2, List.mem_append, Option.mem_toList]

theorem known_of_account {a : Account} (hinv : LoginsInv s) {old : Mailbox}
    (haccount : s.game.accountAt old = some (m, a)) : (s.game.kind m).isSome := by
  have hm := hinv.base.login.memory
  rw [Game.kind_account hm (Game.target_object hm (Game.accountAt_eq.mp haccount)).1]
  rfl

/-- What is known stays known. -/
theorem known_step {cfg : Config} (hinv : LoginsInv s) (hdoes : Does s l s'.game) (h : s.step cfg l = some s')
    (hwaits : (∃ op ∈ s'.game.dbOps, op.this = m) ∨ .asked m ∈ s'.trace) : (s'.game.kind m).isSome := by
  have hext := Game.extends_step hinv.base.login (step_eq h).1
  have hkept : (s.game.kind m).isSome → (s'.game.kind m).isSome := by
    intro hsome
    obtain ⟨k, hk⟩ := Option.isSome_iff_exists.mp hsome
    simp [hext.kind hk]
  obtain ⟨posted, queries, -, hdbOps, houtcome⟩ := hdoes
  rcases hwaits with ⟨op, hop, hthis⟩ | hasked
  · rw [hdbOps, List.mem_append] at hop
    rcases hop with hold | hnew
    · apply hkept
      have hmem : op ∈ s.game.dbOps := by
        cases l with
        | dbReply i reply => exact List.mem_of_mem_eraseIdx hold
        | _ => exact hold
      exact hinv.known (Or.inl ⟨op, hmem, hthis⟩)
    · cases houtcome with
      | login m₀ _ hknown =>
          obtain rfl := List.mem_singleton.mp hnew
          exact hthis ▸ hknown
      | createRole m₀ ids hevent =>
          obtain rfl := List.mem_singleton.mp hnew
          obtain ⟨p, clientId, now, sex, name, entityId, a, -, -, haccount⟩ := event_inserted hevent
          exact hkept (hthis ▸ hinv.known_of_account haccount)
      | insertAccount i reply m₀ hl hop' =>
          obtain rfl := List.mem_singleton.mp hnew
          exact hkept (hinv.known (Or.inl ⟨_, List.mem_of_getElem? hop', hthis⟩))
      | loadRole i c m₀ ids hl hc howner =>
          obtain rfl := List.mem_singleton.mp hnew
          obtain rfl : m₀ = m := hthis
          exact hkept (owner_known (hinv.base.login.calls c (List.mem_of_getElem? hc)) howner)
      | _ => cases hnew
  · apply hkept
    rcases (mem_trace h).mp hasked with hnew | hold
    · obtain ⟨i, old, a, -, -, haccount⟩ := event_asked hnew
      exact hinv.known_of_account haccount
    · exact hinv.known (Or.inr hold)

/-- The ids of an account stay those that a call of its login asks for. -/
theorem tagged_step {cfg : Config} {c : Call} {ids : Nat × Nat} (hinv : LoginsInv s) (hself : s.OnItself l)
    (h : s.step cfg l = some s') (hc : c ∈ s.game.calls) (htag : Tagged s.game c ids) : Tagged s'.game c ids := by
  intro m a' howner ha'
  rcases hinv.ids_eq h hself (owner_known (hinv.base.login.calls c hc) howner) ha' with ⟨a, ha, hids⟩ | ⟨i, reply, -, hop⟩
  · exact hids.trans (htag howner ha)
  · -- an account whose query of the account table is out has no call under way
    have hcall := logins_pos_of_call hc howner
    have hquery := logins_pos_of_op (List.mem_of_getElem? hop) (DbOp.login_loadAccount m)
    have hone := hinv.login m
    unfold logins at hone
    omega

theorem tags_deliver {cfg : Config} {i : Nat} (hinv : LoginsInv s) (hself : s.OnItself (.deliver i))
    (hdoes : Does s (.deliver i) s'.game) (h : s.step cfg (.deliver i) = some s') :
    List.Forall₂ (Tagged s'.game) s'.game.calls (s.nextAsks (.deliver i) s'.game) := by
  have hkept : List.Forall₂ (Tagged s'.game) s.game.calls s.asks :=
    forall₂_mono hinv.tags fun c hc ids htag => hinv.tagged_step hself h hc htag
  obtain ⟨c, hc, -⟩ := Option.bind_eq_some_iff.mp (step_eq h).1
  obtain ⟨hi, -⟩ := List.getElem?_eq_some_iff.mp hc
  obtain ⟨ids, hids⟩ : ∃ ids, s.asks[i]? = some ids := ⟨_, List.getElem?_eq_getElem (hinv.tags.length_eq ▸ hi)⟩
  obtain ⟨posted, queries, hcalls, -, houtcome⟩ := hdoes
  have hdrop : s'.game.calls.drop (s.game.calls.length - 1) = posted := by
    rw [hcalls]
    exact List.drop_left' (List.length_eraseIdx_of_lt hi)
  simp only [nextAsks, hids, hdrop]
  rw [hcalls]
  refine List.rel_append (forall₂_eraseIdx hkept i) ?_
  rw [List.forall₂_map_right_iff, List.forall₂_same]
  -- a call that passes the login on asks for what the delivered call asked for
  intro c' hc' m a howner ha
  have htag : Tagged s'.game c ids := forall₂_getElem? hkept hc hids
  cases houtcome with
  | quiet posted hposted => simp [hposted c' hc'] at howner
  | passOn i' c₀ c₁ m₀ hl hc₀ howner₀ howner₁ =>
      cases hl
      rw [hc] at hc₀
      cases hc₀
      obtain rfl := List.mem_singleton.mp hc'
      rw [howner₁] at howner
      cases howner
      exact htag howner₀ ha
  | created i' reply op m₀ ids' posted hl => cases hl
  | registerAccount i' reply op m₀ a' hl => cases hl
  | _ => cases hc'

theorem tags_step {cfg : Config} (hinv : LoginsInv s) (hself : s.OnItself l) (hdoes : Does s l s'.game)
    (h : s.step cfg l = some s') : List.Forall₂ (Tagged s'.game) s'.game.calls s'.asks := by
  have hasks : s'.asks = s.nextAsks l s'.game := by
    obtain ⟨g', hg', rfl⟩ := Option.map_eq_some_iff.mp h
    rfl
  rw [hasks]
  by_cases hl : ∃ i, l = .deliver i
  · obtain ⟨i, rfl⟩ := hl
    exact hinv.tags_deliver hself hdoes h
  have hrest : s.restCalls l = s.game.calls := by
    cases l with
    | deliver i => exact absurd ⟨i, rfl⟩ hl
    | _ => rfl
  have hkept : List.Forall₂ (Tagged s'.game) s.game.calls s.asks :=
    forall₂_mono hinv.tags fun c hc ids htag => hinv.tagged_step hself h hc htag
  obtain ⟨posted, queries, hcalls, -, houtcome⟩ := hdoes
  rw [hrest] at hcalls
  have hnext : s.nextAsks l s'.game = s.asks ++ posted.map (askedIds s'.game) := by
    cases l with
    | deliver i => exact absurd ⟨i, rfl⟩ hl
    | _ => simp only [nextAsks, hcalls, List.drop_left]
  rw [hnext, hcalls]
  refine List.rel_append hkept ?_
  rw [List.forall₂_map_right_iff, List.forall₂_same]
  intro c' hc' m a howner ha
  cases houtcome with
  | quiet posted hposted => simp [hposted c' hc'] at howner
  | registerAccount i reply op m₀ a₀ hl' hop howner₀ ha₀ =>
      obtain rfl := List.mem_singleton.mp hc'
      cases howner
      rw [ha₀] at ha
      cases ha
      simp [askedIds, ha₀, Account.ids]
  | passOn i c₀ c₁ m₀ hl' => exact absurd ⟨i, hl'⟩ hl
  | created i reply op m₀ ids' posted hl' hop hthis hposted => simp [hposted c' hc'] at howner
  | _ => cases hc'

/-- What an account was granted, or waits for with its role, are its ids: it has nothing else under way, so no
    answer changes them. -/
theorem granted_old {cfg : Config} {a : Account} (hinv : LoginsInv s) (hself : s.OnItself l)
    (h : s.step cfg l = some s') (hwaits : .loadRole m ∈ s.game.dbOps ∨ .asked m ∈ s.trace)
    (ha : s'.game.entities m = some (.account a)) : .granted m a.ids ∈ s'.trace := by
  have hknown : (s.game.kind m).isSome := by
    apply hinv.known
    exact hwaits.imp_left fun hop => ⟨_, hop, rfl⟩
  rw [mem_trace h]
  right
  rcases hinv.ids_eq h hself hknown ha with ⟨a₀, ha₀, hids⟩ | ⟨i, reply, -, hop⟩
  · rw [hids]
    exact hinv.granted hwaits ha₀
  · exfalso
    have hone := hinv.login m
    unfold logins at hone
    rcases hwaits with hrole | hasked
    · have htaken := countP_eraseIdx (fun op => decide (op.login = some m)) hop
      have hrest : DbOp.loadRole m ∈ s.game.dbOps.eraseIdx i := by
        have hperm := List.getElem_cons_eraseIdx_perm (List.getElem?_eq_some_iff.mp hop).1
        rcases List.mem_cons.mp (hperm.symm.subset hrole) with heq | hmem
        · rw [(List.getElem?_eq_some_iff.mp hop).2] at heq
          cases heq
        · exact hmem
      have hpos : 0 < (s.game.dbOps.eraseIdx i).countP fun op => op.login = some m :=
        List.countP_pos_iff.mpr ⟨_, hrest, by simp⟩
      simp only [DbOp.login_loadAccount, decide_true, if_true] at htaken
      omega
    · have hquery := logins_pos_of_op (List.mem_of_getElem? hop) (DbOp.login_loadAccount m)
      have hcount := mem_asked.mp hasked
      omega

theorem granted_step {cfg : Config} {a : Account} (hinv : LoginsInv s) (hself : s.OnItself l) (hdoes : Does s l s'.game)
    (h : s.step cfg l = some s') (hwaits : .loadRole m ∈ s'.game.dbOps ∨ .asked m ∈ s'.trace)
    (ha : s'.game.entities m = some (.account a)) : .granted m a.ids ∈ s'.trace := by
  obtain ⟨posted, queries, -, hdbOps, houtcome⟩ := hdoes
  rcases hwaits with hop | hasked
  · rw [hdbOps, List.mem_append] at hop
    rcases hop with hold | hnew
    · have hmem : .loadRole m ∈ s.game.dbOps := by
        cases l with
        | dbReply i reply => exact List.mem_of_mem_eraseIdx hold
        | _ => exact hold
      exact hinv.granted_old hself h (Or.inl hmem) ha
    · -- the grant itself, for the ids that the call asked for
      cases houtcome with
      | loadRole i c m₀ ids hl hc howner hids hevent =>
          cases List.mem_singleton.mp hnew
          have htag : Tagged s.game c ids := forall₂_getElem? hinv.tags hc hids
          rw [hinv.tagged_step hself h (List.mem_of_getElem? hc) htag howner ha, mem_trace h]
          exact Or.inl hevent
      | login | createRole | insertAccount => cases List.mem_singleton.mp hnew
      | _ => cases hnew
  · rcases (mem_trace h).mp hasked with hnew | hold
    · obtain ⟨i, old, a₀, rfl, hop, haccount⟩ := event_asked hnew
      obtain rfl := hself ⟨.loadRole old, hop, rfl⟩ haccount
      exact hinv.granted_old hself h (Or.inl (List.mem_of_getElem? hop)) ha
    · exact hinv.granted_old hself h (Or.inr hold) ha

theorem step {cfg : Config} (hinv : LoginsInv s) (hdisciplined : s.Disciplined l) (h : s.step cfg l = some s') :
    LoginsInv s' := by
  have hlength : s.asks.length = s.game.calls.length := hinv.tags.length_eq.symm
  have hdoes := does hinv.base.login hlength hdisciplined (step_eq h).1
  have hcounts := hinv.counts hdisciplined h
  exact
    { base := hinv.base.step h
      login := fun m => (hcounts m).1
      role := fun m => (hcounts m).2.1
      insert := fun {m} hasked => (hcounts m).2.2.1 hasked
      unasked := fun {m} hasked => (hcounts m).2.2.2 hasked
      known := hinv.known_step hdoes h
      tags := hinv.tags_step hdisciplined.self hdoes h
      granted := hinv.granted_step hdisciplined.self hdoes h }

end LoginsInv

/-- A run of disciplined steps is in order. -/
theorem inOrder_of_disciplined {cfg : Config} {labels : List GameLabel} (hinv : LoginsInv s)
    (h : Along (Logged.step cfg) Disciplined s labels) : Along (Logged.step cfg) InOrder s labels := by
  induction labels generalizing s with
  | nil => trivial
  | cons l labels ih => exact ⟨hinv.inOrder h.1, fun s' hl => ih (hinv.step h.1 hl) (h.2 s' hl)⟩

end Logged

/-- **One role for an account.** In a run whose clients log in once and create a role once, when they were asked to, and
    in which no function of a freed account runs on another one, every account inserts at most one role row and creates
    at most one role entity, either after it was granted the ids that it uses. -/
theorem one_role {cfg : Config} {entityId : Address → Nat} {labels : List GameLabel} {s : Logged}
    (hrun : run (Logged.step cfg) (Logged.init entityId) labels = some s)
    (hdisciplined : Along (Logged.step cfg) Logged.Disciplined (Logged.init entityId) labels) (m : Mailbox) :
    OneRole s.trace m := by
  have horder : Along (Logged.step cfg) Logged.InOrder (Logged.init entityId) labels :=
    Logged.inOrder_of_disciplined (Logged.LoginsInv.init entityId) hdisciplined
  have hguarded : Guarded AccountEvent.Allowed s.trace :=
    (Logged.guarded_run_iff (Logged.Inv.init entityId) hrun).mpr ⟨horder, trivial⟩
  exact one_role_iff_guarded.mpr hguarded m

/-- A new account, whose client creates a role when it is asked. -/
def newRoleRun : List GameLabel :=
  [.client Game.gameOne 1 0 (.login 0 0 0), .dbReply 0 (.account true none), .dbReply 0 (.insert true), .deliver 0,
    .deliver 0, .dbReply 0 (.role true none), .client Game.gameOne 1 0 (.createRole 0 [65]), .dbReply 0 (.insert true)]

theorem Logged.disciplined_dbReply {s : Logged} {i : Nat} {reply : DbReply} (op : DbOp) (hop : s.game.dbOps[i]? = some op)
    (hself : (s.game.accountAt op.this).map Prod.fst = some op.this) : s.Disciplined (.dbReply i reply) := by
  refine ⟨?_, fun hl => ?_, fun hl => ?_⟩
  rotate_left
  · cases hl
  · cases hl
  rintro m this a ⟨op', hop', rfl⟩ haccount
  rw [hop] at hop'
  cases hop'
  rw [haccount] at hself
  exact Option.some.inj hself

theorem Logged.disciplined_deliver {s : Logged} {i : Nat} (c : Call) (hc : s.game.calls[i]? = some c)
    (hself : ∀ m, c.account = some m → (s.game.accountAt m).map Prod.fst = some m) : s.Disciplined (.deliver i) := by
  refine ⟨?_, fun hl => ?_, fun hl => ?_⟩
  rotate_left
  · cases hl
  · cases hl
  rintro m this a ⟨c', hc', hname⟩ haccount
  rw [hc] at hc'
  cases hc'
  have hthis := hself m hname
  rw [haccount] at hthis
  exact Option.some.inj hthis

theorem Logged.disciplined_createRole {s : Logged} {p : Address} {clientId entityId : Nat} {now : UInt32} {sex : UInt8}
    {name : List UInt8} (hclient : s.game.clientToEntity p clientId = some entityId)
    (hself : (s.game.accountAt ⟨p, entityId⟩).map Prod.fst = some ⟨p, entityId⟩)
    (hasked : .asked ⟨p, entityId⟩ ∈ s.trace) (hfirst : s.inserted ⟨p, entityId⟩ = 0) :
    s.Disciplined (.client p clientId now (.createRole sex name)) := by
  have hthis : ∀ {entityId' this a}, s.game.clientToEntity p clientId = some entityId' →
      s.game.accountAt ⟨p, entityId'⟩ = some (this, a) → this = ⟨p, entityId⟩ ∧ entityId' = entityId := by
    intro entityId' this a hclient' haccount
    rw [hclient] at hclient'
    cases hclient'
    rw [haccount] at hself
    exact ⟨Option.some.inj hself, rfl⟩
  refine ⟨?_, ?_, ?_⟩
  · rintro ⟨p', entityId'⟩ this a ⟨rfl, hclient'⟩ haccount
    obtain ⟨rfl, rfl⟩ := hthis hclient' haccount
    rfl
  · intro p' clientId' now' node accountId roleId entityId' hl
    cases hl
  · rintro p' clientId' now' sex' name' entityId' this a ⟨⟩ hclient' haccount
    obtain ⟨rfl, -⟩ := hthis hclient' haccount
    exact ⟨hasked, AccountEvent.countP_insertedBy.mp hfirst⟩

theorem newRoleRun_disciplined :
    Along (Logged.step Game.oneBuilding) Logged.Disciplined (Logged.init fun _ => 0) newRoleRun := by
  refine ⟨⟨?_, ?_, ?_⟩, fun s₁ h₁ => ?_⟩
  · rintro m this a ⟨-, h⟩
    cases h
  · intro p clientId now node accountId roleId entityId hl hclient
    cases hclient
  · intro p clientId now sex name entityId this a hl
    cases hl
  obtain rfl := Option.some.inj h₁
  refine ⟨Logged.disciplined_dbReply (.loadAccount ⟨Game.gameOne, 1⟩) rfl rfl, fun s₂ h₂ => ?_⟩
  obtain rfl := Option.some.inj h₂
  refine ⟨Logged.disciplined_dbReply (.insertAccount ⟨Game.gameOne, 1⟩) rfl rfl, fun s₃ h₃ => ?_⟩
  obtain rfl := Option.some.inj h₃
  refine ⟨Logged.disciplined_deliver (.registerAccount 1 ⟨Game.gameOne, 1⟩) rfl ?_, fun s₄ h₄ => ?_⟩
  · rintro m ⟨⟩
  obtain rfl := Option.some.inj h₄
  refine ⟨Logged.disciplined_deliver (.onRegisterAccount ⟨Game.gameOne, 1⟩ true ⟨Game.gameOne, 1⟩) rfl ?_,
    fun s₅ h₅ => ?_⟩
  · rintro m ⟨⟩
    rfl
  obtain rfl := Option.some.inj h₅
  refine ⟨Logged.disciplined_dbReply (.loadRole ⟨Game.gameOne, 1⟩) rfl rfl, fun s₆ h₆ => ?_⟩
  obtain rfl := Option.some.inj h₆
  refine ⟨Logged.disciplined_createRole rfl rfl List.mem_cons_self rfl, fun s₇ h₇ => ?_⟩
  obtain rfl := Option.some.inj h₇
  exact ⟨Logged.disciplined_dbReply (.insertRole ⟨Game.gameOne, 1⟩) rfl rfl, fun _ _ => trivial⟩

theorem one_role_newRole : ∃ s, run (Logged.step Game.oneBuilding) (Logged.init fun _ => 0) newRoleRun = some s ∧
    s.created ⟨Game.gameOne, 1⟩ = 1 ∧ OneRole s.trace ⟨Game.gameOne, 1⟩ :=
  ⟨_, rfl, rfl, one_role rfl newRoleRun_disciplined _⟩

/-- The client sends `create_role` twice. Every insertion is answered with `true`. -/
def twoRolesRun : List GameLabel :=
  [.client Game.gameOne 1 0 (.login 0 0 0), .dbReply 0 (.account true none), .dbReply 0 (.insert true), .deliver 0,
    .deliver 0, .dbReply 0 (.role true none), .client Game.gameOne 1 0 (.createRole 0 [65]),
    .client Game.gameOne 1 0 (.createRole 0 [65]), .dbReply 0 (.insert true), .dbReply 0 (.insert true)]

theorem twoRolesRun_two : ∃ s, run (Logged.step Game.oneBuilding) (Logged.init fun _ => 0) twoRolesRun = some s ∧
    s.inserted ⟨Game.gameOne, 1⟩ = 2 ∧ s.created ⟨Game.gameOne, 1⟩ = 2 ∧ ¬ OneRole s.trace ⟨Game.gameOne, 1⟩ := by
  refine ⟨_, rfl, rfl, rfl, ?_⟩
  intro h
  exact absurd h.inserted (by decide)

end Mowang
