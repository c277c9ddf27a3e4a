import Mathlib.Logic.Relation
import Mowang.Game.NormalRole

/-!
# `Game.EntitySteps` — what one step does to the entities

`Evolves` follows the kinds of the mailboxes and the calls. Here a step is taken apart into the operations that its
methods are made of: an `Operation` says what it stores and which condition the method met. One lemma for each method,
and `step_operations` for every step but a clean-up; whatever the operations keep, a step keeps.

`Keeps` follows the entities themselves and what refers to them. No method makes an entity vanish, and only a clean-up
frees one; an account stays destroyed, and only an answer to its query of the account table changes its ids; and what a
method stores (a callback, a timer, an entry for a client) refers to an entity that lives.

## Contents
- `Freed`, `Relabels`, `Binds`.
- `Operation`, and the operations of the methods and the steps.
- `Keeps` of the operations, `step_keeps`, `update_freed`, `step_account`.
-/

namespace Mowang

/-- The account whose callback waits for the answer. -/
def DbOp.this : DbOp → Mailbox
  | .loadAccount m   => m
  | .insertAccount m => m
  | .loadRole m      => m
  | .insertRole m    => m

/-- `m_account_id` and `m_role_id`. -/
def Account.ids (a : Account) : Nat × Nat := (a.accountId, a.roleId)

namespace Game

variable {g g' g₁ : Game} {m this : Mailbox}

/-- The mailbox was given out, and `destroy_entity_core` has returned its entity to the pool. -/
def Freed (g : Game) (m : Mailbox) : Prop := (g.kind m).isSome ∧ g.entities m = none

theorem not_freed {e : Entity} (h : g.entities m = some e) : ¬ g.Freed m := by
  rintro ⟨-, hnone⟩
  rw [h] at hnone
  cases hnone

theorem setEntity_not_freed (e : Entity) : ¬ (g.setEntity this e).Freed this := not_freed (Function.update_self _ _ _)

theorem createEntity_not_freed (p : Address) (e : Entity) : ¬ (g.createEntity p e).Freed (g.nextMailbox p) :=
  not_freed (Function.update_self _ _ _)

theorem client_of_remove {p p' : Address} {clientId clientId' entityId : Nat}
    (h : (g.removeClientId p clientId).clientToEntity p' clientId' = some entityId) :
    g.clientToEntity p' clientId' = some entityId := by
  by_cases hp : p' = p
  · subst hp
    by_cases hc : clientId' = clientId
    · simp [Game.removeClientId, hc] at h
    · simpa [Game.removeClientId, hc] using h
  · simpa [Game.removeClientId, hp] using h

theorem client_of_update {p p' : Address} {clientId clientId' entityId entityId' : Nat}
    (h : (g.updateClientEntityId p clientId entityId).clientToEntity p' clientId' = some entityId') :
    g.clientToEntity p' clientId' = some entityId' ∨ p' = p ∧ clientId' = clientId ∧ entityId' = entityId := by
  by_cases hp : p' = p
  · subst hp
    by_cases hc : clientId' = clientId
    · right
      simp only [Game.updateClientEntityId, hc, Function.update_self, Option.some.injEq] at h
      exact ⟨rfl, hc, h.symm⟩
    · left
      simpa [Game.updateClientEntityId, hc] using h
  · left
    simpa [Game.updateClientEntityId, hp] using h

/-- The account at `m` gets an answer to its query of the account table. -/
def Relabels (g : Game) (l : GameLabel) (m : Mailbox) : Prop :=
  ∃ i reply old a, l = .dbReply i reply ∧ g.dbOps[i]? = some (.loadAccount old) ∧ g.target old = .object m (.account a)

/-- The step binds the client to an entity of process `p`. -/
def Binds (g : Game) (l : GameLabel) (p : Address) (clientId : Nat) : Prop :=
  match l with
  | .client p' clientId' _ (.login _ _ _) => p = p' ∧ clientId = clientId' ∧ g.clientToEntity p clientId = none
  | .deliver i => ∃ target proxy this r, g.calls[i]? = some (.onRelayLogin target (some proxy)) ∧
      g.target target = .object this (.role r) ∧ p = this.address ∧ clientId = proxy.clientId
  | .dbReply i reply => ∃ old this a, g.target old = .object this (.account a) ∧ p = this.address ∧
      clientId = a.proxy.clientId ∧
      (g.dbOps[i]? = some (.loadRole old) ∧ a.destroyed = false ∧ (∃ row, reply = .role true (some row)) ∨
        g.dbOps[i]? = some (.insertRole old) ∧ reply = .insert true)
  | _ => False

/-! ## The operations of a method -/

/-- One operation of a method. Ids change in the accounts of `relabels` alone, and only the clients of `binds` get an
    entity or become the client of one. -/
inductive Operation (relabels : Mailbox → Prop) (binds : Address → Nat → Prop) (g : Game) : Game → Prop where
  /-- Calls are sent or taken, and the stub changes its own maps. -/
  | stub (accounts roles : Nat → Option Mailbox) (refused : List Mailbox) (calls : List Call) :
      Operation relabels binds g
        { g with accountToMailbox := accounts, roleToMailbox := roles, refused := refused, calls := calls }
  | query (op : DbOp) (hlives : ¬ g.Freed op.this) : Operation relabels binds g (g.query op)
  | takeDbOp (i : Nat) : Operation relabels binds g { g with dbOps := g.dbOps.eraseIdx i }
  | addTimer (this : Mailbox) (hlives : ¬ g.Freed this) : Operation relabels binds g (g.addTimer this)
  | takeTimer (i : Nat) : Operation relabels binds g { g with timers := g.timers.eraseIdx i }
  | destroyEntity (this : Mailbox) : Operation relabels binds g (g.destroyEntity this)
  | removeClientId (p : Address) (clientId : Nat) : Operation relabels binds g (g.removeClientId p clientId)
  | updateClientEntityId {p : Address} {clientId entityId : Nat} (hlives : ¬ g.Freed ⟨p, entityId⟩)
      (hbinds : binds p clientId) : Operation relabels binds g (g.updateClientEntityId p clientId entityId)
  | setAccount {this : Mailbox} {a a' : Account} (ha : g.entities this = some (.account a))
      (hproxy : a.proxy = a'.proxy) (hdestroyed : a.destroyed = true → a'.destroyed = true)
      (hids : relabels this ∨ a'.ids = a.ids) : Operation relabels binds g (g.setEntity this (.account a'))
  | setRole {this : Mailbox} {r r' : Role} (hr : g.entities this = some (.role r))
      (hproxy : r.proxy = r'.proxy ∨ binds this.address r'.proxy.clientId) :
      Operation relabels binds g (g.setEntity this (.role r'))
  | createRole {r : Role} (hm : Memory g) (p : Address) (hbinds : binds p r.proxy.clientId) :
      Operation relabels binds g (g.createEntity p (.role r))
  /-- A new account gets a node that no other lives in. -/
  | createAccount {a : Account} {node : Nat} (hm : Memory g) (p : Address) (hfree : g.occupant p node = none)
      (hbinds : binds p a.proxy.clientId) :
      Operation relabels binds g ((g.createEntity p (.account a)).allocate (g.nextMailbox p) node)

def Operations (relabels : Mailbox → Prop) (binds : Address → Nat → Prop) : Game → Game → Prop :=
  Relation.ReflTransGen (Operation relabels binds)

namespace Operations

variable {relabels : Mailbox → Prop} {binds : Address → Nat → Prop}

theorem refl : Operations relabels binds g g := Relation.ReflTransGen.refl

theorem single (h : Operation relabels binds g g') : Operations relabels binds g g' := Relation.ReflTransGen.single h

theorem trans (h₁ : Operations relabels binds g g₁) (h₂ : Operations relabels binds g₁ g') :
    Operations relabels binds g g' :=
  Relation.ReflTransGen.trans h₁ h₂

theorem tail (h₁ : Operations relabels binds g g₁) (h₂ : Operation relabels binds g₁ g') :
    Operations relabels binds g g' :=
  Relation.ReflTransGen.tail h₁ h₂

/-- A relation that composes and holds of each operation holds of them all. -/
theorem lift {R : Game → Game → Prop} (hrefl : ∀ g, R g g) (htrans : ∀ {g g₁ g'}, R g g₁ → R g₁ g' → R g g')
    (hR : ∀ {g g'}, Operation relabels binds g g' → R g g') (h : Operations relabels binds g g') : R g g' := by
  induction h with
  | refl => exact hrefl g
  | tail _ hop ih => exact htrans ih (hR hop)

theorem stub {accounts roles : Nat → Option Mailbox} {refused : List Mailbox} {calls : List Call} :
    Operations relabels binds g
      { g with accountToMailbox := accounts, roleToMailbox := roles, refused := refused, calls := calls } :=
  single (.stub accounts roles refused calls)

theorem call (c : Call) : Operations relabels binds g (g.call c) := stub

/-! ### The methods of `account` -/

theorem destroy {a : Account} (ha : g.entities this = some (.account a)) :
    Operations relabels binds g (a.destroy g this) := by
  have hset : Operations relabels binds g (g.setEntity this (.account { a with destroyed := true })) :=
    single (.setAccount ha rfl (fun _ => rfl) (Or.inr rfl))
  exact hset.tail (.destroyEntity this)

theorem unregisterAccount {a : Account} (ha : g.entities this = some (.account a)) :
    Operations relabels binds g (a.unregisterAccount g this) :=
  (call _).trans (destroy ha)

/-- The one method that changes the ids. -/
theorem onLoadAccountCallback {a : Account} (ha : g.entities this = some (.account a)) (hrelabel : relabels this)
    (status : Bool) (row : Option (Nat × Nat)) :
    Operations relabels binds g (a.onLoadAccountCallback g this status row) := by
  have hset : ∀ accountId roleId, Operations relabels binds g
      (g.setEntity this (.account { a with accountId := accountId, roleId := roleId })) := by
    intro accountId roleId
    exact single (.setAccount ha rfl id (Or.inl hrelabel))
  unfold Account.onLoadAccountCallback
  split
  · exact refl
  · split
    · exact (hset 1 1).tail (.query _ (setEntity_not_freed _))
    · rename_i accountId roleId
      exact (hset accountId roleId).trans (call _)

theorem onInsertAccount {a : Account} (status : Bool) :
    Operations relabels binds g (a.onInsertAccount g this status) := by
  unfold Account.onInsertAccount
  split
  · exact call _
  · exact refl

/-- The new role gets the client of the account. -/
theorem onLoginSuccess {a : Account} (hm : Memory g) (ha : g.entities this = some (.account a)) (data : RoleInfo)
    (hbinds : binds this.address a.proxy.clientId) : Operations relabels binds g (a.onLoginSuccess g this data) := by
  have hne : this ≠ g.nextMailbox this.address := Evolves.ne_nextMailbox (hm.bound (by simp [ha]))
  let r : Role := { proxy := a.proxy, data := data }
  have hcreate : Operations relabels binds g (g.createEntity this.address (.role r)) :=
    single (.createRole hm this.address hbinds)
  have hclient := hcreate.tail (.updateClientEntityId (createEntity_not_freed this.address (.role r)) hbinds)
  have ha' : (g.createEntity this.address (.role r)).entities this = some (.account a) := by
    simpa [Game.createEntity, hne] using ha
  exact (hclient.trans (call _)).trans (destroy ha')

theorem onLoadRoleCallback {a : Account} (hm : Memory g) (ha : g.entities this = some (.account a)) (status : Bool)
    (row : Option RoleRow)
    (hbinds : a.destroyed = false → status = true → row.isSome → binds this.address a.proxy.clientId) :
    Operations relabels binds g (a.onLoadRoleCallback g this status row) := by
  unfold Account.onLoadRoleCallback
  split
  · exact refl
  · rename_i hlives
    split
    · exact unregisterAccount ha
    · rename_i hstatus
      split
      · exact refl
      · exact onLoginSuccess hm ha _ (hbinds (Bool.eq_false_iff.mpr hlives) (by simpa using hstatus) rfl)

theorem createRole {a : Account} {sex : UInt8} {roleName : List UInt8} (ha : g.entities this = some (.account a))
    (h : a.createRole g this sex roleName = some g') : Operations relabels binds g g' := by
  obtain ⟨-, -, rfl⟩ := Account.createRole_eq_some h
  have hset : Operations relabels binds g (g.setEntity this (.account { a with sex := sex, roleName := roleName })) :=
    single (.setAccount ha rfl id (Or.inr rfl))
  exact hset.tail (.query _ (setEntity_not_freed _))

theorem onInsertRole {cfg : Config} {a : Account} {status : Bool} (hm : Memory g)
    (ha : g.entities this = some (.account a)) (hbinds : status = true → binds this.address a.proxy.clientId)
    (h : a.onInsertRole cfg g this status = some g') : Operations relabels binds g g' := by
  unfold Account.onInsertRole at h
  split at h
  · rename_i hstatus
    obtain ⟨resources, -, rfl⟩ := Option.map_eq_some_iff.mp h
    exact onLoginSuccess hm ha _ (hbinds hstatus)
  · cases h
    exact unregisterAccount ha

theorem loadRole {a : Account} (ha : g.entities this = some (.account a)) :
    Operations relabels binds g (Account.onLoadRole g this) :=
  single (.query (.loadRole this) (not_freed ha))

theorem onRegisterAccount {a : Account} (ha : g.entities this = some (.account a)) (status : Bool) (old : Mailbox) :
    Operations relabels binds g (Account.onRegisterAccount g this status old) := by
  unfold Account.onRegisterAccount
  split
  · exact loadRole ha
  · exact call _

theorem accountOnRelayLogin {a : Account} (ha : g.entities this = some (.account a)) :
    Operations relabels binds g (a.onRelayLogin g this) := by
  unfold Account.onRelayLogin
  split
  · exact refl
  · exact loadRole ha

theorem accountDisconnectClient {a : Account} (ha : g.entities this = some (.account a)) :
    Operations relabels binds g (a.disconnectClient g this) := by
  unfold Account.disconnectClient
  split
  · exact refl
  · exact unregisterAccount ha

/-! ### The methods of `role` and of `roll_stub` -/

theorem roleOnRelayReady {r : Role} (hr : g.entities this = some (.role r)) :
    Operations relabels binds g (r.onRelayReady g this m) := by
  have hset : Operations relabels binds g (g.setEntity this (.role { r with status := .relay })) :=
    single (.setRole hr (Or.inl rfl))
  exact (hset.trans (call _)).tail (.removeClientId _ _)

theorem roleOnRelayLogin {r : Role} {proxy : Proxy} (hr : g.entities this = some (.role r))
    (hbinds : binds this.address proxy.clientId) : Operations relabels binds g (r.onRelayLogin g this proxy) := by
  let r' : Role := { r with status := .normal, proxy := proxy }
  have hset : Operations relabels binds g (g.setEntity this (.role r')) := single (.setRole hr (Or.inr hbinds))
  have hlives : ¬ (g.setEntity this (.role r')).Freed this := setEntity_not_freed _
  exact (hset.trans (call _)).tail (.updateClientEntityId hlives hbinds)

theorem onRegisterRole {r : Role} (hr : g.entities this = some (.role r)) (status : Bool) :
    Operations relabels binds g (r.onRegisterRole g this status) := by
  unfold Role.onRegisterRole Role.logout
  split
  · split
    · exact refl
    · exact single (.setRole hr (Or.inl rfl))
  · exact refl

theorem roleDisconnectClient {r : Role} (hr : g.entities this = some (.role r)) :
    Operations relabels binds g (r.disconnectClient g this) := by
  unfold Role.disconnectClient Role.logout
  split
  · exact refl
  · have hset : Operations relabels binds g (g.setEntity this (.role { r with status := .disconnect })) :=
      single (.setRole hr (Or.inl rfl))
    exact hset.tail (.addTimer this (setEntity_not_freed _))

theorem registerRole (accountId roleId : Nat) :
    Operations relabels binds g (RollStub.registerRole g accountId roleId m) := by
  unfold RollStub.registerRole
  split <;> exact stub

theorem updateByRelay (accountId roleId : Nat) :
    Operations relabels binds g (RollStub.updateByRelay g accountId roleId m) := by
  unfold RollStub.updateByRelay
  split
  · exact call _
  · split
    · exact (call _).trans (call _)
    · exact stub

/-! ### What runs the methods -/

theorem handle {c : Call} (hm : Memory g)
    (hbinds : ∀ target proxy this r, c = .onRelayLogin target (some proxy) →
      g.target target = .object this (.role r) → binds this.address proxy.clientId)
    (h : g.handle c = some g') : Operations relabels binds g g' := by
  cases c with
  | registerAccount => cases h; exact stub
  | unregisterAccount => cases h; exact stub
  | registerRole => cases h; exact registerRole _ _
  | unregisterRole => cases h; exact stub
  | updateByRelay => cases h; exact updateByRelay _ _
  | onRegisterAccount target status old =>
      simp only [Game.handle] at h
      split at h
      · rename_i this a htarget
        cases h
        exact onRegisterAccount (target_object hm htarget).1 status old
      · cases h
      · cases h
        exact refl
  | onRelayReady target m =>
      simp only [Game.handle] at h
      split at h
      · rename_i this a htarget
        cases h
        exact (call _).trans (destroy (target_object hm htarget).1)
      · rename_i this r htarget
        cases h
        exact roleOnRelayReady (target_object hm htarget).1
      · cases h
      · cases h
        exact refl
  | onWaitLogin target m =>
      simp only [Game.handle] at h
      split at h
      · rename_i this a htarget
        cases h
        exact (call _).trans (destroy (target_object hm htarget).1)
      · cases h
      · cases h
        exact refl
  | onRelayLogin target proxy =>
      simp only [Game.handle] at h
      split at h
      · rename_i this a htarget
        cases h
        exact accountOnRelayLogin (target_object hm htarget).1
      · rename_i this r proxy htarget
        cases h
        exact roleOnRelayLogin (target_object hm htarget).1 (hbinds target proxy this r rfl htarget)
      · cases h
      · cases h
      · cases h
        exact refl
  | onRegisterRole target status =>
      simp only [Game.handle] at h
      split at h
      · rename_i this r htarget
        cases h
        exact onRegisterRole (target_object hm htarget).1 status
      · cases h
        exact refl
  | kickRole target =>
      simp only [Game.handle] at h
      split at h
      · cases h
        exact refl
      · cases h
        exact refl

theorem handleReply {cfg : Config} {op : DbOp} {reply : DbReply} (hm : Memory g)
    (hrelabel : ∀ m this a, op = .loadAccount m → g.target m = .object this (.account a) → relabels this)
    (hbinds : ∀ old this a, g.target old = .object this (.account a) →
      op = .loadRole old ∧ a.destroyed = false ∧ (∃ row, reply = .role true (some row)) ∨
        op = .insertRole old ∧ reply = .insert true → binds this.address a.proxy.clientId)
    (h : g.handleReply cfg op reply = some g') : Operations relabels binds g g' := by
  unfold Game.handleReply at h
  split at h
  case h_1 m status row =>
    split at h
    · rename_i this a htarget
      cases h
      exact onLoadAccountCallback (target_object hm htarget).1 (hrelabel m this a rfl htarget) status row
    · cases h
  case h_2 m status =>
    split at h
    · rename_i this a htarget
      cases h
      exact onInsertAccount status
    · cases h
  case h_3 m status row =>
    split at h
    · rename_i this a htarget
      cases h
      refine onLoadRoleCallback hm (target_object hm htarget).1 status row ?_
      rintro hlives rfl hrow
      obtain ⟨row, rfl⟩ := Option.isSome_iff_exists.mp hrow
      exact hbinds m this a htarget (Or.inl ⟨rfl, hlives, row, rfl⟩)
    · cases h
  case h_4 m status =>
    split at h
    · rename_i this a htarget
      refine onInsertRole hm (target_object hm htarget).1 ?_ h
      rintro rfl
      exact hbinds m this a htarget (Or.inr ⟨rfl, rfl⟩)
    · cases h
  case h_5 => cases h

theorem entityCommand {cfg : Config} {now : UInt32} {cmd : ClientCommand} (hm : Memory g)
    (h : g.entityCommand cfg m now cmd = some g') : Operations relabels binds g g' := by
  unfold Game.entityCommand at h
  split at h
  case h_1 this a node accountId roleId htarget =>
    cases h
    exact single (.query (.loadAccount this) (not_freed (target_object hm htarget).1))
  case h_2 this a sex name htarget =>
    exact createRole (target_object hm htarget).1 h
  case h_3 this a htarget =>
    cases h
    exact accountDisconnectClient (target_object hm htarget).1
  case h_4 this r htarget =>
    cases h
    exact roleDisconnectClient (target_object hm htarget).1
  case h_5 this r cmd htarget =>
    obtain ⟨data, -, rfl⟩ := Option.map_eq_some_iff.mp h
    exact single (.setRole (target_object hm htarget).1 (Or.inl rfl))
  case h_6 =>
    cases h
    exact refl
  case h_7 => cases h
  case h_8 =>
    cases h
    exact refl

theorem clientCommand {cfg : Config} {p : Address} {clientId : Nat} {now : UInt32} {cmd : ClientCommand}
    (hm : Memory g) (hbinds : ∀ node accountId roleId, cmd = .login node accountId roleId →
      g.clientToEntity p clientId = none → binds p clientId)
    (h : g.clientCommand cfg p clientId now cmd = some g') : Operations relabels binds g g' := by
  unfold Game.clientCommand at h
  split at h
  · exact entityCommand hm h
  · rename_i node accountId roleId hclient
    split at h
    · cases h
    · rename_i hfree
      cases h
      have hnew : binds p clientId := hbinds node accountId roleId rfl hclient
      let a : Account := { proxy := .ofClient clientId, accountId := accountId, roleId := roleId }
      let g₁ := (g.createEntity p (.account a)).allocate (g.nextMailbox p) node
      have hcreate : Operations relabels binds g g₁ :=
        single (.createAccount hm p (Option.not_isSome_iff_eq_none.mp hfree) hnew)
      have hlives : ¬ g₁.Freed (g.nextMailbox p) := not_freed (e := .account a) (Function.update_self _ _ _)
      exact (hcreate.tail (.updateClientEntityId hlives hnew)).tail (.query (.loadAccount (g.nextMailbox p)) hlives)
  · cases h
    exact refl

end Operations

/-- **What a step is made of**, unless it is a clean-up. -/
theorem step_operations {cfg : Config} {l : GameLabel} (hm : Memory g) (hl : ∀ p now, l ≠ .update p now)
    (h : g.step cfg l = some g') : Operations (g.Relabels l) (g.Binds l) g g' := by
  cases l with
  | client p clientId now cmd =>
      refine Operations.clientCommand hm ?_ h
      rintro node accountId roleId rfl hclient
      exact ⟨rfl, rfl, hclient⟩
  | deliver i =>
      obtain ⟨c, hc, hhandle⟩ := Option.bind_eq_some_iff.mp h
      have hm' : Memory (g.takeCall i) := ⟨hm.bound, hm.role, hm.account, hm.occupant, hm.destroyed⟩
      have htaken : Operations (g.Relabels (.deliver i)) (g.Binds (.deliver i)) g (g.takeCall i) := .stub
      refine htaken.trans (.handle hm' ?_ hhandle)
      rintro target proxy this r rfl htarget
      exact ⟨target, proxy, this, r, hc, htarget, rfl, rfl⟩
  | dbReply i reply =>
      obtain ⟨op, hop, hhandle⟩ := Option.bind_eq_some_iff.mp h
      have hm' : Memory { g with dbOps := g.dbOps.eraseIdx i } :=
        ⟨hm.bound, hm.role, hm.account, hm.occupant, hm.destroyed⟩
      have htaken : Operations (g.Relabels (.dbReply i reply)) (g.Binds (.dbReply i reply)) g
          { g with dbOps := g.dbOps.eraseIdx i } := .single (.takeDbOp i)
      refine htaken.trans (.handleReply hm' ?_ ?_ hhandle)
      · rintro old this a rfl htarget
        exact ⟨i, reply, old, a, rfl, hop, htarget⟩
      · rintro old this a htarget (⟨rfl, hlives, hreply⟩ | ⟨rfl, hreply⟩)
        · exact ⟨old, this, a, htarget, rfl, rfl, Or.inl ⟨hop, hlives, hreply⟩⟩
        · exact ⟨old, this, a, htarget, rfl, rfl, Or.inr ⟨hop, hreply⟩⟩
  | timer i =>
      obtain ⟨m, -, hhandle⟩ := Option.bind_eq_some_iff.mp h
      have htaken : Operations (g.Relabels (.timer i)) (g.Binds (.timer i)) g
          { g with timers := g.timers.eraseIdx i } := .single (.takeTimer i)
      split at hhandle
      · cases hhandle
        unfold Role.onTimer Role.logout
        split <;> exact htaken
      · cases hhandle
  | update p now => exact absurd rfl (hl p now)

/-! ## `Keeps` -/

/-- From `g` to `g'` no entity vanished, accounts stayed destroyed and kept their ids unless they may be
    relabelled, and what refers to a freed entity did so before. -/
structure Keeps (relabels : Mailbox → Prop) (g g' : Game) : Prop where
  alive : ∀ {m}, g'.entities m = none → g.entities m = none
  accounts : ∀ {m a'}, g'.entities m = some (.account a') → g.entities m = none ∨
    ∃ a, g.entities m = some (.account a) ∧ (a.destroyed = true → a'.destroyed = true) ∧
      (relabels m ∨ a'.ids = a.ids)
  freed : ∀ m, g'.Freed m ↔ g.Freed m
  dbOps : ∀ op ∈ g'.dbOps, op ∈ g.dbOps ∨ ¬ g.Freed op.this
  timers : ∀ m ∈ g'.timers, m ∈ g.timers ∨ ¬ g.Freed m
  clients : ∀ {p clientId entityId}, g'.clientToEntity p clientId = some entityId →
    g.clientToEntity p clientId = some entityId ∨ ¬ g.Freed ⟨p, entityId⟩

namespace Keeps

variable {relabels : Mailbox → Prop}

theorem trans (h₁ : Keeps relabels g g₁) (h₂ : Keeps relabels g₁ g') : Keeps relabels g g' where
  alive h := h₁.alive (h₂.alive h)
  accounts := by
    intro m a' ha'
    rcases h₂.accounts ha' with hnew | ⟨a₁, ha₁, hdestroyed₁, hids₁⟩
    · exact Or.inl (h₁.alive hnew)
    · rcases h₁.accounts ha₁ with hnew | ⟨a, ha, hdestroyed, hids⟩
      · exact Or.inl hnew
      · refine Or.inr ⟨a, ha, fun h => hdestroyed₁ (hdestroyed h), ?_⟩
        rcases hids with hrelabel | hids
        · exact Or.inl hrelabel
        · exact hids₁.imp_right fun h => h.trans hids
  freed m := (h₂.freed m).trans (h₁.freed m)
  dbOps op hop := (h₂.dbOps op hop).elim (h₁.dbOps op) fun h => Or.inr ((h₁.freed _).not.mp h)
  timers m hm := (h₂.timers m hm).elim (h₁.timers m) fun h => Or.inr ((h₁.freed _).not.mp h)
  clients hc := (h₂.clients hc).elim h₁.clients fun h => Or.inr ((h₁.freed _).not.mp h)

/-- No entity changes, and what is new refers to an entity that lives. -/
theorem of_same (hentities : g'.entities = g.entities) (hnode : g'.accountNode = g.accountNode)
    (hdbOps : ∀ op ∈ g'.dbOps, op ∈ g.dbOps ∨ ¬ g.Freed op.this)
    (htimers : ∀ m ∈ g'.timers, m ∈ g.timers ∨ ¬ g.Freed m)
    (hclients : ∀ {p clientId entityId}, g'.clientToEntity p clientId = some entityId →
      g.clientToEntity p clientId = some entityId ∨ ¬ g.Freed ⟨p, entityId⟩) : Keeps relabels g g' where
  alive h := hentities ▸ h
  accounts ha := Or.inr ⟨_, hentities ▸ ha, id, Or.inr rfl⟩
  freed m := by simp only [Freed, kind, hentities, hnode]
  dbOps := hdbOps
  timers := htimers
  clients := hclients

theorem refl : Keeps relabels g g := of_same rfl rfl (fun _ => Or.inl) (fun _ => Or.inl) Or.inl

/-- A change of the entity at `this`, which is not freed and lives after it. -/
theorem of_entity (this : Mailbox) {e : Entity} (hdbOps : g'.dbOps = g.dbOps) (htimers : g'.timers = g.timers)
    (hclients : g'.clientToEntity = g.clientToEntity)
    (hother : ∀ {m}, m ≠ this → g'.entities m = g.entities m ∧ g'.accountNode m = g.accountNode m)
    (hlives : ¬ g.Freed this) (he : g'.entities this = some e)
    (haccount : ∀ {a'}, e = .account a' → g.entities this = none ∨
      ∃ a, g.entities this = some (.account a) ∧ (a.destroyed = true → a'.destroyed = true) ∧
        (relabels this ∨ a'.ids = a.ids)) : Keeps relabels g g' := by
  refine ⟨?_, ?_, ?_, fun _ h => Or.inl (hdbOps ▸ h), fun _ h => Or.inl (htimers ▸ h), fun h => Or.inl (hclients ▸ h)⟩
  · intro m hnone
    by_cases hne : m = this
    · rw [hne, he] at hnone
      cases hnone
    · exact (hother hne).1 ▸ hnone
  · intro m a' ha'
    by_cases hne : m = this
    · subst hne
      rw [he] at ha'
      exact haccount (Option.some.inj ha')
    · exact Or.inr ⟨a', (hother hne).1 ▸ ha', id, Or.inr rfl⟩
  · intro m
    by_cases hne : m = this
    · subst hne
      exact iff_of_false (not_freed he) hlives
    · simp only [Freed, kind, (hother hne).1, (hother hne).2]

theorem of_setEntity {e e' : Entity} (he : g.entities this = some e)
    (haccount : ∀ {a'}, e' = .account a' → g.entities this = none ∨
      ∃ a, g.entities this = some (.account a) ∧ (a.destroyed = true → a'.destroyed = true) ∧
        (relabels this ∨ a'.ids = a.ids)) : Keeps relabels g (g.setEntity this e') := by
  refine of_entity this rfl rfl rfl ?_ (not_freed he) (Function.update_self _ _ _) haccount
  intro m hne
  simp [Game.setEntity, hne]

/-- A new entity was nowhere before. -/
theorem of_nextMailbox (hm : Memory g) {p : Address} {e : Entity} (hdbOps : g'.dbOps = g.dbOps)
    (htimers : g'.timers = g.timers) (hclients : g'.clientToEntity = g.clientToEntity)
    (hother : ∀ {m}, m ≠ g.nextMailbox p → g'.entities m = g.entities m ∧ g'.accountNode m = g.accountNode m)
    (he : g'.entities (g.nextMailbox p) = some e) : Keeps relabels g g' := by
  refine of_entity (g.nextMailbox p) hdbOps htimers hclients hother ?_ he ?_
  · rintro ⟨hkind, -⟩
    rw [kind_nextMailbox hm] at hkind
    cases hkind
  · intro a' _
    exact Or.inl (Evolves.nextMailbox_free hm p).1

theorem of_operation {binds : Address → Nat → Prop} (h : Operation relabels binds g g') : Keeps relabels g g' := by
  cases h with
  | stub | destroyEntity => exact of_same rfl rfl (fun _ => Or.inl) (fun _ => Or.inl) Or.inl
  | query op hlives =>
      refine of_same rfl rfl ?_ (fun _ => Or.inl) Or.inl
      intro op' hop
      rw [Game.query, List.mem_append, List.mem_singleton] at hop
      rcases hop with hop | rfl
      · exact Or.inl hop
      · exact Or.inr hlives
  | takeDbOp i => exact of_same rfl rfl (fun _ h => Or.inl (List.mem_of_mem_eraseIdx h)) (fun _ => Or.inl) Or.inl
  | addTimer this hlives =>
      refine of_same rfl rfl (fun _ => Or.inl) ?_ Or.inl
      intro m hm
      rw [Game.addTimer, List.mem_append, List.mem_singleton] at hm
      rcases hm with hm | rfl
      · exact Or.inl hm
      · exact Or.inr hlives
  | takeTimer i => exact of_same rfl rfl (fun _ => Or.inl) (fun _ h => Or.inl (List.mem_of_mem_eraseIdx h)) Or.inl
  | removeClientId p clientId =>
      exact of_same rfl rfl (fun _ => Or.inl) (fun _ => Or.inl) fun h => Or.inl (client_of_remove h)
  | updateClientEntityId hlives _ =>
      refine of_same rfl rfl (fun _ => Or.inl) (fun _ => Or.inl) ?_
      intro p' clientId' entityId' hclient
      rcases client_of_update hclient with hold | ⟨rfl, -, rfl⟩
      · exact Or.inl hold
      · exact Or.inr hlives
  | setAccount ha _ hdestroyed hids =>
      refine of_setEntity ha ?_
      rintro _ ⟨rfl⟩
      exact Or.inr ⟨_, ha, hdestroyed, hids⟩
  | setRole hr _ =>
      refine of_setEntity hr ?_
      intro a' h
      cases h
  | createRole hm p _ =>
      refine of_nextMailbox hm rfl rfl rfl ?_ (Function.update_self _ _ _)
      intro m hne
      simp [Game.createEntity, hne]
  | createAccount hm p _ _ =>
      refine of_nextMailbox hm rfl rfl rfl ?_ (Function.update_self _ _ _)
      intro m hne
      simp [Game.createEntity, Game.allocate, hne]

end Keeps

/-- **What a step keeps.** A clean-up apart, no step frees an entity or refers to a freed one, the calls that
    it sends excepted. -/
theorem step_keeps {cfg : Config} {l : GameLabel} (hm : Memory g) (hl : ∀ p now, l ≠ .update p now)
    (h : g.step cfg l = some g') : Keeps (g.Relabels l) g g' :=
  (step_operations hm hl h).lift (fun _ => Keeps.refl) Keeps.trans Keeps.of_operation

/-- A clean-up frees the entities whose turn it is. -/
theorem update_freed {p : Address} {now : UInt32} (hm : Memory g) (hruns : ¬ g.lastTime p + 10 > now) :
    (g.update p now).Freed m ↔ g.Freed m ∨ m.address = p ∧ m.entityId ∈ g.destroyIds p := by
  by_cases hid : m.address = p ∧ m.entityId ∈ g.destroyIds p
  · refine iff_of_true ?_ (Or.inr hid)
    obtain ⟨rfl, hmem⟩ := hid
    have haccount : g.kind m = some .account := hm.destroyed (Or.inl hmem)
    obtain ⟨node, hnode⟩ := Option.isSome_iff_exists.mp ((kind_eq_account_iff hm).mp haccount)
    simp [Freed, kind, Game.update, hruns, hmem, hnode]
  · have hentity : (g.update p now).entities m = g.entities m := by
      simp only [Game.update, if_neg hruns, if_neg hid]
    have hnode : (g.update p now).accountNode m = g.accountNode m := by
      simp only [Game.update, if_neg hruns]
    simp only [Freed, kind, hentity, hnode, hid, or_false]

/-- A clean-up changes no entity that it leaves. -/
theorem update_entities {p : Address} {now : UInt32} {e : Entity} (h : (g.update p now).entities m = some e) :
    g.entities m = some e := by
  unfold Game.update at h
  split at h
  · exact h
  · simp only at h
    split at h
    · cases h
    · exact h

/-- **The life of an account.** An account was created by the step, or it was there before: it stays destroyed
    and keeps its ids unless they come from the database. -/
theorem step_account {cfg : Config} {l : GameLabel} {a' : Account} (hm : Memory g) (h : g.step cfg l = some g')
    (ha' : g'.entities m = some (.account a')) : g.kind m = none ∨
      ∃ a, g.entities m = some (.account a) ∧ (a.destroyed = true → a'.destroyed = true) ∧
        (g.Relabels l m ∨ a'.ids = a.ids) := by
  by_cases hl : ∃ p now, l = .update p now
  · obtain ⟨p, now, rfl⟩ := hl
    cases h
    exact Or.inr ⟨a', update_entities ha', id, Or.inr rfl⟩
  · have hkeeps : Keeps (g.Relabels l) g g' := step_keeps hm (fun p now heq => hl ⟨p, now, heq⟩) h
    refine (hkeeps.accounts ha').imp_left ?_
    intro hnone
    by_contra hkind
    have hfreed : g.Freed m := ⟨Option.isSome_iff_ne_none.mpr hkind, hnone⟩
    exact not_freed ha' ((hkeeps.freed m).mpr hfreed)

end Game

end Mowang

