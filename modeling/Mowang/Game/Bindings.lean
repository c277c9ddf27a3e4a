import Mowang.Game.EntitySteps

/-!
# `Game.Bindings` — which entity has a client

`m_client_2_entity` of a process names the entity that gets the commands of a client, and the proxy of an entity names
the client that gets its messages. A client is bound to an entity that is both. Three things bind a client: its login,
the creation of its role, and the end of a relay; `Rebinds` follows them through the operations of a step.

## Contents
- `Bound`, `Housed`.
- `Rebinds` of the operations and of a clean-up; `step_rebinds`.
- `disconnect_unbinds`.
-/

namespace Mowang

/-- `get_proxy`. -/
def Entity.proxy : Entity → Proxy
  | .account a => a.proxy
  | .role r    => r.proxy

/-- `is_destroy`. -/
def Entity.isDestroy : Entity → Bool
  | .account a => a.destroyed
  | .role _    => false

namespace Game

variable {g g' g₁ : Game} {m this : Mailbox}

/-- The entity at `m` is not destroyed, its process has it for the client, and its proxy names the client. -/
def Bound (g : Game) (clientId : Nat) (m : Mailbox) : Prop :=
  g.clientToEntity m.address clientId = some m.entityId ∧
    ∃ e, g.entities m = some e ∧ e.isDestroy = false ∧ e.proxy.clientId = clientId

/-- Every account lives in its node. -/
def Housed (g : Game) : Prop :=
  ∀ m a, g.entities m = some (.account a) → ∃ node, g.accountNode m = some node ∧ g.occupant m.address node = some m

/-- The functions of an account that lives run on it. -/
theorem Housed.target {a : Account} (h : g.Housed) (ha : g.entities m = some (.account a)) :
    g.target m = .object m (.account a) := by
  obtain ⟨node, hnode, hoccupant⟩ := h m a ha
  simp [Game.target, hnode, hoccupant, ha]

/-- Those of an entity to which a client is bound run on it. -/
theorem target_bound (hm : Memory g) (h : g.Housed) {e : Entity} (he : g.entities m = some e) :
    g.target m = .object m e := by
  cases e with
  | account a => exact h.target he
  | role r => exact target_role hm he

/-- A new account gets a node that no other lives in. -/
theorem Housed.createAccount (h : g.Housed) (p : Address) (a : Account) {node : Nat} (hfree : g.occupant p node = none) :
    ((g.createEntity p (.account a)).allocate (g.nextMailbox p) node).Housed := by
  intro m a₁ ha₁
  by_cases hne : m = g.nextMailbox p
  · subst hne
    exact ⟨node, by simp [Game.allocate], by simp [Game.allocate, nextMailbox]⟩
  · obtain ⟨node', hnode', hoccupant⟩ := h m a₁ (by simpa [Game.createEntity, Game.allocate, hne] using ha₁)
    refine ⟨node', by simpa [Game.createEntity, Game.allocate, hne] using hnode', ?_⟩
    by_cases hp : m.address = p
    · have hapart : node' ≠ node := by
        rintro rfl
        rw [hp, hfree] at hoccupant
        cases hoccupant
      subst hp
      simpa [Game.createEntity, Game.allocate, nextMailbox, hapart] using hoccupant
    · simpa [Game.createEntity, Game.allocate, nextMailbox, hp] using hoccupant

/-! ## `Rebinds` -/

/-- From `g` to `g'` only the clients of `B` are bound anew, and accounts stay in their nodes. -/
structure Rebinds (B : Address → Nat → Prop) (g g' : Game) : Prop where
  bound : ∀ {m clientId}, g'.Bound clientId m → g.Bound clientId m ∨ B m.address clientId
  housed : g.Housed → g'.Housed

namespace Rebinds

variable {B : Address → Nat → Prop}

theorem trans (h₁ : Rebinds B g g₁) (h₂ : Rebinds B g₁ g') : Rebinds B g g' where
  bound h := (h₂.bound h).elim h₁.bound Or.inr
  housed h := h₂.housed (h₁.housed h)

/-- No entity changes, and what is new for a client is in `B`. -/
theorem of_same (hentities : g'.entities = g.entities) (hnode : g'.accountNode = g.accountNode)
    (hoccupant : g'.occupant = g.occupant) (hclients : ∀ {p clientId entityId},
      g'.clientToEntity p clientId = some entityId → g.clientToEntity p clientId = some entityId ∨ B p clientId) :
    Rebinds B g g' where
  bound := by
    rintro m clientId ⟨hclient, e, he, hlives, hproxy⟩
    exact (hclients hclient).imp_left fun hold => ⟨hold, e, hentities ▸ he, hlives, hproxy⟩
  housed h := by
    simpa only [Housed, hentities, hnode, hoccupant] using h

theorem refl : Rebinds B g g := of_same rfl rfl rfl Or.inl

/-- The entity at `this` is new or changes, and the other entities stay. -/
theorem of_entity (this : Mailbox) {e : Entity} (hclients : g'.clientToEntity = g.clientToEntity)
    (hother : ∀ {m}, m ≠ this → g'.entities m = g.entities m) (he : g'.entities this = some e)
    (hproxy : B this.address e.proxy.clientId ∨ ∃ e₀, g.entities this = some e₀ ∧ e₀.proxy = e.proxy ∧
      (e.isDestroy = false → e₀.isDestroy = false)) (hhoused : g.Housed → g'.Housed) : Rebinds B g g' where
  bound := by
    rintro m clientId ⟨hclient, e', he', hlives', hclientId⟩
    rw [hclients] at hclient
    by_cases hne : m = this
    · subst hne
      rw [he] at he'
      cases he'
      rcases hproxy with hB | ⟨e₀, he₀, hsame, hlives₀⟩
      · exact Or.inr (hclientId ▸ hB)
      · exact Or.inl ⟨hclient, e₀, he₀, hlives₀ hlives', hsame ▸ hclientId⟩
    · exact Or.inl ⟨hclient, e', hother hne ▸ he', hlives', hclientId⟩
  housed := hhoused

theorem of_operation {relabels : Mailbox → Prop} (h : Operation relabels B g g') : Rebinds B g g' := by
  cases h with
  | stub | query | takeDbOp | addTimer | takeTimer | destroyEntity => exact of_same rfl rfl rfl Or.inl
  | removeClientId p clientId => exact of_same rfl rfl rfl fun h => Or.inl (client_of_remove h)
  | updateClientEntityId _ hbinds =>
      refine of_same rfl rfl rfl ?_
      intro p' clientId' entityId' hclient
      rcases client_of_update hclient with hold | ⟨rfl, rfl, -⟩
      · exact Or.inl hold
      · exact Or.inr hbinds
  | @setAccount this a a' ha hproxy hdestroyed _ =>
      -- an account that is destroyed stays so
      have hlives : a'.destroyed = false → a.destroyed = false := by
        intro h
        by_contra hgone
        rw [hdestroyed (Bool.eq_true_of_not_eq_false hgone)] at h
        cases h
      refine of_entity this rfl ?_ (Function.update_self _ _ _) (Or.inr ⟨_, ha, hproxy, hlives⟩) ?_
      · intro m hne
        simp [Game.setEntity, hne]
      · intro h m a₁ ha₁
        by_cases hne : m = this
        · exact hne ▸ h this a ha
        · exact h m a₁ (by simpa [Game.setEntity, hne] using ha₁)
  | @setRole this r r' hr hproxy =>
      refine of_entity this rfl ?_ (Function.update_self _ _ _)
        (hproxy.symm.imp_right fun hsame => ⟨_, hr, hsame, fun _ => rfl⟩) ?_
      · intro m hne
        simp [Game.setEntity, hne]
      · intro h m a₁ ha₁
        by_cases hne : m = this
        · simp [Game.setEntity, hne] at ha₁
        · exact h m a₁ (by simpa [Game.setEntity, hne] using ha₁)
  | createRole _ p hbinds =>
      refine of_entity (g.nextMailbox p) rfl ?_ (Function.update_self _ _ _) (Or.inl hbinds) ?_
      · intro m hne
        simp [Game.createEntity, hne]
      · intro h m a₁ ha₁
        by_cases hne : m = g.nextMailbox p
        · simp [Game.createEntity, hne] at ha₁
        · exact h m a₁ (by simpa [Game.createEntity, hne] using ha₁)
  | @createAccount a node _ p hfree hbinds =>
      refine of_entity (g.nextMailbox p) rfl ?_ (Function.update_self _ _ _) (Or.inl hbinds) ?_
      · intro m hne
        simp [Game.createEntity, Game.allocate, hne]
      · exact fun h => h.createAccount p a hfree

theorem of_operations {relabels : Mailbox → Prop} (h : Operations relabels B g g') : Rebinds B g g' :=
  h.lift (fun _ => refl) trans of_operation

/-- A clean-up takes entities away, and those that stay keep their nodes. -/
theorem update (p : Address) (now : UInt32) : Rebinds B g (g.update p now) where
  bound := by
    rintro m clientId ⟨hclient, e, he, hlives, hproxy⟩
    have hclients : (g.update p now).clientToEntity = g.clientToEntity := by
      unfold Game.update
      split <;> rfl
    rw [hclients] at hclient
    exact Or.inl ⟨hclient, e, update_entities he, hlives, hproxy⟩
  housed := by
    intro h
    unfold Game.update
    split
    · exact h
    · intro m a ha
      simp only at ha
      split at ha
      · cases ha
      · rename_i hstays
        obtain ⟨node, hnode, hoccupant⟩ := h m a ha
        refine ⟨node, hnode, ?_⟩
        by_cases hp : m.address = p
        · subst hp
          have hid : m.entityId ∉ g.destroyIds m.address := fun hid => hstays ⟨rfl, hid⟩
          simp [hoccupant, hid]
        · simpa [hp] using hoccupant

end Rebinds

/-- **What a step binds.** Only the clients that the step binds have an entity that they did not have. -/
theorem step_rebinds {cfg : Config} {l : GameLabel} (hm : Memory g) (h : g.step cfg l = some g') :
    Rebinds (g.Binds l) g g' := by
  by_cases hl : ∃ p now, l = .update p now
  · obtain ⟨p, now, rfl⟩ := hl
    cases h
    exact Rebinds.update p now
  · exact Rebinds.of_operations (step_operations hm (fun p now heq => hl ⟨p, now, heq⟩) h)

/-- **Disconnecting unbinds a client**, unless it is bound to a role: its account destroys itself. -/
theorem disconnect_unbinds {cfg : Config} {p : Address} {clientId : Nat} {now : UInt32} (hm : Memory g)
    (hhoused : g.Housed)
    (hno : ∀ entityId r, g.Bound clientId ⟨p, entityId⟩ → g.entities ⟨p, entityId⟩ ≠ some (.role r))
    (h : g.clientCommand cfg p clientId now .disconnectClient = some g') (entityId : Nat) :
    ¬ g'.Bound clientId ⟨p, entityId⟩ := by
  intro hbound
  have hoperations : Operations (fun _ => False) (fun _ _ => False) g g' := by
    refine Operations.clientCommand hm ?_ h
    intro node accountId roleId hcmd
    cases hcmd
  have hrebinds : Rebinds (fun _ _ => False) g g' := .of_operations hoperations
  have hold : g.Bound clientId ⟨p, entityId⟩ := hrebinds.bound hbound |>.resolve_right id
  obtain ⟨hclient, e, he, hlives, -⟩ := id hold
  cases e with
  | role r => exact hno entityId r hold he
  | account a =>
      have htarget : g.target ⟨p, entityId⟩ = .object ⟨p, entityId⟩ (.account a) := hhoused.target he
      have hlives : a.destroyed = false := hlives
      simp only [Game.clientCommand, hclient, Game.entityCommand, htarget, Account.disconnectClient, hlives,
        Option.some.injEq] at h
      subst h
      obtain ⟨-, e', he', hlives', -⟩ := hbound
      simp only [Bool.false_eq_true, if_false, Account.unregisterAccount, Account.destroy, Game.setEntity,
        Game.destroyEntity, Function.update_self, Option.some.injEq] at he'
      subst he'
      cases hlives'

end Game

end Mowang
