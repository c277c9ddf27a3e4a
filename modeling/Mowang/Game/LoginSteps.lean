import Mathlib.Data.List.Count
import Mathlib.Data.List.Perm.Basic
import Mowang.Game.Login

/-!
# `Game.LoginSteps` — what one step of the login protocol does

A method of an entity changes entities and posts calls; only the methods of `roll_stub` touch its two
maps. `Evolves` says so of a change that posts the calls `posted`: no mailbox that was given out changes
its kind, and no role becomes `ROLE_STATUS_NORMAL` unless it is `admitted`. Each method has one lemma
(`Evolves`), and `handle_evolves`, `handleReply_evolves` and `clientCommand_evolves` put them together:
the calls that answer a call (`Answers`) and those that a client or the database sets off (`Posts`).

## Contents
- `Kind`, `Memory`, `target`.
- `Evolves` of the operations and of the methods.
- `Answers`, `Posts`, and the steps.
-/

namespace Mowang

/-- What a mailbox was given out for. It outlives the entity. -/
inductive Kind where
  | account
  | role (accountId roleId : Nat)
  deriving DecidableEq

namespace Game

def kind (g : Game) (m : Mailbox) : Option Kind :=
  match g.entities m with
  | some (.role r) => some (.role r.data.accountId r.data.roleId)
  | _              => (g.accountNode m).map fun _ => .account

/-- The entity at `m` is a role with `ROLE_STATUS_NORMAL`. -/
def Normal (g : Game) (m : Mailbox) : Prop := ∃ r, g.entities m = some (.role r) ∧ r.status = .normal

/-- The entity managers are in order: ids are counted, the pool holds accounts, and only accounts are on
    the lists of `destroy_entity`. -/
structure Memory (g : Game) : Prop where
  bound : ∀ {m}, (g.entities m).isSome ∨ (g.accountNode m).isSome → m.entityId ≤ g.entityId m.address
  role : ∀ {m r}, g.entities m = some (.role r) → g.accountNode m = none
  account : ∀ {m a}, g.entities m = some (.account a) → (g.accountNode m).isSome
  occupant : ∀ {p node m}, g.occupant p node = some m → g.kind m = some .account
  destroyed : ∀ {p id}, id ∈ g.destroyIds p ∨ id ∈ g.delayDestroyIds p → g.kind ⟨p, id⟩ = some .account

variable {g g' g₁ : Game} {m this : Mailbox}

theorem kind_role {r : Role} (h : g.entities m = some (.role r)) :
    g.kind m = some (.role r.data.accountId r.data.roleId) := by
  simp [kind, h]

theorem kind_account {a : Account} (hm : Memory g) (h : g.entities m = some (.account a)) :
    g.kind m = some .account := by
  obtain ⟨node, hnode⟩ := Option.isSome_iff_exists.mp (hm.account h)
  simp [kind, h, hnode]

theorem kind_eq_account_iff (hm : Memory g) : g.kind m = some .account ↔ (g.accountNode m).isSome := by
  unfold kind
  split
  · rename_i r hr
    simp [hm.role hr]
  · cases g.accountNode m <;> simp

theorem kind_eq_role {a r : Nat} (h : g.kind m = some (.role a r)) :
    ∃ role, g.entities m = some (.role role) ∧ role.data.accountId = a ∧ role.data.roleId = r := by
  unfold kind at h
  split at h
  · rename_i role hrole
    cases h
    exact ⟨role, hrole, rfl, rfl⟩
  · cases hnode : g.accountNode m <;> simp [hnode] at h

theorem bound_of_kind (hm : Memory g) (h : (g.kind m).isSome) : m.entityId ≤ g.entityId m.address := by
  apply hm.bound
  unfold kind at h
  split at h
  · rename_i r hr
    simp [hr]
  · right
    simpa using h

theorem kind_nextMailbox (hm : Memory g) (p : Address) : g.kind (g.nextMailbox p) = none := by
  by_contra h
  have hbound := bound_of_kind hm (Option.isSome_iff_ne_none.mpr h)
  exact Nat.not_succ_le_self _ hbound

/-! ## What `DRpcEntity` finds -/

/-- The functions of a role run on the role itself. -/
theorem target_role {r : Role} (hm : Memory g) (h : g.entities m = some (.role r)) :
    g.target m = .object m (.role r) := by
  simp [target, hm.role h, h]

/-- The functions found for a mailbox run on an entity of the kind it was given out for. -/
theorem target_object {e : Entity} (hm : Memory g) (h : g.target m = .object this e) :
    g.entities this = some e ∧ g.kind this = g.kind m ∧ (g.kind m ≠ some .account → this = m) := by
  unfold target at h
  split at h
  · rename_i node hnode
    have hkind : g.kind m = some .account := (kind_eq_account_iff hm).mpr (by simp [hnode])
    split at h
    · rename_i this' hoccupant
      cases he : g.entities this' with
      | none => simp [he] at h
      | some e' =>
          simp only [he, Option.map_some, Option.getD_some, Target.object.injEq] at h
          obtain ⟨rfl, rfl⟩ := h
          exact ⟨he, by rw [hm.occupant hoccupant, hkind], fun hne => absurd hkind hne⟩
    · cases h
  · cases he : g.entities m with
    | none => simp [he] at h
    | some e' =>
        simp only [he, Option.map_some, Option.getD_some, Target.object.injEq] at h
        obtain ⟨rfl, rfl⟩ := h
        exact ⟨he, rfl, fun _ => rfl⟩

theorem target_account {a : Account} (hm : Memory g) (h : g.target m = .object this (.account a)) :
    g.entities this = some (.account a) ∧ g.kind this = some .account ∧ g.kind m = some .account := by
  obtain ⟨he, hkind, -⟩ := target_object hm h
  have hthis := kind_account hm he
  exact ⟨he, hthis, hkind ▸ hthis⟩

theorem target_role_self {r : Role} (hm : Memory g) (h : g.target m = .object this (.role r)) :
    this = m ∧ g.entities m = some (.role r) := by
  obtain ⟨he, hkind, hself⟩ := target_object hm h
  rw [kind_role he] at hkind
  obtain rfl := hself (by simp [← hkind])
  exact ⟨rfl, he⟩

/-- The functions of an account run on an account, if any lives in the node. -/
theorem target_of_account (hm : Memory g) (h : g.kind m = some .account) :
    g.target m = .freed ∨ ∃ this a, g.target m = .object this (.account a) ∧
      g.entities this = some (.account a) ∧ g.kind this = some .account := by
  cases htarget : g.target m with
  | unregistered =>
      obtain ⟨node, hnode⟩ := Option.isSome_iff_exists.mp ((kind_eq_account_iff hm).mp h)
      simp only [target, hnode] at htarget
      split at htarget
      · rename_i this' _
        cases he : g.entities this' <;> simp [he] at htarget
      · cases htarget
  | freed => exact Or.inl rfl
  | object this e =>
      right
      cases e with
      | account a =>
          obtain ⟨ha, hkind, -⟩ := target_account hm htarget
          exact ⟨this, a, rfl, ha, hkind⟩
      | role r =>
          obtain ⟨rfl, hr⟩ := target_role_self hm htarget
          rw [kind_role hr] at h
          cases h

/-! ## `Evolves`, and the operations of an entity -/

/-- From `g` to `g'` entities changed and `posted` was sent, but nothing at the stub changed. -/
structure Evolves (admitted : Mailbox → Prop) (created : Option Mailbox) (g g' : Game) (posted : List Call) :
    Prop where
  calls : g'.calls = g.calls ++ posted
  accountToMailbox : g'.accountToMailbox = g.accountToMailbox
  roleToMailbox : g'.roleToMailbox = g.roleToMailbox
  refused : g'.refused = g.refused
  entityId : ∀ p, g.entityId p ≤ g'.entityId p
  kind : ∀ {m}, m.entityId ≤ g.entityId m.address → g'.kind m = g.kind m
  role : ∀ {m accountId roleId}, g'.kind m = some (.role accountId roleId) →
    g.kind m = some (.role accountId roleId) ∨ created = some m
  normal : ∀ {m}, g'.Normal m → g.Normal m ∨ admitted m
  memory : Memory g'

namespace Evolves

variable {admitted : Mailbox → Prop} {created : Option Mailbox} {posted posted₁ posted₂ : List Call}

theorem trans (h₁ : Evolves admitted created g g₁ posted₁) (h₂ : Evolves admitted created g₁ g' posted₂) :
    Evolves admitted created g g' (posted₁ ++ posted₂) where
  calls := by rw [h₂.calls, h₁.calls, List.append_assoc]
  accountToMailbox := h₂.accountToMailbox.trans h₁.accountToMailbox
  roleToMailbox := h₂.roleToMailbox.trans h₁.roleToMailbox
  refused := h₂.refused.trans h₁.refused
  entityId p := Nat.le_trans (h₁.entityId p) (h₂.entityId p)
  kind hm := (h₂.kind (Nat.le_trans hm (h₁.entityId _))).trans (h₁.kind hm)
  role hr := (h₂.role hr).elim h₁.role Or.inr
  normal hn := (h₂.normal hn).elim h₁.normal Or.inr
  memory := h₂.memory

/-- A change of the fields that neither the kinds nor the stub depend on. -/
theorem of_eq (hm : Memory g) (hcalls : g'.calls = g.calls ++ posted)
    (haccounts : g'.accountToMailbox = g.accountToMailbox) (hroles : g'.roleToMailbox = g.roleToMailbox)
    (hrefused : g'.refused = g.refused) (hentities : g'.entities = g.entities)
    (hid : g'.entityId = g.entityId) (hnode : g'.accountNode = g.accountNode)
    (hoccupant : g'.occupant = g.occupant) (hdestroy : g'.destroyIds = g.destroyIds)
    (hdelay : g'.delayDestroyIds = g.delayDestroyIds) : Evolves admitted created g g' posted := by
  have hkind : g'.kind = g.kind := by
    funext m
    simp [Game.kind, hentities, hnode]
  refine ⟨hcalls, haccounts, hroles, hrefused, fun p => hid ▸ Nat.le_refl _, fun _ => by rw [hkind],
    fun hr => Or.inl (hkind ▸ hr), ?_, ?_⟩
  · intro m hn
    left
    simpa [Normal, hentities] using hn
  · constructor
    · rw [hentities, hnode, hid]
      exact hm.bound
    · rw [hentities, hnode]
      exact hm.role
    · rw [hentities, hnode]
      exact hm.account
    · rw [hoccupant, hkind]
      exact hm.occupant
    · rw [hdestroy, hdelay, hkind]
      exact hm.destroyed

theorem refl (hm : Memory g) : Evolves admitted created g g [] :=
  of_eq hm (by simp) rfl rfl rfl rfl rfl rfl rfl rfl rfl

theorem call (hm : Memory g) (c : Call) : Evolves admitted created g (g.call c) [c] :=
  of_eq hm rfl rfl rfl rfl rfl rfl rfl rfl rfl rfl

theorem query (hm : Memory g) (op : DbOp) : Evolves admitted created g (g.query op) [] :=
  of_eq hm (by simp [Game.query]) rfl rfl rfl rfl rfl rfl rfl rfl rfl

theorem updateClientEntityId (hm : Memory g) (p : Address) (clientId entityId : Nat) :
    Evolves admitted created g (g.updateClientEntityId p clientId entityId) [] :=
  of_eq hm (by simp [Game.updateClientEntityId]) rfl rfl rfl rfl rfl rfl rfl rfl rfl

theorem addTimer (hm : Memory g) (m : Mailbox) : Evolves admitted created g (g.addTimer m) [] :=
  of_eq hm (by simp [Game.addTimer]) rfl rfl rfl rfl rfl rfl rfl rfl rfl

theorem removeClientId (hm : Memory g) (p : Address) (clientId : Nat) :
    Evolves admitted created g (g.removeClientId p clientId) [] :=
  of_eq hm (by simp [Game.removeClientId]) rfl rfl rfl rfl rfl rfl rfl rfl rfl

/-- A method changes `this`, not what kind of entity it is. -/
theorem setEntity {e e' : Entity} (hm : Memory g) (he : g.entities this = some e)
    (hkind : (g.setEntity this e').kind this = g.kind this)
    (hrole : ∀ r', e' = .role r' → ∃ r, e = .role r)
    (haccount : ∀ a', e' = .account a' → ∃ a, e = .account a)
    (hnormal : ∀ r', e' = .role r' → r'.status = .normal → g.Normal this ∨ admitted this) :
    Evolves admitted created g (g.setEntity this e') [] := by
  have hother : ∀ {m}, m ≠ this → (g.setEntity this e').entities m = g.entities m := by
    intro m hne
    simp [Game.setEntity, hne]
  have hself : (g.setEntity this e').entities this = some e' := by simp [Game.setEntity]
  have hkinds : ∀ m, (g.setEntity this e').kind m = g.kind m := by
    intro m
    by_cases hne : m = this
    · rw [hne, hkind]
    · simp only [Game.kind, hother hne]
      rfl
  refine ⟨by simp [Game.setEntity], rfl, rfl, rfl, fun p => Nat.le_refl _, fun _ => hkinds _,
    fun hr => Or.inl (hkinds _ ▸ hr), ?_, ?_⟩
  · rintro m ⟨r, hr, hstatus⟩
    by_cases hne : m = this
    · subst hne
      rw [hself] at hr
      exact hnormal r (Option.some.inj hr) hstatus
    · left
      exact ⟨r, hother hne ▸ hr, hstatus⟩
  · constructor
    · intro m hsome
      by_cases hne : m = this
      · subst hne
        apply hm.bound
        simp [he]
      · rw [hother hne] at hsome
        exact hm.bound hsome
    · intro m r' hr
      by_cases hne : m = this
      · subst hne
        rw [hself] at hr
        obtain ⟨r, rfl⟩ := hrole r' (Option.some.inj hr)
        exact hm.role he
      · rw [hother hne] at hr
        exact hm.role hr
    · intro m a' ha
      by_cases hne : m = this
      · subst hne
        rw [hself] at ha
        obtain ⟨a, rfl⟩ := haccount a' (Option.some.inj ha)
        exact hm.account he
      · rw [hother hne] at ha
        exact hm.account ha
    · intro p node m hoccupant
      rw [hkinds]
      exact hm.occupant hoccupant
    · intro p id hid
      rw [hkinds]
      exact hm.destroyed hid

theorem setAccount {a a' : Account} (hm : Memory g) (ha : g.entities this = some (.account a)) :
    Evolves admitted created g (g.setEntity this (.account a')) [] := by
  apply setEntity hm ha
  · rw [kind_account hm ha]
    obtain ⟨node, hnode⟩ := Option.isSome_iff_exists.mp (hm.account ha)
    simp [Game.kind, Game.setEntity, hnode]
  · intro r' h
    cases h
  · intro _ _
    exact ⟨a, rfl⟩
  · intro r' h
    cases h

theorem setRole {r r' : Role} (hm : Memory g) (hr : g.entities this = some (.role r))
    (hids : r'.data.ids = r.data.ids)
    (hnormal : r'.status = .normal → r.status = .normal ∨ admitted this) :
    Evolves admitted created g (g.setEntity this (.role r')) [] := by
  apply setEntity hm hr
  · obtain ⟨haccount, hrole⟩ := Prod.mk.inj hids
    simp [Game.kind, Game.setEntity, hr, haccount, hrole]
  · intro _ _
    exact ⟨r, rfl⟩
  · intro a' h
    cases h
  · rintro _ ⟨rfl⟩ hstatus
    rcases hnormal hstatus with h | h
    · left
      exact ⟨r, hr, h⟩
    · exact Or.inr h

theorem destroyEntity (hm : Memory g) (hkind : g.kind this = some .account) :
    Evolves admitted created g (g.destroyEntity this) [] := by
  refine ⟨by simp [Game.destroyEntity], rfl, rfl, rfl, fun p => Nat.le_refl _, fun _ => rfl, Or.inl,
    Or.inl, ?_⟩
  refine ⟨hm.bound, hm.role, hm.account, hm.occupant, ?_⟩
  intro p id hid
  show g.kind ⟨p, id⟩ = some .account
  by_cases hp : p = this.address
  · subst hp
    simp only [Game.destroyEntity, Function.update_self, List.mem_append, List.mem_singleton] at hid
    rcases hid with hid | hid | rfl
    · exact hm.destroyed (Or.inl hid)
    · exact hm.destroyed (Or.inr hid)
    · exact hkind
  · simp only [Game.destroyEntity, Function.update_of_ne hp] at hid
    exact hm.destroyed hid

theorem destroy {a : Account} (hm : Memory g) (ha : g.entities this = some (.account a)) :
    Evolves admitted created g (a.destroy g this) [] := by
  have hset : Evolves admitted created g (g.setEntity this (.account { a with destroyed := true })) [] := setAccount hm ha
  refine hset.trans (destroyEntity hset.memory ?_)
  rw [hset.kind (hm.bound (by simp [ha]))]
  exact kind_account hm ha

/-- Until it is created, an entity is nowhere. -/
theorem nextMailbox_free (hm : Memory g) (p : Address) :
    g.entities (g.nextMailbox p) = none ∧ g.accountNode (g.nextMailbox p) = none := by
  constructor
  · by_contra h
    exact Nat.not_succ_le_self _ (hm.bound (Or.inl (Option.isSome_iff_ne_none.mpr h)))
  · by_contra h
    exact Nat.not_succ_le_self _ (hm.bound (Or.inr (Option.isSome_iff_ne_none.mpr h)))

theorem ne_nextMailbox {p : Address} (hm : m.entityId ≤ g.entityId m.address) : m ≠ g.nextMailbox p := by
  rintro rfl
  exact Nat.not_succ_le_self _ hm

theorem createEntity_entityId (p p' : Address) (e : Entity) :
    g.entityId p' ≤ (g.createEntity p e).entityId p' := by
  by_cases hp : p' = p
  · subst hp
    simp [Game.createEntity]
  · simp [Game.createEntity, hp]

theorem createEntity_bound (p : Address) (e : Entity)
    (h : m = g.nextMailbox p ∨ m.entityId ≤ g.entityId m.address) :
    m.entityId ≤ (g.createEntity p e).entityId m.address := by
  rcases h with rfl | h
  · simp [Game.createEntity, nextMailbox]
  · exact Nat.le_trans h (createEntity_entityId p _ e)

/-- A new role is not yet `ROLE_STATUS_NORMAL`. -/
theorem createRole {r : Role} (hm : Memory g) (p : Address) (hstatus : r.status = .invalid) :
    Evolves admitted (some (g.nextMailbox p)) g (g.createEntity p (.role r)) [] := by
  have hother : ∀ {m}, m ≠ g.nextMailbox p → (g.createEntity p (.role r)).entities m = g.entities m := by
    intro m hne
    simp [Game.createEntity, hne]
  have hself : (g.createEntity p (.role r)).entities (g.nextMailbox p) = some (.role r) := by
    simp [Game.createEntity]
  have hkind : ∀ {m}, m ≠ g.nextMailbox p → (g.createEntity p (.role r)).kind m = g.kind m := by
    intro m hne
    simp only [Game.kind, hother hne]
    rfl
  refine ⟨by simp [Game.createEntity], rfl, rfl, rfl, fun p' => createEntity_entityId p p' _,
    fun hbound => hkind (ne_nextMailbox hbound), ?_, ?_, ?_⟩
  · intro m accountId roleId hrole
    by_cases hne : m = g.nextMailbox p
    · exact Or.inr (congrArg some hne.symm)
    · exact Or.inl (hkind hne ▸ hrole)
  · rintro m ⟨r', hr', hnormal⟩
    left
    by_cases hne : m = g.nextMailbox p
    · rw [hne, hself] at hr'
      cases hr'
      rw [hstatus] at hnormal
      cases hnormal
    · exact ⟨r', hother hne ▸ hr', hnormal⟩
  · constructor
    · intro m hsome
      apply createEntity_bound
      by_cases hne : m = g.nextMailbox p
      · exact Or.inl hne
      · rw [hother hne] at hsome
        exact Or.inr (hm.bound hsome)
    · intro m r' hr'
      by_cases hne : m = g.nextMailbox p
      · rw [hne]
        exact (nextMailbox_free hm p).2
      · rw [hother hne] at hr'
        exact hm.role hr'
    · intro m a ha
      by_cases hne : m = g.nextMailbox p
      · rw [hne, hself] at ha
        cases ha
      · rw [hother hne] at ha
        exact hm.account ha
    · intro p' node m hoccupant
      have hold := hm.occupant hoccupant
      rw [hkind (ne_nextMailbox (bound_of_kind hm (by simp [hold]))), hold]
    · intro p' id hid
      have hold := hm.destroyed hid
      rw [hkind (ne_nextMailbox (bound_of_kind hm (by simp [hold]))), hold]

/-- A new account takes a free node of the pool. -/
theorem createAccount (hm : Memory g) (p : Address) (a : Account) (node : Nat) :
    Evolves admitted created g ((g.createEntity p (.account a)).allocate (g.nextMailbox p) node) [] := by
  have hother : ∀ {m}, m ≠ g.nextMailbox p →
      ((g.createEntity p (.account a)).allocate (g.nextMailbox p) node).entities m = g.entities m ∧
        ((g.createEntity p (.account a)).allocate (g.nextMailbox p) node).accountNode m = g.accountNode m := by
    intro m hne
    simp [Game.createEntity, Game.allocate, hne]
  -- `nextMailbox` was given to nobody, so the kinds of all others stay
  have hself : ((g.createEntity p (.account a)).allocate (g.nextMailbox p) node).kind (g.nextMailbox p) =
      some .account := by
    simp [Game.kind, Game.createEntity, Game.allocate]
  have hkind : ∀ {m}, m ≠ g.nextMailbox p →
      ((g.createEntity p (.account a)).allocate (g.nextMailbox p) node).kind m = g.kind m := by
    intro m hne
    obtain ⟨he, hn⟩ := hother hne
    simp only [Game.kind, he, hn]
  refine ⟨by simp [Game.createEntity, Game.allocate], rfl, rfl, rfl,
    fun p' => createEntity_entityId p p' (.account a), fun hbound => hkind (ne_nextMailbox hbound), ?_, ?_, ?_⟩
  · intro m accountId roleId hrole
    left
    by_cases hne : m = g.nextMailbox p
    · rw [hne, hself] at hrole
      cases hrole
    · exact hkind hne ▸ hrole
  · rintro m ⟨r, hr, hnormal⟩
    left
    by_cases hne : m = g.nextMailbox p
    · rw [hne] at hr
      simp [Game.createEntity, Game.allocate] at hr
    · exact ⟨r, (hother hne).1 ▸ hr, hnormal⟩
  · constructor
    · intro m hsome
      apply createEntity_bound p (.account a)
      by_cases hne : m = g.nextMailbox p
      · exact Or.inl hne
      · rw [(hother hne).1, (hother hne).2] at hsome
        exact Or.inr (hm.bound hsome)
    · intro m r hr
      by_cases hne : m = g.nextMailbox p
      · rw [hne] at hr
        simp [Game.createEntity, Game.allocate] at hr
      · rw [(hother hne).1] at hr
        rw [(hother hne).2]
        exact hm.role hr
    · intro m a' ha
      by_cases hne : m = g.nextMailbox p
      · simp [hne, Game.createEntity, Game.allocate]
      · rw [(hother hne).1] at ha
        rw [(hother hne).2]
        exact hm.account ha
    · intro p' node' m hoccupant
      by_cases hp : p' = p ∧ node' = node
      · obtain ⟨rfl, rfl⟩ := hp
        simp only [Game.allocate, nextMailbox, Function.update_self, Option.some.injEq] at hoccupant
        rw [← hoccupant]
        exact hself
      · have hold : g.occupant p' node' = some m := by
          simp only [Game.allocate, nextMailbox] at hoccupant
          by_cases hp' : p' = p
          · have hn : node' ≠ node := fun h => hp ⟨hp', h⟩
            subst hp'
            simpa [hn, Game.createEntity] using hoccupant
          · simpa [hp', Game.createEntity] using hoccupant
        have haccount := hm.occupant hold
        rw [hkind (ne_nextMailbox (bound_of_kind hm (by simp [haccount]))), haccount]
    · intro p' id hid
      have hold := hm.destroyed hid
      rw [hkind (ne_nextMailbox (bound_of_kind hm (by simp [hold]))), hold]

/-- The clean-up takes accounts out of the table, and their mailboxes stay given out. -/
theorem update (hm : Memory g) (p : Address) (now : UInt32) : Evolves admitted created g (g.update p now) [] := by
  unfold Game.update
  split
  · exact refl hm
  · have hentities : ∀ {m e}, (if m.address = p ∧ m.entityId ∈ g.destroyIds p then none else g.entities m) =
        some e → g.entities m = some e := by
      intro m e he
      split at he
      · cases he
      · exact he
    have hkind : ∀ m, (Game.kind { g with
          lastTime := Function.update g.lastTime p now
          entities := fun m => if m.address = p ∧ m.entityId ∈ g.destroyIds p then none else g.entities m
          occupant := Function.update g.occupant p fun node =>
            (g.occupant p node).filter fun m => m.entityId ∉ g.destroyIds p
          destroyIds := Function.update g.destroyIds p (g.delayDestroyIds p)
          delayDestroyIds := Function.update g.delayDestroyIds p [] } m) = g.kind m := by
      intro m
      by_cases hdestroyed : m.address = p ∧ m.entityId ∈ g.destroyIds p
      · obtain ⟨rfl, hid⟩ := hdestroyed
        have haccount : g.kind m = some .account := hm.destroyed (Or.inl hid)
        obtain ⟨node, hnode⟩ := Option.isSome_iff_exists.mp ((kind_eq_account_iff hm).mp haccount)
        rw [haccount]
        simp [Game.kind, hid, hnode]
      · simp only [Game.kind, if_neg hdestroyed]
    refine ⟨by simp, rfl, rfl, rfl, fun _ => Nat.le_refl _, fun _ => hkind _, fun hr => Or.inl (hkind _ ▸ hr),
      ?_, ?_⟩
    · rintro m ⟨r, hr, hnormal⟩
      left
      exact ⟨r, hentities hr, hnormal⟩
    · constructor
      · intro m hsome
        apply hm.bound
        rcases hsome with h | h
        · left
          obtain ⟨e, he⟩ := Option.isSome_iff_exists.mp h
          simp [hentities he]
        · exact Or.inr h
      · intro m r hr
        exact hm.role (hentities hr)
      · intro m a ha
        exact hm.account (hentities ha)
      · intro p' node m hoccupant
        rw [hkind]
        by_cases hp : p' = p
        · subst hp
          simp only [Function.update_self, Option.filter_eq_some_iff] at hoccupant
          exact hm.occupant hoccupant.1
        · simp only [Function.update_of_ne hp] at hoccupant
          exact hm.occupant hoccupant
      · intro p' id hid
        rw [hkind]
        by_cases hp : p' = p
        · subst hp
          simp only [Function.update_self, List.not_mem_nil, or_false] at hid
          exact hm.destroyed (Or.inr hid)
        · simp only [Function.update_of_ne hp] at hid
          exact hm.destroyed hid

end Evolves

/-! ## What clients, the database and the managers set off -/

/-- The calls that a step without a delivery posts. -/
inductive Posts (g g' : Game) : Option Mailbox → List Call → Prop where
  | nothing : Posts g g' none []
  | registerAccount (accountId : Nat) (m : Mailbox) (h : g'.kind m = some .account) :
      Posts g g' none [.registerAccount accountId m]
  | unregisterAccount (accountId : Nat) : Posts g g' none [.unregisterAccount accountId]
  /-- `on_login_success` made a role. -/
  | registerRole (accountId roleId : Nat) (m : Mailbox) (hnew : g.kind m = none)
      (h : g'.kind m = some (.role accountId roleId)) :
      Posts g g' (some m) [.registerRole accountId roleId m]

/-- A step that no call started: it admits no role to `ROLE_STATUS_NORMAL`. -/
def Sends (g g' : Game) : Prop :=
  ∃ created posted, Evolves (fun _ => False) created g g' posted ∧ Posts g g' created posted

theorem Evolves.sends (h : Evolves (fun _ => False) none g g' []) : Sends g g' := ⟨none, [], h, .nothing⟩

theorem registerAccount_sends {a : Account} (hm : Memory g) (ha : g.entities this = some (.account a)) :
    Sends g (a.registerAccount g this) := by
  have hkind := kind_account hm ha
  exact ⟨_, _, .call hm _, .registerAccount _ _ hkind⟩

theorem unregisterAccount_sends {a : Account} (hm : Memory g) (ha : g.entities this = some (.account a)) :
    Sends g (a.unregisterAccount g this) := by
  have hcall : Evolves (fun _ => False) none g (g.call (.unregisterAccount a.accountId)) [_] := .call hm _
  exact ⟨_, _, hcall.trans (.destroy hcall.memory ha), .unregisterAccount _⟩

theorem onLoginSuccess_sends {a : Account} (hm : Memory g) (ha : g.entities this = some (.account a))
    (data : RoleInfo) : Sends g (a.onLoginSuccess g this data) := by
  have hne : this ≠ g.nextMailbox this.address := Evolves.ne_nextMailbox (hm.bound (by simp [ha]))
  have hrole : Evolves (fun _ => False) (some (g.nextMailbox this.address)) g
      (g.createEntity this.address (.role { proxy := a.proxy, data := data })) [] :=
    .createRole hm this.address rfl
  have hclient := hrole.trans
    (.updateClientEntityId hrole.memory this.address a.proxy.clientId (g.nextMailbox this.address).entityId)
  have hcall := hclient.trans
    (.call hclient.memory (.registerRole data.accountId data.roleId (g.nextMailbox this.address)))
  have ha' : (g.createEntity this.address (.role { proxy := a.proxy, data := data })).entities this =
      some (.account a) := by
    simpa [createEntity, hne] using ha
  refine ⟨_, _, hcall.trans (.destroy hcall.memory ha'), .registerRole _ _ _ (kind_nextMailbox hm _) ?_⟩
  apply kind_role (r := { proxy := a.proxy, data := data })
  simp [Account.onLoginSuccess, Account.destroy, Role.registerRole, createEntity, Game.destroyEntity, Game.setEntity,
    Game.call, Game.updateClientEntityId, hne.symm]

theorem createRole_sends {a : Account} {sex : UInt8} {roleName : List UInt8} (hm : Memory g)
    (ha : g.entities this = some (.account a)) (h : a.createRole g this sex roleName = some g') : Sends g g' := by
  obtain ⟨-, -, rfl⟩ := Account.createRole_eq_some h
  have hset : Evolves (fun _ => False) none g
      (g.setEntity this (.account { a with sex := sex, roleName := roleName })) [] :=
    .setAccount hm ha
  exact (hset.trans (.query hset.memory _)).sends

theorem onLoadAccountCallback_sends {a : Account} (hm : Memory g) (ha : g.entities this = some (.account a))
    (status : Bool) (row : Option (Nat × Nat)) : Sends g (a.onLoadAccountCallback g this status row) := by
  unfold Account.onLoadAccountCallback
  split
  · exact (Evolves.refl hm).sends
  · split
    · have hset : Evolves (fun _ => False) none g
          (g.setEntity this (.account { a with accountId := 1, roleId := 1 })) [] :=
        .setAccount hm ha
      exact (hset.trans (.query hset.memory _)).sends
    · rename_i accountId roleId
      have hset : Evolves (fun _ => False) none g
          (g.setEntity this (.account { a with accountId := accountId, roleId := roleId })) [] := .setAccount hm ha
      refine ⟨_, _, hset.trans (.call hset.memory _), .registerAccount _ _ ?_⟩
      show (g.setEntity this _).kind this = some .account
      rw [hset.kind (hm.bound (by simp [ha])), kind_account hm ha]

theorem onLoadRoleCallback_sends {a : Account} (hm : Memory g) (ha : g.entities this = some (.account a))
    (status : Bool) (row : Option RoleRow) : Sends g (a.onLoadRoleCallback g this status row) := by
  unfold Account.onLoadRoleCallback
  split
  · exact (Evolves.refl hm).sends
  · split
    · exact unregisterAccount_sends hm ha
    · split
      · exact (Evolves.refl hm).sends
      · exact onLoginSuccess_sends hm ha _

theorem onInsertRole_sends {cfg : Config} {a : Account} {status : Bool} (hm : Memory g)
    (ha : g.entities this = some (.account a)) (h : a.onInsertRole cfg g this status = some g') : Sends g g' := by
  unfold Account.onInsertRole at h
  split at h
  · obtain ⟨resources, -, rfl⟩ := Option.map_eq_some_iff.mp h
    exact onLoginSuccess_sends hm ha _
  · cases h
    exact unregisterAccount_sends hm ha

theorem handleReply_sends {cfg : Config} {op : DbOp} {reply : DbReply} (hm : Memory g)
    (h : g.handleReply cfg op reply = some g') : Sends g g' := by
  unfold handleReply at h
  split at h
  case h_1 m status row =>
    split at h
    · rename_i this a htarget
      cases h
      exact onLoadAccountCallback_sends hm (target_account hm htarget).1 status row
    · cases h
  case h_2 m status =>
    split at h
    · rename_i this a htarget
      cases h
      unfold Account.onInsertAccount
      split
      · exact registerAccount_sends hm (target_account hm htarget).1
      · exact (Evolves.refl hm).sends
    · cases h
  case h_3 m status row =>
    split at h
    · rename_i this a htarget
      cases h
      exact onLoadRoleCallback_sends hm (target_account hm htarget).1 status row
    · cases h
  case h_4 m status =>
    split at h
    · rename_i this a htarget
      exact onInsertRole_sends hm (target_account hm htarget).1 h
    · cases h
  case h_5 => cases h

theorem roleDisconnectClient_sends {r : Role} (hm : Memory g) (hr : g.entities this = some (.role r)) :
    Sends g (r.disconnectClient g this) := by
  unfold Role.disconnectClient
  split
  · exact (Evolves.refl hm).sends
  · have hset : Evolves (fun _ => False) none g (g.setEntity this (.role { r with status := .disconnect })) [] :=
      .setRole hm hr rfl (by simp)
    exact (hset.trans (.addTimer hset.memory this)).sends

theorem onCommand_sends {cfg : Config} {now : UInt32} {r : Role} {cmd : GameCommand} (hm : Memory g)
    (hr : g.entities this = some (.role r)) (h : r.onCommand cfg now g this cmd = some g') : Sends g g' := by
  obtain ⟨data, hdata, rfl⟩ := Option.map_eq_some_iff.mp h
  have hset : Evolves (fun _ => False) none g (g.setEntity this (.role { r with data := data })) [] :=
    .setRole hm hr (GameCommand.apply_ids hdata) Or.inl
  exact hset.sends

theorem entityCommand_sends {cfg : Config} {now : UInt32} {cmd : ClientCommand} (hm : Memory g)
    (h : g.entityCommand cfg m now cmd = some g') : Sends g g' := by
  unfold entityCommand at h
  split at h
  case h_1 this a node accountId roleId htarget =>
    cases h
    exact (Evolves.query hm _).sends
  case h_2 this a sex name htarget =>
    exact createRole_sends hm (target_account hm htarget).1 h
  case h_3 this a htarget =>
    cases h
    unfold Account.disconnectClient
    split
    · exact (Evolves.refl hm).sends
    · exact unregisterAccount_sends hm (target_account hm htarget).1
  case h_4 this r htarget =>
    cases h
    exact roleDisconnectClient_sends hm (target_object hm htarget).1
  case h_5 this r cmd htarget => exact onCommand_sends hm (target_object hm htarget).1 h
  case h_6 =>
    cases h
    exact (Evolves.refl hm).sends
  case h_7 => cases h
  case h_8 =>
    cases h
    exact (Evolves.refl hm).sends

theorem clientCommand_sends {cfg : Config} {p : Address} {clientId : Nat} {now : UInt32} {cmd : ClientCommand}
    (hm : Memory g) (h : g.clientCommand cfg p clientId now cmd = some g') : Sends g g' := by
  unfold clientCommand at h
  split at h
  · exact entityCommand_sends hm h
  · rename_i node accountId roleId hclient
    split at h
    · cases h
    · cases h
      let a : Account := { proxy := .ofClient clientId, accountId := accountId, roleId := roleId }
      have hcreate : Evolves (fun _ => False) none g
          ((g.createEntity p (.account a)).allocate (g.nextMailbox p) node) [] :=
        .createAccount hm p a node
      have hbind := hcreate.trans (.updateClientEntityId hcreate.memory p clientId (g.nextMailbox p).entityId)
      exact (hbind.trans (.query hbind.memory _)).sends
  · cases h
    exact (Evolves.refl hm).sends

/-! ## Calls -/

/-- The calls of a kind that are in flight. -/
def inFlight (g : Game) (p : Call → Bool) : Nat := g.calls.countP p

theorem inFlight_takeCall {p : Call → Bool} {i : Nat} {c : Call} (hc : g.calls[i]? = some c) :
    g.inFlight p = (g.takeCall i).inFlight p + if p c then 1 else 0 := by
  obtain ⟨hi, rfl⟩ := List.getElem?_eq_some_iff.mp hc
  unfold inFlight takeCall
  rw [← (List.getElem_cons_eraseIdx_perm hi).countP_eq, List.countP_cons]

theorem inFlight_append {p : Call → Bool} {posted : List Call} (h : g'.calls = g.calls ++ posted) :
    g'.inFlight p = g.inFlight p + posted.countP p := by
  unfold inFlight
  rw [h, List.countP_append]

theorem inFlight_eq {p : Call → Bool} {posted : List Call} (h : g'.calls = g.calls ++ posted)
    (hposted : posted.countP p = 0) : g'.inFlight p = g.inFlight p := by
  rw [inFlight_append h, hposted, Nat.add_zero]

/-- The role at `m` is the one that the stub has for its id. -/
def Registered (g : Game) (m : Mailbox) : Prop :=
  ∃ accountId roleId, g.kind m = some (.role accountId roleId) ∧ g.roleToMailbox roleId = some m

theorem Registered.entity (h : g.Registered m) : ∃ r, g.entities m = some (.role r) := by
  obtain ⟨accountId, roleId, hkind, -⟩ := h
  obtain ⟨r, hr, -⟩ := kind_eq_role hkind
  exact ⟨r, hr⟩

/-- What holds of a call while it is in flight. -/
def CallOk (g : Game) : Call → Prop
  | .registerAccount _ m                  => g.kind m = some .account
  | .unregisterAccount _                  => True
  | .registerRole accountId roleId m      => g.kind m = some (.role accountId roleId)
  | .unregisterRole _ _                   => False
  | .updateByRelay accountId roleId m     =>
    g.kind m = some (.role accountId roleId) ∧ g.roleToMailbox roleId = some m
  | .onRegisterAccount target status old  =>
    g.kind target = some .account ∧ (status = false → g.kind old = some .account ∨ g.Registered old)
  | .onRelayReady target m                =>
    (g.kind target = some .account ∨ g.Registered target) ∧ g.kind m = some .account
  | .onWaitLogin target m                 => g.kind target = some .account ∧ g.Registered m
  | .onRelayLogin target none             => g.kind target = some .account
  | .onRelayLogin target (some _)         => g.Registered target
  | .onRegisterRole target status         => status = true → g.Registered target
  | .kickRole _                           => False

/-- The calls whose delivery to `m` makes it `ROLE_STATUS_NORMAL`. -/
def Admits (c : Call) (m : Mailbox) : Prop := c = .onRegisterRole m true ∨ ∃ proxy, c = .onRelayLogin m (some proxy)

/-- What an entity posts when a call is delivered to it. -/
inductive Answers (g : Game) : Call → List Call → Prop where
  | granted (target m : Mailbox) : Answers g (.onRegisterAccount target true m) []
  | askRelay (target old this : Mailbox) (h : g.kind this = some .account) :
      Answers g (.onRegisterAccount target false old) [.onRelayReady old this]
  | relayAccount (target m : Mailbox) (h : g.kind target = some .account) :
      Answers g (.onRelayReady target m) [.onRelayLogin m none]
  | relayRole (target m : Mailbox) (h : g.Registered target) :
      Answers g (.onRelayReady target m) [.onWaitLogin m target]
  | waitLogin (target m : Mailbox) (proxy : Proxy) :
      Answers g (.onWaitLogin target m) [.onRelayLogin m (some proxy)]
  | relayLoginAccount (target : Mailbox) : Answers g (.onRelayLogin target none) []
  | relayLoginRole (target : Mailbox) (proxy : Proxy) (accountId roleId : Nat)
      (h : g.kind target = some (.role accountId roleId)) :
      Answers g (.onRelayLogin target (some proxy)) [.updateByRelay accountId roleId target]
  | registered (target : Mailbox) (status : Bool) : Answers g (.onRegisterRole target status) []

/-- The delivery of a call: the stub runs it, or an entity answers. -/
inductive Delivered (g : Game) : Call → Game → Prop where
  | registerAccount (accountId : Nat) (m : Mailbox) :
      Delivered g (.registerAccount accountId m) (RollStub.registerAccount g accountId m)
  | unregisterAccount (accountId : Nat) :
      Delivered g (.unregisterAccount accountId) (RollStub.unregisterAccount g accountId)
  | registerRole (accountId roleId : Nat) (m : Mailbox) :
      Delivered g (.registerRole accountId roleId m) (RollStub.registerRole g accountId roleId m)
  | updateByRelay (accountId roleId : Nat) (m : Mailbox) :
      Delivered g (.updateByRelay accountId roleId m) (RollStub.updateByRelay g accountId roleId m)
  | entity (c : Call) (g' : Game) (posted : List Call) (hevolves : Evolves (Admits c) none g g' posted)
      (hanswers : Answers g c posted) : Delivered g c g'

theorem onRegisterAccount_delivered {status : Bool} {target old : Mailbox} (hm : Memory g)
    (hkind : g.kind this = some .account) :
    Delivered g (.onRegisterAccount target status old) (Account.onRegisterAccount g this status old) := by
  cases status with
  | true => exact .entity _ _ _ (.query hm _) (.granted target old)
  | false => exact .entity _ _ _ (.call hm _) (.askRelay target old this hkind)

theorem accountOnRelayReady_delivered {a : Account} {target : Mailbox} (hm : Memory g)
    (ha : g.entities this = some (.account a)) (hkind : g.kind target = some .account) :
    Delivered g (.onRelayReady target m) (a.onRelayReady g this m) := by
  have hcall : Evolves (Admits (.onRelayReady target m)) none g (g.call (.onRelayLogin m none)) [_] := .call hm _
  exact .entity _ _ _ (hcall.trans (.destroy hcall.memory ha)) (.relayAccount target m hkind)

theorem roleOnRelayReady_delivered {r : Role} (hm : Memory g) (hr : g.entities this = some (.role r))
    (hregistered : g.Registered this) : Delivered g (.onRelayReady this m) (r.onRelayReady g this m) := by
  have hset : Evolves (Admits (.onRelayReady this m)) none g (g.setEntity this (.role { r with status := .relay })) [] :=
    .setRole hm hr rfl (by simp)
  have hcall := hset.trans (.call hset.memory (.onWaitLogin m this))
  exact .entity _ _ _ (hcall.trans (.removeClientId hcall.memory _ _)) (.relayRole this m hregistered)

theorem onWaitLogin_delivered {a : Account} {target : Mailbox} (hm : Memory g)
    (ha : g.entities this = some (.account a)) :
    Delivered g (.onWaitLogin target m) (a.onWaitLogin g this m) := by
  have hcall : Evolves (Admits (.onWaitLogin target m)) none g (g.call (.onRelayLogin m (some a.proxy))) [_] := .call hm _
  exact .entity _ _ _ (hcall.trans (.destroy hcall.memory ha)) (.waitLogin target m a.proxy)

theorem accountOnRelayLogin_delivered {a : Account} {target : Mailbox} (hm : Memory g) :
    Delivered g (.onRelayLogin target none) (a.onRelayLogin g this) := by
  unfold Account.onRelayLogin
  split
  · exact .entity _ _ _ (.refl hm) (.relayLoginAccount target)
  · exact .entity _ _ _ (.query hm _) (.relayLoginAccount target)

theorem roleOnRelayLogin_delivered {r : Role} {proxy : Proxy} (hm : Memory g) (hr : g.entities this = some (.role r)) :
    Delivered g (.onRelayLogin this (some proxy)) (r.onRelayLogin g this proxy) := by
  have hset : Evolves (Admits (.onRelayLogin this (some proxy))) none g
      (g.setEntity this (.role { r with status := .normal, proxy := proxy })) [] :=
    .setRole hm hr rfl fun _ => Or.inr (Or.inr ⟨proxy, rfl⟩)
  have hcall := hset.trans (.call hset.memory (.updateByRelay r.data.accountId r.data.roleId this))
  exact .entity _ _ _ (hcall.trans (.updateClientEntityId hcall.memory _ _ _))
    (.relayLoginRole this proxy _ _ (kind_role hr))

theorem onRegisterRole_delivered {r : Role} {status : Bool} (hm : Memory g)
    (hr : g.entities this = some (.role r)) :
    Delivered g (.onRegisterRole this status) (r.onRegisterRole g this status) := by
  unfold Role.onRegisterRole
  split
  · rename_i hstatus
    subst hstatus
    split
    · exact .entity _ _ _ (.refl hm) (.registered this true)
    · exact .entity _ _ _ (.setRole hm hr rfl fun _ => Or.inr (Or.inl rfl)) (.registered this true)
  · exact .entity _ _ _ (.refl hm) (.registered this status)

/-- A call of the protocol reaches an entity that it was meant for. -/
theorem handle_delivered {c : Call} (hm : Memory g) (hok : g.CallOk c) (h : g.handle c = some g') :
    Delivered g c g' := by
  cases c with
  | registerAccount accountId m =>
      cases h
      exact .registerAccount accountId m
  | unregisterAccount accountId =>
      cases h
      exact .unregisterAccount accountId
  | registerRole accountId roleId m =>
      cases h
      exact .registerRole accountId roleId m
  | unregisterRole => exact hok.elim
  | updateByRelay accountId roleId m =>
      cases h
      exact .updateByRelay accountId roleId m
  | onRegisterAccount target status old =>
      rcases target_of_account hm hok.1 with htarget | ⟨this, a, htarget, ha, hkind⟩
      · simp [handle, htarget] at h
      · simp only [handle, htarget, Option.some.injEq] at h
        subst h
        exact onRegisterAccount_delivered hm hkind
  | onRelayReady target m =>
      rcases hok.1 with haccount | hregistered
      · rcases target_of_account hm haccount with htarget | ⟨this, a, htarget, ha, -⟩
        · simp [handle, htarget] at h
        · simp only [handle, htarget, Option.some.injEq] at h
          subst h
          exact accountOnRelayReady_delivered hm ha haccount
      · obtain ⟨r, hr⟩ := hregistered.entity
        simp only [handle, target_role hm hr, Option.some.injEq] at h
        subst h
        exact roleOnRelayReady_delivered hm hr hregistered
  | onWaitLogin target m =>
      rcases target_of_account hm hok.1 with htarget | ⟨this, a, htarget, ha, -⟩
      · simp [handle, htarget] at h
      · simp only [handle, htarget, Option.some.injEq] at h
        subst h
        exact onWaitLogin_delivered hm ha
  | onRelayLogin target proxy =>
      cases proxy with
      | none =>
          rcases target_of_account hm hok with htarget | ⟨this, a, htarget, -, -⟩
          · simp [handle, htarget] at h
          · simp only [handle, htarget, Option.some.injEq] at h
            subst h
            exact accountOnRelayLogin_delivered hm
      | some proxy =>
          obtain ⟨r, hr⟩ := Registered.entity hok
          simp only [handle, target_role hm hr, Option.some.injEq] at h
          subst h
          exact roleOnRelayLogin_delivered hm hr
  | onRegisterRole target status =>
      simp only [handle] at h
      split at h
      · rename_i this r htarget
        obtain ⟨rfl, hr⟩ := target_role_self hm htarget
        cases h
        exact onRegisterRole_delivered hm hr
      · cases h
        exact .entity _ _ _ (.refl hm) (.registered target status)
  | kickRole => exact hok.elim

/-- **What a step does.** No call is involved, or the call at its place is delivered. -/
theorem step_cases {cfg : Config} {l : GameLabel} (hm : Memory g) (hok : ∀ c ∈ g.calls, g.CallOk c)
    (h : g.step cfg l = some g') :
    Sends g g' ∨ ∃ i c, l = .deliver i ∧ g.calls[i]? = some c ∧ Delivered (g.takeCall i) c g' := by
  cases l with
  | client p clientId now cmd => exact Or.inl (clientCommand_sends hm h)
  | deliver i =>
      obtain ⟨c, hc, hhandle⟩ := Option.bind_eq_some_iff.mp h
      have hm' : Memory (g.takeCall i) := ⟨hm.bound, hm.role, hm.account, hm.occupant, hm.destroyed⟩
      exact Or.inr ⟨i, c, rfl, hc, handle_delivered hm' (hok c (List.mem_of_getElem? hc)) hhandle⟩
  | dbReply i reply =>
      left
      obtain ⟨op, hop, hhandle⟩ := Option.bind_eq_some_iff.mp h
      have hm' : Memory { g with dbOps := g.dbOps.eraseIdx i } :=
        ⟨hm.bound, hm.role, hm.account, hm.occupant, hm.destroyed⟩
      obtain ⟨created, posted, hevolves, hposts⟩ := handleReply_sends hm' hhandle
      have htaken : Evolves (fun _ => False) created g { g with dbOps := g.dbOps.eraseIdx i } [] :=
        .of_eq hm (by simp) rfl rfl rfl rfl rfl rfl rfl rfl rfl
      refine ⟨created, posted, htaken.trans hevolves, ?_⟩
      cases hposts with
      | nothing => exact .nothing
      | registerAccount accountId m h => exact .registerAccount accountId m h
      | unregisterAccount accountId => exact .unregisterAccount accountId
      | registerRole accountId roleId m hnew h => exact .registerRole accountId roleId m hnew h
  | timer i =>
      left
      obtain ⟨m, hm', hhandle⟩ := Option.bind_eq_some_iff.mp h
      split at hhandle
      · rename_i r hr
        cases hhandle
        unfold Role.onTimer
        have htaken : Evolves (fun _ => False) none g { g with timers := g.timers.eraseIdx i } [] :=
          .of_eq hm (by simp) rfl rfl rfl rfl rfl rfl rfl rfl rfl
        split <;> exact htaken.sends
      · cases hhandle
  | update p now =>
      cases h
      exact Or.inl (Evolves.update hm p now).sends

end Game

end Mowang
