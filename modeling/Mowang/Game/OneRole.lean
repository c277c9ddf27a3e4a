import Mowang.Game.EntitySteps

/-!
# `Game.OneRole` — how many roles an account makes

`Logged` runs the login protocol and keeps, next to it, the trace of what the stub granted to each account and
of the role rows and role entities that each account made. A grant does not say what it was for, so `asks` has,
for every call in flight, the ids of the `register_account` that the call goes back to.

`create_role` and the callback of its insert check nothing: whether an account makes one role, of its own ids,
is up to its client and to the order of the answers. `InOrder` is the condition on those.

## Contents
- `AccountEvent`, `Logged`, `Logged.step`.
- `OneRole` as a guarded trace.
- `InOrder`, `guarded_run_iff`.
-/

namespace Mowang

/-- `ids` are the account id and the role id. -/
inductive AccountEvent where
  /-- `on_register_account(true)` or `on_relay_login`, and what the account had asked for. -/
  | granted (m : Mailbox) (ids : Nat × Nat)
  /-- The client is asked for a new role: the query of the role found none. -/
  | asked (m : Mailbox)
  /-- The insert into the role table. -/
  | inserted (m : Mailbox) (ids : Nat × Nat)
  /-- `on_login_success` created the role entity. -/
  | created (m : Mailbox) (ids : Nat × Nat)
  deriving DecidableEq

namespace AccountEvent

/-- The account inserted a role row. -/
def insertedBy (m : Mailbox) : AccountEvent → Bool
  | inserted m' _ => m' = m
  | _             => false

/-- The account created a role entity. -/
def createdBy (m : Mailbox) : AccountEvent → Bool
  | created m' _ => m' = m
  | _            => false

/-- The event may follow `trace`: an account inserts once, creates once, and both for ids that it was granted. -/
def Allowed (e : AccountEvent) (trace : List AccountEvent) : Prop :=
  match e with
  | granted _ _    => True
  | asked _        => True
  | inserted m ids => granted m ids ∈ trace ∧ ∀ ids, inserted m ids ∉ trace
  | created m ids  => granted m ids ∈ trace ∧ ∀ ids, created m ids ∉ trace

theorem countP_insertedBy {m : Mailbox} {trace : List AccountEvent} :
    trace.countP (insertedBy m) = 0 ↔ ∀ ids, inserted m ids ∉ trace := by
  rw [List.countP_eq_zero]
  constructor
  · intro h ids hmem
    exact h _ hmem (by simp [insertedBy])
  · intro h e he hm
    cases e <;> simp [insertedBy] at hm
    exact h _ (hm ▸ he)

theorem countP_createdBy {m : Mailbox} {trace : List AccountEvent} :
    trace.countP (createdBy m) = 0 ↔ ∀ ids, created m ids ∉ trace := by
  rw [List.countP_eq_zero]
  constructor
  · intro h ids hmem
    exact h _ hmem (by simp [createdBy])
  · intro h e he hm
    cases e <;> simp [createdBy] at hm
    exact h _ (hm ▸ he)

end AccountEvent

/-- The account on which a function of the account at `m` runs. -/
def Game.accountAt (g : Game) (m : Mailbox) : Option (Mailbox × Account) :=
  match g.target m with
  | .object this (.account a) => some (this, a)
  | _                         => none

theorem Game.accountAt_eq {g : Game} {m this : Mailbox} {a : Account} :
    g.accountAt m = some (this, a) ↔ g.target m = .object this (.account a) := by
  unfold accountAt
  split
  · rename_i this' a' htarget
    simp [htarget]
  · rename_i hno
    exact iff_of_false (by simp) (hno this a)

/-- The protocol and what was seen of it, the last event first. -/
structure Logged where
  game : Game
  /-- For each call in flight the ids that were asked for. -/
  asks : List (Nat × Nat) := []
  trace : List AccountEvent := []

namespace Logged

/-- The ids that an account which logs in asks for. -/
def askedIds (g : Game) : Call → Nat × Nat
  | .registerAccount accountId m =>
    match g.entities m with
    | some (.account a) => (accountId, a.roleId)
    | _                 => (accountId, 0)
  | _ => (0, 0)

/-- What the calls in flight after a step ask for. A call sent by the delivery of another goes on with its ids. -/
def nextAsks (s : Logged) (l : GameLabel) (g' : Game) : List (Nat × Nat) :=
  match l with
  | .deliver i =>
    match s.asks[i]? with
    | some ids => s.asks.eraseIdx i ++ (g'.calls.drop (s.game.calls.length - 1)).map fun _ => ids
    | none     => s.asks
  | _ => s.asks ++ (g'.calls.drop s.game.calls.length).map (askedIds g')

/-- What the step does to the one role of an account. -/
def event (s : Logged) : GameLabel → Option AccountEvent
  | .client p clientId _ (.createRole _ _) =>
    (s.game.clientToEntity p clientId).bind fun entityId =>
      (s.game.accountAt ⟨p, entityId⟩).map fun (this, a) => .inserted this a.ids
  | .deliver i =>
    match s.game.calls[i]?, s.asks[i]? with
    | some (.onRegisterAccount target true _), some ids => some (.granted target ids)
    | some (.onRelayLogin target _), some ids           =>
      (s.game.accountAt target).map fun _ => .granted target ids
    | _, _ => none
  | .dbReply i (.insert true) =>
    match s.game.dbOps[i]? with
    | some (.insertRole old) => (s.game.accountAt old).map fun (this, a) => .created this a.ids
    | _                      => none
  | .dbReply i (.role true row) =>
    match s.game.dbOps[i]? with
    | some (.loadRole old) =>
      (s.game.accountAt old).bind fun (this, a) =>
        if a.destroyed then none else
        match row with
        | none   => some (.asked this)
        | some _ => some (.created this a.ids)
    | _ => none
  | _ => none

def step (cfg : Config) (s : Logged) (l : GameLabel) : Option Logged :=
  (s.game.step cfg l).map fun g' =>
    { game := g', asks := s.nextAsks l g', trace := (s.event l).toList ++ s.trace }

def init (entityId : Address → Nat) : Logged := { game := Game.init entityId }

variable {s s' : Logged} {l : GameLabel} {m : Mailbox}

/-- Watching the protocol does not change it. -/
theorem run_game {cfg : Config} (s : Logged) (labels : List GameLabel) :
    (run (step cfg) s labels).map (·.game) = run (Game.step cfg) s.game labels := by
  induction labels generalizing s with
  | nil => rfl
  | cons l labels ih =>
      simp only [run, step]
      cases s.game.step cfg l with
      | none => rfl
      | some g' => exact ih _

theorem step_eq {cfg : Config} (h : s.step cfg l = some s') :
    s.game.step cfg l = some s'.game ∧ s'.trace = (s.event l).toList ++ s.trace := by
  obtain ⟨g', hg', rfl⟩ := Option.map_eq_some_iff.mp h
  exact ⟨hg', rfl⟩

end Logged

/-! ## One role as a guarded trace -/

/-- The account at `m` inserts at most one role row and creates at most one role entity, and does either only for ids
    that it was granted before. -/
structure OneRole (trace : List AccountEvent) (m : Mailbox) : Prop where
  inserted : trace.countP (AccountEvent.insertedBy m) ≤ 1
  created : trace.countP (AccountEvent.createdBy m) ≤ 1
  granted : ∀ newer older ids,
    trace = newer ++ .inserted m ids :: older ∨ trace = newer ++ .created m ids :: older → .granted m ids ∈ older

theorem OneRole.tail {e : AccountEvent} {trace : List AccountEvent} {m : Mailbox} (h : OneRole (e :: trace) m) :
    OneRole trace m where
  inserted := Nat.le_trans (List.Sublist.countP_le (List.sublist_cons_self e trace)) h.inserted
  created := Nat.le_trans (List.Sublist.countP_le (List.sublist_cons_self e trace)) h.created
  granted := by
    intro newer older ids hevent
    apply h.granted (e :: newer) older ids
    exact hevent.imp (congrArg (e :: ·)) (congrArg (e :: ·))

theorem OneRole.allowed {e : AccountEvent} {trace : List AccountEvent} (h : ∀ m, OneRole (e :: trace) m) :
    e.Allowed trace := by
  cases e with
  | granted | asked => trivial
  | inserted m ids =>
      have hone := (h m).inserted
      rw [List.countP_cons_of_pos (by simp [AccountEvent.insertedBy])] at hone
      exact ⟨(h m).granted [] trace ids (Or.inl rfl), AccountEvent.countP_insertedBy.mp (by omega)⟩
  | created m ids =>
      have hone := (h m).created
      rw [List.countP_cons_of_pos (by simp [AccountEvent.createdBy])] at hone
      exact ⟨(h m).granted [] trace ids (Or.inr rfl), AccountEvent.countP_createdBy.mp (by omega)⟩

/-- Each account makes one role exactly when every event is allowed where it stands. -/
theorem one_role_iff_guarded {trace : List AccountEvent} :
    (∀ m, OneRole trace m) ↔ Guarded AccountEvent.Allowed trace := by
  constructor
  · intro h
    induction trace with
    | nil => trivial
    | cons e trace ih => exact ⟨OneRole.allowed h, ih fun m => (h m).tail⟩
  · intro h m
    refine ⟨?_, ?_, ?_⟩
    · apply h.countP_le_one
      rintro (⟨m', ids⟩ | m' | ⟨m', ids⟩ | ⟨m', ids⟩) older hallowed hm <;> simp [AccountEvent.insertedBy] at hm
      exact AccountEvent.countP_insertedBy.mpr (hm ▸ hallowed.2)
    · apply h.countP_le_one
      rintro (⟨m', ids⟩ | m' | ⟨m', ids⟩ | ⟨m', ids⟩) older hallowed hm <;> simp [AccountEvent.createdBy] at hm
      exact AccountEvent.countP_createdBy.mpr (hm ▸ hallowed.2)
    · rintro newer older ids (rfl | rfl)
      · exact (Guarded.before h).1
      · exact (Guarded.before h).1

/-! ## Steps in order -/

namespace Logged

variable {s s' : Logged} {l : GameLabel} {m : Mailbox}

/-- A `create_role` is the first that reaches its account, and an insert is answered before the account has
    made a role; at either, and when a role is loaded, the account was granted the ids that it has. -/
def InOrder (s : Logged) : GameLabel → Prop
  | .client p clientId _ (.createRole _ _) => ∀ {entityId this a}, s.game.clientToEntity p clientId = some entityId →
    s.game.accountAt ⟨p, entityId⟩ = some (this, a) →
      .granted this a.ids ∈ s.trace ∧ ∀ ids, .inserted this ids ∉ s.trace
  | .dbReply i (.insert true) => ∀ {old this a}, s.game.dbOps[i]? = some (.insertRole old) →
    s.game.accountAt old = some (this, a) →
      .granted this a.ids ∈ s.trace ∧ ∀ ids, .created this ids ∉ s.trace
  | .dbReply i (.role true (some _)) => ∀ {old this a}, s.game.dbOps[i]? = some (.loadRole old) →
    s.game.accountAt old = some (this, a) → a.destroyed = false → .granted this a.ids ∈ s.trace
  | _ => True

/-- An account that made a role is destroyed. -/
structure Inv (s : Logged) : Prop where
  login : s.game.LoginInv
  known : ∀ {m ids}, .created m ids ∈ s.trace → (s.game.kind m).isSome
  destroyed : ∀ {m ids a}, .created m ids ∈ s.trace → s.game.entities m = some (.account a) → a.destroyed = true

theorem event_createRole {p : Address} {clientId : Nat} {now : UInt32} {sex : UInt8} {name : List UInt8}
    {e : AccountEvent} : s.event (.client p clientId now (.createRole sex name)) = some e ↔
      ∃ entityId this a, s.game.clientToEntity p clientId = some entityId ∧
        s.game.accountAt ⟨p, entityId⟩ = some (this, a) ∧ .inserted this a.ids = e := by
  simp [event, Option.bind_eq_some_iff, Option.map_eq_some_iff]

theorem event_insertRole {i : Nat} {e : AccountEvent} : s.event (.dbReply i (.insert true)) = some e ↔
    ∃ old this a, s.game.dbOps[i]? = some (.insertRole old) ∧
      s.game.accountAt old = some (this, a) ∧ .created this a.ids = e := by
  simp only [event]
  split
  · rename_i old hop
    simp [hop]
  · rename_i hno
    refine iff_of_false (by simp) ?_
    rintro ⟨old, this, a, hop, -⟩
    exact hno old hop

theorem event_loadRole {i : Nat} {row : Option RoleRow} {e : AccountEvent} :
    s.event (.dbReply i (.role true row)) = some e ↔
      ∃ old this a, s.game.dbOps[i]? = some (.loadRole old) ∧ s.game.accountAt old = some (this, a) ∧
        a.destroyed = false ∧ (if row.isSome then .created this a.ids else .asked this) = e := by
  simp only [event]
  split
  · rename_i old hop
    cases row <;> simp [hop, Option.bind_eq_some_iff]
  · rename_i hno
    refine iff_of_false (by simp) ?_
    rintro ⟨old, this, a, hop, -⟩
    exact hno old hop

/-- The event of a step is allowed exactly when the step is in order. -/
theorem Inv.allowed_iff (hinv : Inv s) : (∀ e, s.event l = some e → e.Allowed s.trace) ↔ s.InOrder l := by
  cases l with
  | client p clientId now cmd =>
      cases cmd with
      | createRole sex name =>
          simp only [event_createRole, InOrder]
          constructor
          · intro h entityId this a hclient haccount
            exact h _ ⟨entityId, this, a, hclient, haccount, rfl⟩
          · rintro h e ⟨entityId, this, a, hclient, haccount, rfl⟩
            exact h hclient haccount
      | login | disconnectClient | game => exact iff_of_true (by simp [event]) trivial
  | deliver i =>
      refine iff_of_true ?_ trivial
      intro e he
      simp only [event] at he
      split at he
      · cases he
        trivial
      · obtain ⟨x, -, rfl⟩ := Option.map_eq_some_iff.mp he
        trivial
      · cases he
  | dbReply i reply =>
      match reply with
      | .insert true =>
          simp only [event_insertRole, InOrder]
          constructor
          · intro h old this a hop haccount
            exact h _ ⟨old, this, a, hop, haccount, rfl⟩
          · rintro h e ⟨old, this, a, hop, haccount, rfl⟩
            exact h hop haccount
      | .role true (some row) =>
          simp only [event_loadRole, InOrder, Option.isSome_some, if_true]
          constructor
          · intro h old this a hop haccount hlives
            exact (h _ ⟨old, this, a, hop, haccount, hlives, rfl⟩).1
          · rintro h e ⟨old, this, a, hop, haccount, hlives, rfl⟩
            refine ⟨h hop haccount hlives, ?_⟩
            -- an account that lives has made no role
            intro ids hcreated
            have htarget := Game.accountAt_eq.mp haccount
            have hentity := (Game.target_object hinv.login.memory htarget).1
            rw [hinv.destroyed hcreated hentity] at hlives
            cases hlives
      | .role true none =>
          refine iff_of_true ?_ trivial
          intro e he
          obtain ⟨old, this, a, -, -, -, rfl⟩ := event_loadRole.mp he
          trivial
      | .insert false | .role false _ | .account _ _ => exact iff_of_true (by simp [event]) trivial
  | timer | update => exact iff_of_true (by simp [event]) trivial

theorem onLoginSuccess_destroys (g : Game) (this : Mailbox) (a : Account) (data : RoleInfo) :
    ∃ a', (a.onLoginSuccess g this data).entities this = some (.account a') ∧ a'.destroyed = true := by
  refine ⟨{ a with destroyed := true }, ?_, rfl⟩
  simp [Account.onLoginSuccess, Account.destroy, Game.destroyEntity, Game.setEntity]

/-- Where the events come from. -/
theorem event_cases {e : AccountEvent} (h : s.event l = some e) :
    (∃ i m ids, l = .deliver i ∧ e = .granted m ids) ∨
      (∃ p clientId now sex name entityId m a, l = .client p clientId now (.createRole sex name) ∧
        s.game.clientToEntity p clientId = some entityId ∧ s.game.accountAt ⟨p, entityId⟩ = some (m, a) ∧
        e = .inserted m a.ids) ∨
      (∃ i old m a, l = .dbReply i (.insert true) ∧ s.game.dbOps[i]? = some (.insertRole old) ∧
        s.game.accountAt old = some (m, a) ∧ e = .created m a.ids) ∨
      ∃ i row old m a, l = .dbReply i (.role true row) ∧ s.game.dbOps[i]? = some (.loadRole old) ∧
        s.game.accountAt old = some (m, a) ∧ a.destroyed = false ∧
        e = if row.isSome then .created m a.ids else .asked m := by
  cases l with
  | client p clientId now cmd =>
      cases cmd with
      | createRole sex name =>
          obtain ⟨entityId, this, a, hclient, haccount, rfl⟩ := event_createRole.mp h
          exact Or.inr (Or.inl ⟨p, clientId, now, sex, name, entityId, this, a, rfl, hclient, haccount, rfl⟩)
      | login | disconnectClient | game => simp [event] at h
  | deliver i =>
      left
      simp only [event] at h
      split at h
      · cases h
        exact ⟨i, _, _, rfl, rfl⟩
      · obtain ⟨x, -, rfl⟩ := Option.map_eq_some_iff.mp h
        exact ⟨i, _, _, rfl, rfl⟩
      · cases h
  | dbReply i reply =>
      match reply with
      | .insert true =>
          obtain ⟨old, this, a, hop, haccount, rfl⟩ := event_insertRole.mp h
          exact Or.inr (Or.inr (Or.inl ⟨i, old, this, a, rfl, hop, haccount, rfl⟩))
      | .role true row =>
          obtain ⟨old, this, a, hop, haccount, hlives, rfl⟩ := event_loadRole.mp h
          exact Or.inr (Or.inr (Or.inr ⟨i, row, old, this, a, rfl, hop, haccount, hlives, rfl⟩))
      | .insert false | .role false _ | .account _ _ => simp [event] at h
  | timer | update => simp [event] at h

/-- A row is inserted by the client's `create_role`. -/
theorem event_inserted {ids : Nat × Nat} (h : s.event l = some (.inserted m ids)) :
    ∃ p clientId now sex name entityId a, l = .client p clientId now (.createRole sex name) ∧
      s.game.clientToEntity p clientId = some entityId ∧ s.game.accountAt ⟨p, entityId⟩ = some (m, a) := by
  rcases event_cases h with ⟨i, m', ids', -, heq⟩ |
    ⟨p, clientId, now, sex, name, entityId, m', a, hl, hclient, haccount, heq⟩ |
    ⟨i, old, m', a, -, -, -, heq⟩ | ⟨i, row, old, m', a, -, -, -, -, heq⟩
  · cases heq
  · cases heq
    exact ⟨p, clientId, now, sex, name, entityId, a, hl, hclient, haccount⟩
  · cases heq
  · cases row <;> cases heq

/-- The client is asked for a role when its query finds none. -/
theorem event_asked (h : s.event l = some (.asked m)) : ∃ i old a, l = .dbReply i (.role true none) ∧
    s.game.dbOps[i]? = some (.loadRole old) ∧ s.game.accountAt old = some (m, a) := by
  rcases event_cases h with ⟨i, m', ids', -, heq⟩ | ⟨p, clientId, now, sex, name, entityId, m', a, -, -, -, heq⟩ |
    ⟨i, old, m', a, -, -, -, heq⟩ | ⟨i, row, old, m', a, hl, hop, haccount, -, heq⟩
  · cases heq
  · cases heq
  · cases heq
  · cases row with
    | none =>
        cases heq
        exact ⟨i, old, a, hl, hop, haccount⟩
    | some row => cases heq

/-- A role is made when the answer to an insert or to a query of the role is delivered. -/
theorem event_created {ids : Nat × Nat} (h : s.event l = some (.created m ids)) : ∃ i old a,
    s.game.accountAt old = some (m, a) ∧ a.ids = ids ∧
      (l = .dbReply i (.insert true) ∧ s.game.dbOps[i]? = some (.insertRole old) ∨
        ∃ row, l = .dbReply i (.role true (some row)) ∧ s.game.dbOps[i]? = some (.loadRole old) ∧
          a.destroyed = false) := by
  rcases event_cases h with ⟨i, m', ids', -, heq⟩ | ⟨p, clientId, now, sex, name, entityId, m', a, -, -, -, heq⟩ |
    ⟨i, old, m', a, hl, hop, haccount, heq⟩ | ⟨i, row, old, m', a, hl, hop, haccount, hlives, heq⟩
  · cases heq
  · cases heq
  · cases heq
    exact ⟨i, old, a, haccount, rfl, Or.inl ⟨hl, hop⟩⟩
  · cases row with
    | none => cases heq
    | some row =>
        cases heq
        exact ⟨i, old, a, haccount, rfl, Or.inr ⟨row, hl, hop, hlives⟩⟩

/-- An account that makes a role destroys itself. -/
theorem created_destroys {cfg : Config} {ids : Nat × Nat} {g' : Game} (h : s.game.step cfg l = some g')
    (hevent : s.event l = some (.created m ids)) :
    ∃ a, g'.entities m = some (.account a) ∧ a.destroyed = true := by
  obtain ⟨i, old, a, haccount, -, hrole⟩ := event_created hevent
  have htarget := Game.accountAt_eq.mp haccount
  rcases hrole with ⟨rfl, hop⟩ | ⟨row, rfl, hop, hlives⟩
  · obtain ⟨op, hop', hhandle⟩ := Option.bind_eq_some_iff.mp h
    rw [hop] at hop'
    cases hop'
    have htarget' : Game.target { s.game with dbOps := s.game.dbOps.eraseIdx i } old = .object m (.account a) := htarget
    simp only [Game.handleReply, htarget', Account.onInsertRole, if_true] at hhandle
    obtain ⟨resources, -, rfl⟩ := Option.map_eq_some_iff.mp hhandle
    exact onLoginSuccess_destroys _ _ _ _
  · obtain ⟨op, hop', hhandle⟩ := Option.bind_eq_some_iff.mp h
    rw [hop] at hop'
    cases hop'
    have htarget' : Game.target { s.game with dbOps := s.game.dbOps.eraseIdx i } old = .object m (.account a) := htarget
    simp only [Game.handleReply, htarget', Account.onLoadRoleCallback, hlives] at hhandle
    cases hhandle
    exact onLoginSuccess_destroys _ _ _ _

theorem Inv.step {cfg : Config} (hinv : Inv s) (h : s.step cfg l = some s') : Inv s' := by
  obtain ⟨hgame, htrace⟩ := step_eq h
  have hext := Game.extends_step hinv.login hgame
  have hlogin := hinv.login.step hgame
  have hcases : ∀ {m ids}, .created m ids ∈ s'.trace → .created m ids ∈ s.trace ∨
      ∃ a, s'.game.entities m = some (.account a) ∧ a.destroyed = true := by
    intro m ids hmem
    rw [htrace, List.mem_append, Option.mem_toList] at hmem
    rcases hmem with hnew | hold
    · exact Or.inr (created_destroys hgame hnew)
    · exact Or.inl hold
  refine ⟨hlogin, ?_, ?_⟩
  · intro m ids hmem
    rcases hcases hmem with hold | ⟨a, ha, -⟩
    · obtain ⟨k, hk⟩ := Option.isSome_iff_exists.mp (hinv.known hold)
      simp [hext.kind hk]
    · simp [Game.kind_account hlogin.memory ha]
  · intro m ids a' hmem ha'
    rcases hcases hmem with hold | ⟨a, ha, hdestroyed⟩
    · rcases Game.step_account hinv.login.memory hgame ha' with hnew | ⟨a, ha, hstays, -⟩
      · have hknown := hinv.known hold
        rw [hnew] at hknown
        cases hknown
      · exact hstays (hinv.destroyed hold ha)
    · rw [ha] at ha'
      cases ha'
      exact hdestroyed

theorem Inv.init (entityId : Address → Nat) : Inv (Logged.init entityId) :=
  ⟨Game.LoginInv.init entityId, fun h => absurd h List.not_mem_nil, fun h => absurd h List.not_mem_nil⟩

/-- A trace stays guarded exactly through steps in order. -/
theorem Inv.guarded_iff {cfg : Config} (hinv : Inv s) (h : s.step cfg l = some s') :
    Guarded AccountEvent.Allowed s'.trace ↔ s.InOrder l ∧ Guarded AccountEvent.Allowed s.trace := by
  rw [(step_eq h).2, ← hinv.allowed_iff]
  cases s.event l with
  | none => simp
  | some e => simp [Guarded]

theorem guarded_run_iff {cfg : Config} {labels : List GameLabel} (hinv : Inv s)
    (hrun : run (Logged.step cfg) s labels = some s') :
    Guarded AccountEvent.Allowed s'.trace ↔
      Along (Logged.step cfg) InOrder s labels ∧ Guarded AccountEvent.Allowed s.trace := by
  induction labels generalizing s with
  | nil =>
      cases hrun
      simp [Along]
  | cons l labels ih =>
      obtain ⟨s₁, hl, hrest⟩ := Option.bind_eq_some_iff.mp hrun
      rw [ih (hinv.step hl) hrest, hinv.guarded_iff hl]
      simp only [Along, hl, Option.some.injEq, forall_eq']
      tauto

end Logged

end Mowang
