import Mowang.Game.NormalRole

/-!
# `Game.Registry` — the account entry of a registered role

A role that is registered for its account either has the account entry of the stub, or one call of a
relay in flight that will bring the entry back to it: `register_account` turns the entry into an
`on_register_account`, and from there `on_relay_ready`, `on_wait_login`, `on_relay_login` and
`update_by_relay` hand it on. `held` counts both.

Two things break this: an `unregister_account` that erases the entry of a role, and a second role that is
registered for the account. From then on some registered role never has the entry when no call is in
flight.

## Contents
- `Call.carries`, `held`, and `Answers.carries`.
- `held_step`: what each step does to `held`.
- `Orderly`, `registry_agreement_iff`.
-/

namespace Mowang

/-- The call takes part in a relay to the role at `R`. -/
def Call.carries (R : Mailbox) : Call → Bool
  | .onRegisterAccount _ false old  => old = R
  | .onRelayReady target _          => target = R
  | .onWaitLogin _ m                => m = R
  | .onRelayLogin target (some _)   => target = R
  | .updateByRelay _ _ m            => m = R
  | _                               => false

namespace Game

variable {g g' : Game} {m R : Mailbox} {accountId roleId : Nat}

/-- The role at `R` is registered, for this account. -/
def RegisteredFor (g : Game) (R : Mailbox) (accountId : Nat) : Prop :=
  ∃ roleId, g.kind R = some (.role accountId roleId) ∧ g.roleToMailbox roleId = some R

def tokens (g : Game) (R : Mailbox) : Nat := g.inFlight (Call.carries R)

def entry (g : Game) (R : Mailbox) (accountId : Nat) : Nat :=
  if g.accountToMailbox accountId = some R then 1 else 0

/-- How often the role at `R` has the entry of its account, or is about to get it back. -/
def held (g : Game) (R : Mailbox) (accountId : Nat) : Nat := g.entry R accountId + g.tokens R

/-! ## Tokens -/

theorem tokens_append {posted : List Call} (h : g'.calls = g.calls ++ posted) :
    g'.tokens R = g.tokens R + posted.countP (Call.carries R) := inFlight_append h

/-- An answer hands on the token of the call. -/
theorem Answers.carries {c : Call} {posted : List Call} (hR : g.kind R = some (.role accountId roleId))
    (h : Answers g c posted) : posted.countP (Call.carries R) = if c.carries R then 1 else 0 := by
  cases h with
  | granted => rfl
  | askRelay target old this hthis => simp [Call.carries]
  | relayAccount target m htarget =>
      have hne : target ≠ R := by
        rintro rfl
        rw [htarget] at hR
        cases hR
      simp [Call.carries, hne]
  | relayRole target m htarget => simp [Call.carries]
  | waitLogin target m proxy => simp [Call.carries]
  | relayLoginAccount => rfl
  | relayLoginRole target proxy accountId roleId hkind => simp [Call.carries]
  | registered => rfl

/-- Only relays to registered roles are in flight. -/
theorem CallOk.not_carries {c : Call} (hok : g.CallOk c) (hR : g.kind R = some (.role accountId roleId))
    (hrole : g.roleToMailbox roleId ≠ some R) : c.carries R = false := by
  have haccount : g.kind R ≠ some .account := by simp [hR]
  -- who is not in the table of roles is not registered, and only the registered are carried
  have hregistered : ¬ g.Registered R := by
    rintro ⟨accountId', roleId', hkind, hmailbox⟩
    rw [hR] at hkind
    cases hkind
    exact hrole hmailbox
  cases c with
  | registerAccount => rfl
  | unregisterAccount => rfl
  | registerRole => rfl
  | unregisterRole => rfl
  | updateByRelay accountId' roleId' m =>
      simp only [Call.carries, decide_eq_false_iff_not]
      rintro rfl
      exact hregistered ⟨_, _, hok⟩
  | onRegisterAccount target status old =>
      cases status with
      | true => rfl
      | false =>
          simp only [Call.carries, decide_eq_false_iff_not]
          rintro rfl
          exact (hok.2 rfl).elim haccount hregistered
  | onRelayReady target m =>
      simp only [Call.carries, decide_eq_false_iff_not]
      rintro rfl
      exact hok.1.elim haccount hregistered
  | onWaitLogin target m =>
      simp only [Call.carries, decide_eq_false_iff_not]
      rintro rfl
      exact hregistered hok.2
  | onRelayLogin target proxy =>
      cases proxy with
      | none => rfl
      | some proxy =>
          simp only [Call.carries, decide_eq_false_iff_not]
          rintro rfl
          exact hregistered hok
  | onRegisterRole => rfl
  | kickRole => rfl

theorem Posts.carries {created : Option Mailbox} {posted : List Call} (h : Posts g g' created posted) :
    posted.countP (Call.carries R) = 0 := by
  cases h <;> rfl

/-! ## `held` -/

/-- The call takes the entry of the account away from the role at `R`, other than for a relay. -/
def Displaces (g : Game) (R : Mailbox) (accountId : Nat) : Call → Prop
  | .unregisterAccount accountId'       => accountId' = accountId
  | .registerRole accountId' roleId _   => accountId' = accountId ∧ RollStub.Accepts g accountId' roleId
  | .updateByRelay accountId' _ m       => accountId' = accountId ∧ m ≠ R
  | _                                   => False

/-- Whoever else gets the entry of `accountId'`, nothing changes for `R` if it did not have it. -/
theorem entry_update {accountId' : Nat} {entry' : Option Mailbox} (hne : entry' ≠ some R)
    (hkeep : g.accountToMailbox accountId = some R → accountId' ≠ accountId)
    (h : g'.accountToMailbox = Function.update g.accountToMailbox accountId' entry') :
    g'.entry R accountId = g.entry R accountId := by
  unfold entry
  rw [h]
  by_cases heq : accountId = accountId'
  · subst heq
    have hold : g.accountToMailbox accountId ≠ some R := fun hold => hkeep hold rfl
    rw [Function.update_self, if_neg hne, if_neg hold]
  · rw [Function.update_of_ne heq]

theorem RegisteredFor.entry_account {accountId' : Nat} (hinv : LoginInv g) (hR : g.RegisteredFor R accountId)
    (hentry : g.accountToMailbox accountId' = some R) : accountId' = accountId := by
  obtain ⟨roleId, hkind, -⟩ := hR
  rcases hinv.accountToMailbox hentry with haccount | ⟨roleId', hrole, -⟩
  · rw [hkind] at haccount
    cases haccount
  · rw [hkind] at hrole
    cases hrole
    rfl

/-- A new login of the account takes the entry, and its answer carries it. -/
theorem held_registerAccount {accountId' : Nat} (hinv : LoginInv g) (hm : g.kind m = some .account)
    (hR : g.RegisteredFor R accountId) :
    (RollStub.registerAccount g accountId' m).held R accountId = g.held R accountId := by
  have hne : m ≠ R := by
    rintro rfl
    obtain ⟨roleId, hkind, -⟩ := hR
    rw [hm] at hkind
    cases hkind
  have hentry : ∀ {a}, g.accountToMailbox a = some R → a = accountId := hR.entry_account hinv
  by_cases hold : g.accountToMailbox accountId' = some R
  · obtain rfl := hentry hold
    simp [held, entry, tokens, inFlight, RollStub.registerAccount, call, hold, hne, Call.carries, Nat.add_comm]
  · have hsame : (RollStub.registerAccount g accountId' m).entry R accountId = g.entry R accountId := by
      apply entry_update (by simpa using hne) _ rfl
      rintro hentry rfl
      exact hold hentry
    unfold held
    rw [hsame, tokens_append rfl]
    cases hnone : g.accountToMailbox accountId' with
    | none => simp [Call.carries]
    | some old =>
        have hne' : old ≠ R := by
          rintro rfl
          exact hold hnone
        simp [Call.carries, hne']

theorem held_unregisterAccount {accountId' : Nat}
    (hkeep : g.accountToMailbox accountId = some R → accountId' ≠ accountId) :
    (RollStub.unregisterAccount g accountId').held R accountId = g.held R accountId := by
  have hsame : (RollStub.unregisterAccount g accountId').entry R accountId = g.entry R accountId :=
    entry_update (by simp) hkeep rfl
  unfold held
  rw [hsame]
  rfl

theorem held_registerRole {accountId' roleId : Nat} (hm : g.kind m = some (.role accountId' roleId))
    (hR : g.RegisteredFor R accountId)
    (hkeep : g.accountToMailbox accountId = some R → ¬ (accountId' = accountId ∧ RollStub.Accepts g accountId' roleId)) :
    (RollStub.registerRole g accountId' roleId m).held R accountId = g.held R accountId := by
  unfold RollStub.registerRole
  split
  · rename_i haccepts
    have hne : m ≠ R := by
      rintro rfl
      obtain ⟨roleId', hkind, hrole⟩ := hR
      rw [hm] at hkind
      cases hkind
      rw [haccepts.2] at hrole
      cases hrole
    unfold held
    rw [entry_update (by simpa using hne) (fun hentry heq => hkeep hentry ⟨heq, haccepts⟩) rfl, tokens_append rfl]
    simp [Call.carries]
  · unfold held
    rw [tokens_append rfl]
    rfl

/-- The end of a relay: the entry is back. -/
theorem held_updateByRelay {accountId' roleId : Nat}
    (hm : g.kind m = some (.role accountId' roleId)) (hrole : g.roleToMailbox roleId = some m)
    (hR : g.RegisteredFor R accountId) (hle : g.held R accountId + (if m = R then 1 else 0) ≤ 1)
    (hkeep : g.accountToMailbox accountId = some R → ¬ (accountId' = accountId ∧ m ≠ R)) :
    (RollStub.updateByRelay g accountId' roleId m).held R accountId =
      g.held R accountId + if m = R then 1 else 0 := by
  rw [LoginInv.updateByRelay_eq hrole]
  by_cases hmR : m = R
  · subst hmR
    obtain ⟨roleId', hkind, -⟩ := hR
    rw [hm] at hkind
    cases hkind
    rw [if_pos rfl] at hle ⊢
    have hzero : g.held m accountId = 0 := by omega
    have htokens : g.tokens m = 0 := (Nat.add_eq_zero_iff.mp hzero).2
    rw [hzero]
    show (if Function.update g.accountToMailbox accountId (some m) accountId = some m then 1 else 0) + g.tokens m = 1
    rw [htokens, Function.update_self, if_pos rfl]
  · have hsame : ({ g with accountToMailbox := Function.update g.accountToMailbox accountId' (some m) } : Game).entry
        R accountId = g.entry R accountId :=
      entry_update (by simpa using hmR) (fun hentry heq => hkeep hentry ⟨heq, hmR⟩) rfl
    unfold held
    rw [hsame, if_neg hmR]
    rfl

theorem Evolves.held {admitted : Mailbox → Prop} {created : Option Mailbox} {posted : List Call}
    (h : Evolves admitted created g g' posted) :
    g'.held R accountId = g.held R accountId + posted.countP (Call.carries R) := by
  unfold Game.held Game.entry
  rw [h.accountToMailbox, tokens_append h.calls, Nat.add_assoc]

/-- A registered role keeps what it holds while nothing displaces it. -/
theorem held_delivered {c : Call} (hinv : LoginInv g) (hok : g.CallOk c) (h : Delivered g c g')
    (hR : g.RegisteredFor R accountId) (hle : g.held R accountId + (if c.carries R then 1 else 0) ≤ 1)
    (hkeep : g.accountToMailbox accountId = some R → ¬ g.Displaces R accountId c) :
    g'.held R accountId = g.held R accountId + if c.carries R then 1 else 0 := by
  cases h with
  | registerAccount accountId' m => exact held_registerAccount hinv hok hR
  | unregisterAccount accountId' => exact held_unregisterAccount hkeep
  | registerRole accountId' roleId m => exact held_registerRole hok hR hkeep
  | updateByRelay accountId' roleId m =>
      simp only [Call.carries, decide_eq_true_eq] at hle ⊢
      exact held_updateByRelay hok.1 hok.2 hR hle hkeep
  | entity _ _ posted hevolves hanswers =>
      obtain ⟨roleId, hkind, -⟩ := hR
      rw [hevolves.held, hanswers.carries hkind]

theorem held_takeCall {i : Nat} {c : Call} (hc : g.calls[i]? = some c) :
    g.held R accountId = (g.takeCall i).held R accountId + if c.carries R then 1 else 0 := by
  unfold held tokens
  rw [inFlight_takeCall hc, Nat.add_assoc]
  rfl

theorem held_step {cfg : Config} {l : GameLabel} (hinv : LoginInv g) (hstep : g.step cfg l = some g')
    (hR : g.RegisteredFor R accountId) (hle : g.held R accountId ≤ 1)
    (hkeep : g.accountToMailbox accountId = some R → ∀ i c, l = .deliver i → g.calls[i]? = some c →
      ¬ g.Displaces R accountId c) : g'.held R accountId = g.held R accountId := by
  rcases step_cases hinv.memory hinv.calls hstep with ⟨created, posted, hevolves, hposts⟩ | ⟨i, c, hl, hc, hdelivered⟩
  · rw [hevolves.held, hposts.carries, Nat.add_zero]
  · rw [held_takeCall hc] at hle ⊢
    apply held_delivered (hinv.takeCall i) (hinv.calls c (List.mem_of_getElem? hc)) hdelivered hR hle
    intro hentry
    exact hkeep hentry i c hl hc

/-! ## `Orderly` -/

/-- No `unregister_account` reaches the entry of a role, and no second role is registered for an
    account. -/
def Orderly (g : Game) (l : GameLabel) : Prop :=
  ∀ i c, l = .deliver i → g.calls[i]? = some c →
    (∀ accountId m, c = .unregisterAccount accountId → g.accountToMailbox accountId = some m →
      g.kind m = some .account) ∧
    ∀ accountId roleId m R, c = .registerRole accountId roleId m → RollStub.Accepts g accountId roleId →
      ¬ g.RegisteredFor R accountId

/-- The invariant of a run whose steps are orderly. -/
structure RegistryInv (g : Game) : Prop where
  login : LoginInv g
  held : ∀ {R accountId}, g.RegisteredFor R accountId → g.held R accountId = 1
  unique : ∀ {R R' accountId}, g.RegisteredFor R accountId → g.RegisteredFor R' accountId → R' = R

/-- Some registered role has lost its entry for good, or some account has two registered roles. -/
def Disagrees (g : Game) : Prop :=
  (∃ R accountId, g.RegisteredFor R accountId ∧ g.held R accountId = 0) ∨
    ∃ R R' accountId, g.RegisteredFor R accountId ∧ g.RegisteredFor R' accountId ∧ R' ≠ R

theorem Extends.registeredFor (h : Extends g g') (hR : g.RegisteredFor R accountId) :
    g'.RegisteredFor R accountId := by
  obtain ⟨roleId, hkind, hrole⟩ := hR
  exact ⟨roleId, h.kind hkind, h.roleToMailbox hrole⟩

theorem RegisteredFor.of_extends (hinv : LoginInv g) (hext : Extends g g')
    (hkind : g'.kind R = some (.role accountId roleId)) (hrole : g.roleToMailbox roleId = some R) :
    g.RegisteredFor R accountId := by
  obtain ⟨accountId', hkind'⟩ := hinv.roleToMailbox hrole
  have hsame := hext.kind hkind'
  rw [hkind] at hsame
  cases hsame
  exact ⟨roleId, hkind', hrole⟩

/-- A role is registered by an accepted `register_role`, or was registered before. -/
theorem registeredFor_delivered {c : Call} (hinv : LoginInv g) (hok : g.CallOk c) (h : Delivered g c g')
    (hR : g'.RegisteredFor R accountId) : g.RegisteredFor R accountId ∨
      ∃ roleId, c = .registerRole accountId roleId R ∧ RollStub.Accepts g accountId roleId ∧
        g' = RollStub.registerRole g accountId roleId R := by
  have hext := extends_delivered hinv hok h
  obtain ⟨roleId, hkind, hrole⟩ := hR
  cases h with
  | registerAccount accountId' m => exact Or.inl (.of_extends hinv hext hkind hrole)
  | unregisterAccount accountId' => exact Or.inl (.of_extends hinv hext hkind hrole)
  | registerRole accountId' roleId' m =>
      by_cases haccepts : RollStub.Accepts g accountId' roleId'
      · simp only [RollStub.registerRole, if_pos haccepts] at hrole
        by_cases heq : roleId = roleId'
        · subst heq
          simp only [Function.update_self, Option.some.injEq] at hrole
          subst hrole
          have hsame := hext.kind hok
          rw [hkind] at hsame
          cases hsame
          exact Or.inr ⟨roleId, rfl, haccepts, rfl⟩
        · rw [Function.update_of_ne heq] at hrole
          exact Or.inl (.of_extends hinv hext hkind hrole)
      · simp only [RollStub.registerRole, if_neg haccepts] at hrole
        exact Or.inl (.of_extends hinv hext hkind hrole)
  | updateByRelay accountId' roleId' m =>
      rw [LoginInv.updateByRelay_eq hok.2] at hrole
      exact Or.inl (.of_extends hinv hext hkind hrole)
  | entity _ _ posted hevolves hanswers =>
      rw [hevolves.roleToMailbox] at hrole
      exact Or.inl (.of_extends hinv hext hkind hrole)

theorem registeredFor_step {cfg : Config} {l : GameLabel} (hinv : LoginInv g) (h : g.step cfg l = some g')
    (hR : g'.RegisteredFor R accountId) : g.RegisteredFor R accountId ∨
      ∃ i roleId, l = .deliver i ∧ g.calls[i]? = some (.registerRole accountId roleId R) ∧
        RollStub.Accepts g accountId roleId ∧
        g' = RollStub.registerRole (g.takeCall i) accountId roleId R := by
  rcases step_cases hinv.memory hinv.calls h with ⟨created, posted, hevolves, hposts⟩ | ⟨i, c, hl, hc, hdelivered⟩
  · obtain ⟨roleId, hkind, hrole⟩ := hR
    rw [hevolves.roleToMailbox] at hrole
    exact Or.inl (.of_extends hinv (hevolves.extends hinv.memory) hkind hrole)
  · rcases registeredFor_delivered (hinv.takeCall i) (hinv.calls c (List.mem_of_getElem? hc)) hdelivered hR with
      hold | ⟨roleId, rfl, haccepts, heq⟩
    · exact Or.inl hold
    · exact Or.inr ⟨i, roleId, hl, hc, haccepts, heq⟩

/-- The role that `register_role` accepts gets the entry, and no relay to it is in flight. -/
theorem held_accepted (hinv : LoginInv g) (hm : g.kind m = some (.role accountId roleId))
    (haccepts : RollStub.Accepts g accountId roleId) :
    (RollStub.registerRole g accountId roleId m).held m accountId = 1 := by
  have htokens : g.tokens m = 0 := by
    apply List.countP_eq_zero.mpr
    intro c hc
    rw [(hinv.calls c hc).not_carries hm (by simp [haccepts.2])]
    simp
  unfold RollStub.registerRole
  rw [if_pos haccepts]
  unfold held entry
  rw [tokens_append rfl]
  show (if Function.update g.accountToMailbox accountId (some m) accountId = some m then 1 else 0) +
    (g.tokens m + 0) = 1
  rw [htokens, Function.update_self, if_pos rfl]

namespace RegistryInv

theorem init (entityId : Address → Nat) : RegistryInv (Game.init entityId) := by
  have hnone : ∀ {R accountId}, ¬ (Game.init entityId).RegisteredFor R accountId := by
    rintro R accountId ⟨roleId, -, hrole⟩
    cases hrole
  exact ⟨LoginInv.init entityId, fun hR => (hnone hR).elim, fun hR => (hnone hR).elim⟩

/-- An orderly step displaces no registered role. -/
theorem not_displaces {l : GameLabel} (hinv : RegistryInv g) (hP : Orderly g l) (hR : g.RegisteredFor R accountId)
    (hentry : g.accountToMailbox accountId = some R) {i : Nat} {c : Call} (hl : l = .deliver i)
    (hc : g.calls[i]? = some c) : ¬ g.Displaces R accountId c := by
  intro hdisplaces
  obtain ⟨hunregister, hregister⟩ := hP i c hl hc
  have hok := hinv.login.calls c (List.mem_of_getElem? hc)
  cases c with
  | unregisterAccount accountId' =>
      obtain rfl : accountId' = accountId := hdisplaces
      have haccount := hunregister accountId' R rfl hentry
      obtain ⟨roleId, hkind, -⟩ := hR
      rw [hkind] at haccount
      cases haccount
  | registerRole accountId' roleId m =>
      obtain ⟨rfl, haccepts⟩ := hdisplaces
      exact hregister accountId' roleId m R rfl haccepts hR
  | updateByRelay accountId' roleId m =>
      obtain ⟨rfl, hne⟩ := hdisplaces
      exact hne (hinv.unique hR ⟨roleId, hok⟩)
  | _ => exact hdisplaces

theorem step {cfg : Config} {l : GameLabel} (hinv : RegistryInv g) (hP : Orderly g l)
    (h : g.step cfg l = some g') : RegistryInv g' := by
  have hkept : ∀ {R accountId}, g.RegisteredFor R accountId → g'.held R accountId = 1 := by
    intro R accountId hR
    rw [held_step hinv.login h hR (Nat.le_of_eq (hinv.held hR)), hinv.held hR]
    intro hentry i c hl hc
    exact hinv.not_displaces hP hR hentry hl hc
  refine ⟨hinv.login.step h, ?_, ?_⟩
  · intro R accountId hR
    rcases registeredFor_step hinv.login h hR with hold | ⟨i, roleId, hl, hc, haccepts, rfl⟩
    · exact hkept hold
    · exact held_accepted (hinv.login.takeCall i) (hinv.login.calls _ (List.mem_of_getElem? hc)) haccepts
  · -- a role that is registered now is alone: its account had no registered role
    intro R R' accountId hR hR'
    rcases registeredFor_step hinv.login h hR with hold | ⟨i, roleId, hl, hc, haccepts, hg'⟩
    · rcases registeredFor_step hinv.login h hR' with hold' | ⟨i, roleId, hl, hc, haccepts, -⟩
      · exact hinv.unique hold hold'
      · exact absurd hold ((hP i _ hl hc).2 accountId roleId R' R rfl haccepts)
    · rcases registeredFor_step hinv.login h hR' with hold' | ⟨i', roleId', hl', hc', -, -⟩
      · exact absurd hold' ((hP i _ hl hc).2 accountId roleId R R' rfl haccepts)
      · rw [hl] at hl'
        cases hl'
        rw [hc] at hc'
        cases hc'
        rfl

/-- A step that is not orderly leaves the two maps in disagreement. -/
theorem disagrees {cfg : Config} {l : GameLabel} (hinv : RegistryInv g) (hP : ¬ Orderly g l)
    (h : g.step cfg l = some g') : Disagrees g' := by
  unfold Orderly at hP
  push Not at hP
  obtain ⟨i, c, rfl, hc, hP⟩ := hP
  have hhandle : (g.takeCall i).handle c = some g' := by
    simpa [Game.step, hc] using h
  have hext := extends_step hinv.login h
  by_cases hunregister : ∀ accountId m, c = .unregisterAccount accountId → g.accountToMailbox accountId = some m →
      g.kind m = some .account
  · right
    obtain ⟨accountId, roleId, m, R, rfl, haccepts, hR⟩ := hP hunregister
    have hm : g.kind m = some (.role accountId roleId) := hinv.login.calls _ (List.mem_of_getElem? hc)
    refine ⟨R, m, accountId, hext.registeredFor hR, ⟨roleId, hext.kind hm, ?_⟩, ?_⟩
    · cases hhandle
      have haccepts' : RollStub.Accepts (g.takeCall i) accountId roleId := haccepts
      simp [RollStub.registerRole, haccepts']
    · rintro rfl
      obtain ⟨roleId', hkind, hrole⟩ := hR
      rw [hm] at hkind
      cases hkind
      rw [haccepts.2] at hrole
      cases hrole
  · left
    push Not at hunregister
    obtain ⟨accountId, R, rfl, hentry, hkind⟩ := hunregister
    have hR : g.RegisteredFor R accountId := (hinv.login.accountToMailbox hentry).resolve_left hkind
    refine ⟨R, accountId, hext.registeredFor hR, ?_⟩
    have hone := hinv.held hR
    rw [held_takeCall hc] at hone
    cases hhandle
    have htokens : (g.takeCall i).tokens R = 0 := by
      have hentry' : (g.takeCall i).entry R accountId = 1 := if_pos hentry
      unfold Game.held at hone
      omega
    show (if Function.update g.accountToMailbox accountId none accountId = some R then 1 else 0) +
      (g.takeCall i).tokens R = 0
    rw [htokens, Function.update_self, if_neg (by simp)]

end RegistryInv

/-- Nothing repairs a disagreement. -/
theorem Disagrees.step {cfg : Config} {l : GameLabel} (hinv : LoginInv g) (hbad : Disagrees g)
    (h : g.step cfg l = some g') : Disagrees g' := by
  have hext := extends_step hinv h
  rcases hbad with ⟨R, accountId, hR, hzero⟩ | ⟨R, R', accountId, hR, hR', hne⟩
  · left
    refine ⟨R, accountId, hext.registeredFor hR, ?_⟩
    rw [held_step hinv h hR (by omega), hzero]
    intro hentry
    unfold held at hzero
    rw [show g.entry R accountId = 1 from if_pos hentry] at hzero
    omega
  · exact Or.inr ⟨R, R', accountId, hext.registeredFor hR, hext.registeredFor hR', hne⟩

/-- What `m_role_2_mailbox` says of a role, `m_account_2_mailbox` says of its account. -/
def Agreement (g : Game) : Prop :=
  ∀ roleId R, g.roleToMailbox roleId = some R →
    ∃ r, g.entities R = some (.role r) ∧ g.accountToMailbox r.data.accountId = some R

theorem RegistryInv.agreement (hinv : RegistryInv g) (hcalls : g.calls = []) : Agreement g := by
  intro roleId R hrole
  obtain ⟨accountId, hkind⟩ := hinv.login.roleToMailbox hrole
  obtain ⟨r, hr, rfl, rfl⟩ := kind_eq_role hkind
  refine ⟨r, hr, ?_⟩
  have hone := hinv.held ⟨_, hkind, hrole⟩
  unfold Game.held tokens inFlight entry at hone
  rw [hcalls] at hone
  by_contra hne
  rw [if_neg hne] at hone
  cases hone

theorem Agreement.not_disagrees (h : Agreement g) : ¬ Disagrees g := by
  have hentry : ∀ {R accountId}, g.RegisteredFor R accountId → g.accountToMailbox accountId = some R := by
    rintro R accountId ⟨roleId, hkind, hrole⟩
    obtain ⟨r, hr, haccount⟩ := h roleId R hrole
    rw [kind_role hr] at hkind
    cases hkind
    exact haccount
  rintro (⟨R, accountId, hR, hzero⟩ | ⟨R, R', accountId, hR, hR', hne⟩)
  · unfold held at hzero
    rw [show g.entry R accountId = 1 from if_pos (hentry hR)] at hzero
    omega
  · have hsame := hentry hR
    rw [hentry hR'] at hsame
    exact hne (Option.some.inj hsame)

/-- **Agreement at quiescence.** After a run that leaves no call in flight the two maps agree if and only
    if every step of the run was orderly. -/
theorem registry_agreement_iff {cfg : Config} {entityId : Address → Nat} {labels : List GameLabel} {g : Game}
    (hrun : run (Game.step cfg) (Game.init entityId) labels = some g) (hcalls : g.calls = []) :
    Along (Game.step cfg) Orderly (Game.init entityId) labels ↔ Agreement g := by
  constructor
  · intro hP
    have hinv : RegistryInv g :=
      run_invariant_along (fun hI hPl hl => hI.step hPl hl) (RegistryInv.init entityId) hP hrun
    exact hinv.agreement hcalls
  · intro hagree
    apply along_of_not_bad (I := RegistryInv) (B := fun g => LoginInv g ∧ Disagrees g) _ _ _
      (RegistryInv.init entityId) hrun
    · rintro ⟨-, hbad⟩
      exact hagree.not_disagrees hbad
    · intro g l g' hI hP hl
      exact hI.step hP hl
    · intro g l g' hI hP hl
      exact ⟨hI.login.step hl, hI.disagrees hP hl⟩
    · rintro g l g' ⟨hI, hbad⟩ hl
      exact ⟨hI.step hl, hbad.step hI hl⟩

theorem registry_agreement_login :
    Along (Game.step oneBuilding) Orderly (Game.init fun _ => 0) loginRun := by
  have hrun : (run (Game.step oneBuilding) (Game.init fun _ => 0) loginRun).map
      (fun g => (g.calls, g.accountToMailbox 1, g.entities ⟨gameOne, 2⟩)) =
      some ([], some ⟨gameOne, 2⟩, some (.role loginRole)) := by decide
  have hroles : (run (Game.step oneBuilding) (Game.init fun _ => 0) loginRun).map (fun g => g.roleToMailbox) =
      some (Function.update (fun _ => none) 1 (some ⟨gameOne, 2⟩)) := rfl
  obtain ⟨g, hg, hmaps⟩ := Option.map_eq_some_iff.mp hrun
  simp only [Prod.mk.injEq] at hmaps
  obtain ⟨hcalls, haccount, hentity⟩ := hmaps
  rw [hg, Option.map_some, Option.some.injEq] at hroles
  apply (registry_agreement_iff hg hcalls).2
  intro roleId R hrole
  rw [hroles] at hrole
  by_cases hid : roleId = 1
  · subst hid
    cases hrole
    exact ⟨loginRole, hentity, haccount⟩
  · simp [hid] at hrole

/-- After `loginRun` client 2 logs in to the account through the other process. It disconnects while the role is asked to
    hand over, and its `unregister_account` is overtaken by the calls of the relay. -/
def lateUnregisterRun : List GameLabel :=
  loginRun ++ [.client gameTwo 2 0 (.login 0 0 0), .dbReply 0 (.account true (some (1, 1))), .deliver 0, .deliver 0,
    .client gameTwo 2 0 .disconnectClient, .deliver 0, .deliver 1, .deliver 1, .deliver 1, .deliver 0]

/-- The role at the end of it, with the client that is gone. -/
def relayedRole : Role := { loginRole with proxy := ⟨0, 2⟩ }

/-- The account that is gone unregisters the one that the role was relayed to. -/
theorem registry_disagrees_lateUnregister :
    ¬ ∀ labels g, run (Game.step oneBuilding) (Game.init fun _ => 0) labels = some g →
      g.calls = [] → g.dbOps = [] → Agreement g := by
  intro h
  have hrun : (run (Game.step oneBuilding) (Game.init fun _ => 0) lateUnregisterRun).map
      (fun g => (g.calls, g.dbOps, g.roleToMailbox 1, g.accountToMailbox 1)) =
      some ([], [], some ⟨gameOne, 2⟩, none) := by decide
  have hrole : ((run (Game.step oneBuilding) (Game.init fun _ => 0) lateUnregisterRun).bind
      fun g => g.entities ⟨gameOne, 2⟩) = some (.role relayedRole) := by decide
  obtain ⟨g, hg, hmaps⟩ := Option.map_eq_some_iff.mp hrun
  simp only [Prod.mk.injEq] at hmaps
  obtain ⟨hcalls, hdbOps, hmailbox, haccount⟩ := hmaps
  rw [hg, Option.bind_some] at hrole
  obtain ⟨r, hr, hentry⟩ := h lateUnregisterRun g hg hcalls hdbOps 1 _ hmailbox
  rw [hrole] at hr
  cases hr
  rw [show relayedRole.data.accountId = 1 from rfl, haccount] at hentry
  cases hentry

end Game

end Mowang
