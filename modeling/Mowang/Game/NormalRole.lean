import Mowang.Game.LoginSteps

/-!
# `Game.NormalRole` — at most one role of an id is normal

`LoginInv` describes the two maps of the stub and every call in flight. An account entry is an account,
perhaps destroyed, or the role registered for that account; a role entry is a role of that id and is
never replaced. A call that makes a role normal goes to a registered role, so a normal role is
registered, and one id has one registered role.

## Contents
- `Extends`, `CallOk.mono`.
- `LoginInv`, what keeps it, and `extends_step`.
- `normal_role_unique`.
-/

namespace Mowang

namespace Game

variable {g g' : Game} {m : Mailbox}

/-- Mailboxes keep their kinds and roles stay registered. -/
structure Extends (g g' : Game) : Prop where
  kind : ∀ {m k}, g.kind m = some k → g'.kind m = some k
  roleToMailbox : ∀ {roleId m}, g.roleToMailbox roleId = some m → g'.roleToMailbox roleId = some m

theorem Extends.registered (h : Extends g g') (hm : g.Registered m) : g'.Registered m := by
  obtain ⟨accountId, roleId, hkind, hrole⟩ := hm
  exact ⟨accountId, roleId, h.kind hkind, h.roleToMailbox hrole⟩

theorem CallOk.mono {c : Call} (h : Extends g g') (hok : g.CallOk c) : g'.CallOk c := by
  cases c with
  | registerAccount => exact h.kind hok
  | unregisterAccount => trivial
  | registerRole => exact h.kind hok
  | unregisterRole => exact hok
  | updateByRelay => exact ⟨h.kind hok.1, h.roleToMailbox hok.2⟩
  | onRegisterAccount target status old =>
      refine ⟨h.kind hok.1, ?_⟩
      intro hstatus
      exact (hok.2 hstatus).imp h.kind h.registered
  | onRelayReady => exact ⟨hok.1.imp h.kind h.registered, h.kind hok.2⟩
  | onWaitLogin => exact ⟨h.kind hok.1, h.registered hok.2⟩
  | onRelayLogin target proxy =>
      cases proxy with
      | none => exact h.kind hok
      | some proxy => exact h.registered hok
  | onRegisterRole =>
      intro hstatus
      exact h.registered (hok hstatus)
  | kickRole => exact hok

theorem Evolves.extends {admitted : Mailbox → Prop} {created : Option Mailbox} {posted : List Call} (hm : Memory g)
    (h : Evolves admitted created g g' posted) : Extends g g' where
  kind := by
    intro m k hk
    rw [h.kind (bound_of_kind hm (by simp [hk])), hk]
  roleToMailbox := by
    intro roleId m hrole
    rw [h.roleToMailbox, hrole]

/-- The invariant of the login protocol. -/
structure LoginInv (g : Game) : Prop where
  memory : Memory g
  accountToMailbox : ∀ {accountId m}, g.accountToMailbox accountId = some m →
    g.kind m = some .account ∨ ∃ roleId, g.kind m = some (.role accountId roleId) ∧ g.roleToMailbox roleId = some m
  roleToMailbox : ∀ {roleId m}, g.roleToMailbox roleId = some m →
    ∃ accountId, g.kind m = some (.role accountId roleId)
  normal : ∀ {m}, g.Normal m → g.Registered m
  calls : ∀ c ∈ g.calls, g.CallOk c

namespace LoginInv

theorem init (entityId : Address → Nat) : LoginInv (Game.init entityId) := by
  refine ⟨⟨?_, ?_, ?_, ?_, ?_⟩, ?_, ?_, ?_, ?_⟩
  · simp [Game.init]
  · simp [Game.init]
  · simp [Game.init]
  · simp [Game.init]
  · simp [Game.init]
  · simp [Game.init]
  · simp [Game.init]
  · rintro m ⟨r, hr, -⟩
    cases hr
  · simp [Game.init]

/-- Entities change as the invariant allows when the roles made normal are registered and the calls
    posted are in order. -/
theorem evolves {admitted : Mailbox → Prop} {created : Option Mailbox} {posted : List Call} (hinv : LoginInv g)
    (h : Evolves admitted created g g' posted) (hadmitted : ∀ m, admitted m → g.Registered m)
    (hposted : ∀ c ∈ posted, g'.CallOk c) : LoginInv g' := by
  have hext := h.extends hinv.memory
  refine ⟨h.memory, ?_, ?_, ?_, ?_⟩
  · intro accountId m hm
    rw [h.accountToMailbox] at hm
    rcases hinv.accountToMailbox hm with hkind | ⟨roleId, hkind, hrole⟩
    · exact Or.inl (hext.kind hkind)
    · exact Or.inr ⟨roleId, hext.kind hkind, hext.roleToMailbox hrole⟩
  · intro roleId m hm
    rw [h.roleToMailbox] at hm
    obtain ⟨accountId, hkind⟩ := hinv.roleToMailbox hm
    exact ⟨accountId, hext.kind hkind⟩
  · intro m hnormal
    apply hext.registered
    rcases h.normal hnormal with hold | hnew
    · exact hinv.normal hold
    · exact hadmitted m hnew
  · intro c hc
    rw [h.calls, List.mem_append] at hc
    rcases hc with hc | hc
    · exact (hinv.calls c hc).mono hext
    · exact hposted c hc

theorem takeCall (hinv : LoginInv g) (i : Nat) : LoginInv (g.takeCall i) where
  memory := ⟨hinv.memory.bound, hinv.memory.role, hinv.memory.account, hinv.memory.occupant, hinv.memory.destroyed⟩
  accountToMailbox := hinv.accountToMailbox
  roleToMailbox := hinv.roleToMailbox
  normal := hinv.normal
  calls c hc := hinv.calls c (List.mem_of_mem_eraseIdx hc)

/-- The stub changes its maps and answers. -/
theorem stub {accounts roles : Nat → Option Mailbox} {posted : List Call} {refused : List Mailbox}
    (hinv : LoginInv g)
    (hkept : ∀ {roleId m}, g.roleToMailbox roleId = some m → roles roleId = some m)
    (haccounts : ∀ {accountId m}, accounts accountId = some m → g.accountToMailbox accountId = some m ∨
      g.kind m = some .account ∨ ∃ roleId, g.kind m = some (.role accountId roleId) ∧ roles roleId = some m)
    (hroles : ∀ {roleId m}, roles roleId = some m → ∃ accountId, g.kind m = some (.role accountId roleId))
    (hposted : ∀ c ∈ posted, CallOk { g with roleToMailbox := roles } c) :
    LoginInv { g with accountToMailbox := accounts, roleToMailbox := roles, refused := refused,
                      calls := g.calls ++ posted } := by
  have hext : Extends g { g with accountToMailbox := accounts, roleToMailbox := roles, refused := refused,
                                 calls := g.calls ++ posted } := ⟨id, hkept⟩
  refine ⟨⟨hinv.memory.bound, hinv.memory.role, hinv.memory.account, hinv.memory.occupant, hinv.memory.destroyed⟩,
    ?_, hroles, ?_, ?_⟩
  · intro accountId m hm
    rcases haccounts hm with hm | hm
    · rcases hinv.accountToMailbox hm with hkind | ⟨roleId, hkind, hrole⟩
      · exact Or.inl hkind
      · exact Or.inr ⟨roleId, hkind, hkept hrole⟩
    · exact hm
  · intro m hnormal
    exact hext.registered (hinv.normal hnormal)
  · intro c hc
    rw [List.mem_append] at hc
    rcases hc with hc | hc
    · exact (hinv.calls c hc).mono hext
    · exact (hposted c hc).mono ⟨id, id⟩

theorem registerAccount {accountId : Nat} (hinv : LoginInv g) (hm : g.kind m = some .account) :
    LoginInv (RollStub.registerAccount g accountId m) := by
  apply hinv.stub id
  · intro accountId' m' hm'
    by_cases heq : accountId' = accountId
    · subst heq
      simp only [Function.update_self, Option.some.injEq] at hm'
      subst hm'
      exact Or.inr (Or.inl hm)
    · simp only [Function.update_of_ne heq] at hm'
      exact Or.inl hm'
  · exact hinv.roleToMailbox
  · intro c hc
    rw [List.mem_singleton] at hc
    subst hc
    split
    · exact ⟨hm, by simp⟩
    · rename_i old hold
      refine ⟨hm, fun _ => ?_⟩
      rcases hinv.accountToMailbox hold with hkind | ⟨roleId, hkind, hrole⟩
      · exact Or.inl hkind
      · exact Or.inr ⟨_, _, hkind, hrole⟩

theorem unregisterAccount (hinv : LoginInv g) (accountId : Nat) :
    LoginInv (RollStub.unregisterAccount g accountId) := by
  rw [show RollStub.unregisterAccount g accountId =
    { g with accountToMailbox := Function.update g.accountToMailbox accountId none, calls := g.calls ++ [] } by
      simp [RollStub.unregisterAccount]]
  apply hinv.stub id
  · intro accountId' m' hm'
    by_cases heq : accountId' = accountId
    · subst heq
      simp at hm'
    · simp only [Function.update_of_ne heq] at hm'
      exact Or.inl hm'
  · exact hinv.roleToMailbox
  · simp

theorem registerRole {accountId roleId : Nat} (hinv : LoginInv g)
    (hm : g.kind m = some (.role accountId roleId)) :
    LoginInv (RollStub.registerRole g accountId roleId m) := by
  unfold RollStub.registerRole
  split
  · rename_i haccepts
    have hroles : ∀ {roleId' m'}, Function.update g.roleToMailbox roleId (some m) roleId' = some m' →
        (roleId' = roleId ∧ m' = m) ∨ g.roleToMailbox roleId' = some m' := by
      intro roleId' m' h
      by_cases heq : roleId' = roleId
      · subst heq
        left
        simp only [Function.update_self, Option.some.injEq] at h
        exact ⟨rfl, h.symm⟩
      · rw [Function.update_of_ne heq] at h
        exact Or.inr h
    apply hinv.stub
    · intro roleId' m' hrole
      -- the role was not registered, so no entry is overwritten
      have hne : roleId' ≠ roleId := by
        rintro rfl
        rw [haccepts.2] at hrole
        cases hrole
      rw [Function.update_of_ne hne, hrole]
    · intro accountId' m' hm'
      by_cases heq : accountId' = accountId
      · subst heq
        simp only [Function.update_self, Option.some.injEq] at hm'
        subst hm'
        exact Or.inr (Or.inr ⟨roleId, hm, by simp⟩)
      · simp only [Function.update_of_ne heq] at hm'
        exact Or.inl hm'
    · intro roleId' m' h
      rcases hroles h with ⟨rfl, rfl⟩ | hold
      · exact ⟨accountId, hm⟩
      · exact hinv.roleToMailbox hold
    · intro c hc
      rw [List.mem_singleton] at hc
      subst hc
      intro _
      exact ⟨accountId, roleId, hm, by simp⟩
  · apply hinv.stub id
    · exact fun h => Or.inl h
    · exact hinv.roleToMailbox
    · intro c hc
      rw [List.mem_singleton] at hc
      subst hc
      intro hstatus
      cases hstatus

/-- A relayed role is the registered one, so nothing is kicked. -/
theorem updateByRelay_eq {accountId roleId : Nat} (hrole : g.roleToMailbox roleId = some m) :
    RollStub.updateByRelay g accountId roleId m =
      { g with accountToMailbox := Function.update g.accountToMailbox accountId (some m) } := by
  simp [RollStub.updateByRelay, hrole]

theorem updateByRelay {accountId roleId : Nat} (hinv : LoginInv g) (hm : g.kind m = some (.role accountId roleId))
    (hrole : g.roleToMailbox roleId = some m) : LoginInv (RollStub.updateByRelay g accountId roleId m) := by
  rw [updateByRelay_eq hrole, show ({ g with accountToMailbox := Function.update g.accountToMailbox accountId (some m) } :
    Game) = { g with accountToMailbox := Function.update g.accountToMailbox accountId (some m),
                     calls := g.calls ++ [] } by simp]
  apply hinv.stub id
  · intro accountId' m' hm'
    by_cases heq : accountId' = accountId
    · subst heq
      simp only [Function.update_self, Option.some.injEq] at hm'
      subst hm'
      exact Or.inr (Or.inr ⟨roleId, hm, hrole⟩)
    · simp only [Function.update_of_ne heq] at hm'
      exact Or.inl hm'
  · exact hinv.roleToMailbox
  · simp

/-- An answer to a call in order is in order. -/
theorem answers {c : Call} {posted : List Call} (hok : g.CallOk c) (h : Answers g c posted) :
    ∀ c' ∈ posted, g.CallOk c' := by
  cases h with
  | granted => simp
  | askRelay target old this hthis =>
      simp only [List.mem_singleton, forall_eq]
      exact ⟨hok.2 rfl, hthis⟩
  | relayAccount target m htarget =>
      simp only [List.mem_singleton, forall_eq]
      exact hok.2
  | relayRole target m htarget =>
      simp only [List.mem_singleton, forall_eq]
      exact ⟨hok.2, htarget⟩
  | waitLogin target m proxy =>
      simp only [List.mem_singleton, forall_eq]
      exact hok.2
  | relayLoginAccount => simp
  | relayLoginRole target proxy accountId roleId hkind =>
      simp only [List.mem_singleton, forall_eq]
      obtain ⟨accountId', roleId', hkind', hrole⟩ := hok
      rw [hkind] at hkind'
      cases hkind'
      exact ⟨hkind, hrole⟩
  | registered => simp

/-- The roles that a call in order admits are registered. -/
theorem admits {c : Call} (hok : g.CallOk c) (h : Admits c m) : g.Registered m := by
  rcases h with rfl | ⟨proxy, rfl⟩
  · exact hok rfl
  · exact hok

theorem delivered {c : Call} (hinv : LoginInv g) (hok : g.CallOk c) (h : Delivered g c g') : LoginInv g' := by
  cases h with
  | registerAccount accountId m => exact hinv.registerAccount hok
  | unregisterAccount accountId => exact hinv.unregisterAccount accountId
  | registerRole accountId roleId m => exact hinv.registerRole hok
  | updateByRelay accountId roleId m => exact hinv.updateByRelay hok.1 hok.2
  | entity _ _ posted hevolves hanswers =>
      apply hinv.evolves hevolves (fun m => admits hok)
      intro c' hc'
      exact (answers hok hanswers c' hc').mono (hevolves.extends hinv.memory)

theorem sends (hinv : LoginInv g) (h : Sends g g') : LoginInv g' := by
  obtain ⟨created, posted, hevolves, hposts⟩ := h
  apply hinv.evolves hevolves (fun _ h => h.elim)
  cases hposts with
  | nothing => simp
  | registerAccount accountId m hkind => simpa [CallOk] using hkind
  | unregisterAccount accountId => simp [CallOk]
  | registerRole accountId roleId m hnew hkind => simpa [CallOk] using hkind

theorem step {cfg : Config} {l : GameLabel} (hinv : LoginInv g) (h : g.step cfg l = some g') : LoginInv g' := by
  rcases step_cases hinv.memory hinv.calls h with hsends | ⟨i, c, -, hc, hdelivered⟩
  · exact hinv.sends hsends
  · exact (hinv.takeCall i).delivered (hinv.calls c (List.mem_of_getElem? hc)) hdelivered

end LoginInv

theorem extends_registerRole {accountId roleId : Nat} (g : Game) (m : Mailbox) :
    Extends g (RollStub.registerRole g accountId roleId m) := by
  unfold RollStub.registerRole
  split
  · rename_i haccepts
    refine ⟨id, ?_⟩
    intro roleId' m' hrole
    have hne : roleId' ≠ roleId := by
      rintro rfl
      rw [haccepts.2] at hrole
      cases hrole
    show Function.update g.roleToMailbox roleId (some m) roleId' = some m'
    rw [Function.update_of_ne hne, hrole]
  · exact ⟨id, id⟩

theorem extends_delivered {c : Call} (hinv : LoginInv g) (hok : g.CallOk c) (h : Delivered g c g') :
    Extends g g' := by
  cases h with
  | registerAccount => exact ⟨id, id⟩
  | unregisterAccount => exact ⟨id, id⟩
  | registerRole accountId roleId m => exact extends_registerRole g m
  | updateByRelay accountId roleId m =>
      rw [LoginInv.updateByRelay_eq hok.2]
      exact ⟨id, id⟩
  | entity _ _ posted hevolves hanswers => exact hevolves.extends hinv.memory

theorem extends_step {cfg : Config} {l : GameLabel} (hinv : LoginInv g) (h : g.step cfg l = some g') :
    Extends g g' := by
  rcases step_cases hinv.memory hinv.calls h with ⟨created, posted, hevolves, hposts⟩ | ⟨i, c, hl, hc, hdelivered⟩
  · exact hevolves.extends hinv.memory
  · have hext := extends_delivered (hinv.takeCall i) (hinv.calls c (List.mem_of_getElem? hc)) hdelivered
    exact ⟨hext.kind, hext.roleToMailbox⟩

/-- **One normal role per id.** After every run from the start of the processes, a role entity with
    `ROLE_STATUS_NORMAL` is the one that `m_role_2_mailbox` has for its `role_id`, and no other entity
    with that `role_id` has `ROLE_STATUS_NORMAL`. -/
theorem normal_role_unique {cfg : Config} {entityId : Address → Nat} {labels : List GameLabel} {g : Game}
    (hrun : run (Game.step cfg) (Game.init entityId) labels = some g) {m : Mailbox} {r : Role}
    (hr : g.entities m = some (.role r)) (hnormal : r.status = .normal) :
    g.roleToMailbox r.data.roleId = some m ∧
      ∀ m' r', g.entities m' = some (.role r') → r'.status = .normal → r'.data.roleId = r.data.roleId → m' = m := by
  have hinv : LoginInv g := run_invariant (fun hI hl => hI.step hl) (LoginInv.init entityId) hrun
  have hmailbox : ∀ {m r}, g.entities m = some (.role r) → r.status = .normal →
      g.roleToMailbox r.data.roleId = some m := by
    intro m r hr hnormal
    obtain ⟨accountId, roleId, hkind, hrole⟩ := hinv.normal ⟨r, hr, hnormal⟩
    rw [kind_role hr] at hkind
    cases hkind
    exact hrole
  refine ⟨hmailbox hr hnormal, ?_⟩
  intro m' r' hr' hnormal' hid
  have hsame := hmailbox hr' hnormal'
  rw [hid, hmailbox hr hnormal] at hsame
  exact (Option.some.inj hsame).symm

/-! ## A login -/

/-- Two game processes of one host. -/
def gameOne : Address := ⟨[127, 0, 0, 1], 7000⟩

def gameTwo : Address := ⟨[127, 0, 0, 1], 7100⟩

/-- Tables with one type of building, which costs 10 of resource 1. A new role has 100 of it. -/
def oneBuilding : Config where
  building := fun buildingType => if buildingType = 1 then some [1, 10] else none
  buildingUpgrade := fun _ => none
  common := some [1, 100]

/-- A stored role of level 1. Its texts are empty, so that the loader reads it back as it is. -/
def storedRole : RoleRow := { sex := 0, level := 1, roleName := [], buildings := [], resources := [] }

/-- Client 1 logs in to account 1, whose role 1 is in the database. -/
def loginRun : List GameLabel :=
  [.client gameOne 1 0 (.login 0 0 0), .dbReply 0 (.account true (some (1, 1))), .deliver 0, .deliver 0,
    .dbReply 0 (.role true (some storedRole)), .deliver 0, .deliver 0]

/-- The role entity after `loginRun`. -/
def loginRole : Role where
  proxy := ⟨0, 1⟩
  status := .normal
  data := { roleId := 1, accountId := 1, level := 1 }

theorem normal_role_unique_login :
    (run (Game.step oneBuilding) (Game.init fun _ => 0) loginRun).map (fun g => g.roleToMailbox 1) =
      some (some ⟨gameOne, 2⟩) := by
  have hrun : ((run (Game.step oneBuilding) (Game.init fun _ => 0) loginRun).bind fun g => g.entities ⟨gameOne, 2⟩) =
      some (.role loginRole) := by decide
  obtain ⟨g, hg, hr⟩ := Option.bind_eq_some_iff.mp hrun
  have hmailbox : g.roleToMailbox 1 = some ⟨gameOne, 2⟩ := (normal_role_unique hg hr rfl).1
  rw [hg, Option.map_some, hmailbox]

end Game

end Mowang
