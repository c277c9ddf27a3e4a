import Mowang.Game.Registry

/-!
# `Game.SingleWriter` — which roles a client's command changes

A role entity is bound to its client when it is created, before `roll_stub` has answered its
`register_role`, and it stays bound when the answer is a refusal: `logout` does nothing. Every role is in
one of three standings: its `register_role` is in flight, it is registered, or it was refused (`standing`).
A command of the client is checked and applied in all three.

## Contents
- `standing`, and `StandingInv`.
- `Settled`, `single_writer_iff`.
- A refused role that is changed.
-/

namespace Mowang

/-- The call registers the role at `m`. -/
def Call.registers (m : Mailbox) : Call → Bool
  | .registerRole _ _ m' => m' = m
  | _                    => false

namespace Game

variable {g g' : Game} {m : Mailbox} {accountId roleId : Nat}

/-- The role at `m` is registered, about to be, or refused. -/
def standing (g : Game) (m : Mailbox) (roleId : Nat) : Nat :=
  (if g.roleToMailbox roleId = some m then 1 else 0) + g.inFlight (Call.registers m) + g.refused.count m

structure StandingInv (g : Game) : Prop where
  login : LoginInv g
  once : ∀ {m accountId roleId}, g.kind m = some (.role accountId roleId) → g.standing m roleId = 1
  refused : ∀ {m}, m ∈ g.refused → (g.kind m).isSome

theorem inFlight_registers_eq_zero (hinv : LoginInv g) (hm : g.kind m = none) : g.inFlight (Call.registers m) = 0 := by
  apply List.countP_eq_zero.mpr
  intro c hc
  have hok := hinv.calls c hc
  cases c with
  | registerRole accountId roleId m' =>
      simp only [Call.registers, decide_eq_true_eq]
      rintro rfl
      rw [show g.kind m' = some (.role accountId roleId) from hok] at hm
      cases hm
  | _ => simp [Call.registers]

theorem Answers.registers {c : Call} {posted : List Call} (h : Answers g c posted) :
    posted.countP (Call.registers m) = 0 ∧ c.registers m = false := by
  cases h <;> exact ⟨rfl, rfl⟩

theorem Evolves.standing {admitted : Mailbox → Prop} {created : Option Mailbox} {posted : List Call}
    (h : Evolves admitted created g g' posted) :
    g'.standing m roleId = g.standing m roleId + posted.countP (Call.registers m) := by
  unfold Game.standing
  rw [h.roleToMailbox, h.refused, inFlight_append h.calls]
  omega

theorem standing_takeCall {i : Nat} {c : Call} (hc : g.calls[i]? = some c) :
    g.standing m roleId = (g.takeCall i).standing m roleId + if c.registers m then 1 else 0 := by
  unfold standing
  rw [inFlight_takeCall hc, show (g.takeCall i).roleToMailbox = g.roleToMailbox from rfl,
    show (g.takeCall i).refused = g.refused from rfl]
  omega

/-- `register_role` settles the role that asked, one way or the other. -/
theorem standing_registerRole {accountId' roleId' : Nat} {m' : Mailbox}
    (hm' : g.kind m' = some (.role accountId' roleId')) (hm : g.kind m = some (.role accountId roleId)) :
    (RollStub.registerRole g accountId' roleId' m').standing m roleId =
      g.standing m roleId + if m' = m then 1 else 0 := by
  have hsame : m' = m → roleId' = roleId := by
    rintro rfl
    rw [hm] at hm'
    cases hm'
    rfl
  unfold RollStub.registerRole
  split
  · rename_i haccepts
    have hflight : ({ g.call (.onRegisterRole m' true) with
        accountToMailbox := Function.update g.accountToMailbox accountId' (some m')
        roleToMailbox := Function.update g.roleToMailbox roleId' (some m') } : Game).inFlight (Call.registers m) =
        g.inFlight (Call.registers m) := inFlight_eq rfl rfl
    have hmailbox : (if Function.update g.roleToMailbox roleId' (some m') roleId = some m then 1 else 0) =
        (if g.roleToMailbox roleId = some m then 1 else 0) + if m' = m then 1 else 0 := by
      by_cases hid : roleId = roleId'
      · subst hid
        simp [haccepts.2]
      · have hne : m' ≠ m := fun heq => hid (hsame heq).symm
        simp [hid, hne]
    unfold standing
    rw [hflight]
    simp only [call]
    omega
  · have hflight : ({ g.call (.onRegisterRole m' false) with refused := m' :: g.refused } : Game).inFlight
        (Call.registers m) = g.inFlight (Call.registers m) := inFlight_eq rfl rfl
    unfold standing
    rw [hflight]
    show (if g.roleToMailbox roleId = some m then 1 else 0) + g.inFlight (Call.registers m) +
      (m' :: g.refused).count m = _
    rw [List.count_cons]
    simp only [beq_iff_eq]
    omega

theorem standing_delivered {c : Call} (hok : g.CallOk c) (h : Delivered g c g')
    (hm : g.kind m = some (.role accountId roleId)) :
    g'.standing m roleId = g.standing m roleId + if c.registers m then 1 else 0 := by
  cases h with
  | registerAccount accountId' m' =>
      have hflight : (RollStub.registerAccount g accountId' m').inFlight (Call.registers m) =
          g.inFlight (Call.registers m) := by
        apply inFlight_eq rfl
        split <;> rfl
      unfold standing
      rw [hflight]
      rfl
  | unregisterAccount accountId' => rfl
  | registerRole accountId' roleId' m' =>
      rw [standing_registerRole hok hm]
      simp [Call.registers]
  | updateByRelay accountId' roleId' m' =>
      rw [LoginInv.updateByRelay_eq hok.2]
      rfl
  | entity _ _ posted hevolves hanswers =>
      obtain ⟨hposted, hc⟩ := hanswers.registers (m := m)
      rw [hevolves.standing, hposted, hc]
      rfl

namespace StandingInv

theorem init (entityId : Address → Nat) : StandingInv (Game.init entityId) := by
  refine ⟨LoginInv.init entityId, ?_, ?_⟩
  · intro m accountId roleId hm
    cases hm
  · intro m hm
    cases hm

theorem sends (hinv : StandingInv g) (h : Sends g g') : StandingInv g' := by
  refine ⟨hinv.login.sends h, ?_, ?_⟩
  · obtain ⟨created, posted, hevolves, hposts⟩ := h
    intro m accountId roleId hm
    rw [hevolves.standing]
    rcases hevolves.role hm with hold | rfl
    · -- a role that was there before: a new role has another mailbox
      rw [hinv.once hold]
      cases hposts with
      | nothing => rfl
      | registerAccount => rfl
      | unregisterAccount => rfl
      | registerRole accountId' roleId' m' hnew hkind =>
          have hne : m' ≠ m := by
            rintro rfl
            rw [hold] at hnew
            cases hnew
          simp [Call.registers, hne]
    · cases hposts with
      | registerRole accountId' roleId' _ hnew hkind =>
          have hunregistered : g.roleToMailbox roleId ≠ some m := by
            intro hrole
            obtain ⟨accountId'', hold⟩ := hinv.login.roleToMailbox hrole
            rw [hold] at hnew
            cases hnew
          have hrefused : g.refused.count m = 0 := by
            apply List.count_eq_zero_of_not_mem
            intro hmem
            simpa [hnew] using hinv.refused hmem
          unfold standing
          rw [if_neg hunregistered, inFlight_registers_eq_zero hinv.login hnew, hrefused]
          simp [Call.registers]
  · obtain ⟨created, posted, hevolves, hposts⟩ := h
    intro m hm
    rw [hevolves.refused] at hm
    obtain ⟨k, hk⟩ := Option.isSome_iff_exists.mp (hinv.refused hm)
    rw [(hevolves.extends hinv.login.memory).kind hk]
    rfl

theorem refused_delivered {c : Call} (hok : g.CallOk c) (h : Delivered g c g') (hm : m ∈ g'.refused) :
    m ∈ g.refused ∨ (g.kind m).isSome := by
  cases h with
  | registerAccount => exact Or.inl hm
  | unregisterAccount => exact Or.inl hm
  | registerRole accountId roleId m' =>
      unfold RollStub.registerRole at hm
      split at hm
      · exact Or.inl hm
      · rcases List.mem_cons.mp hm with rfl | hm
        · right
          rw [show g.kind m = some (.role accountId roleId) from hok]
          rfl
        · exact Or.inl hm
  | updateByRelay accountId roleId m' =>
      rw [LoginInv.updateByRelay_eq hok.2] at hm
      exact Or.inl hm
  | entity _ _ posted hevolves hanswers =>
      rw [hevolves.refused] at hm
      exact Or.inl hm

/-- No role appears when a call is delivered. -/
theorem role_delivered {c : Call} (hok : g.CallOk c) (h : Delivered g c g')
    (hm : g'.kind m = some (.role accountId roleId)) : g.kind m = some (.role accountId roleId) := by
  cases h with
  | registerAccount => exact hm
  | unregisterAccount => exact hm
  | registerRole accountId' roleId' m' =>
      unfold RollStub.registerRole at hm
      split at hm <;> exact hm
  | updateByRelay accountId' roleId' m' =>
      rw [LoginInv.updateByRelay_eq hok.2] at hm
      exact hm
  | entity _ _ posted hevolves hanswers =>
      rcases hevolves.role hm with hold | hnew
      · exact hold
      · cases hnew

theorem step {cfg : Config} {l : GameLabel} (hinv : StandingInv g) (h : g.step cfg l = some g') :
    StandingInv g' := by
  rcases step_cases hinv.login.memory hinv.login.calls h with hsends | ⟨i, c, -, hc, hdelivered⟩
  · exact hinv.sends hsends
  · have hok : (g.takeCall i).CallOk c := hinv.login.calls c (List.mem_of_getElem? hc)
    refine ⟨hinv.login.step h, ?_, ?_⟩
    · intro m accountId roleId hm
      have hold := role_delivered hok hdelivered hm
      rw [standing_delivered hok hdelivered hold, ← standing_takeCall hc]
      exact hinv.once hold
    · intro m hm
      have hsome : (g.kind m).isSome := (refused_delivered hok hdelivered hm).elim (fun h => hinv.refused h) id
      obtain ⟨k, hk⟩ := Option.isSome_iff_exists.mp hsome
      rw [(extends_step hinv.login h).kind hk]
      rfl

/-- A role that is neither refused nor about to be registered is registered. -/
theorem registered_iff (hinv : StandingInv g) (hm : g.kind m = some (.role accountId roleId)) :
    g.roleToMailbox roleId = some m ↔
      m ∉ g.refused ∧ ∀ accountId' roleId', Call.registerRole accountId' roleId' m ∉ g.calls := by
  have hone := hinv.once hm
  unfold standing at hone
  constructor
  · intro hrole
    rw [if_pos hrole] at hone
    have hcount : g.refused.count m = 0 := by omega
    have hflight : g.calls.countP (Call.registers m) = 0 := by
      unfold inFlight at hone
      omega
    refine ⟨List.count_eq_zero.mp hcount, ?_⟩
    intro accountId' roleId' hmem
    exact List.countP_eq_zero.mp hflight _ hmem (by simp [Call.registers])
  · rintro ⟨hrefused, hcalls⟩
    by_contra hrole
    have hflight : g.inFlight (Call.registers m) = 0 := by
      apply List.countP_eq_zero.mpr
      intro c hc
      cases c with
      | registerRole accountId' roleId' m' =>
          simp only [Call.registers, decide_eq_true_eq]
          rintro rfl
          exact hcalls accountId' roleId' hc
      | _ => simp [Call.registers]
    rw [if_neg hrole, hflight, List.count_eq_zero_of_not_mem hrefused] at hone
    cases hone

end StandingInv

/-! ## Commands -/

/-- The role that a game command reaches, with the time and the command. -/
def commandTarget (g : Game) : GameLabel → Option (Mailbox × Role × UInt32 × GameCommand)
  | .client p clientId now (.game cmd) =>
    (g.clientToEntity p clientId).bind fun entityId =>
      match g.target ⟨p, entityId⟩ with
      | .object this (.role r) => some (this, r, now, cmd)
      | _                      => none
  | _ => none

/-- A command whose check passes reaches a role that was not refused, and whose `register_role` is not in
    flight. -/
def Settled (cfg : Config) (g : Game) (l : GameLabel) : Prop :=
  ∀ m r now cmd, g.commandTarget l = some (m, r, now, cmd) → cmd.check cfg now r.data = some .success →
    m ∉ g.refused ∧ ∀ accountId roleId, Call.registerRole accountId roleId m ∉ g.calls

/-- A command whose check passes reaches the role that is registered for its id. -/
def ReachesRegistered (cfg : Config) (g : Game) (l : GameLabel) : Prop :=
  ∀ m r now cmd, g.commandTarget l = some (m, r, now, cmd) → cmd.check cfg now r.data = some .success →
    g.roleToMailbox r.data.roleId = some m

/-- A command of a client changes the data of a role only if the role is registered for its id. -/
def WritesRegistered (cfg : Config) (g : Game) (l : GameLabel) : Prop :=
  ∀ p clientId now cmd g' m r r', l = .client p clientId now (.game cmd) → g.step cfg l = some g' →
    g.entities m = some (.role r) → g'.entities m = some (.role r') → r'.data ≠ r.data →
    g.roleToMailbox r.data.roleId = some m

theorem commandTarget_entity {l : GameLabel} {r : Role} {now : UInt32} {cmd : GameCommand} (hm : Memory g)
    (h : g.commandTarget l = some (m, r, now, cmd)) : g.entities m = some (.role r) := by
  unfold commandTarget at h
  split at h
  · obtain ⟨entityId, -, h⟩ := Option.bind_eq_some_iff.mp h
    split at h
    · rename_i this r' htarget
      cases h
      exact (target_object hm htarget).1
    · cases h
  · cases h

/-- Only the role that the command reaches changes, and only when the check of the command passes. -/
theorem commandTarget_of_changed {cfg : Config} {p : Address} {clientId : Nat} {now : UInt32} {cmd : GameCommand}
    {r r' : Role} (hm : Memory g) (h : g.step cfg (.client p clientId now (.game cmd)) = some g')
    (hr : g.entities m = some (.role r)) (hr' : g'.entities m = some (.role r')) (hne : r'.data ≠ r.data) :
    g.commandTarget (.client p clientId now (.game cmd)) = some (m, r, now, cmd) ∧
      cmd.check cfg now r.data = some .success := by
  have hchanged : g'.entities m ≠ g.entities m := by
    rw [hr, hr']
    rintro heq
    cases heq
    exact hne rfl
  cases hclient : g.clientToEntity p clientId with
  | none =>
      simp only [Game.step, clientCommand, hclient, Option.some.injEq] at h
      subst h
      exact absurd rfl hchanged
  | some entityId =>
      rcases htarget : g.target ⟨p, entityId⟩ with _ | _ | ⟨this, a | r₀⟩
      case object.role =>
        simp only [Game.step, clientCommand, hclient, entityCommand, htarget] at h
        obtain ⟨data, hdata, rfl⟩ := Option.map_eq_some_iff.mp h
        have hthis : m = this := by
          by_contra hne'
          exact hchanged (by simp [setEntity, hne'])
        subst hthis
        have hr₀ := (target_object hm htarget).1
        rw [hr] at hr₀
        cases hr₀
        refine ⟨by simp [commandTarget, hclient, htarget], ?_⟩
        by_contra hcheck
        simp only [setEntity, Function.update_self, Option.some.injEq, Entity.role.injEq] at hr'
        subst hr'
        exact hne (GameCommand.apply_of_refused hdata hcheck)
      all_goals
        simp only [Game.step, clientCommand, hclient, entityCommand, htarget, Option.some.injEq] at h
        subst h
        exact absurd rfl hchanged

/-- **Which roles a client writes.** Along every run, the commands whose check passes reach only settled
    roles if and only if they reach only registered roles; and then a client's command changes the data
    of a registered role only. No role is ever sent a `kick_role`. -/
theorem single_writer_iff (cfg : Config) (entityId : Address → Nat) (labels : List GameLabel) :
    (Along (Game.step cfg) (Settled cfg) (Game.init entityId) labels ↔
      Along (Game.step cfg) (ReachesRegistered cfg) (Game.init entityId) labels) ∧
    (Along (Game.step cfg) (Settled cfg) (Game.init entityId) labels →
      Along (Game.step cfg) (WritesRegistered cfg) (Game.init entityId) labels) ∧
    ∀ g, run (Game.step cfg) (Game.init entityId) labels = some g → ∀ m, Call.kickRole m ∉ g.calls := by
  have hiff : ∀ {g l}, StandingInv g → (Settled cfg g l ↔ ReachesRegistered cfg g l) := by
    intro g l hinv
    have hregistered : ∀ {m r now cmd}, g.commandTarget l = some (m, r, now, cmd) →
        (g.roleToMailbox r.data.roleId = some m ↔
          m ∉ g.refused ∧ ∀ accountId roleId, Call.registerRole accountId roleId m ∉ g.calls) :=
      fun h => hinv.registered_iff (kind_role (commandTarget_entity hinv.login.memory h))
    constructor
    · intro h m r now cmd htarget hcheck
      exact (hregistered htarget).mpr (h m r now cmd htarget hcheck)
    · intro h m r now cmd htarget hcheck
      exact (hregistered htarget).mp (h m r now cmd htarget hcheck)
  refine ⟨along_congr (I := StandingInv) (fun hI hl => hI.step hl) hiff (StandingInv.init entityId) labels, ?_, ?_⟩
  · apply Along.mono (I := StandingInv) (fun hI hl => hI.step hl) _ (StandingInv.init entityId)
    rintro g l hinv hsettled p clientId now cmd g' m r r' rfl hstep hr hr' hne
    obtain ⟨htarget, hcheck⟩ := commandTarget_of_changed hinv.login.memory hstep hr hr' hne
    exact (hiff hinv).mp hsettled m r now cmd htarget hcheck
  · intro g hrun m hmem
    have hinv : LoginInv g := run_invariant (fun hI hl => hI.step hl) (LoginInv.init entityId) hrun
    exact hinv.calls _ hmem

/-- A new client sends `create_role` twice before the first insertion is answered; each is answered with `true`. The role
    of the second is refused. -/
def refusedRun : List GameLabel :=
  [.client gameOne 1 0 (.login 0 0 0), .dbReply 0 (.account true none), .dbReply 0 (.insert true), .deliver 0,
    .deliver 0, .dbReply 0 (.role true none), .client gameOne 1 0 (.createRole 0 [65]),
    .client gameOne 1 0 (.createRole 0 [65]), .dbReply 0 (.insert true), .deliver 0, .deliver 0,
    .dbReply 0 (.insert true), .deliver 0, .deliver 0]

/-- The role entity that was refused; its client is bound to it. -/
def refusedRole : Role where
  proxy := ⟨0, 1⟩
  data := { roleId := 1, accountId := 1, level := 1, roleName := [65], resources := [⟨1, 100⟩] }

/-- Client 1 builds with the resources of the refused role. -/
theorem refused_role_written :
    ¬ ∀ labels, Along (Game.step oneBuilding) (WritesRegistered oneBuilding) (Game.init fun _ => 0) labels := by
  intro h
  let build : GameLabel := .client gameOne 1 0 (.game (.buildBuilding 5 1))
  have hrefused : (run (Game.step oneBuilding) (Game.init fun _ => 0) refusedRun).map
      (fun g => (g.refused, g.roleToMailbox 1, g.entities ⟨gameOne, 3⟩)) =
      some ([⟨gameOne, 3⟩], some ⟨gameOne, 2⟩, some (.role refusedRole)) := by decide
  have hbuilt : ((run (Game.step oneBuilding) (Game.init fun _ => 0) refusedRun).bind fun g =>
      (g.step oneBuilding build).bind fun g' => g'.entities ⟨gameOne, 3⟩) =
      some (.role { refusedRole with data := { refusedRole.data with
        resources := [⟨1, 90⟩]
        buildings := [{ buildingType := 1, buildingIndex := 5, buildingLevel := 1 }] } }) := by decide
  obtain ⟨g, hg, hmaps⟩ := Option.map_eq_some_iff.mp hrefused
  simp only [Prod.mk.injEq] at hmaps
  obtain ⟨-, hrole, hentity⟩ := hmaps
  rw [hg, Option.bind_some] at hbuilt
  obtain ⟨g', hg', hentity'⟩ := Option.bind_eq_some_iff.mp hbuilt
  have hwrites : WritesRegistered oneBuilding g build := (h (refusedRun ++ [build])).last hg
  have hmailbox := hwrites _ _ _ _ g' _ _ _ rfl hg' hentity hentity' (by decide)
  rw [show refusedRole.data.roleId = 1 from rfl, hrole] at hmailbox
  exact absurd hmailbox (by decide)

end Game

end Mowang
