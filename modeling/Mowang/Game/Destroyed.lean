import Mowang.Game.EntitySteps

/-!
# `Game.Destroyed` — calls into a freed account

`entity_manager::update` frees an account some time after `destroy`, and nothing that refers to it is
told: its functions stay in `rpc_entity::m_proxys`, its client keeps its entry in `m_client_2_entity`, and
the callbacks of the database keep `this`. A state is `Safe` when no step can use such a reference, that is
when every freed account is `Unbound`. By `Keeps` no method refers to a freed account, so only a clean-up and a
call that answers another end this.

## Contents
- `Invokes`, `Safe`, `Unbound`.
- `Detached`, `Safe.step_iff`, `freed_accounts_unused_iff`.
-/

namespace Mowang

/-- The account whose method the call names. -/
def Call.account : Call → Option Mailbox
  | .onRegisterAccount target _ _ => some target
  | .onRelayReady target _        => some target
  | .onWaitLogin target _         => some target
  | .onRelayLogin target _        => some target
  | _                             => none

/-- The mailbox to which the delivery of the call makes the stub or an entity send a call. -/
def Call.repliesTo : Call → Option Mailbox
  | .registerAccount _ m           => some m
  | .onRegisterAccount _ false old => some old
  | .onRelayReady _ m              => some m
  | .onWaitLogin _ m               => some m
  | _                              => none

namespace Game

variable {g g' g₁ : Game} {m this : Mailbox}

/-- The step invokes a method, a callback or a timer that the entity at `m` registered. Only accounts are
    freed, so of calls and commands those are named that an account registers. -/
def Invokes (g : Game) (m : Mailbox) : GameLabel → Prop
  | .client _ _ _ (.game _) => False
  | .client p clientId _ _  => m.address = p ∧ g.clientToEntity p clientId = some m.entityId
  | .deliver i              => ∃ c, g.calls[i]? = some c ∧ c.account = some m
  | .dbReply i _            => ∃ op, g.dbOps[i]? = some op ∧ op.this = m
  | .timer i                => g.timers[i]? = some m
  | .update _ _             => False

/-- No step can invoke a function of a freed entity, and no client id maps to one. -/
structure Safe (g : Game) : Prop where
  invokes : ∀ {m l}, g.Invokes m l → ¬ g.Freed m
  clients : ∀ {p clientId entityId}, g.clientToEntity p clientId = some entityId → ¬ g.Freed ⟨p, entityId⟩

/-- Nothing refers to the entity at `m`. -/
structure Unbound (g : Game) (m : Mailbox) : Prop where
  calls : ∀ c ∈ g.calls, c.account ≠ some m
  dbOps : ∀ op ∈ g.dbOps, op.this ≠ m
  timers : m ∉ g.timers
  clients : ∀ clientId, g.clientToEntity m.address clientId ≠ some m.entityId

/-- Every reference can be used: a state is safe when nothing refers to a freed entity. -/
theorem safe_iff : g.Safe ↔ ∀ m, g.Freed m → g.Unbound m := by
  constructor
  · intro h m hm
    refine ⟨?_, ?_, ?_, ?_⟩
    · intro c hc haccount
      obtain ⟨i, hi⟩ := List.mem_iff_getElem?.mp hc
      exact h.invokes (l := .deliver i) ⟨c, hi, haccount⟩ hm
    · intro op hop hthis
      obtain ⟨i, hi⟩ := List.mem_iff_getElem?.mp hop
      exact h.invokes (l := .dbReply i (.insert true)) ⟨op, hi, hthis⟩ hm
    · intro htimer
      obtain ⟨i, hi⟩ := List.mem_iff_getElem?.mp htimer
      exact h.invokes (l := .timer i) hi hm
    · intro clientId hclient
      exact h.clients hclient hm
  · intro h
    refine ⟨?_, ?_⟩
    · intro m l hl hm
      have hunbound := h m hm
      cases l with
      | client p clientId now cmd =>
          cases cmd with
          | game => exact hl
          | login | createRole | disconnectClient =>
              obtain ⟨rfl, hclient⟩ := hl
              exact hunbound.clients clientId hclient
      | deliver i =>
          obtain ⟨c, hc, haccount⟩ := hl
          exact hunbound.calls c (List.mem_of_getElem? hc) haccount
      | dbReply i reply =>
          obtain ⟨op, hop, hthis⟩ := hl
          exact hunbound.dbOps op (List.mem_of_getElem? hop) hthis
      | timer i => exact hunbound.timers (List.mem_of_getElem? hl)
      | update => exact hl
    · intro p clientId entityId hclient hm
      exact (h _ hm).clients clientId hclient

/-! ## Calls that a step sends -/

theorem Sends.posted (h : Sends g g') : ∃ posted, g'.calls = g.calls ++ posted ∧ ∀ c ∈ posted, c.account = none := by
  obtain ⟨created, posted, hevolves, hposts⟩ := h
  refine ⟨posted, hevolves.calls, ?_⟩
  cases hposts <;> simp [Call.account]

theorem Answers.posted {c : Call} {posted : List Call} (h : Answers g c posted) :
    (∃ c' ∈ posted, c'.account = some m) ↔ c.repliesTo = some m := by
  cases h <;> simp [Call.account, Call.repliesTo]

/-- The calls to accounts that a delivery sends. -/
theorem Delivered.posted {c : Call} (h : Delivered g c g') : ∃ posted, g'.calls = g.calls ++ posted ∧
    ∀ m, (∃ c' ∈ posted, c'.account = some m) ↔ c.repliesTo = some m := by
  cases h with
  | registerAccount accountId m =>
      refine ⟨_, rfl, ?_⟩
      intro m'
      split <;> simp [Call.account, Call.repliesTo]
  | unregisterAccount accountId => exact ⟨[], by simp [RollStub.unregisterAccount], by simp [Call.repliesTo]⟩
  | registerRole accountId roleId m =>
      unfold RollStub.registerRole
      split <;> exact ⟨[_], rfl, by simp [Call.account, Call.repliesTo]⟩
  | updateByRelay accountId roleId m =>
      unfold RollStub.updateByRelay
      split
      · exact ⟨[_], rfl, by simp [Call.account, Call.repliesTo]⟩
      · split
        · rename_i current _ _
          exact ⟨[.kickRole m, .kickRole current], by simp [Game.call], by simp [Call.account, Call.repliesTo]⟩
        · exact ⟨[], by simp, by simp [Call.repliesTo]⟩
  | entity _ _ posted hevolves hanswers => exact ⟨posted, hevolves.calls, fun m => hanswers.posted⟩

/-! ## Steps that leave nothing bound to a freed account -/

/-- What the step cleans up is no longer bound, and what it answers is not freed. -/
def Detached (g : Game) : GameLabel → Prop
  | .deliver i    => ∀ {c m}, g.calls[i]? = some c → c.repliesTo = some m → ¬ g.Freed m
  | .update p now => ¬ g.lastTime p + 10 > now → ∀ id ∈ g.destroyIds p, g.Unbound ⟨p, id⟩
  | _             => True

/-- What refers to a freed account after a step did so before it. -/
theorem Keeps.unbound {relabels : Mailbox → Prop} (h : Keeps relabels g g') (hm : g.Freed m) (hunbound : g.Unbound m)
    (hcalls : ∀ c ∈ g'.calls, c.account ≠ some m) : g'.Unbound m := by
  refine ⟨hcalls, ?_, ?_, ?_⟩
  · rintro op hop rfl
    rcases h.dbOps op hop with hold | hlives
    · exact hunbound.dbOps op hold rfl
    · exact hlives hm
  · intro ht
    rcases h.timers m ht with hold | hlives
    · exact hunbound.timers hold
    · exact hlives hm
  · intro clientId hclient
    rcases h.clients hclient with hold | hlives
    · exact hunbound.clients clientId hold
    · exact hlives hm

/-- A delivery keeps a state safe exactly when the call does not answer a freed account. -/
theorem Safe.deliver_iff {cfg : Config} {i : Nat} (hinv : LoginInv g) (hsafe : g.Safe)
    (h : g.step cfg (.deliver i) = some g') : g'.Safe ↔ g.Detached (.deliver i) := by
  have hkeeps : Keeps (g.Relabels (.deliver i)) g g' := step_keeps hinv.memory (fun _ _ => by simp) h
  obtain ⟨c, hc, hhandle⟩ := Option.bind_eq_some_iff.mp h
  have htaken : LoginInv (g.takeCall i) := hinv.takeCall i
  have hdelivered : Delivered (g.takeCall i) c g' :=
    handle_delivered htaken.memory (hinv.calls c (List.mem_of_getElem? hc)) hhandle
  obtain ⟨posted, hcalls, hposted⟩ := hdelivered.posted
  rw [safe_iff] at hsafe ⊢
  constructor
  · intro hafter c₁ m hc₁ hreplies hfreed
    rw [hc] at hc₁
    cases hc₁
    obtain ⟨c', hc', haccount⟩ := (hposted m).mpr hreplies
    have hunbound := hafter m ((hkeeps.freed m).mpr hfreed)
    exact hunbound.calls c' (by simp [hcalls, hc']) haccount
  · intro hdetached m hfreed
    have hbefore : g.Freed m := (hkeeps.freed m).mp hfreed
    apply hkeeps.unbound hbefore (hsafe m hbefore)
    intro c' hc' haccount
    rw [hcalls, List.mem_append] at hc'
    rcases hc' with hold | hnew
    · exact (hsafe m hbefore).calls c' (List.mem_of_mem_eraseIdx hold) haccount
    · exact hdetached hc ((hposted m).mp ⟨c', hnew, haccount⟩) hbefore

/-- A step that sends calls to the stub only keeps a state safe. -/
theorem Safe.sends {relabels : Mailbox → Prop} (hsafe : g.Safe) (hkeeps : Keeps relabels g g') (hsends : Sends g g') :
    g'.Safe := by
  obtain ⟨posted, hcalls, hposted⟩ := hsends.posted
  rw [safe_iff] at hsafe ⊢
  intro m hfreed
  have hbefore : g.Freed m := (hkeeps.freed m).mp hfreed
  apply hkeeps.unbound hbefore (hsafe m hbefore)
  intro c hc haccount
  rw [hcalls, List.mem_append] at hc
  rcases hc with hold | hnew
  · exact (hsafe m hbefore).calls c hold haccount
  · rw [hposted c hnew] at haccount
    cases haccount

/-- A clean-up keeps a state safe exactly when nothing is bound to what it frees. -/
theorem Safe.update_iff {p : Address} {now : UInt32} (hm : Memory g) (hsafe : g.Safe) :
    (g.update p now).Safe ↔ g.Detached (.update p now) := by
  by_cases hruns : g.lastTime p + 10 > now
  · have hsame : g.update p now = g := if_pos hruns
    rw [hsame]
    exact iff_of_true hsafe fun h => absurd hruns h
  have hunbound : ∀ m, (g.update p now).Unbound m ↔ g.Unbound m := by
    intro m
    simp only [Game.update, if_neg hruns]
    constructor <;> rintro ⟨hcalls, hdbOps, htimers, hclients⟩ <;> exact ⟨hcalls, hdbOps, htimers, hclients⟩
  rw [safe_iff] at hsafe ⊢
  simp only [update_freed hm hruns, hunbound]
  constructor
  · intro hafter _ id hid
    exact hafter ⟨p, id⟩ (Or.inr ⟨rfl, hid⟩)
  · rintro hdetached m (hfreed | ⟨rfl, hid⟩)
    · exact hsafe m hfreed
    · exact hdetached hruns m.entityId hid

/-- **What a step does to a safe state.** -/
theorem Safe.step_iff {cfg : Config} {l : GameLabel} (hinv : LoginInv g) (hsafe : g.Safe)
    (h : g.step cfg l = some g') : g'.Safe ↔ g.Detached l := by
  have hother : (∀ i, l ≠ .deliver i) → (∀ p now, l ≠ .update p now) → g'.Safe := by
    intro hdeliver hupdate
    rcases step_cases hinv.memory hinv.calls h with hsends | ⟨i, c, hl, -, -⟩
    · exact hsafe.sends (step_keeps hinv.memory hupdate h) hsends
    · exact absurd hl (hdeliver i)
  cases l with
  | deliver i => exact hsafe.deliver_iff hinv h
  | update p now =>
      cases h
      exact hsafe.update_iff hinv.memory
  | client | dbReply | timer => exact iff_of_true (hother (by simp) (by simp)) trivial

theorem Safe.init (entityId : Address → Nat) : Safe (Game.init entityId) := by
  rw [safe_iff]
  rintro m ⟨hkind, -⟩
  cases hkind

/-- **Freed accounts are left alone exactly along detached steps.** In every state that a run passes
    through, no step can invoke a method, a callback or a timer of an entity whose memory was returned to its
    pool, and no client id maps to one; this is so exactly when each clean-up of the run frees only accounts
    to which no call in flight, no database operation and no client id refers, and no call is delivered that
    makes its receiver answer a freed account. -/
theorem freed_accounts_unused_iff {cfg : Config} {entityId : Address → Nat} {labels : List GameLabel}
    (hrun : run (Game.step cfg) (Game.init entityId) labels = some g') :
    (∀ pre, pre <+: labels → ∀ g, run (Game.step cfg) (Game.init entityId) pre = some g → g.Safe) ↔
      Along (Game.step cfg) Detached (Game.init entityId) labels :=
  good_iff_along (fun hinv hl => hinv.step hl) (fun hinv hsafe hl => hsafe.step_iff hinv hl)
    (LoginInv.init entityId) (Safe.init entityId) hrun

/-! ## A freed account -/

/-- Client 1 logs in and disconnects, and its process cleans up twice before the database answers. -/
def freedRun : List GameLabel :=
  [.client gameOne 1 0 (.login 0 0 0), .client gameOne 1 0 .disconnectClient, .update gameOne 10, .update gameOne 20]

theorem freedRun_unsafe : ∃ g, run (Game.step oneBuilding) (Game.init fun _ => 0) freedRun = some g ∧
    g.Freed ⟨gameOne, 1⟩ ∧ g.Invokes ⟨gameOne, 1⟩ (.dbReply 0 (.account true none)) ∧
    g.Invokes ⟨gameOne, 1⟩ (.client gameOne 1 20 .disconnectClient) ∧ g.clientToEntity gameOne 1 = some 1 := by
  refine ⟨_, rfl, ⟨rfl, rfl⟩, ?_, ⟨rfl, rfl⟩, rfl⟩
  exact ⟨.loadAccount ⟨gameOne, 1⟩, rfl, rfl⟩

/-- `loginRun`, after which the process cleans up twice. -/
def cleanedRun : List GameLabel := loginRun ++ [.update gameOne 10, .update gameOne 20]

theorem detached_deliver {i : Nat} {c : Call} (hc : g.calls[i]? = some c)
    (hlives : ∀ m, c.repliesTo = some m → (g.entities m).isSome) : g.Detached (.deliver i) := by
  intro c' m hc' hreplies hfreed
  rw [hc] at hc'
  cases hc'
  have hsome := hlives m hreplies
  rw [hfreed.2] at hsome
  cases hsome

theorem cleanedRun_detached : Along (Game.step oneBuilding) Detached (Game.init fun _ => 0) cleanedRun := by
  refine ⟨trivial, fun g₁ h₁ => ?_⟩
  obtain rfl := Option.some.inj h₁
  refine ⟨trivial, fun g₂ h₂ => ?_⟩
  obtain rfl := Option.some.inj h₂
  refine ⟨?_, fun g₃ h₃ => ?_⟩
  · refine detached_deliver (c := .registerAccount 1 ⟨gameOne, 1⟩) rfl ?_
    rintro m ⟨⟩
    rfl
  obtain rfl := Option.some.inj h₃
  refine ⟨?_, fun g₄ h₄ => ?_⟩
  · refine detached_deliver (c := .onRegisterAccount ⟨gameOne, 1⟩ true ⟨gameOne, 1⟩) rfl ?_
    rintro m ⟨⟩
  obtain rfl := Option.some.inj h₄
  refine ⟨trivial, fun g₅ h₅ => ?_⟩
  obtain rfl := Option.some.inj h₅
  refine ⟨?_, fun g₆ h₆ => ?_⟩
  · refine detached_deliver (c := .registerRole 1 1 ⟨gameOne, 2⟩) rfl ?_
    rintro m ⟨⟩
  obtain rfl := Option.some.inj h₆
  refine ⟨?_, fun g₇ h₇ => ?_⟩
  · refine detached_deliver (c := .onRegisterRole ⟨gameOne, 2⟩ true) rfl ?_
    rintro m ⟨⟩
  obtain rfl := Option.some.inj h₇
  refine ⟨fun _ id hid => absurd hid List.not_mem_nil, fun g₈ h₈ => ?_⟩
  obtain rfl := Option.some.inj h₈
  refine ⟨?_, fun _ _ => trivial⟩
  -- the second clean-up frees the account, whose client is bound to the role by then
  intro _ id hid
  obtain rfl := List.mem_singleton.mp hid
  refine ⟨fun c hc => absurd hc List.not_mem_nil, fun op hop => absurd hop List.not_mem_nil, List.not_mem_nil, ?_⟩
  intro clientId hclient
  have hmap : (Function.update (Function.update (fun _ => none) 1 (some 1)) 1 (some 2) : Nat → Option Nat) clientId =
    some 1 := hclient
  by_cases hone : clientId = 1
  · simp [hone] at hmap
  · simp [hone] at hmap

theorem freed_accounts_unused_iff_cleaned : ∃ g,
    run (Game.step oneBuilding) (Game.init fun _ => 0) cleanedRun = some g ∧ g.Freed ⟨gameOne, 1⟩ ∧ g.Safe := by
  refine ⟨_, rfl, ⟨rfl, rfl⟩, ?_⟩
  exact (freed_accounts_unused_iff rfl).mpr cleanedRun_detached cleanedRun List.prefix_rfl _ rfl

end Game

end Mowang
