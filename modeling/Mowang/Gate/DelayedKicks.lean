import Mowang.Base.DelayQueue
import Mowang.Base.Run
import Mowang.Share.RpcClient

/-!
# `Gate.DelayedKicks` — the clients that a gate will kick

A game that has told a client why it has to leave asks the gate to kick it a second later. The gate keeps the request
until a `do_loop` finds that its time has passed. Requests are erased by their socket alone, so that with a clock that
was set back another request of the same socket may be erased in place of the one that was found.

## Contents
- `SocketKickInfo`, `DelayedKicks`, `kickSocketDelay`, `doLoop`, `DelayedKicks.step`.
- `Balanced`, `Forward`, `Queued`.
- `delayed_kicks` — each request is kicked once, and in its order if the clock is not set back.
-/

namespace Mowang

open DelayQueue

/-- `socket_kick_info`; `==` compares the sockets. -/
structure SocketKickInfo where
  socketIndex : SocketIndex
  kickTime : UInt32

namespace SocketKickInfo

def time (info : SocketKickInfo) : Nat := info.kickTime.toNat

end SocketKickInfo

/-- `DELAY_KICK_SOCKET_TIME`. -/
def delayKickSocketTime : UInt32 := 1

/-- A gate, as far as the kicks that it delays go. -/
structure DelayedKicks where
  /-- `now_sys_time`. -/
  sysTime : UInt32
  delayKickSockets : List SocketKickInfo := []
  /-- The calls of `kick_socket`. -/
  kicked : List SocketIndex := []
  /-- What was pushed to `delayKickSockets`. Read by the theorems only. -/
  requests : List SocketKickInfo := []

inductive DelayedKicksLabel
  /-- `time_manager::update`, with the time of the system. -/
  | update (time : UInt32)
  | kickSocketDelay (clientId : SocketIndex)
  | doLoop

namespace DelayedKicks

def start (time : UInt32) : DelayedKicks := { sysTime := time }

/-- `kick_socket_delay`. -/
def kickSocketDelay (s : DelayedKicks) (clientId : SocketIndex) : DelayedKicks :=
  let kickInfo : SocketKickInfo := ⟨clientId, s.sysTime + delayKickSocketTime⟩
  { s with delayKickSockets := s.delayKickSockets ++ [kickInfo], requests := s.requests ++ [kickInfo] }

/-- `do_loop`, after that of `service`. -/
def doLoop (s : DelayedKicks) : DelayedKicks :=
  let delKickInfos := due SocketKickInfo.time s.sysTime.toNat s.delayKickSockets
  { s with
    kicked := s.kicked ++ delKickInfos.map (·.socketIndex)
    delayKickSockets := eraseFirsts SocketKickInfo.socketIndex s.delayKickSockets delKickInfos }

def step (s : DelayedKicks) : DelayedKicksLabel → Option DelayedKicks
  | .update time              => some { s with sysTime := time }
  | .kickSocketDelay clientId => some (s.kickSocketDelay clientId)
  | .doLoop                   => some s.doLoop

/-! ## Every request -/

/-- Each request was kicked, or waits. -/
def Balanced (s : DelayedKicks) : Prop :=
  (s.kicked ++ s.delayKickSockets.map (·.socketIndex)).Perm (s.requests.map (·.socketIndex))

variable {s s' : DelayedKicks} {label : DelayedKicksLabel}

theorem step_balanced (h : s.Balanced) (hstep : s.step label = some s') : s'.Balanced := by
  cases label with
  | update time =>
      cases hstep
      exact h
  | kickSocketDelay clientId =>
      cases hstep
      show (s.kicked ++ (s.delayKickSockets ++ [_]).map _).Perm ((s.requests ++ [_]).map _)
      rw [List.map_append, List.map_append, ← List.append_assoc]
      exact h.append_right _
  | doLoop =>
      cases hstep
      refine List.Perm.trans ?_ h
      rw [doLoop, List.append_assoc]
      exact (keys_due_append s.delayKickSockets s.sysTime.toNat).append_left s.kicked

/-! ## Their order -/

/-- The clock is not set back, and has not come to its end. -/
def Forward (s : DelayedKicks) : DelayedKicksLabel → Prop
  | .update time       => s.sysTime.toNat ≤ time.toNat
  | .kickSocketDelay _ => s.sysTime.toNat + 1 < 2 ^ 32
  | .doLoop            => True

instance (s : DelayedKicks) : (label : DelayedKicksLabel) → Decidable (s.Forward label)
  | .update time       => inferInstanceAs (Decidable (s.sysTime.toNat ≤ time.toNat))
  | .kickSocketDelay _ => inferInstanceAs (Decidable (s.sysTime.toNat + 1 < 2 ^ 32))
  | .doLoop            => isTrue trivial

/-- The requests are a queue: those in front have been kicked, after their time. -/
structure Queued (s : DelayedKicks) : Prop where
  kicked : ∃ done, s.requests = done ++ s.delayKickSockets ∧ s.kicked = done.map (·.socketIndex) ∧
    ∀ info ∈ done, info.time < s.sysTime.toNat
  sorted : s.requests.Pairwise fun x y => x.time ≤ y.time
  soon : ∀ info ∈ s.requests, info.time ≤ s.sysTime.toNat + 1

theorem step_queued (h : s.Queued) (hforward : s.Forward label) (hstep : s.step label = some s') : s'.Queued := by
  obtain ⟨⟨done, hrequests, hkicked, hpast⟩, hsorted, hsoon⟩ := h
  cases label with
  | update time =>
      cases hstep
      exact ⟨⟨done, hrequests, hkicked, fun info hinfo => Nat.lt_of_lt_of_le (hpast info hinfo) hforward⟩, hsorted,
        fun info hinfo => Nat.le_trans (hsoon info hinfo) (Nat.add_le_add_right hforward 1)⟩
  | kickSocketDelay clientId =>
      cases hstep
      have htime : (s.sysTime + delayKickSocketTime).toNat = s.sysTime.toNat + 1 := by
        rw [UInt32.toNat_add]
        exact Nat.mod_eq_of_lt hforward
      refine ⟨⟨done, ?_, hkicked, hpast⟩, ?_, ?_⟩
      · show s.requests ++ _ = done ++ (s.delayKickSockets ++ _)
        rw [hrequests, List.append_assoc]
      · refine List.pairwise_append.mpr ⟨hsorted, List.pairwise_singleton _ _, fun x hx y hy => ?_⟩
        obtain rfl := List.mem_singleton.mp hy
        exact Nat.le_trans (hsoon x hx) (Nat.le_of_eq htime.symm)
      · intro info hinfo
        rcases List.mem_append.mp hinfo with hinfo | hinfo
        · exact hsoon info hinfo
        · obtain rfl := List.mem_singleton.mp hinfo
          exact Nat.le_of_eq htime
  | doLoop =>
      cases hstep
      have hdelayed := (List.pairwise_append.mp (hrequests ▸ hsorted)).2.1
      refine ⟨⟨done ++ due SocketKickInfo.time s.sysTime.toNat s.delayKickSockets, ?_, ?_, ?_⟩, hsorted, hsoon⟩
      · show s.requests = _ ++ eraseFirsts _ _ _
        rw [eraseFirsts_due hdelayed, List.append_assoc, due_append_later hdelayed, hrequests]
      · show s.kicked ++ _ = _
        rw [hkicked, List.map_append]
      · intro info hinfo
        rcases List.mem_append.mp hinfo with hinfo | hinfo
        · exact hpast info hinfo
        · exact of_decide_eq_true (List.mem_filter.mp hinfo).2

/-- Right after a `do_loop` nothing waits whose time has passed. -/
theorem doLoop_split (h : s.Queued) :
    s.doLoop.kicked = (due SocketKickInfo.time s.sysTime.toNat s.requests).map (·.socketIndex) ∧
    s.doLoop.delayKickSockets = later SocketKickInfo.time s.sysTime.toNat s.requests := by
  obtain ⟨⟨done, hrequests, hkicked, hpast⟩, hsorted, _⟩ := h
  have hdelayed := (List.pairwise_append.mp (hrequests ▸ hsorted)).2.1
  have hdone : due SocketKickInfo.time s.sysTime.toNat done = done :=
    List.filter_eq_self.mpr fun info hinfo => decide_eq_true (hpast info hinfo)
  have hnone : later SocketKickInfo.time s.sysTime.toNat done = [] :=
    List.filter_eq_nil_iff.mpr fun info hinfo => by simpa using hpast info hinfo
  constructor
  · show s.kicked ++ _ = _
    rw [hrequests, hkicked, due_append, hdone, List.map_append]
  · show eraseFirsts _ _ _ = _
    rw [eraseFirsts_due hdelayed, hrequests, later_append, hnone, List.nil_append]

/-- **Delayed kicks.** Whatever the clock does, in every state each request has been kicked once or waits. If the clock is
    not set back, each `do_loop` leaves kicked, in the order of the requests, those whose time has passed, and leaves the
    others waiting in their order. -/
theorem delayed_kicks {time : UInt32} {labels : List DelayedKicksLabel} (hrun : run step (start time) labels = some s) :
    s.Balanced ∧ (Along step Forward (start time) labels →
      s.doLoop.kicked = (due SocketKickInfo.time s.sysTime.toNat s.requests).map (·.socketIndex) ∧
      s.doLoop.delayKickSockets = later SocketKickInfo.time s.sysTime.toNat s.requests) := by
  have hbalanced : (start time).Balanced := List.Perm.refl []
  refine ⟨run_invariant (fun h hstep => step_balanced h hstep) hbalanced hrun, fun hforward => ?_⟩
  have hstart : (start time).Queued :=
    ⟨⟨[], rfl, rfl, List.forall_mem_nil _⟩, .nil, List.forall_mem_nil _⟩
  exact doLoop_split (run_invariant_along (fun h hP hstep => step_queued h hP hstep) hstart hforward hrun)

/-- A client is asked to leave at 100, and once more at 101; the next `do_loop`, at 102, kicks it for the first time, and
    a client that was asked at 101 waits. -/
def askedRun : List DelayedKicksLabel :=
  [.kickSocketDelay 7, .update 101, .doLoop, .kickSocketDelay 9, .kickSocketDelay 7, .update 102]

theorem delayed_kicks_asked : ∃ s, run step (start 100) askedRun = some s ∧ s.Balanced ∧
    s.doLoop.kicked = (due SocketKickInfo.time s.sysTime.toNat s.requests).map (·.socketIndex) ∧
    s.doLoop.kicked = [7] ∧ s.doLoop.delayKickSockets.map (·.socketIndex) = [9, 7] := by
  obtain ⟨s, hrun, hkicked, hdelayed⟩ : ∃ s, run step (start 100) askedRun = some s ∧ s.doLoop.kicked = [7] ∧
      s.doLoop.delayKickSockets.map (·.socketIndex) = [9, 7] := ⟨_, rfl, rfl, rfl⟩
  obtain ⟨hbalanced, hforward⟩ := delayed_kicks hrun
  exact ⟨s, hrun, hbalanced, (hforward (by decide)).1, hkicked, hdelayed⟩

end DelayedKicks

end Mowang
