import Mowang.Share.TimerSchedule

/-!
# `Share.TimerClock` — timers and the clock of the system

`update` turns the wheels once for each second that the clock has moved on since the last call. It reads the clock
as it is: a clock that was set back turns nothing, and its way up again turns the wheels a second time.

## Contents
- `TimerClock`, `TimerClockLabel`, `TimerClock.step`.
- `Clean`, `Forward`, and `Inv`, `step_inv`.
- `timers_follow_clock` — which timers have fired after an `update`.
-/

namespace Mowang

/-- A timer and its clock. -/
structure TimerClock where
  timer : Timer
  /-- `m_last_time`. -/
  lastTime : UInt32
  /-- The iterations that the loop of `update` still has to run. -/
  behind : Nat
  /-- How far the clock has moved up, over all moves. Read by the theorems only. -/
  risen : Nat

inductive TimerClockLabel
  /-- `update`, up to its loop. -/
  | update (curTime : UInt32)
  /-- A call of `proc_second_nodes`, a return of a callback, or a call from outside. -/
  | timer (label : TimerLabel)
deriving DecidableEq

namespace TimerClock

/-- `init`. -/
def start (time : UInt32) : TimerClock := ⟨.init, time, 0, 0⟩

/-- The local of `update`, an `int`. -/
def second (s : TimerClock) (curTime : UInt32) : Int := (curTime - s.lastTime).toBitVec.toInt

def step (s : TimerClock) : TimerClockLabel → Option TimerClock
  | .update curTime =>
    if s.behind = 0 ∧ s.timer.node = none then
      -- the returns for no second and for one second do what the loop does
      let second := s.second curTime
      some { s with lastTime := curTime, behind := second.toNat, risen := s.risen + second.toNat }
    else none
  | .timer .tick    =>
    if s.behind = 0 then none
    else (s.timer.step .tick).map fun timer => { s with timer := timer, behind := s.behind - 1 }
  | .timer label    => (s.timer.step label).map fun timer => { s with timer := timer }

/-- A step takes no stale link. -/
def Clean (s : TimerClock) : TimerClockLabel → Prop
  | .update _    => True
  | .timer label => s.timer.Clean label

instance (s : TimerClock) : (label : TimerClockLabel) → Decidable (s.Clean label)
  | .update _    => isTrue trivial
  | .timer label => inferInstanceAs (Decidable (s.timer.Clean label))

/-- The clock is not set back, and not by a jump. -/
def Forward (s : TimerClock) : TimerClockLabel → Prop
  | .update curTime => s.lastTime.toNat ≤ curTime.toNat ∧ curTime.toNat < s.lastTime.toNat + 2 ^ 31
  | .timer _        => True

instance (s : TimerClock) : (label : TimerClockLabel) → Decidable (s.Forward label)
  | .update curTime =>
    inferInstanceAs (Decidable (s.lastTime.toNat ≤ curTime.toNat ∧ curTime.toNat < s.lastTime.toNat + 2 ^ 31))
  | .timer _        => isTrue trivial

variable {s s' : TimerClock} {label : TimerClockLabel} {time : UInt32}

theorem second_eq {curTime : UInt32} (h : s.Forward (.update curTime)) :
    s.second curTime = curTime.toNat - s.lastTime.toNat := by
  obtain ⟨hle, hlt⟩ := h
  have hsub : (curTime - s.lastTime).toNat = curTime.toNat - s.lastTime.toNat :=
    UInt32.toNat_sub_of_le _ _ (UInt32.le_iff_toNat_le.mpr hle)
  rw [second, BitVec.toInt_eq_toNat_of_lt]
  · show ((curTime - s.lastTime).toNat : Int) = _
    rw [hsub]
    omega
  · show 2 * (curTime - s.lastTime).toNat < 2 ^ 32
    omega

/-! ## Ticks and seconds -/

/-- The wheels are kept, and their ticks with those that are still to come are the way that the clock has gone. -/
structure Inv (s : TimerClock) : Prop where
  good : s.timer.Good
  ticks : s.timer.ticks + s.behind = s.risen

/-- A step of the timer runs an iteration of the loop if it is a tick. -/
theorem step_timer {label : TimerLabel} (hstep : s.step (.timer label) = some s') :
    ∃ timer, s.timer.step label = some timer ∧ [label].count .tick ≤ s.behind ∧
      s' = { s with timer := timer, behind := s.behind - [label].count .tick } := by
  cases label with
  | tick =>
      obtain ⟨hbehind, hs⟩ := Option.ite_none_left_eq_some.mp hstep
      obtain ⟨timer, htick, rfl⟩ := Option.map_eq_some_iff.mp hs
      exact ⟨timer, htick, Nat.pos_of_ne_zero hbehind, rfl⟩
  | add delay rep node =>
      obtain ⟨timer, hadd, rfl⟩ := Option.map_eq_some_iff.mp hstep
      exact ⟨timer, hadd, Nat.zero_le _, rfl⟩
  | del id =>
      obtain ⟨timer, hdel, rfl⟩ := Option.map_eq_some_iff.mp hstep
      exact ⟨timer, hdel, Nat.zero_le _, rfl⟩
  | ret =>
      obtain ⟨timer, hret, rfl⟩ := Option.map_eq_some_iff.mp hstep
      exact ⟨timer, hret, Nat.zero_le _, rfl⟩

theorem step_inv (h : s.Inv) (hclean : s.Clean label) (hstep : s.step label = some s') : s'.Inv := by
  cases label with
  | update curTime =>
      obtain ⟨⟨hbehind, _⟩, hs⟩ := Option.ite_none_right_eq_some.mp hstep
      cases hs
      refine ⟨h.good, ?_⟩
      show s.timer.ticks + _ = s.risen + _
      rw [← h.ticks, hbehind, Nat.add_zero]
  | timer label =>
      obtain ⟨timer, htimer, hcount, rfl⟩ := step_timer hstep
      obtain ⟨hgood, hticks, _⟩ := Timer.step_good h.good hclean htimer
      refine ⟨hgood, ?_⟩
      show timer.ticks + (s.behind - _) = s.risen
      rw [hticks, ← h.ticks]
      omega

/-- Unless the clock is set back, it has gone the way from its start to where it stands. -/
theorem step_risen (h : time.toNat + s.risen = s.lastTime.toNat) (hforward : s.Forward label)
    (hstep : s.step label = some s') : time.toNat + s'.risen = s'.lastTime.toNat := by
  cases label with
  | update curTime =>
      obtain ⟨_, hs⟩ := Option.ite_none_right_eq_some.mp hstep
      cases hs
      have hsecond := second_eq hforward
      show time.toNat + (s.risen + (s.second curTime).toNat) = curTime.toNat
      have hle := hforward.1
      omega
  | timer label =>
      obtain ⟨timer, _, _, rfl⟩ := step_timer hstep
      exact h

/-- **Timers follow the clock.** After an `update` each timer of less than 30 days has been called when the way that the
    clock has gone up, however it moved, came to the times that it was asked for, if and only if none of its insertions
    that have come up dropped a carry. Unless the clock is set back, that way is the time since the start. -/
theorem timers_follow_clock {labels : List TimerClockLabel} (hclean : Along step Clean (start time) labels)
    (hrun : run step (start time) labels = some s) (hbehind : s.behind = 0) (hnode : s.timer.node = none) :
    (∀ (c : Nat) (r : TimerRecord), s.timer.log[c]? = some r → r.delay < 30 * 86400 →
      (OnTime s.risen r ↔ ∀ k, (r.repeats = true ∨ k = 0) → fireAt (r.addedAt + k * r.delay) r.delay ≤ s.risen →
        NoCarry (r.addedAt + k * r.delay) r.delay)) ∧
    (Along step Forward (start time) labels → time.toNat + s.risen = s.lastTime.toNat) := by
  constructor
  · have hstart : (start time).Inv := ⟨Timer.init_good, rfl⟩
    have hs : s.Inv := run_invariant_along (fun h hP hstep => step_inv h hP hstep) hstart hclean hrun
    have hticks : s.timer.ticks = s.risen := by rw [← hs.ticks, hbehind, Nat.add_zero]
    intro c r hr hd
    rw [← hticks]
    exact (hs.good.1.record hr).onTime_iff (hs.good.later hnode hr) hd
  · intro hforward
    exact run_invariant_along (I := fun s => time.toNat + s.risen = s.lastTime.toNat)
      (fun h hP hstep => step_risen h hP hstep) rfl hforward hrun

/-- A timer that repeats after two seconds, and an `update` that is three seconds late. -/
theorem timers_follow_clock_late : ∃ s r,
    run step (start 100) [.timer (.add 2 true 0), .update 103, .timer .tick, .timer .tick, .timer .ret, .timer .tick] =
      some s ∧ s.timer.log[0]? = some r ∧ r.fires = [2] ∧ OnTime s.risen r ∧ 100 + s.risen = s.lastTime.toNat := by
  obtain ⟨s, hs⟩ := Option.isSome_iff_exists.mp (by decide : (run step (start 100)
    [.timer (.add 2 true 0), .update 103, .timer .tick, .timer .tick, .timer .ret, .timer .tick]).isSome = true)
  have hfacts : (run step (start 100)
      [.timer (.add 2 true 0), .update 103, .timer .tick, .timer .tick, .timer .ret, .timer .tick]).map
        (fun s => (s.behind, s.timer.node, s.timer.log)) = some (0, none, [⟨1, 2, true, 0, [2]⟩]) := by
    decide
  rw [hs, Option.map_some, Option.some.injEq, Prod.mk.injEq, Prod.mk.injEq] at hfacts
  obtain ⟨hbehind, hnode, hlog⟩ := hfacts
  have hr : s.timer.log[0]? = some ⟨1, 2, true, 0, [2]⟩ := by
    rw [hlog]
    rfl
  obtain ⟨htimes, hclock⟩ := timers_follow_clock (by decide) hs hbehind hnode
  refine ⟨s, _, hs, hr, rfl, (htimes 0 _ hr (by decide)).mpr fun k _ _ => ?_, hclock (by decide)⟩
  simp [NoCarry, CarriesMinute, CarriesHour, CarriesDay]

end TimerClock

end Mowang
