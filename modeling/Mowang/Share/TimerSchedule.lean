import Mowang.Share.TimerRuns

/-!
# `Share.TimerSchedule` — when timers fire

The slots of an inserted timer are sums of digits, each taken modulo its wheel. A carry out of the seconds,
the minutes or the hours is dropped, so the timer fires a whole minute, hour or day early; without a carry
it fires on time.

## Contents
- `NoCarry`, `fireAt_le`, `fireAt_eq_iff`.
- `on_time_iff` — a timer fires at the ticks it was asked for exactly when no insertion of it carries.
- `del_timer_iff` — a cancelled timer stays silent exactly until it comes up again.
-/

namespace Mowang

/-! ## The carries -/

/-- The sum of the seconds is a minute or more, and the timer goes into a wheel above the seconds. -/
def CarriesMinute (now d : Nat) : Prop := 60 ≤ d ∧ 60 ≤ now % 60 + d % 60

/-- The sum of the minutes is an hour or more, and the timer goes into a wheel above the minutes. -/
def CarriesHour (now d : Nat) : Prop := 3600 ≤ d ∧ 60 ≤ now / 60 % 60 + d / 60 % 60

/-- The sum of the hours is a day or more, and the timer goes into the wheel of the days. -/
def CarriesDay (now d : Nat) : Prop := 86400 ≤ d ∧ 24 ≤ now / 3600 % 24 + d / 3600 % 24

instance (now d : Nat) : Decidable (CarriesMinute now d) := inferInstanceAs (Decidable (_ ∧ _))
instance (now d : Nat) : Decidable (CarriesHour now d) := inferInstanceAs (Decidable (_ ∧ _))
instance (now d : Nat) : Decidable (CarriesDay now d) := inferInstanceAs (Decidable (_ ∧ _))

/-- An insertion after `now` ticks drops no carry. -/
def NoCarry (now d : Nat) : Prop := ¬ CarriesMinute now d ∧ ¬ CarriesHour now d ∧ ¬ CarriesDay now d

instance (now d : Nat) : Decidable (NoCarry now d) := inferInstanceAs (Decidable (_ ∧ _))

/-- The carry out of the sum of two digits. -/
def carry (size x y : Nat) : Nat := if size ≤ x % size + y % size then size else 0

theorem mod_add_carry (size : Nat) (hsize : 0 < size) (x y : Nat) :
    (x + y) % size + carry size x y = x % size + y % size := by
  have hx := Nat.mod_lt x hsize
  have hy := Nat.mod_lt y hsize
  unfold carry
  rw [Nat.add_mod_eq_ite]
  split <;> omega

theorem carry_eq_zero (size : Nat) (hsize : 0 < size) (x y : Nat) :
    carry size x y = 0 ↔ ¬ size ≤ x % size + y % size := by
  unfold carry
  split
  · simp_all [Nat.ne_of_gt hsize]
  · simp_all

/-- What a timer loses by the carries that are dropped. -/
def lost (now d : Nat) : Nat :=
  match Layer.ofDelay d with
  | .second => 0
  | .minute => carry 60 now d
  | .hour   => carry 60 now d + 60 * carry 60 (now / 60) (d / 60)
  | .day    => carry 60 now d + 60 * carry 60 (now / 60) (d / 60) + 3600 * carry 24 (now / 3600) (d / 3600)

theorem lost_eq_zero (now d : Nat) : lost now d = 0 ↔ NoCarry now d := by
  have hs := carry_eq_zero 60 (by decide) now d
  have hm := carry_eq_zero 60 (by decide) (now / 60) (d / 60)
  have hh := carry_eq_zero 24 (by decide) (now / 3600) (d / 3600)
  unfold lost NoCarry CarriesMinute CarriesHour CarriesDay
  obtain ⟨hl, hpos⟩ | ⟨hl, hpos, hlt⟩ | ⟨hl, hpos, hlt⟩ | ⟨hl, hlt⟩ := ofDelay_cases d
  · have h1 : 60 ≤ d := by omega
    have h2 : 3600 ≤ d := by omega
    have h3 : 86400 ≤ d := by omega
    simp only [hl, Nat.add_eq_zero_iff, Nat.mul_eq_zero, hs, hm, hh, h1, h2, h3, true_and, OfNat.ofNat_ne_zero,
      false_or, and_assoc]
  · have h1 : 60 ≤ d := by omega
    have h2 : 3600 ≤ d := by omega
    simp only [hl, Nat.add_eq_zero_iff, Nat.mul_eq_zero, hs, hm, h1, h2, Nat.not_le.mpr hlt, true_and, false_and,
      OfNat.ofNat_ne_zero, false_or, not_false_iff, and_true]
  · have h1 : 60 ≤ d := by omega
    have h3 : ¬ 86400 ≤ d := by omega
    simp only [hl, hs, h1, Nat.not_le.mpr hlt, h3, true_and, false_and, not_false_iff, and_true]
  · have h2 : ¬ 3600 ≤ d := by omega
    have h3 : ¬ 86400 ≤ d := by omega
    simp only [hl, Nat.not_le.mpr hlt, h2, h3, false_and, not_false_iff, and_true]

theorem digits_minute (x : Nat) : x = 60 * (x / 60) + x % 60 := by
  omega

theorem digits_hour (x : Nat) : x = 3600 * (x / 3600) + 60 * (x / 60 % 60) + x % 60 := by
  omega

theorem digits_day (x : Nat) : x = 86400 * (x / 86400) + 3600 * (x / 3600 % 24) + 60 * (x / 60 % 60) + x % 60 := by
  omega

theorem dayStep_eq {d : Nat} (hpos : 0 < d / 86400) (hd : d < 30 * 86400) :
    (d / 86400 - 1) % 30 + 1 = d / 86400 := by
  omega

/-- **A timer fires early by the carries that are dropped.** -/
theorem fireAt_add_lost {d : Nat} (hd : d < 30 * 86400) (now : Nat) : fireAt now d + lost now d = now + d := by
  have hsecond := mod_add_carry 60 (by decide) now d
  have hminute := mod_add_carry 60 (by decide) (now / 60) (d / 60)
  have hhour := mod_add_carry 24 (by decide) (now / 3600) (d / 3600)
  unfold fireAt lost
  obtain ⟨hl, hpos⟩ | ⟨hl, hpos, hlt⟩ | ⟨hl, hpos, hlt⟩ | ⟨hl, hlt⟩ := ofDelay_cases d
  · have hnow := digits_day now
    have hdelay := digits_day d
    simp only [hl, dayStep_eq hpos hd]
    clear hl hpos hd
    -- from here on the digits and the carries are numbers like any others
    generalize (now + d) % 60 = second at *
    generalize (now / 60 + d / 60) % 60 = minute at *
    generalize (now / 3600 + d / 3600) % 24 = hour at *
    generalize carry 60 now d = c₁ at *
    generalize carry 60 (now / 60) (d / 60) = c₂ at *
    generalize carry 24 (now / 3600) (d / 3600) = c₃ at *
    generalize now / 86400 = nd at *
    generalize d / 86400 = dd at *
    generalize now / 3600 % 24 = nh at *
    generalize d / 3600 % 24 = dh at *
    generalize now / 60 % 60 = nm at *
    generalize d / 60 % 60 = dm at *
    generalize now % 60 = ns at *
    generalize d % 60 = ds at *
    omega
  · have hnow := digits_hour now
    have hdelay := digits_hour d
    simp only [hl]
    clear hl hpos hd hlt hhour
    generalize (now + d) % 60 = second at *
    generalize (now / 60 + d / 60) % 60 = minute at *
    generalize carry 60 now d = c₁ at *
    generalize carry 60 (now / 60) (d / 60) = c₂ at *
    generalize now / 3600 = nh at *
    generalize d / 3600 = dh at *
    generalize now / 60 % 60 = nm at *
    generalize d / 60 % 60 = dm at *
    generalize now % 60 = ns at *
    generalize d % 60 = ds at *
    omega
  · have hnow := digits_minute now
    have hdelay := digits_minute d
    simp only [hl]
    clear hl hpos hd hlt hhour hminute
    generalize (now + d) % 60 = second at *
    generalize carry 60 now d = c₁ at *
    generalize now / 60 = nm at *
    generalize d / 60 = dm at *
    generalize now % 60 = ns at *
    generalize d % 60 = ds at *
    omega
  · simp only [hl, Nat.add_zero]

theorem fireAt_le {now d : Nat} (hd : d < 30 * 86400) : fireAt now d ≤ now + d := by
  have := fireAt_add_lost hd now
  omega

theorem fireAt_eq_iff {now d : Nat} (hd : d < 30 * 86400) : fireAt now d = now + d ↔ NoCarry now d := by
  have hsum := fireAt_add_lost hd now
  rw [← lost_eq_zero]
  omega

theorem lt_fireAt {d : Nat} (hpos : 0 < d) (now : Nat) : now < fireAt now d :=
  (placed_fireAt hpos fun layer =>
    Timer.insertedData_digit ⟨0, 0, 0, 0, 0⟩ d false 0 now layer).later

/-! ## On time -/

/-- The first `n` of the ticks `d`, `2 d`, `3 d`, … after `start`, the last one first. -/
def multiples (start d : Nat) : Nat → List Nat
  | 0     => []
  | n + 1 => (start + (n + 1) * d) :: multiples start d n

/-- The callback was invoked at the ticks `d`, `2 d`, `3 d`, … after the timer was added, as far as they
    have come; that of a timer that does not repeat at the first of them only. -/
def OnTime (now : Nat) (r : TimerRecord) : Prop :=
  r.fires = multiples r.addedAt r.delay
    (if r.repeats then (now - r.addedAt) / r.delay else min 1 ((now - r.addedAt) / r.delay))

theorem multiples_headD (start d n : Nat) : (multiples start d n).headD start = start + n * d := by
  cases n with
  | zero => simp [multiples]
  | succ n => rfl

theorem length_multiples (start d n : Nat) : (multiples start d n).length = n := by
  induction n with
  | zero => rfl
  | succ n ih => exact congrArg (· + 1) ih

/-- Without carries the ticks are the multiples of the delay. -/
theorem Fires.eq_multiples {start d now : Nat} (hd : d < 30 * 86400) {fires : List Nat} (h : Fires start d fires)
    (hpast : ∀ x ∈ fires, x ≤ now)
    (hcarry : ∀ k < fires.length, fireAt (start + k * d) d ≤ now → NoCarry (start + k * d) d) :
    fires = multiples start d fires.length := by
  induction fires with
  | nil => rfl
  | cons x older ih =>
      obtain ⟨hx, hrest⟩ := h
      have hold := ih hrest (fun y hy => hpast y (List.mem_cons_of_mem _ hy))
        fun k hk => hcarry k (Nat.lt_succ_of_lt hk)
      have hlast : older.headD start = start + older.length * d := by
        rw [hold, multiples_headD, length_multiples]
      rw [hlast] at hx
      have hno := hcarry older.length (Nat.lt_succ_self _) (hx ▸ hpast x (List.mem_cons_self ..))
      rw [(fireAt_eq_iff hd).mpr hno, Nat.add_assoc, ← Nat.succ_mul] at hx
      show x :: older = (start + (older.length + 1) * d) :: multiples start d older.length
      rw [← hold, hx]

/-- And if the ticks are the multiples of the delay, no insertion carried. -/
theorem Fires.noCarry {start d n : Nat} (hd : d < 30 * 86400) (h : Fires start d (multiples start d n)) {k : Nat}
    (hk : k < n) : NoCarry (start + k * d) d := by
  induction n with
  | zero => exact absurd hk (Nat.not_lt_zero k)
  | succ n ih =>
      obtain ⟨hx, hrest⟩ := h
      obtain rfl | hlt := Nat.eq_or_lt_of_le (Nat.le_of_lt_succ hk)
      · rw [multiples_headD] at hx
        refine (fireAt_eq_iff hd).mp ?_
        rw [← hx, Nat.add_assoc, ← Nat.succ_mul]
      · exact ih hrest hlt

/-- If a timer has fired since, it has fired when it came up. -/
theorem Fires.due_mem {start d : Nat} {newer older : List Nat} (h : Fires start d (newer ++ older))
    (hne : newer ≠ []) : fireAt (older.headD start) d ∈ newer := by
  induction newer with
  | nil => exact absurd rfl hne
  | cons x newer ih =>
      obtain ⟨hx, hrest⟩ := h
      by_cases hn : newer = []
      · subst hn
        rw [← show x = fireAt (older.headD start) d from hx]
        exact List.mem_cons_self ..
      · exact List.mem_cons_of_mem _ (ih hrest hn)

/-- The record of a timer that is scheduled and, while it is pending, comes up later, is on time exactly
    when none of its insertions that have come up carried. -/
theorem TimerRecord.Scheduled.onTime_iff {now : Nat} {r : TimerRecord} (h : r.Scheduled now)
    (hlater : r.Pending → now < r.due) (hd : r.delay < 30 * 86400) :
    OnTime now r ↔ ∀ k, (r.repeats = true ∨ k = 0) → fireAt (r.addedAt + k * r.delay) r.delay ≤ now →
      NoCarry (r.addedAt + k * r.delay) r.delay := by
  have hpos := h.positive
  constructor
  · intro hontime k hk hdue
    have hlt : r.addedAt + k * r.delay < now := (lt_fireAt hpos _).trans_le hdue
    have hle : k ≤ (now - r.addedAt) / r.delay := (Nat.le_div_iff_mul_le hpos).mpr (by omega)
    unfold OnTime at hontime
    generalize hm : (if r.repeats then (now - r.addedAt) / r.delay else min 1 ((now - r.addedAt) / r.delay)) = m
      at hontime
    by_cases hkm : k < m
    · exact Fires.noCarry hd (hontime ▸ h.fired) hkm
    -- the next tick of the timer is this one, and it has not come yet
    · have hpending : r.Pending ∧ k = m := by
        by_cases hrep : r.repeats = true
        · rw [if_pos hrep] at hm
          exact ⟨.inl hrep, by omega⟩
        · rw [if_neg hrep] at hm
          have hk0 : k = 0 := hk.resolve_left hrep
          have hm0 : m = 0 := by omega
          exact ⟨.inr (by rw [hontime, hm0]; rfl), by omega⟩
      have hnext := hlater hpending.1
      rw [TimerRecord.due, TimerRecord.inserted, hontime, multiples_headD, ← hpending.2] at hnext
      omega
  · intro hcarry
    have hone : ∀ k < r.fires.length, r.repeats = true ∨ k = 0 := by
      intro k hk
      by_cases hrep : r.repeats = true
      · exact .inl hrep
      · have := h.once (by simpa using hrep)
        exact .inr (by omega)
    have hfires := h.fired.eq_multiples hd h.past fun k hk hdue => hcarry k (hone k hk) hdue
    have hlast : r.fires.headD r.addedAt = r.addedAt + r.fires.length * r.delay := by
      rw [hfires, multiples_headD, length_multiples]
    have hle : r.fires.length ≤ (now - r.addedAt) / r.delay := by
      refine (Nat.le_div_iff_mul_le hpos).mpr ?_
      have hnow : r.fires.headD r.addedAt ≤ now := by
        cases hf : r.fires with
        | nil => exact h.added
        | cons x older => exact h.past x (by rw [hf]; simp)
      omega
    have hge : r.Pending → (now - r.addedAt) / r.delay ≤ r.fires.length := by
      intro hp
      have hnext := hlater hp
      rw [TimerRecord.due, TimerRecord.inserted, hlast] at hnext
      have hbound := hnext.trans_le (fireAt_le hd)
      have hmul : (r.fires.length + 1) * r.delay = r.fires.length * r.delay + r.delay := Nat.succ_mul _ _
      have hlt : (now - r.addedAt) / r.delay < r.fires.length + 1 := by
        refine (Nat.div_lt_iff_lt_mul hpos).mpr ?_
        have := h.added
        omega
      omega
    have hcount : (if r.repeats then (now - r.addedAt) / r.delay else min 1 ((now - r.addedAt) / r.delay)) =
        r.fires.length := by
      by_cases hrep : r.repeats = true
      · rw [if_pos hrep]
        exact Nat.le_antisymm (hge (.inl hrep)) hle
      · rw [if_neg hrep]
        have honce := h.once (by simpa using hrep)
        by_cases hempty : r.fires = []
        · have := hge (.inr hempty)
          rw [hempty, List.length_nil] at this ⊢
          omega
        · have := List.length_pos_iff.mpr hempty
          omega
    unfold OnTime
    rw [hcount]
    exact hfires

namespace Timer

/-- **Timers fire on time as long as no insertion drops a carry.** In every run that takes no stale link,
    a timer with a delay of less than 30 days has fired at exactly the ticks it was asked for if and only
    if none of its insertions that have come up carried out of the seconds, the minutes or the hours. -/
theorem on_time_iff {labels : List TimerLabel} {t : Timer} (hclean : Along step Clean init labels)
    (hrun : run step init labels = some t) (hnode : t.node = none) {c : Nat} {r : TimerRecord}
    (hr : t.log[c]? = some r) (hd : r.delay < 30 * 86400) :
    OnTime t.ticks r ↔ ∀ k, (r.repeats = true ∨ k = 0) →
      fireAt (r.addedAt + k * r.delay) r.delay ≤ t.ticks → NoCarry (r.addedAt + k * r.delay) r.delay := by
  obtain ⟨hgood, -⟩ := run_good init_good hclean hrun
  exact (hgood.1.record hr).onTime_iff (hgood.later hnode hr) hd

/-- A timer that repeats after two seconds, over four ticks. -/
theorem on_time_iff_twice : ∃ t r, run step init [.add 2 true 0, .tick, .tick, .ret, .tick, .tick, .ret] = some t ∧
    t.log[0]? = some r ∧ r.fires = [4, 2] ∧ OnTime t.ticks r := by
  obtain ⟨t, ht⟩ := Option.isSome_iff_exists.mp (by decide :
    (run step init [.add 2 true 0, .tick, .tick, .ret, .tick, .tick, .ret]).isSome = true)
  have hfacts : (run step init [.add 2 true 0, .tick, .tick, .ret, .tick, .tick, .ret]).map
      (fun t => (t.node, t.log)) = some (none, [⟨1, 2, true, 0, [4, 2]⟩]) := by
    decide
  rw [ht, Option.map_some, Option.some.injEq, Prod.mk.injEq] at hfacts
  obtain ⟨hnode, hlog⟩ := hfacts
  have hr : t.log[0]? = some ⟨1, 2, true, 0, [4, 2]⟩ := by
    rw [hlog]
    rfl
  refine ⟨t, _, ht, hr, rfl, (on_time_iff (by decide) ht hnode hr (by decide)).mpr fun k _ _ => ?_⟩
  simp [NoCarry, CarriesMinute, CarriesHour, CarriesDay]

/-- One tick, then a timer with a delay of 119 seconds, and 59 more ticks. -/
def minuteEarly : List TimerLabel :=
  .tick :: .add 119 false 0 :: (List.replicate 59 .tick ++ [.ret])

/-- The seconds add up to a minute, which is dropped: the callback is invoked after 59 ticks. -/
theorem minuteEarly_fires : ∃ t r, run step init minuteEarly = some t ∧ t.node = none ∧ t.ticks = 60 ∧
    t.log[0]? = some r ∧ r.delay = 119 ∧ r.addedAt = 1 ∧ r.fires = [60] ∧ ¬ OnTime t.ticks r := by
  obtain ⟨t, ht⟩ := Option.isSome_iff_exists.mp (by decide +kernel : (run step init minuteEarly).isSome = true)
  have hfacts : (run step init minuteEarly).map (fun t => (t.node, t.ticks, t.log)) =
      some (none, 60, [⟨1, 119, false, 1, [60]⟩]) := by
    decide +kernel
  rw [ht, Option.map_some, Option.some.injEq, Prod.mk.injEq, Prod.mk.injEq] at hfacts
  obtain ⟨hnode, hticks, hlog⟩ := hfacts
  refine ⟨t, ⟨1, 119, false, 1, [60]⟩, ht, hnode, hticks, ?_, rfl, rfl, rfl, ?_⟩
  · rw [hlog]
    rfl
  · rw [hticks]
    unfold OnTime
    decide

/-! ## Cancellation -/

/-- What is asked of a cancellation of timer `c`, of the state `t` before it, the state at the end of the
    run, and the state at the end of the same run without it. -/
def Cancelled (c : Nat) (t final without : Timer) : Prop :=
  ((final.log[c]?).map (·.fires) = (t.log[c]?).map (·.fires)) ∧ ∀ c', c' ≠ c → final.log[c']? = without.log[c']?

/-- **A cancelled timer is silent exactly until it comes up.** `del_timer` changes nothing, so the other
    timers fire as they would have, and so does the cancelled one: the run is one in which it is silent if and
    only if the run ends before the tick at which the timer comes up next. -/
theorem del_timer_iff {before after : List TimerLabel} {t final : Timer} {c : Nat} {r : TimerRecord}
    (hclean : Along step Clean init (before ++ .del r.id :: after)) (hbefore : run step init before = some t)
    (hr : t.log[c]? = some r) (hp : r.Pending) (hafter : run step t (.del r.id :: after) = some final)
    (hnode : final.node = none) :
    (∃ without, run step t after = some without ∧ Cancelled c t final without) ↔
      t.ticks + after.count .tick < r.due := by
  obtain ⟨hclean₁, hclean₂⟩ := (along_append hbefore).mp hclean
  have hgood := (run_good init_good hclean₁ hbefore).1
  obtain ⟨hfinal, hticks, hgrown⟩ := run_good hgood hclean₂ hafter
  have hskip : run step t (.del r.id :: after) = run step t after := by
    show (t.delTimer r.id).bind _ = _
    rw [delTimer_eq hgood.1]
    rfl
  have hcount : (TimerLabel.del r.id :: after).count .tick = after.count .tick :=
    List.count_cons_of_ne (by simp)
  rw [hcount] at hticks
  obtain ⟨newer, hr'⟩ := hgrown c r hr
  have hrecord := hfinal.1.record hr'
  rw [← hticks]
  constructor
  · rintro ⟨without, -, hsilent, -⟩
    rw [hr', hr] at hsilent
    have hnone : newer = [] := by
      simpa using hsilent
    subst hnone
    exact hfinal.later hnode hr' hp
  · intro hbound
    have hnone : newer = [] := by
      by_contra hne
      have hdue := hrecord.past r.due (List.mem_append_left _ (Fires.due_mem hrecord.fired hne))
      omega
    subst hnone
    refine ⟨final, hskip ▸ hafter, ?_, fun _ _ => rfl⟩
    rw [hr', hr]
    rfl

/-- A timer due in five ticks is cancelled and the run ends after two. -/
theorem del_timer_iff_early : ∃ t final without, run step init [.add 5 false 0, .tick] = some t ∧
    run step t [.del 1, .tick, .tick] = some final ∧ run step t [.tick, .tick] = some without ∧
    Cancelled 0 t final without := by
  obtain ⟨t, ht⟩ := Option.isSome_iff_exists.mp (by decide :
    (run step init [.add 5 false 0, .tick]).isSome = true)
  obtain ⟨final, hfinal⟩ := Option.isSome_iff_exists.mp (by decide :
    ((run step init [.add 5 false 0, .tick]).bind fun t => run step t [.del 1, .tick, .tick]).isSome = true)
  have hlog : (run step init [.add 5 false 0, .tick]).map (fun t => (t.ticks, t.log)) =
      some (1, [⟨1, 5, false, 0, []⟩]) := by
    decide
  have hnode : ((run step init [.add 5 false 0, .tick]).bind fun t =>
      run step t [.del 1, .tick, .tick]).map (·.node) = some none := by
    decide
  rw [hfinal, Option.map_some, Option.some.injEq] at hnode
  rw [ht, Option.bind_some] at hfinal
  rw [ht, Option.map_some, Option.some.injEq, Prod.mk.injEq] at hlog
  have hr : t.log[0]? = some ⟨1, 5, false, 0, []⟩ := by
    rw [hlog.2]
    rfl
  have hclean : Along step Clean init ([.add 5 false 0, .tick] ++ .del 1 :: [.tick, .tick]) := by decide
  obtain ⟨without, hwithout, hcancelled⟩ :=
    (del_timer_iff hclean ht hr (.inr rfl) hfinal hnode).mpr (by rw [hlog.1]; decide)
  exact ⟨t, final, without, ht, hfinal, hwithout, hcancelled⟩

/-- A timer that was cancelled before its tick fires all the same. -/
theorem cancelled_fires : ∃ t final, run step init [.add 1 false 0] = some t ∧
    run step t [.del 1, .tick, .ret] = some final ∧ final.node = none ∧
    t.log = [⟨1, 1, false, 0, []⟩] ∧ final.log = [⟨1, 1, false, 0, [1]⟩] ∧
    ∀ without, ¬ Cancelled 0 t final without := by
  obtain ⟨t, ht⟩ := Option.isSome_iff_exists.mp (by decide : (run step init [.add 1 false 0]).isSome = true)
  have hlog : (run step init [.add 1 false 0]).map (·.log) = some [⟨1, 1, false, 0, []⟩] := by decide
  have hfacts : ((run step init [.add 1 false 0]).bind fun t => run step t [.del 1, .tick, .ret]).map
      (fun t => (t.node, t.log)) = some (none, [⟨1, 1, false, 0, [1]⟩]) := by
    decide
  rw [ht, Option.map_some, Option.some.injEq] at hlog
  rw [ht, Option.bind_some, Option.map_eq_some_iff] at hfacts
  obtain ⟨final, hfinal, heq⟩ := hfacts
  rw [Prod.mk.injEq] at heq
  refine ⟨t, final, ht, hfinal, heq.1, hlog, heq.2, ?_⟩
  rintro without ⟨hsilent, -⟩
  rw [heq.2, hlog] at hsilent
  exact absurd hsilent (by decide)

end Timer

end Mowang
