import Mathlib.Data.List.Count
import Mathlib.Tactic.Common

/-!
# `Base.Run` — runs of a transition system, and traces of guarded events

A system is a step function `S → L → Option S`; a label carries every choice of the environment and the
scheduler, so a run is a list of labels, and what holds of every interleaving is said of every list.

A trace lists the events of a run, the newest first. `Guarded ok` says that each event was allowed, by
`ok`, at the moment it happened. What `ok` asks of the past turns into statements about the order and
the number of events (`Guarded.before`, `Guarded.count_le_one`, `Guarded.not_after`).

## Contents
- `run`, `run_append`, `Along`, `along_cons`, `run_invariant`, `run_invariant_along`, `runs_along`, `simulates_along`,
  `along_of_not_bad`.
- `forall_passed_cons`, `good_iff_along`, `total_good_iff_along_of`, `total_good_iff_along`,
  `total_good_iff_along_of_defined`, `sound_iff_along`.
- `Along.mono`, `along_congr`, `Along.and_labels`, `Along.last`, `along_append`.
- `Guarded` and its consequences.
-/

section Runs

variable {S L : Type}

/-- Take the steps of `labels` in order. -/
def run (step : S → L → Option S) (s : S) : List L → Option S
  | []          => some s
  | l :: labels => (step s l).bind fun s => run step s labels

/-- A run of two parts. -/
theorem run_append (step : S → L → Option S) (s : S) (labels labels' : List L) :
    run step s (labels ++ labels') = (run step s labels).bind fun s => run step s labels' := by
  induction labels generalizing s with
  | nil => rfl
  | cons l labels ih =>
      show (step s l).bind _ = ((step s l).bind _).bind _
      rw [Option.bind_assoc]
      exact congrArg _ (funext fun s' => ih s')

/-- Every step of the run meets `P`, a condition on the state before it and its label. -/
def Along (step : S → L → Option S) (P : S → L → Prop) (s : S) : List L → Prop
  | []          => True
  | l :: labels => P s l ∧ ∀ s', step s l = some s' → Along step P s' labels

/-- A condition along a run, split at its first step. -/
theorem along_cons {step : S → L → Option S} {P : S → L → Prop} {s s₁ : S} {l : L} (hl : step s l = some s₁)
    {labels : List L} : Along step P s (l :: labels) ↔ P s l ∧ Along step P s₁ labels := by
  refine and_congr_right fun _ => ⟨fun hrest => hrest s₁ hl, fun hrest s' hl' => ?_⟩
  rw [hl] at hl'
  cases hl'
  exact hrest

instance instDecidableAlong {step : S → L → Option S} {P : S → L → Prop} [∀ s l, Decidable (P s l)] :
    ∀ s labels, Decidable (Along step P s labels)
  | _, []          => isTrue trivial
  | s, l :: labels =>
    match h : step s l with
    | none    => decidable_of_iff (P s l) (by simp [Along, h])
    | some s' =>
      have : Decidable (Along step P s' labels) := instDecidableAlong s' labels
      decidable_of_iff (P s l ∧ Along step P s' labels) (by simp [Along, h])

/-- **Invariants under a condition.** What every step that meets `P` preserves holds at the end of every
    run whose steps all meet `P`. -/
theorem run_invariant_along {step : S → L → Option S} {P : S → L → Prop} {I : S → Prop}
    (hstep : ∀ {s l s'}, I s → P s l → step s l = some s' → I s') {s s' : S} {labels : List L}
    (hs : I s) (hP : Along step P s labels) (hrun : run step s labels = some s') : I s' := by
  induction labels generalizing s with
  | nil =>
      cases hrun
      exact hs
  | cons l labels ih =>
      obtain ⟨s₁, hl, hrest⟩ := Option.bind_eq_some_iff.mp hrun
      exact ih (hstep hs hP.1 hl) (hP.2 s₁ hl) hrest

/-- **Progress under a condition.** If every step that meets `P` does not fail and keeps `I`, neither does a run whose
    steps all meet `P`. -/
theorem runs_along {step : S → L → Option S} {P : S → L → Prop} {I : S → Prop}
    (hstep : ∀ {s l}, I s → P s l → ∃ s', step s l = some s' ∧ I s') {s : S} {labels : List L} (hs : I s)
    (hP : Along step P s labels) : ∃ s', run step s labels = some s' ∧ I s' := by
  induction labels generalizing s with
  | nil => exact ⟨s, rfl, hs⟩
  | cons l labels ih =>
      obtain ⟨s₁, hl, hs₁⟩ := hstep hs hP.1
      obtain ⟨s', hrest, hs'⟩ := ih hs₁ (hP.2 s₁ hl)
      exact ⟨s', Option.bind_eq_some_iff.mpr ⟨s₁, hl, hrest⟩, hs'⟩

/-- **Simulation under a condition.** If every step of a specification is one of the system where the step meets `P`, so
    is every run of it where all steps do. -/
theorem simulates_along {T : Type} {step : S → L → Option S} {spec : T → L → Option T} {P : S → L → Prop}
    {R : S → T → Prop}
    (hstep : ∀ {s t l t'}, R s t → spec t l = some t' → P s l → ∃ s', step s l = some s' ∧ R s' t') {s : S} {t t' : T}
    {labels : List L} (hR : R s t) (hspec : run spec t labels = some t') (hP : Along step P s labels) :
    ∃ s', run step s labels = some s' ∧ R s' t' := by
  induction labels generalizing s t with
  | nil =>
      cases hspec
      exact ⟨s, rfl, hR⟩
  | cons l labels ih =>
      obtain ⟨t₁, hl, hrest⟩ := Option.bind_eq_some_iff.mp hspec
      obtain ⟨s₁, hs₁, hR₁⟩ := hstep hR hl hP.1
      obtain ⟨s', hrun, hR'⟩ := ih hR₁ hrest (hP.2 s₁ hs₁)
      exact ⟨s', Option.bind_eq_some_iff.mpr ⟨s₁, hs₁, hrun⟩, hR'⟩

theorem along_true (step : S → L → Option S) (s : S) (labels : List L) :
    Along step (fun _ _ => True) s labels := by
  induction labels generalizing s with
  | nil => trivial
  | cons l labels ih => exact ⟨trivial, fun s' _ => ih s'⟩

/-- **Invariants.** What every step preserves holds at the end of every run. -/
theorem run_invariant {step : S → L → Option S} {I : S → Prop}
    (hstep : ∀ {s l s'}, I s → step s l = some s' → I s') {s s' : S} {labels : List L}
    (hs : I s) (hrun : run step s labels = some s') : I s' :=
  run_invariant_along (fun hI _ hl => hstep hI hl) hs (along_true step s labels) hrun

/-- **Exactness of a condition.** If every step against `P` leads to a state from which no run ends
    outside `B`, a run that ends outside `B` took no step against `P`. -/
theorem along_of_not_bad {step : S → L → Option S} {P : S → L → Prop} {I B : S → Prop}
    (hinv : ∀ {s l s'}, I s → P s l → step s l = some s' → I s')
    (hbad : ∀ {s l s'}, I s → ¬ P s l → step s l = some s' → B s')
    (hstay : ∀ {s l s'}, B s → step s l = some s' → B s') {s s' : S} {labels : List L}
    (hs : I s) (hrun : run step s labels = some s') (hend : ¬ B s') : Along step P s labels := by
  induction labels generalizing s with
  | nil => trivial
  | cons l labels ih =>
      obtain ⟨s₁, hl, hrest⟩ := Option.bind_eq_some_iff.mp hrun
      have hP : P s l := by
        by_contra hP
        exact hend (run_invariant hstay (hbad hs hP hl) hrest)
      refine ⟨hP, ?_⟩
      intro s₂ hl₂
      rw [hl] at hl₂
      cases hl₂
      exact ih (hinv hs hP hl) hrest

/-- What holds of the states that a run passes through, split at its first step. -/
theorem forall_passed_cons {step : S → L → Option S} {Good : S → Prop} {s s₁ : S} {l : L} (hl : step s l = some s₁)
    (labels : List L) :
    (∀ pre, pre <+: l :: labels → ∀ s₂, run step s pre = some s₂ → Good s₂) ↔
      Good s ∧ ∀ pre, pre <+: labels → ∀ s₂, run step s₁ pre = some s₂ → Good s₂ := by
  have hrun : ∀ pre, run step s (l :: pre) = run step s₁ pre := by
    intro pre
    show (step s l).bind _ = _
    rw [hl, Option.bind_some]
  constructor
  · intro hall
    refine ⟨hall [] List.nil_prefix s rfl, fun pre hpre s₂ hs₂ => ?_⟩
    refine hall (l :: pre) (List.cons_prefix_cons.mpr ⟨rfl, hpre⟩) s₂ ?_
    rw [hrun]
    exact hs₂
  · rintro ⟨hs, hall⟩ pre hpre s₂ hs₂
    cases pre with
    | nil =>
        cases hs₂
        exact hs
    | cons l' pre =>
        obtain ⟨rfl, htail⟩ := List.cons_prefix_cons.mp hpre
        rw [hrun] at hs₂
        exact hall pre htail s₂ hs₂

/-- A run passes through its first state. -/
theorem forall_passed_nil {step : S → L → Option S} {Good : S → Prop} {s : S} (hs : Good s) :
    ∀ pre, pre <+: [] → ∀ s₁, run step s pre = some s₁ → Good s₁ := by
  intro pre hpre s₁ hs₁
  rw [List.prefix_nil.mp hpre] at hs₁
  cases hs₁
  exact hs

/-- **Exactness, state by state.** If a step from a good state leads to a good one exactly when it meets
    `P`, a run passes through good states only exactly when all its steps meet `P`. -/
theorem good_iff_along {step : S → L → Option S} {P : S → L → Prop} {I Good : S → Prop}
    (hinv : ∀ {s l s'}, I s → step s l = some s' → I s')
    (hgood : ∀ {s l s'}, I s → Good s → step s l = some s' → (Good s' ↔ P s l)) {s s' : S}
    {labels : List L} (hs : I s) (hstart : Good s) (hrun : run step s labels = some s') :
    (∀ pre, pre <+: labels → ∀ s₁, run step s pre = some s₁ → Good s₁) ↔ Along step P s labels := by
  induction labels generalizing s with
  | nil => exact iff_of_true (forall_passed_nil hstart) trivial
  | cons l labels ih =>
      obtain ⟨s₁, hl, hrest⟩ := Option.bind_eq_some_iff.mp hrun
      have hhead := hgood hs hstart hl
      rw [forall_passed_cons hl]
      constructor
      · rintro ⟨_, hall⟩
        have hgood₁ : Good s₁ := hall [] List.nil_prefix s₁ rfl
        refine ⟨hhead.mp hgood₁, fun s₂ hl₂ => ?_⟩
        rw [hl] at hl₂
        cases hl₂
        exact (ih (hinv hs hl) hgood₁ hrest).mp hall
      · rintro ⟨hP, halong⟩
        exact ⟨hstart, (ih (hinv hs hl) (hhead.mpr hP) hrest).mpr (halong s₁ hl)⟩

/-- **Exactness, state by state and with faults,** of runs whose steps all meet `H`. If the steps from a good state that
    do not fail and lead to a good one are exactly those that meet `P`, a run does not fail and passes through good
    states only exactly when all its steps meet `P`. -/
theorem total_good_iff_along_of {step : S → L → Option S} {H P : S → L → Prop} {I Good : S → Prop}
    (hinv : ∀ {s l s'}, I s → H s l → step s l = some s' → I s')
    (hstep : ∀ {s l}, I s → Good s → H s l → ((∃ s', step s l = some s' ∧ Good s') ↔ P s l)) {s : S} (hs : I s)
    (hstart : Good s) {labels : List L} (hH : Along step H s labels) :
    (∃ s', run step s labels = some s' ∧ ∀ pre, pre <+: labels → ∀ s₁, run step s pre = some s₁ → Good s₁) ↔
      Along step P s labels := by
  induction labels generalizing s with
  | nil => exact iff_of_true ⟨s, rfl, forall_passed_nil hstart⟩ trivial
  | cons l labels ih =>
      constructor
      · rintro ⟨s', hrun, hall⟩
        obtain ⟨s₁, hl, hrest⟩ := Option.bind_eq_some_iff.mp hrun
        obtain ⟨_, hall⟩ := (forall_passed_cons hl labels).mp hall
        have hgood₁ : Good s₁ := hall [] List.nil_prefix s₁ rfl
        refine ⟨(hstep hs hstart hH.1).mp ⟨s₁, hl, hgood₁⟩, fun s₂ hl₂ => ?_⟩
        rw [hl] at hl₂
        cases hl₂
        exact (ih (hinv hs hH.1 hl) hgood₁ (hH.2 s₁ hl)).mp ⟨s', hrest, hall⟩
      · rintro ⟨hP, halong⟩
        obtain ⟨s₁, hl, hgood₁⟩ := (hstep hs hstart hH.1).mpr hP
        obtain ⟨s', hrest, hall⟩ := (ih (hinv hs hH.1 hl) hgood₁ (hH.2 s₁ hl)).mpr (halong s₁ hl)
        exact ⟨s', Option.bind_eq_some_iff.mpr ⟨s₁, hl, hrest⟩, (forall_passed_cons hl labels).mpr ⟨hstart, hall⟩⟩

/-- The same, of all runs. -/
theorem total_good_iff_along {step : S → L → Option S} {P : S → L → Prop} {I Good : S → Prop}
    (hinv : ∀ {s l s'}, I s → step s l = some s' → I s')
    (hstep : ∀ {s l}, I s → Good s → ((∃ s', step s l = some s' ∧ Good s') ↔ P s l)) {s : S} (hs : I s)
    (hstart : Good s) (labels : List L) :
    (∃ s', run step s labels = some s' ∧ ∀ pre, pre <+: labels → ∀ s₁, run step s pre = some s₁ → Good s₁) ↔
      Along step P s labels :=
  total_good_iff_along_of (fun hs _ hl => hinv hs hl) (fun hs hg _ => hstep hs hg) hs hstart (along_true step s labels)

/-- The same, of a system whose steps do not fail. -/
theorem total_good_iff_along_of_defined {step : S → L → Option S} {P : S → L → Prop} {I Good : S → Prop}
    (hdefined : ∀ s l, ∃ s', step s l = some s') (hinv : ∀ {s l s'}, I s → step s l = some s' → I s')
    (hstep : ∀ {s l s'}, I s → Good s → step s l = some s' → (Good s' ↔ P s l)) {s : S} (hs : I s) (hstart : Good s)
    (labels : List L) :
    (∃ s', run step s labels = some s' ∧ ∀ pre, pre <+: labels → ∀ s₁, run step s pre = some s₁ → Good s₁) ↔
      Along step P s labels := by
  refine total_good_iff_along hinv (fun {s l} hs hgood => ?_) hs hstart labels
  obtain ⟨s', h⟩ := hdefined s l
  rw [← hstep hs hgood h, h]
  constructor
  · rintro ⟨s'', heq, hgood'⟩
    cases heq
    exact hgood'
  · intro hgood'
    exact ⟨s', rfl, hgood'⟩

/-- **Exactness with faults.** `Sound` cannot be restored once it is lost. If the steps that keep it are exactly those
    that meet `P`, a run does not fail and ends in a sound state exactly when all its steps meet `P`. -/
theorem sound_iff_along {step : S → L → Option S} {P : S → L → Prop} {I Sound : S → Prop}
    (hstep : ∀ {s l}, I s → ((∃ s', step s l = some s' ∧ Sound s') ↔ P s l))
    (hinv : ∀ {s l s'}, I s → P s l → step s l = some s' → I s')
    (hback : ∀ {s l s'}, step s l = some s' → Sound s' → Sound s) {s : S} (hs : I s) (hsound : Sound s)
    (labels : List L) : (∃ s', run step s labels = some s' ∧ Sound s') ↔ Along step P s labels := by
  induction labels generalizing s with
  | nil => exact ⟨fun _ => trivial, fun _ => ⟨s, rfl, hsound⟩⟩
  | cons l labels ih =>
      constructor
      · rintro ⟨s', hrun, hs'⟩
        obtain ⟨s₁, hl, hrest⟩ := Option.bind_eq_some_iff.mp hrun
        have hsound₁ : Sound s₁ := by
          by_contra hnot
          have hstay : ∀ {s l s'}, ¬ Sound s → step s l = some s' → ¬ Sound s' :=
            fun hnot hl hs => hnot (hback hl hs)
          exact run_invariant hstay hnot hrest hs'
        have hP : P s l := (hstep hs).mp ⟨s₁, hl, hsound₁⟩
        refine ⟨hP, fun s₂ hl₂ => ?_⟩
        rw [hl] at hl₂
        cases hl₂
        exact (ih (hinv hs hP hl) hsound₁).mp ⟨s', hrest, hs'⟩
      · rintro ⟨hP, halong⟩
        obtain ⟨s₁, hl, hsound₁⟩ := (hstep hs).mpr hP
        obtain ⟨s', hrest, hs'⟩ := (ih (hinv hs hP hl) hsound₁).mpr (halong s₁ hl)
        exact ⟨s', Option.bind_eq_some_iff.mpr ⟨s₁, hl, hrest⟩, hs'⟩

/-- In the states of an invariant a condition may be weakened. -/
theorem Along.mono {step : S → L → Option S} {P Q : S → L → Prop} {I : S → Prop}
    (hinv : ∀ {s l s'}, I s → step s l = some s' → I s') (hPQ : ∀ {s l}, I s → P s l → Q s l)
    {s : S} {labels : List L} (hs : I s) (hP : Along step P s labels) : Along step Q s labels := by
  induction labels generalizing s with
  | nil => trivial
  | cons l labels ih =>
      refine ⟨hPQ hs hP.1, ?_⟩
      intro s' hl
      exact ih (hinv hs hl) (hP.2 s' hl)

/-- Two conditions that say the same in every state of an invariant hold along the same runs. -/
theorem along_congr {step : S → L → Option S} {P Q : S → L → Prop} {I : S → Prop}
    (hinv : ∀ {s l s'}, I s → step s l = some s' → I s') (hPQ : ∀ {s l}, I s → (P s l ↔ Q s l))
    {s : S} (hs : I s) (labels : List L) : Along step P s labels ↔ Along step Q s labels :=
  ⟨Along.mono hinv (fun hI => (hPQ hI).mp) hs, Along.mono hinv (fun hI => (hPQ hI).mpr) hs⟩

/-- A condition along a run, and one on its labels. -/
theorem Along.and_labels {step : S → L → Option S} {P : S → L → Prop} {Q : L → Prop} {s : S} {labels : List L}
    (hP : Along step P s labels) (hQ : ∀ l ∈ labels, Q l) : Along step (fun s l => P s l ∧ Q l) s labels := by
  induction labels generalizing s with
  | nil => trivial
  | cons l labels ih =>
      refine ⟨⟨hP.1, hQ l List.mem_cons_self⟩, ?_⟩
      intro s' hl
      exact ih (hP.2 s' hl) fun l' hl' => hQ l' (List.mem_cons_of_mem l hl')

/-- A condition along a run of two parts. -/
theorem along_append {step : S → L → Option S} {P : S → L → Prop} {s s' : S} {labels labels' : List L}
    (hrun : run step s labels = some s') :
    Along step P s (labels ++ labels') ↔ Along step P s labels ∧ Along step P s' labels' := by
  induction labels generalizing s with
  | nil =>
      cases hrun
      exact (and_iff_right trivial).symm
  | cons l labels ih =>
      obtain ⟨s₁, hl, hrest⟩ := Option.bind_eq_some_iff.mp hrun
      rw [List.cons_append, along_cons hl, along_cons hl, ih hrest, and_assoc]

/-- What holds along a run holds of its last step. -/
theorem Along.last {step : S → L → Option S} {P : S → L → Prop} {s s' : S} {labels : List L} {l : L}
    (hP : Along step P s (labels ++ [l])) (hrun : run step s labels = some s') : P s' l :=
  ((along_append hrun).mp hP).2.1

end Runs

section Traces

variable {E : Type} {ok : E → List E → Prop}

/-- Each event of the trace was allowed by `ok` after the events that came before it. -/
def Guarded (ok : E → List E → Prop) : List E → Prop
  | []         => True
  | e :: trace => ok e trace ∧ Guarded ok trace

/-- An event was allowed after the older part of the trace. -/
theorem Guarded.before {newer older : List E} {e : E} (h : Guarded ok (newer ++ e :: older)) : ok e older := by
  induction newer with
  | nil => exact h.1
  | cons _ newer ih => exact ih h.2

/-- Of the events of a kind only the first is allowed. -/
theorem Guarded.countP_le_one {trace : List E} {p : E → Bool} (h : Guarded ok trace)
    (honce : ∀ e older, ok e older → p e = true → older.countP p = 0) : trace.countP p ≤ 1 := by
  induction trace with
  | nil => simp
  | cons e trace ih =>
      rw [List.countP_cons]
      split
      · rename_i hp
        exact Nat.le_of_eq (congrArg (· + 1) (honce e trace h.1 hp))
      · exact ih h.2

/-- An event that is allowed only once. -/
theorem Guarded.count_le_one [DecidableEq E] {trace : List E} {e : E} (h : Guarded ok trace)
    (honce : ∀ older, ok e older → e ∉ older) : trace.count e ≤ 1 := by
  apply h.countP_le_one
  intro e' older hok heq
  obtain rfl := eq_of_beq heq
  exact List.count_eq_zero_of_not_mem (honce older hok)

/-- An event that is no longer allowed once `e` has happened does not come after `e`. -/
theorem Guarded.not_after {newer older : List E} {e e' : E} (h : Guarded ok (newer ++ e :: older))
    (hnot : ∀ trace, ok e' trace → e ∉ trace) : e' ∉ newer := by
  induction newer with
  | nil => simp
  | cons e₁ newer ih =>
      rw [List.mem_cons, not_or]
      refine ⟨?_, ih h.2⟩
      rintro rfl
      exact hnot _ h.1 (by simp)

end Traces
