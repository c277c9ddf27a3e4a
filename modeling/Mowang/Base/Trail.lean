import Mowang.Base.Run

/-!
# `Base.Trail` — what the steps of a run put out

A system that puts something out from time to time keeps it in its state. If each step adds one output at most, and
always for a reason that shows in the state before it and its label, then the outputs of a run have their reasons in it,
in the same order, one each.

## Contents
- `trail`.
- `outputs_of_trail`.
-/

section Trail

variable {S L O : Type} {step : S → L → Option S} {s s' : S} {labels : List L}

/-- The steps of a run, each with the state before it. -/
def trail (step : S → L → Option S) (s : S) : List L → List (S × L)
  | []          => []
  | l :: labels =>
    (s, l) :: match step s l with
      | some s' => trail step s' labels
      | none    => []

/-- **Outputs.** What a run has put out is one output for each of some of its steps, in the order of the steps. -/
theorem outputs_of_trail {out : S → List O} {R : S × L → O → Prop}
    (hstep : ∀ {s l s'}, step s l = some s' → out s' = out s ∨ ∃ o, out s' = out s ++ [o] ∧ R (s, l) o)
    (hrun : run step s labels = some s') :
    ∃ causes os, out s' = out s ++ os ∧ causes.Sublist (trail step s labels) ∧ List.Forall₂ R causes os := by
  induction labels generalizing s with
  | nil =>
      cases hrun
      exact ⟨[], [], (List.append_nil _).symm, .slnil, .nil⟩
  | cons l labels ih =>
      obtain ⟨s₁, hl, hrest⟩ := Option.bind_eq_some_iff.mp hrun
      obtain ⟨causes, os, hout, hsub, hall⟩ := ih hrest
      have htrail : trail step s (l :: labels) = (s, l) :: trail step s₁ labels := by rw [trail, hl]
      rcases hstep hl with hsame | ⟨o, hone, hR⟩
      · exact ⟨causes, os, by rw [hout, hsame], htrail ▸ hsub.cons _, hall⟩
      · refine ⟨(s, l) :: causes, o :: os, ?_, htrail ▸ hsub.cons_cons _, .cons hR hall⟩
        rw [hout, hone, List.append_assoc, List.singleton_append]

end Trail
