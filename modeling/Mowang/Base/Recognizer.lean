import Mathlib.Tactic.Common
import Mathlib.Data.List.Basic

/-!
# `Base.Recognizer` — recognizers that take one element at a time

A recognizer looks at each element once and says `good`, `bad`, or that it needs more. It stops at its first verdict.

Where every state that is reached can still come to `good` (`Live`), the verdict on an input is the earliest possible:
`bad` is said at the first element that no word goes on with.

## Contents
- `parse`, `Passes`; `parse_append`, `parse_of_passes`, `bad_of_passes`.
- `Accepts`, `good_iff`, `Live`, `indeterminate_iff`, `bad_iff`.
- `Accepts.unique`; `Accepts.expects`, `Loop`, `Loop.during`, `Loop.passes`, `Loop.split`.
-/

namespace Recognizer

/-- What is known after an element. -/
inductive ResultType
  | good | bad | indeterminate
deriving DecidableEq

section Parse

variable {σ α : Type} {consume : σ → α → ResultType × σ} {s s' : σ} {word input more : List α}

/-- The elements of an input up to a verdict; the input that is left begins behind the last element taken. -/
def parse (consume : σ → α → ResultType × σ) (s : σ) : List α → ResultType × σ × List α
  | []         => (.indeterminate, s, [])
  | c :: input =>
    if (consume s c).1 = .indeterminate then parse consume (consume s c).2 input
    else ((consume s c).1, (consume s c).2, input)

/-- The word is taken without a verdict. -/
def Passes (consume : σ → α → ResultType × σ) (s s' : σ) (word : List α) : Prop :=
  parse consume s word = (.indeterminate, s', [])

theorem parse_cons_of_more {c : α} (h : consume s c = (.indeterminate, s')) (input : List α) :
    parse consume s (c :: input) = parse consume s' input := by
  rw [parse, h, if_pos rfl]

theorem parse_cons_of_verdict {c : α} {r : ResultType} (h : consume s c = (r, s')) (hr : r ≠ .indeterminate)
    (input : List α) : parse consume s (c :: input) = (r, s', input) := by
  rw [parse, h, if_neg hr]

theorem Passes.nil (s : σ) : Passes consume s s [] := rfl

theorem Passes.cons {c : α} {s₁ : σ} (h : consume s c = (.indeterminate, s₁)) (hword : Passes consume s₁ s' word) :
    Passes consume s s' (c :: word) := (parse_cons_of_more h word).trans hword

/-- An input goes on from where a first part has led. -/
theorem parse_of_passes (h : Passes consume s s' word) (input : List α) :
    parse consume s (word ++ input) = parse consume s' input := by
  induction word generalizing s with
  | nil =>
      cases h
      rfl
  | cons c word ih =>
      rw [Passes, parse] at h
      split at h
      · rename_i hmore
        rw [List.cons_append, parse, if_pos hmore]
        exact ih h
      · rename_i hverdict
        exact absurd (congrArg Prod.fst h) hverdict

theorem Passes.append {s₁ : σ} {word' : List α} (h : Passes consume s s₁ word) (h' : Passes consume s₁ s' word') :
    Passes consume s s' (word ++ word') := (parse_of_passes h word').trans h'

/-- Without a verdict everything is taken. -/
theorem passes_of_indeterminate (h : (parse consume s input).1 = .indeterminate) :
    Passes consume s (parse consume s input).2.1 input := by
  induction input generalizing s with
  | nil => rfl
  | cons c input ih =>
      rw [parse] at h
      split at h
      · rename_i hmore
        rw [Passes, parse, if_pos hmore]
        exact ih h
      · rename_i hverdict
        exact absurd h hverdict

/-- A verdict does not change with what follows. -/
theorem parse_append (h : (parse consume s input).1 ≠ .indeterminate) (more : List α) :
    parse consume s (input ++ more) =
      ((parse consume s input).1, (parse consume s input).2.1, (parse consume s input).2.2 ++ more) := by
  induction input generalizing s with
  | nil => exact absurd rfl h
  | cons c input ih =>
      rw [parse] at h
      rw [List.cons_append, parse, parse]
      split
      · rename_i hmore
        rw [if_pos hmore] at h
        exact ih h
      · rfl

/-- What is left is the end of the input. -/
theorem exists_taken (consume : σ → α → ResultType × σ) (s : σ) (input : List α) :
    ∃ word, input = word ++ (parse consume s input).2.2 ∧
      parse consume s word = ((parse consume s input).1, (parse consume s input).2.1, []) := by
  induction input generalizing s with
  | nil => exact ⟨[], rfl, rfl⟩
  | cons c input ih =>
      rw [parse]
      split
      · rename_i hmore
        obtain ⟨word, hword, hparse⟩ := ih (consume s c).2
        refine ⟨c :: word, congrArg (c :: ·) hword, ?_⟩
        rw [parse, if_pos hmore]
        exact hparse
      · rename_i hverdict
        refine ⟨[c], rfl, ?_⟩
        rw [parse, if_neg hverdict]

/-- An element that is refused decides, whatever follows. -/
theorem bad_of_passes {c : α} (h : Passes consume s s' word) (hc : (consume s' c).1 = .bad) (input : List α) :
    (parse consume s (word ++ c :: input)).1 = .bad := by
  rw [parse_of_passes h, parse, hc, if_neg ResultType.noConfusion]

/-! ## Words -/

/-- The word is taken whole, and its last element decides that it is good. -/
def Accepts (consume : σ → α → ResultType × σ) (s s' : σ) (word : List α) : Prop :=
  parse consume s word = (.good, s', [])

theorem Accepts.parse (h : Accepts consume s s' word) (more : List α) :
    parse consume s (word ++ more) = (.good, s', more) := by
  have hgood := congrArg Prod.fst h
  rw [parse_append (by rw [hgood]; exact ResultType.noConfusion), h]
  rfl

theorem Accepts.of_passes {s₁ : σ} {word' : List α} (h : Passes consume s s₁ word)
    (h' : Accepts consume s₁ s' word') : Accepts consume s s' (word ++ word') := (parse_of_passes h word').trans h'

/-- An input is good if it begins with a word. -/
theorem good_iff : (parse consume s input).1 = .good ↔ ∃ word s', Accepts consume s s' word ∧ word <+: input := by
  constructor
  · intro h
    obtain ⟨word, hinput, hword⟩ := exists_taken consume s input
    exact ⟨word, _, hword.trans (by rw [h]), _, hinput.symm⟩
  · rintro ⟨word, s', hword, more, rfl⟩
    rw [hword.parse]

/-- Two words with one beginning are the same. -/
theorem Accepts.unique {s₁ s₂ : σ} {word₁ word₂ more₁ more₂ : List α} (h₁ : Accepts consume s s₁ word₁)
    (h₂ : Accepts consume s s₂ word₂) (h : word₁ ++ more₁ = word₂ ++ more₂) :
    word₁ = word₂ ∧ s₁ = s₂ ∧ more₁ = more₂ := by
  have hboth := (h₁.parse more₁).symm.trans ((congrArg _ h).trans (h₂.parse more₂))
  have hmore : more₁ = more₂ := congrArg (fun r => r.2.2) hboth
  exact ⟨List.append_cancel_right (hmore ▸ h), congrArg (fun r => r.2.1) hboth, hmore⟩

/-- From every state that is reached, some word leads to `good`. -/
def Live (consume : σ → α → ResultType × σ) (s : σ) : Prop :=
  ∀ word s₁, Passes consume s s₁ word → ∃ word' s', Accepts consume s₁ s' word'

/-- More is needed if the input is a part of a word. -/
theorem indeterminate_iff (hlive : Live consume s) :
    (parse consume s input).1 = .indeterminate ↔
      ∃ word s', Accepts consume s s' word ∧ input <+: word ∧ input ≠ word := by
  constructor
  · intro h
    have hpasses := passes_of_indeterminate h
    obtain ⟨word', s', hword'⟩ := hlive input _ hpasses
    refine ⟨input ++ word', s', hword'.of_passes hpasses, List.prefix_append _ _, fun heq => ?_⟩
    have hnil : word' = [] := List.self_eq_append_right.mp heq
    subst hnil
    exact ResultType.noConfusion (congrArg Prod.fst hword')
  · rintro ⟨word, s', hword, ⟨more, rfl⟩, hne⟩
    by_contra h
    have hparse := (parse_append h more).symm.trans hword
    have hnil := (List.append_eq_nil_iff.mp (congrArg (fun r => r.2.2) hparse)).2
    exact hne (by rw [hnil, List.append_nil])

/-- An input is bad if it neither begins with a word nor is a part of one. -/
theorem bad_iff (hlive : Live consume s) :
    (parse consume s input).1 = .bad ↔ ∀ word s', Accepts consume s s' word → ¬ word <+: input ∧ ¬ input <+: word := by
  constructor
  · intro h word s' hword
    have hgood : ¬ word <+: input := fun hpre =>
      ResultType.noConfusion (h.symm.trans (good_iff.mpr ⟨word, s', hword, hpre⟩))
    refine ⟨hgood, fun hpre => ?_⟩
    have hne : input ≠ word := fun heq => hgood (heq ▸ List.prefix_refl _)
    exact ResultType.noConfusion (h.symm.trans ((indeterminate_iff hlive).mpr ⟨word, s', hword, hpre, hne⟩))
  · intro h
    cases hresult : (parse consume s input).1 with
    | bad => rfl
    | good =>
        obtain ⟨word, s', hword, hpre⟩ := good_iff.mp hresult
        exact absurd hpre (h word s' hword).1
    | indeterminate =>
        obtain ⟨word, s', hword, hpre, _⟩ := (indeterminate_iff hlive).mp hresult
        exact absurd hpre (h word s' hword).2

/-! ## The parts of a word -/

/-- A word is not empty, and its first element is one that is not refused. -/
theorem Accepts.head {ok : α → Prop} (h : Accepts consume s s' word) (hbad : ∀ c, ¬ ok c → (consume s c).1 = .bad) :
    ∃ c rest, word = c :: rest ∧ ok c := by
  cases word with
  | nil => exact ResultType.noConfusion (congrArg Prod.fst h)
  | cons c rest =>
      refine ⟨c, rest, rfl, ?_⟩
      by_contra hc
      have hverdict := hbad c hc
      rw [Accepts, Recognizer.parse, hverdict, if_neg ResultType.noConfusion] at h
      exact ResultType.noConfusion (congrArg Prod.fst h)

theorem Accepts.tail {c : α} {s₁ : σ} (h : Accepts consume s s' (c :: word))
    (hc : consume s c = (.indeterminate, s₁)) : Accepts consume s₁ s' word := (parse_cons_of_more hc word).symm.trans h

/-- Only one element is expected. -/
theorem Accepts.expects {c : α} {s₁ : σ} (h : Accepts consume s s' word) (hc : consume s c = (.indeterminate, s₁))
    (hbad : ∀ c', c' ≠ c → (consume s c').1 = .bad) : ∃ rest, word = c :: rest ∧ Accepts consume s₁ s' rest := by
  obtain ⟨c', rest, rfl, rfl⟩ := h.head hbad
  exact ⟨rest, rfl, h.tail hc⟩

/-- Elements of a class are taken up to one that ends them. -/
structure Loop (consume : σ → α → ResultType × σ) (taken : List α → σ) (ok : α → Prop) (stop : α)
    (next : List α → σ) : Prop where
  stops : ∀ v, consume (taken v) stop = (.indeterminate, next v)
  takes : ∀ v c, c ≠ stop → ok c → consume (taken v) c = (.indeterminate, taken (v ++ [c]))
  rejects : ∀ v c, c ≠ stop → ¬ ok c → (consume (taken v) c).1 = .bad

variable {taken next : List α → σ} {ok : α → Prop} {stop : α} {v w : List α}

/-- Elements of the class are taken. -/
theorem Loop.during (h : Loop consume taken ok stop next) (hw : ∀ c ∈ w, c ≠ stop ∧ ok c) :
    Passes consume (taken v) (taken (v ++ w)) w := by
  induction w generalizing v with
  | nil =>
      rw [List.append_nil]
      exact Passes.nil _
  | cons c w ih =>
      obtain ⟨⟨hne, hok⟩, hw⟩ := List.forall_mem_cons.mp hw
      rw [List.append_cons v c w]
      exact Passes.cons (h.takes v c hne hok) (ih hw)

theorem Loop.passes (h : Loop consume taken ok stop next) (hw : ∀ c ∈ w, c ≠ stop ∧ ok c) :
    Passes consume (taken v) (next (v ++ w)) (w ++ [stop]) :=
  (h.during hw).append (Passes.cons (h.stops _) (Passes.nil _))

theorem Loop.split (h : Loop consume taken ok stop next) (hword : Accepts consume (taken v) s' word) :
    ∃ w rest, word = w ++ stop :: rest ∧ (∀ c ∈ w, c ≠ stop ∧ ok c) ∧ Accepts consume (next (v ++ w)) s' rest := by
  induction word generalizing v with
  | nil => exact ResultType.noConfusion (congrArg Prod.fst hword)
  | cons c word ih =>
      by_cases hstop : c = stop
      · subst hstop
        refine ⟨[], word, rfl, List.forall_mem_nil _, ?_⟩
        rw [List.append_nil]
        exact hword.tail (h.stops v)
      · obtain ⟨c', rest, hcons, hok⟩ := @Accepts.head _ _ _ _ _ _ (fun c => c = stop ∨ ok c) hword fun c hc =>
          h.rejects v c (fun heq => hc (Or.inl heq)) fun hok => hc (Or.inr hok)
        obtain ⟨rfl, rfl⟩ := List.cons.inj hcons
        have hok : ok c := hok.resolve_left hstop
        obtain ⟨w, rest, rfl, hw, hrest⟩ := ih (hword.tail (h.takes v c hstop hok))
        refine ⟨c :: w, rest, rfl, List.forall_mem_cons.mpr ⟨⟨hstop, hok⟩, hw⟩, ?_⟩
        rwa [List.append_cons v c w]

end Parse

end Recognizer
