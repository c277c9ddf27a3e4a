import Mathlib.Data.List.Basic
import Mathlib.Tactic.Common

/-!
# `Base.Escapes` — texts with escapes

An escape is a mark and two characters behind it. A text of plain characters and escapes is `Escaped`, by what a plain
character and a digit of an escape may be. Read from its start, any text is `Whole`, or ends inside an escape.

## Contents
- `Escaped`, `Escaped.append`, `Escaped.mono`.
- `Whole`, `whole_or_cut`.
-/

namespace Escapes

variable {α : Type}

/-- Plain characters, and escapes: the mark, and two digits. -/
inductive Escaped (mark : α) (Plain Digit : α → Prop) : List α → Prop
  | nil : Escaped mark Plain Digit []
  | plain {c : α} {text : List α} (hc : Plain c) (h : Escaped mark Plain Digit text) :
      Escaped mark Plain Digit (c :: text)
  | escape {high low : α} {text : List α} (hhigh : Digit high) (hlow : Digit low) (h : Escaped mark Plain Digit text) :
      Escaped mark Plain Digit (mark :: high :: low :: text)

variable {mark : α} {Plain Plain' Digit Digit' : α → Prop} {text : List α}

theorem Escaped.append {text' : List α} (h : Escaped mark Plain Digit text) (h' : Escaped mark Plain Digit text') :
    Escaped mark Plain Digit (text ++ text') := by
  induction h with
  | nil => exact h'
  | plain hc _ ih => exact .plain hc ih
  | escape hhigh hlow _ ih => exact .escape hhigh hlow ih

theorem Escaped.mono (h : Escaped mark Plain Digit text) (hplain : ∀ c, Plain c → Plain' c)
    (hdigit : ∀ c, Digit c → Digit' c) : Escaped mark Plain' Digit' text := by
  induction h with
  | nil => exact .nil
  | plain hc _ ih => exact .plain (hplain _ hc) ih
  | escape hhigh hlow _ ih => exact .escape (hdigit _ hhigh) (hdigit _ hlow) ih

/-- No escape is cut off at the end. -/
def Whole (mark : α) : List α → Prop := Escaped mark (· ≠ mark) fun _ => True

/-- A text that is not whole ends behind a mark, or behind the first character of its escape. -/
theorem whole_or_cut (mark : α) (text : List α) :
    Whole mark text ∨ ∃ front, Whole mark front ∧ (text = front ++ [mark] ∨ ∃ c, text = front ++ [mark, c]) := by
  classical
  -- the induction takes a plain character, or a whole escape, from the start
  induction hn : text.length using Nat.strongRecOn generalizing text with
  | ind n ih =>
      subst hn
      cases text with
      | nil => exact Or.inl .nil
      | cons c rest =>
          by_cases hc : c = mark
          · subst hc
            rcases rest with _ | ⟨high, _ | ⟨low, rest⟩⟩
            · exact Or.inr ⟨[], .nil, Or.inl rfl⟩
            · exact Or.inr ⟨[], .nil, Or.inr ⟨high, rfl⟩⟩
            · rcases ih rest.length (by simp only [List.length_cons]; omega) rest rfl with
                hwhole | ⟨front, hfront, rfl | ⟨d, rfl⟩⟩
              · exact Or.inl (.escape trivial trivial hwhole)
              · exact Or.inr ⟨_, .escape trivial trivial hfront, Or.inl rfl⟩
              · exact Or.inr ⟨_, .escape trivial trivial hfront, Or.inr ⟨d, rfl⟩⟩
          · rcases ih rest.length (by simp only [List.length_cons]; omega) rest rfl with
              hwhole | ⟨front, hfront, rfl | ⟨d, rfl⟩⟩
            · exact Or.inl (.plain hc hwhole)
            · exact Or.inr ⟨_, .plain hc hfront, Or.inl rfl⟩
            · exact Or.inr ⟨_, .plain hc hfront, Or.inr ⟨d, rfl⟩⟩

end Escapes
