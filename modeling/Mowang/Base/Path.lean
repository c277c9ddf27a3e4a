import Mathlib.Tactic.Common
import Mathlib.Data.List.Basic

/-!
# `Base.Path` — where a path leads

A path is a list of names with separators between them. A walk goes down with each name, stays where it is with an
empty name or `self`, and goes up with `up`. A path that begins with a separator leads from the root, any other one from
the working directory.

## Contents
- `components`, `components_append`, `infix_of_mem_components`.
- `walk`, `walk_append`, `prefix_walk`.
- `resolve`, `prefix_resolve`.
-/

namespace Path

theorem infix_intercalate {α : Type} {sep name : List α} {names : List (List α)} (h : name ∈ names) :
    name <:+: sep.intercalate names := by
  induction names with
  | nil => cases h
  | cons first names ih =>
      cases names with
      | nil =>
          rw [List.mem_singleton.mp h]
          simp
      | cons second names =>
          rw [List.intercalate_cons_cons]
          rcases List.mem_cons.mp h with rfl | hmem
          · exact ((List.prefix_append _ _).trans (List.prefix_append _ _)).isInfix
          · exact (ih hmem).trans (List.suffix_append _ _).isInfix

section Components

variable {α : Type} [BEq α] [LawfulBEq α]

/-- The names of a path. -/
def components (sep : α) (path : List α) : List (List α) := path.splitOn sep

/-- A separator ends the last name of what is before it. -/
theorem components_append (sep : α) (front rest : List α) :
    components sep (front ++ sep :: rest) = components sep front ++ components sep rest :=
  List.splitOn_append_cons_self front rest

/-- A name is a part of its path. -/
theorem infix_of_mem_components {sep : α} {path name : List α} (h : name ∈ components sep path) : name <:+: path := by
  have hpart := @infix_intercalate _ [sep] name _ h
  rwa [components, List.intercalate_splitOn] at hpart

end Components

section Walk

variable {ν : Type} [DecidableEq ν] {stay up : List ν} {dir : List ν}

/-- Where the names lead from a directory, which is the list of the names above it. -/
def walk (stay up : List ν) (dir : List ν) : List ν → List ν
  | []            => dir
  | name :: names =>
    if name ∈ stay then walk stay up dir names
    else if name ∈ up then walk stay up dir.dropLast names
    else walk stay up (dir ++ [name]) names

theorem walk_append (names names' : List ν) :
    walk stay up dir (names ++ names') = walk stay up (walk stay up dir names) names' := by
  induction names generalizing dir with
  | nil => rfl
  | cons name names ih =>
      rw [List.cons_append, walk, walk]
      split
      · exact ih
      · split
        · exact ih
        · exact ih

/-- Names that do not lead up lead to a place below. -/
theorem prefix_walk {names : List ν} (h : ∀ name ∈ names, name ∉ up) : dir <+: walk stay up dir names := by
  induction names generalizing dir with
  | nil => exact List.prefix_refl _
  | cons name names ih =>
      obtain ⟨hname, hnames⟩ := List.forall_mem_cons.mp h
      rw [walk, if_neg hname]
      split
      · exact ih hnames
      · exact (List.prefix_append _ _).trans (ih hnames)

end Walk

section Resolve

variable {α : Type} [DecidableEq α] {sep : α} {stay : List (List α)} {parent path rest : List α} {cwd : List (List α)}

/-- Where a path leads, seen from the working directory `cwd`. -/
def resolve (sep : α) (stay up : List (List α)) (cwd : List (List α)) (path : List α) : List (List α) :=
  walk stay up (if path.head? = some sep then [] else cwd) (components sep path)

/-- A path that goes on behind a directory without the name of the parent anywhere leads to a place below it. -/
theorem prefix_resolve (hstay : [] ∈ stay) (h : ¬ parent <:+: rest) :
    resolve sep stay [parent] cwd (path ++ [sep]) <+: resolve sep stay [parent] cwd (path ++ sep :: rest) := by
  have hhead : (path ++ [sep]).head? = (path ++ sep :: rest).head? := by
    cases path <;> rfl
  have hlast : components sep ([] : List α) = [[]] := List.splitOn_nil _
  rw [resolve, resolve, hhead, components_append, components_append, walk_append, walk_append, hlast, walk, if_pos hstay,
    walk]
  refine prefix_walk fun name hname hup => h ?_
  rw [← List.mem_singleton.mp hup]
  exact infix_of_mem_components hname

end Resolve

end Path
