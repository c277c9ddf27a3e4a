import Mathlib.Data.List.Basic
import Mathlib.Tactic.Common

/-!
# `Base.Markers` — frames between two markers in a stream

A frame is a `start` and a `stop` with no marker between them; what is between them is its payload. Whatever else a
stream has is garbage. `frames` takes the payloads off a stream, and `FramedAt` says of a position, without scanning,
that a frame begins there.

A receiver sees the stream in pieces. `scan` looks for the first frame of what it has, and `frames_append_start` says
where a stream can be cut: in front of a `start`.

## Contents
- `payload?`, `frames`, `FramedAt`, `exists_framedAt` — the payloads are those of the frames, in order.
- `frames_append_start`, `frames_frame`.
- `scan`, `scan_eq_none`, `scan_eq_some`.
- `Complete` — nothing is left behind the last frame.
-/

namespace Markers

variable {α : Type} {start stop : α}

/-- No marker is in the list. -/
def Unmarked (start stop : α) (x : List α) : Prop := start ∉ x ∧ stop ∉ x

/-- A frame with the payload `x` begins at the position `i`. -/
def FramedAt (start stop : α) (s : List α) (i : Nat) (x : List α) : Prop :=
  Unmarked start stop x ∧ ∃ pre post, pre.length = i ∧ s = pre ++ start :: (x ++ stop :: post)

/-- The stream is empty, or ends with a frame. -/
def Complete (start stop : α) (s : List α) : Prop :=
  s = [] ∨ ∃ p x, Unmarked start stop x ∧ s = p ++ start :: (x ++ [stop])

theorem unmarked_nil : Unmarked start stop [] := ⟨List.not_mem_nil, List.not_mem_nil⟩

theorem unmarked_cons {c : α} {x : List α} :
    Unmarked start stop (c :: x) ↔ c ≠ start ∧ c ≠ stop ∧ Unmarked start stop x := by
  unfold Unmarked
  simp only [List.mem_cons, not_or]
  constructor
  · rintro ⟨⟨hstart, hx⟩, hstop, hx'⟩
    exact ⟨Ne.symm hstart, Ne.symm hstop, hx, hx'⟩
  · rintro ⟨hstart, hstop, hx, hx'⟩
    exact ⟨⟨Ne.symm hstart, hx⟩, Ne.symm hstop, hx'⟩

theorem unmarked_append {x y : List α} :
    Unmarked start stop (x ++ y) ↔ Unmarked start stop x ∧ Unmarked start stop y := by
  unfold Unmarked
  simp only [List.mem_append, not_or]
  exact and_and_and_comm

theorem framedAt_succ {c : α} {s x : List α} {i : Nat} :
    FramedAt start stop (c :: s) (i + 1) x ↔ FramedAt start stop s i x := by
  constructor
  · rintro ⟨hx, pre, post, hlen, heq⟩
    cases pre with
    | nil => cases hlen
    | cons a pre =>
        rw [List.cons_append, List.cons.injEq] at heq
        exact ⟨hx, pre, post, Nat.succ.inj hlen, heq.2⟩
  · rintro ⟨hx, pre, post, hlen, rfl⟩
    exact ⟨hx, c :: pre, post, congrArg Nat.succ hlen, rfl⟩

/-- Behind a `stop` in a complete stream, the stream is complete. -/
theorem Complete.rest (hne : start ≠ stop) {u rest : List α} (h : Complete start stop (u ++ stop :: rest)) :
    Complete start stop rest := by
  rcases h with hnil | ⟨p, x, hx, heq⟩
  · exact absurd hnil (List.append_ne_nil_of_right_ne_nil _ (List.cons_ne_nil _ _))
  rcases List.append_eq_append_iff.mp heq with ⟨a, _, hrest⟩ | ⟨c, _, hlast⟩
  · -- the last frame lies in `rest`
    cases a with
    | nil => exact absurd (List.cons.inj hrest).1.symm hne
    | cons _ a => exact Or.inr ⟨a, x, hx, (List.cons.inj hrest).2⟩
  · -- the `stop` is that of the last frame, whose payload has none
    cases c with
    | nil => exact absurd (List.cons.inj hlast).1 hne
    | cons _ c =>
        have hlast := (List.cons.inj hlast).2
        rcases rest.eq_nil_or_concat with rfl | ⟨rest, last, rfl⟩
        · exact Or.inl rfl
        · have hinit : x = c ++ stop :: rest := by
            have hcut : c ++ stop :: (rest ++ [last]) = (c ++ stop :: rest) ++ [last] := by
              rw [List.append_assoc]
              rfl
            rw [List.concat_eq_append] at hlast
            exact (List.append_inj' (hlast.trans hcut) rfl).1
          exact absurd (hinit ▸ List.mem_append_right c List.mem_cons_self) hx.2

/-! ## Taking frames off a stream -/

variable [DecidableEq α]

/-- What comes before the next marker, if that is a `stop`. -/
def payload? (start stop : α) : List α → Option (List α)
  | []     => none
  | c :: s => if c = start then none else if c = stop then some [] else (payload? start stop s).map (c :: ·)

/-- The payloads of the frames of a stream. -/
def frames (start stop : α) : List α → List (List α)
  | []     => []
  | c :: s => (if c = start then (payload? start stop s).toList else []) ++ frames start stop s

/-- The offsets of the payload and of the `stop` of the first frame, where `i` elements have been seen and `begun` is
    the offset behind the last `start` of them. -/
def scan (start stop : α) (i : Nat) (begun : Option Nat) : List α → Option (Nat × Nat)
  | []     => none
  | c :: s =>
    if c = start then scan start stop (i + 1) (some (i + 1)) s
    else if begun.isSome ∧ c = stop then begun.map (·, i)
    else scan start stop (i + 1) begun s

/-- Elements that are no markers are part of the payload. -/
theorem payload?_unmarked {x : List α} (hx : Unmarked start stop x) (s : List α) :
    payload? start stop (x ++ s) = (payload? start stop s).map (x ++ ·) := by
  induction x with
  | nil => exact (congrFun Option.map_id _).symm
  | cons c x ih =>
      obtain ⟨hstart, hstop, hx⟩ := unmarked_cons.mp hx
      rw [List.cons_append, payload?, if_neg hstart, if_neg hstop, ih hx, Option.map_map]
      rfl

/-- The payload does not depend on what comes behind a `start`. -/
theorem payload?_append_start (u v : List α) :
    payload? start stop (u ++ start :: v) = payload? start stop u := by
  induction u with
  | nil => exact if_pos rfl
  | cons c u ih => rw [List.cons_append, payload?, ih, payload?]

theorem payload?_eq_some_iff (hne : start ≠ stop) {s x : List α} :
    payload? start stop s = some x ↔ Unmarked start stop x ∧ ∃ post, s = x ++ stop :: post := by
  constructor
  · intro h
    induction s generalizing x with
    | nil => cases h
    | cons c s ih =>
        rw [payload?] at h
        split at h
        next => cases h
        next hstart =>
            split at h
            next hstop =>
                cases h
                exact ⟨unmarked_nil, s, by rw [hstop, List.nil_append]⟩
            next hstop =>
                obtain ⟨x, hs, rfl⟩ := Option.map_eq_some_iff.mp h
                obtain ⟨hx, post, rfl⟩ := ih hs
                exact ⟨unmarked_cons.mpr ⟨hstart, hstop, hx⟩, post, rfl⟩
  · rintro ⟨hx, post, rfl⟩
    rw [payload?_unmarked hx, payload?, if_neg (Ne.symm hne), if_pos rfl, Option.map_some, List.append_nil]

/-! ## The frames are the occurrences -/

theorem framedAt_zero (hne : start ≠ stop) {c : α} {s x : List α} :
    FramedAt start stop (c :: s) 0 x ↔ c = start ∧ payload? start stop s = some x := by
  rw [payload?_eq_some_iff hne]
  constructor
  · rintro ⟨hx, pre, post, hlen, heq⟩
    rw [List.length_eq_zero_iff.mp hlen, List.nil_append, List.cons.injEq] at heq
    exact ⟨heq.1, hx, post, heq.2⟩
  · rintro ⟨rfl, hx, post, rfl⟩
    exact ⟨hx, [], post, rfl, rfl⟩

/-- **The payloads of a stream** are those of the frames in it, by position. -/
theorem exists_framedAt (hne : start ≠ stop) (s : List α) :
    ∃ ps : List (Nat × List α), frames start stop s = ps.map (·.2) ∧ ps.Pairwise (·.1 < ·.1) ∧
      ∀ i x, (i, x) ∈ ps ↔ FramedAt start stop s i x := by
  induction s with
  | nil =>
      refine ⟨[], rfl, .nil, fun i x => iff_of_false List.not_mem_nil ?_⟩
      rintro ⟨_, pre, post, _, heq⟩
      exact absurd heq.symm (List.append_ne_nil_of_right_ne_nil _ (List.cons_ne_nil _ _))
  | cons c s ih =>
      obtain ⟨ps, hps, hsorted, hmem⟩ := ih
      -- the frames behind `c`, one position further, after a frame that begins with `c`
      let first := (if c = start then (payload? start stop s).toList else []).map fun x => (0, x)
      let later := ps.map fun p => (p.1 + 1, p.2)
      have hfirst : ∀ p, p ∈ first ↔ p.1 = 0 ∧ FramedAt start stop (c :: s) 0 p.2 := by
        rintro ⟨i, x⟩
        simp only [first, framedAt_zero hne, List.mem_map, Prod.mk.injEq]
        split
        next hc =>
            simp only [Option.mem_toList, hc, true_and]
            constructor
            · rintro ⟨x', hx', rfl, rfl⟩
              exact ⟨rfl, hx'⟩
            · rintro ⟨rfl, hx⟩
              exact ⟨x, hx, rfl, rfl⟩
        next hc => simp [hc]
      have hlater : ∀ p, p ∈ later ↔ 0 < p.1 ∧ FramedAt start stop (c :: s) p.1 p.2 := by
        rintro ⟨i, x⟩
        simp only [later, List.mem_map, Prod.mk.injEq, Prod.exists]
        constructor
        · rintro ⟨j, y, hp, rfl, rfl⟩
          exact ⟨Nat.succ_pos j, framedAt_succ.mpr ((hmem j y).mp hp)⟩
        · rintro ⟨hi, hframed⟩
          obtain ⟨j, rfl⟩ := Nat.exists_eq_succ_of_ne_zero (Nat.ne_of_gt hi)
          exact ⟨j, x, (hmem j x).mpr (framedAt_succ.mp hframed), rfl, rfl⟩
      refine ⟨first ++ later, ?_, ?_, ?_⟩
      · rw [frames, hps, List.map_append, List.map_map, List.map_map]
        exact congrArg (· ++ _) (List.map_id _).symm
      · refine List.pairwise_append.mpr ⟨?_, ?_, fun p hp q hq => ?_⟩
        · show ((if c = start then (payload? start stop s).toList else []).map fun x => (0, x)).Pairwise _
          split
          · cases payload? start stop s with
            | none => exact .nil
            | some x => exact List.pairwise_singleton _ _
          · exact .nil
        · exact List.pairwise_map.mpr (hsorted.imp fun h => Nat.succ_lt_succ h)
        · rw [((hfirst p).mp hp).1]
          exact ((hlater q).mp hq).1
      · intro i x
        rw [List.mem_append, hfirst, hlater]
        cases i with
        | zero => simp
        | succ i => simp

theorem frames_eq_nil (hne : start ≠ stop) {s : List α} (h : ∀ i x, ¬ FramedAt start stop s i x) :
    frames start stop s = [] := by
  obtain ⟨ps, hps, _, hmem⟩ := exists_framedAt hne s
  cases ps with
  | nil => exact hps
  | cons p ps => exact absurd ((hmem p.1 p.2).mp List.mem_cons_self) (h p.1 p.2)

/-! ## Where a stream can be cut -/

/-- No frame reaches over a `start`. -/
theorem frames_append_start (u v : List α) :
    frames start stop (u ++ start :: v) = frames start stop u ++ frames start stop (start :: v) := by
  induction u with
  | nil => rfl
  | cons c u ih =>
      rw [List.cons_append, frames, ih, payload?_append_start, ← List.append_assoc]
      rfl

/-- A list without a `start` has no frame. -/
theorem frames_append_of_not_mem {x : List α} (hx : start ∉ x) (s : List α) :
    frames start stop (x ++ s) = frames start stop s := by
  induction x with
  | nil => rfl
  | cons c x ih =>
      obtain ⟨hc, hx⟩ := not_or.mp (List.mem_cons.not.mp hx)
      rw [List.cons_append, frames, if_neg (Ne.symm hc), List.nil_append, ih hx]

/-- A frame in front. -/
theorem frames_frame (hne : start ≠ stop) {x : List α} (hx : Unmarked start stop x) (s : List α) :
    frames start stop (start :: (x ++ stop :: s)) = x :: frames start stop s := by
  have hpayload : payload? start stop (x ++ stop :: s) = some x := (payload?_eq_some_iff hne).mpr ⟨hx, s, rfl⟩
  have hrest : frames start stop (x ++ stop :: s) = frames start stop s := by
    rw [frames_append_of_not_mem hx.1, frames, if_neg (Ne.symm hne), List.nil_append]
  rw [frames, if_pos rfl, hpayload, hrest]
  rfl

/-- A `start` that nothing but a payload follows, so far. -/
theorem frames_begun {x : List α} (hx : Unmarked start stop x) : frames start stop (start :: x) = [] := by
  have hpayload : payload? start stop x = none := by
    have h := payload?_unmarked hx []
    rw [List.append_nil] at h
    exact h
  have hrest : frames start stop x = [] := by
    have h : frames start stop (x ++ []) = [] := frames_append_of_not_mem hx.1 []
    rw [List.append_nil] at h
    exact h
  rw [frames, if_pos rfl, hpayload, hrest]
  rfl

/-! ## The first frame -/

/-- What `scan` has seen: no `start` at all, or no frame, and then a `start` and a part of a payload. -/
def Seen (start stop : α) (p : List α) : Option Nat → Prop
  | none   => start ∉ p
  | some b => ∃ q x, p = q ++ start :: x ∧ b = q.length + 1 ∧ Unmarked start stop x ∧ frames start stop q = []

theorem Seen.frames_eq_nil {p : List α} {begun : Option Nat} (h : Seen start stop p begun) :
    frames start stop p = [] := by
  cases begun with
  | none =>
      have hp : frames start stop (p ++ []) = [] := frames_append_of_not_mem h []
      rw [List.append_nil] at hp
      exact hp
  | some b =>
      obtain ⟨q, x, rfl, _, hx, hq⟩ := h
      rw [frames_append_start, hq, frames_begun hx]
      rfl

theorem Seen.begin {p : List α} {begun : Option Nat} (h : Seen start stop p begun) :
    Seen start stop (p ++ [start]) (some (p.length + 1)) :=
  ⟨p, [], rfl, rfl, unmarked_nil, h.frames_eq_nil⟩

theorem Seen.other {p : List α} {begun : Option Nat} (h : Seen start stop p begun) {c : α} (hstart : c ≠ start)
    (hstop : begun.isSome → c ≠ stop) : Seen start stop (p ++ [c]) begun := by
  cases begun with
  | none =>
      show start ∉ p ++ [c]
      rw [List.mem_append, List.mem_singleton, not_or]
      exact ⟨h, Ne.symm hstart⟩
  | some b =>
      obtain ⟨q, x, rfl, hb, hx, hq⟩ := h
      refine ⟨q, x ++ [c], by rw [List.append_assoc]; rfl, hb, ?_, hq⟩
      exact unmarked_append.mpr ⟨hx, unmarked_cons.mpr ⟨hstart, hstop rfl, unmarked_nil⟩⟩

/-- **No frame is found** in a list without one. -/
theorem scan_eq_none {p s : List α} {begun : Option Nat} (hp : Seen start stop p begun)
    (h : scan start stop p.length begun s = none) : frames start stop (p ++ s) = [] := by
  induction s generalizing p begun with
  | nil =>
      rw [List.append_nil]
      exact hp.frames_eq_nil
  | cons c s ih =>
      have hcut : p ++ c :: s = (p ++ [c]) ++ s := by rw [List.append_assoc]; rfl
      have hlen : (p ++ [c]).length = p.length + 1 := List.length_append
      rw [hcut]
      rw [scan] at h
      split at h
      next hc =>
          subst hc
          exact ih hp.begin (by rw [hlen]; exact h)
      next hc =>
          split at h
          next hstop => rw [Option.map_eq_none_iff.mp h] at hstop; cases hstop.1
          next hstop => exact ih (hp.other hc fun hb hc => hstop ⟨hb, hc⟩) (by rw [hlen]; exact h)

/-- **The frame that is found** is the only one up to its end. -/
theorem scan_eq_some {p s : List α} {begun : Option Nat} {b e : Nat} (hp : Seen start stop p begun)
    (h : scan start stop p.length begun s = some (b, e)) :
    ∃ q x rest, p ++ s = q ++ start :: (x ++ stop :: rest) ∧ b = q.length + 1 ∧ e = b + x.length ∧
      Unmarked start stop x ∧ frames start stop q = [] := by
  induction s generalizing p begun with
  | nil => cases h
  | cons c s ih =>
      have hcut : p ++ c :: s = (p ++ [c]) ++ s := by rw [List.append_assoc]; rfl
      have hlen : (p ++ [c]).length = p.length + 1 := List.length_append
      rw [scan] at h
      split at h
      next hc =>
          subst hc
          rw [hcut]
          exact ih hp.begin (by rw [hlen]; exact h)
      next hc =>
          split at h
          next hstop =>
              obtain ⟨b', rfl⟩ := Option.isSome_iff_exists.mp hstop.1
              cases h
              obtain ⟨q, x, rfl, hb, hx, hq⟩ := hp
              refine ⟨q, x, s, ?_, hb, ?_, hx, hq⟩
              · rw [hstop.2, List.append_assoc]
                rfl
              · rw [List.length_append, List.length_cons]
                omega
          next hstop =>
              rw [hcut]
              exact ih (hp.other hc fun hb hc => hstop ⟨hb, hc⟩) (by rw [hlen]; exact h)

theorem seen_nil : Seen start stop ([] : List α) none := List.not_mem_nil

/-- Nothing is found before a `start` has been seen. -/
theorem scan_append_of_not_mem {q : List α} (hq : start ∉ q) (i : Nat) (s : List α) :
    scan start stop i none (q ++ s) = scan start stop (i + q.length) none s := by
  induction q generalizing i with
  | nil => rfl
  | cons c q ih =>
      obtain ⟨hc, hq⟩ := not_or.mp (mt List.mem_cons.mpr hq)
      rw [List.cons_append, scan, if_neg (Ne.symm hc), if_neg (fun h => by cases h.1), ih hq, List.length_cons]
      exact congrArg (scan start stop · none s) (by omega)

/-! ## A stream that ends with a frame -/

/-- In a complete stream, unless it is empty, there is a frame. -/
theorem Complete.frames_ne_nil (hne : start ≠ stop) {s : List α} (h : Complete start stop s) (hs : s ≠ []) :
    frames start stop s ≠ [] := by
  rcases h with rfl | ⟨p, x, hx, rfl⟩
  · exact absurd rfl hs
  · rw [frames_append_start, frames_frame hne hx]
    exact List.append_ne_nil_of_right_ne_nil _ (List.cons_ne_nil _ _)

end Markers
