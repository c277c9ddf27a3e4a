import Mathlib.Data.List.Basic
import Mathlib.Tactic.Common

/-!
# `Base.Framing` — length-prefixed framing of a stream

A format says how long the fixed header of a frame is and which total length a header declares. A
receiver that holds the bytes `s` takes the frame in front when header and declared length are both
covered (`next`) and repeats until it cannot (`Drains`).

`drains_of_frames` is the reassembly law: of any split `s ++ t` of a concatenation of frames, draining
`s` takes off a whole number of leading frames and leaves the rest of the stream still a concatenation
of the remaining frames. Chunk independence of a receiver is its induction step.

A stream from an untrusted sender need not be a concatenation of frames. `WellFramed` is what such a
stream must meet for draining to stop and to take off nothing shorter than a header.
-/

namespace Framing

/-- A length-prefixed format: header size and declared total length. The length is read from the
    header alone. -/
structure Format (α : Type) where
  header : Nat
  lenOf : List α → Nat
  lenOf_append : ∀ s t, header ≤ s.length → lenOf (s ++ t) = lenOf s

variable {α : Type} {F : Format α}

/-- The frame in front of `s` and what follows it, when `s` covers it. -/
def next (F : Format α) (s : List α) : Option (List α × List α) :=
  if s.length < F.header then none
  else if s.length < F.lenOf s then none
  else some (s.take (F.lenOf s), s.drop (F.lenOf s))

/-- `p` is one whole frame: it covers its header and is as long as it declares. -/
structure IsFrame (F : Format α) (p : List α) : Prop where
  header_le : F.header ≤ p.length
  lenOf_eq : F.lenOf p = p.length

/-- Taking frames off `s` until none is complete yields `ps` and leaves `r`. -/
inductive Drains (F : Format α) : List α → List (List α) → List α → Prop where
  | stop {s} : next F s = none → Drains F s [] s
  | take {s p s' ps r} : next F s = some (p, s') → Drains F s' ps r → Drains F s (p :: ps) r

theorem next_frame {p : List α} (hp : IsFrame F p) (t : List α) : next F (p ++ t) = some (p, t) := by
  have hlen : F.lenOf (p ++ t) = p.length := by rw [F.lenOf_append p t hp.header_le, hp.lenOf_eq]
  have hh := hp.header_le
  unfold next
  rw [if_neg (by rw [List.length_append]; omega), hlen, if_neg (by rw [List.length_append]; omega),
    List.take_left', List.drop_left'] <;> rfl

/-- A proper prefix of a frame is not taken. -/
theorem next_append {p s t u : List α} (hp : IsFrame F p) (hcat : s ++ t = p ++ u)
    (hlt : s.length < p.length) : next F s = none := by
  unfold next
  split
  · rfl
  · rename_i hh
    have hlen : F.lenOf s = p.length := by
      rw [← F.lenOf_append s t (by omega), hcat, F.lenOf_append p u hp.header_le, hp.lenOf_eq]
    rw [if_pos (by omega)]

/-- What `next` returns is a cut of the input at the declared length. -/
theorem next_some {s p s' : List α} (h : next F s = some (p, s')) :
    F.header ≤ s.length ∧ F.lenOf s ≤ s.length ∧ p = s.take (F.lenOf s) ∧ s' = s.drop (F.lenOf s) := by
  unfold next at h
  split at h
  · exact absurd h (by simp)
  · split at h
    · exact absurd h (by simp)
    · simp only [Option.some.injEq, Prod.mk.injEq] at h
      exact ⟨by omega, by omega, h.1.symm, h.2.symm⟩

theorem next_none {s : List α} (h : next F s = none) : s.length < F.header ∨ s.length < F.lenOf s := by
  unfold next at h
  split at h
  · exact Or.inl ‹_›
  · split at h
    · exact Or.inr ‹_›
    · exact absurd h (by simp)

theorem Drains.rest_none {s r : List α} {ps : List (List α)} (h : Drains F s ps r) : next F r = none := by
  induction h with
  | stop hs => exact hs
  | take _ _ ih => exact ih

/-- **Reassembly.** Of a stream `s ++ t` that is a concatenation of frames, draining the part `s`
    received so far yields the leading frames it covers; the bytes left over continue the stream with
    the frames that remain. -/
theorem drains_of_frames (hpos : 0 < F.header) {fs : List (List α)} (hfs : ∀ p ∈ fs, IsFrame F p)
    {s t : List α} (hcat : s ++ t = fs.flatten) :
    ∃ ps qs r, fs = ps ++ qs ∧ Drains F s ps r ∧ r ++ t = qs.flatten := by
  induction fs generalizing s with
  | nil =>
      have hs : s = [] := by simp only [List.flatten_nil, List.append_eq_nil_iff] at hcat; exact hcat.1
      refine ⟨[], [], s, rfl, .stop ?_, hcat⟩
      rw [hs, next, if_pos (by simpa using hpos)]
  | cons p fs ih =>
      have hp : IsFrame F p := hfs p List.mem_cons_self
      rw [List.flatten_cons] at hcat
      by_cases hle : p.length ≤ s.length
      · -- the first frame is covered: take it and drain what follows
        have hs : s = p ++ s.drop p.length := by
          have htake := congrArg (List.take p.length) hcat
          rw [List.take_append_of_le_length hle, List.take_left'] at htake
          · conv_lhs => rw [← List.take_append_drop p.length s, htake]
          · rfl
        have hcat' : s.drop p.length ++ t = fs.flatten := by
          rw [hs, List.append_assoc] at hcat
          exact List.append_cancel_left hcat
        obtain ⟨ps, qs, r, hsplit, hdr, hrest⟩ := ih (fun q hq => hfs q (List.mem_cons_of_mem p hq)) hcat'
        refine ⟨p :: ps, qs, r, by rw [hsplit, List.cons_append], .take ?_ hdr, hrest⟩
        conv_lhs => rw [hs]
        exact next_frame hp _
      · exact ⟨[], p :: fs, s, rfl, .stop (next_append hp hcat (by omega)), hcat⟩

/-- The frames of a drain, put back in front of the rest, are the drained bytes. -/
theorem Drains.flatten {s r : List α} {ps : List (List α)} (h : Drains F s ps r) :
    ps.flatten ++ r = s := by
  induction h with
  | stop _ => rfl
  | take hn _ ih =>
      obtain ⟨_, _, rfl, rfl⟩ := next_some hn
      rw [List.flatten_cons, List.append_assoc, ih, List.take_append_drop]

/-- Frames are not empty, so there are at most as many as bytes. -/
theorem length_le_flatten (hpos : 0 < F.header) {fs : List (List α)} (hfs : ∀ p ∈ fs, IsFrame F p) :
    fs.length ≤ fs.flatten.length := by
  induction fs with
  | nil => exact Nat.le_refl 0
  | cons p fs ih =>
      have hp := (hfs p List.mem_cons_self).header_le
      have hrest := ih (fun q hq => hfs q (List.mem_cons_of_mem p hq))
      simp only [List.length_cons, List.flatten_cons, List.length_append]
      omega

/-! ## Streams that need not be frames -/

/-- Walking the stream by declared lengths meets no complete header that declares less than its own
    size. -/
inductive WellFramed (F : Format α) : List α → Prop where
  | short {s} : s.length < F.header → WellFramed F s
  | incomplete {s} : F.header ≤ F.lenOf s → s.length < F.lenOf s → WellFramed F s
  | frame {s} : F.header ≤ F.lenOf s → WellFramed F (s.drop (F.lenOf s)) → WellFramed F s

/-- A complete header in front declares its own size at least. -/
theorem WellFramed.header_le {s : List α} (h : WellFramed F s) (hs : F.header ≤ s.length) :
    F.header ≤ F.lenOf s := by
  cases h with
  | short hlt => omega
  | incomplete hle _ => exact hle
  | frame hle _ => exact hle

/-- What follows the frame in front is well framed too. -/
theorem WellFramed.tail {s p s' : List α} (h : WellFramed F s) (hn : next F s = some (p, s')) :
    WellFramed F s' := by
  obtain ⟨hhead, hle, _, rfl⟩ := next_some hn
  cases h with
  | short hlt => omega
  | incomplete _ hlt => omega
  | frame _ ht => exact ht

/-- The bytes that complete the frame in front do not depend on what is still to come. -/
theorem next_append_some {s p s' : List α} (t : List α) (h : next F s = some (p, s')) :
    next F (s ++ t) = some (p, s' ++ t) := by
  obtain ⟨hhead, hle, rfl, rfl⟩ := next_some h
  have hlen : F.lenOf (s ++ t) = F.lenOf s := F.lenOf_append s t hhead
  unfold next
  rw [List.length_append, if_neg (by omega), hlen, if_neg (by omega),
    List.take_append_of_le_length hle, List.drop_append_of_le_length hle]

/-- **Draining a prefix.** A stream is well framed exactly when the frames drained from the part
    received are no shorter than a header and the bytes left over continue it well framed. -/
theorem Drains.wellFramed_append {s r : List α} {ps : List (List α)} (h : Drains F s ps r) (t : List α) :
    WellFramed F (s ++ t) ↔ (∀ p ∈ ps, F.header ≤ p.length) ∧ WellFramed F (r ++ t) := by
  induction h with
  | stop _ => simp
  | @take s p s' ps r hn _ ih =>
      have hcut := next_append_some t hn
      obtain ⟨hhead, hle, hp, hs'⟩ := next_some hn
      have hlen : F.lenOf (s ++ t) = F.lenOf s := F.lenOf_append s t hhead
      have hplen : p.length = F.lenOf s := by rw [hp, List.length_take]; omega
      have hdrop : (s ++ t).drop (F.lenOf (s ++ t)) = s' ++ t := by
        rw [hlen, List.drop_append_of_le_length hle, hs']
      rw [List.forall_mem_cons, and_assoc, ← ih, hplen]
      constructor
      · intro hwf
        have hdecl := hwf.header_le (by rw [List.length_append]; omega)
        exact ⟨hlen ▸ hdecl, hwf.tail hcut⟩
      · rintro ⟨hdecl, hwf⟩
        exact .frame (hlen ▸ hdecl) (hdrop ▸ hwf)

/-- **Draining ends.** What has been received of a well framed stream drains: every frame taken off
    shortens the bytes left by a header at least. -/
theorem WellFramed.drains (hpos : 0 < F.header) {s t : List α} (h : WellFramed F (s ++ t)) :
    ∃ ps r, Drains F s ps r := by
  induction hlen : s.length using Nat.strongRecOn generalizing s with
  | _ n ih =>
      cases hn : next F s with
      | none => exact ⟨[], s, .stop hn⟩
      | some cut =>
          obtain ⟨p, s'⟩ := cut
          obtain ⟨hhead, hle, _, hs'⟩ := next_some hn
          have hdecl : F.header ≤ F.lenOf s := by
            rw [← F.lenOf_append s t hhead]
            exact h.header_le (by rw [List.length_append]; omega)
          have hshorter : s'.length < n := by
            rw [hs', List.length_drop]
            omega
          obtain ⟨ps, r, hd⟩ := ih s'.length hshorter (h.tail (next_append_some t hn)) rfl
          exact ⟨p :: ps, r, .take hn hd⟩

/-- Frames no shorter than a header are at most as many as the bytes they were drained from. -/
theorem Drains.length_le (hpos : 0 < F.header) {s r : List α} {ps : List (List α)} (h : Drains F s ps r)
    (hps : ∀ p ∈ ps, F.header ≤ p.length) : ps.length ≤ s.length := by
  induction h with
  | stop _ => exact Nat.zero_le _
  | @take s p s' ps r hn _ ih =>
      obtain ⟨hhead, hle, hp, hs'⟩ := next_some hn
      have hfirst := hps p List.mem_cons_self
      have hrest := ih (fun q hq => hps q (List.mem_cons_of_mem p hq))
      rw [hs', List.length_drop] at hrest
      rw [hp, List.length_take] at hfirst
      rw [List.length_cons]
      omega

end Framing
