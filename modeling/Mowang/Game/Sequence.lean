import Mathlib.Algebra.Order.Ring.Nat
import Mowang.Base.Run
import Mathlib.Data.List.Nodup
import Mathlib.Logic.Function.Basic

/-!
# `Game.Sequence` — the sequence ids of a game process, over all its runs

`gen_sequence_id` counts in memory and sends each value to the database; `init` asks for the last one, and the counter
is set when the reply comes, whatever was counted since. A restart forgets the counter. Requests are sent to any of the
DB processes, and each of these executes what it got in order.

A value goes into the SQL text with `%d`, so from `2 ^ 31` on it is negative there; it is read back as the same 32 bits.

## Contents
- `Sequence`, `Sequence.step`.
- `Unique` — no id twice, and no smaller value stored; `Counted` — the condition.
- `Facts`, and what each operation does to them.
- `Stepped.keeps_unique_iff`, `Stepped.facts`; from them `unique_iff`, and `counted_again`.
-/

namespace Mowang

/-- `sequence_type`. -/
inductive SequenceType
  | account
  | role
  deriving DecidableEq

/-- What a DB process gets: the query of `init`, with the start of the game process that asks, or a value to save, with
    its number among the saves of its type. -/
inductive SequenceOp
  | query (start : Nat)
  | save (type : SequenceType) (sequenceId : UInt32) (number : Nat)

structure SequenceReply where
  start : Nat
  status : Bool
  rows : List (SequenceType × UInt32)

structure Sequence where
  /-- `m_sequence_id`. -/
  sequenceId : SequenceType → UInt32 := fun _ => 0
  start : Nat := 0
  toDb : Nat → List SequenceOp := fun _ => []
  toGame : List SequenceReply := []
  /-- The rows of the process in the table `sequence`. -/
  rows : SequenceType → Option Int := fun _ => none
  -- the rest is read by the theorems only
  /-- The ids that were given, the newest first. -/
  given : SequenceType → List UInt32 := fun _ => []
  /-- The numbers of the saves that were executed, and the values they stored, the newest first. -/
  executed : SequenceType → List Nat := fun _ => []
  stored : SequenceType → List Int := fun _ => []

inductive SequenceLabel
  /-- A request goes to the DB process that is picked, if there is one. -/
  | init (d : Option Nat)
  | genSequenceId (type : SequenceType) (d : Option Nat)
  /-- A DB process executes its oldest request; without `ok` the statement fails. -/
  | execute (d : Nat) (ok : Bool)
  | reply (i : Nat)
  | restart

namespace Sequence

/-- `db_opt`. -/
def dbOpt (s : Sequence) (op : SequenceOp) : Option Nat → Sequence
  | none   => s
  | some d => { s with toDb := Function.update s.toDb d (s.toDb d ++ [op]) }

/-- What `%d` prints of a value. -/
def printed (sequenceId : UInt32) : Int :=
  if sequenceId.toNat < 2 ^ 31 then sequenceId.toNat else sequenceId.toNat - 2 ^ 32

/-- `++m_sequence_id[sequence_type]`; the value is the one returned. -/
def advance (s : Sequence) (type : SequenceType) : Sequence :=
  { s with
    sequenceId := Function.update s.sequenceId type (s.sequenceId type + 1)
    given := Function.update s.given type ((s.sequenceId type + 1) :: s.given type) }

/-- `gen_sequence_id`, with `save`. -/
def genSequenceId (s : Sequence) (type : SequenceType) (d : Option Nat) : Sequence :=
  let s := s.advance type
  s.dbOpt (.save type (s.sequenceId type) (s.given type).length) d

/-- The rows that the query finds. -/
def found (s : Sequence) : List (SequenceType × UInt32) :=
  [.account, .role].filterMap fun type => (s.rows type).map fun value => (type, UInt32.ofNat (value % 2 ^ 32).toNat)

/-- The statement of a request, if it does not fail, and the reply. -/
def executeOp (s : Sequence) (ok : Bool) : SequenceOp → Sequence
  | .query start                 =>
    { s with toGame := s.toGame ++ [⟨start, ok, if ok then s.found else []⟩] }
  | .save type sequenceId number =>
    if ok then
      { s with
        rows := Function.update s.rows type (some (printed sequenceId))
        executed := Function.update s.executed type (number :: s.executed type)
        stored := Function.update s.stored type (printed sequenceId :: s.stored type) }
    else s

/-- The callback of `init`. -/
def onLoad (s : Sequence) (status : Bool) (rows : List (SequenceType × UInt32)) : Sequence :=
  if !status then s
  else if rows.isEmpty then s
  else { s with sequenceId := rows.foldl (fun ids row => Function.update ids row.1 row.2) s.sequenceId }

/-- The DB process `d` takes its oldest request. -/
def popDb (s : Sequence) (d : Nat) : Sequence := { s with toDb := Function.update s.toDb d (s.toDb d).tail }

/-- The reply at `i` arrives. -/
def popGame (s : Sequence) (i : Nat) : Sequence := { s with toGame := s.toGame.eraseIdx i }

/-- A reply to an earlier start of the process finds no connection. -/
def step (s : Sequence) : SequenceLabel → Option Sequence
  | .init d               => some (s.dbOpt (.query s.start) d)
  | .genSequenceId type d => some (s.genSequenceId type d)
  | .execute d ok         =>
    match (s.toDb d).head? with
    | none    => some s
    | some op => some ((s.popDb d).executeOp ok op)
  | .reply i              =>
    match s.toGame[i]? with
    | none   => some s
    | some r => some (if r.start = s.start then (s.popGame i).onLoad r.status r.rows else s.popGame i)
  | .restart              => some { s with sequenceId := fun _ => 0, start := s.start + 1 }

/-- No id was given twice, and no value was stored over a larger one. -/
def Unique (s : Sequence) : Prop := ∀ type, (s.given type).Nodup ∧ (s.stored type).Pairwise (· ≥ ·)

/-- The save of number `k` comes before that of number `n`: in their order, but for values that are printed as
    negative numbers, which come before the others. -/
def Before (k n : Nat) : Prop := if k < 2 ^ 31 then k ≤ n ∧ n < 2 ^ 31 else k ≤ n ∨ n < 2 ^ 31

/-- The counter stands at the number of ids that were given, and a value is stored after those of the saves before. -/
def Counted (s : Sequence) : SequenceLabel → Prop
  | .genSequenceId type _ => (s.sequenceId type).toNat = (s.given type).length
  | .execute d ok         => ok → ∀ type sequenceId number, (s.toDb d).head? = some (.save type sequenceId number) →
      ∀ k ∈ s.executed type, Before k number
  | _                     => True

/-! ## The values -/

variable {s s' : Sequence}

/-- What is read back is what was printed. -/
theorem ofNat_printed (v : UInt32) : UInt32.ofNat (printed v % 2 ^ 32).toNat = v := by
  have hv := v.toNat_lt
  have hmod : (printed v % 2 ^ 32).toNat = v.toNat := by
    unfold printed
    split <;> omega
  rw [hmod]
  exact UInt32.ofNat_toNat

/-- The order of the printed values is that of `Before`. -/
theorem printed_le_iff {k n : Nat} (hk : 1 ≤ k) (hk' : k ≤ 2 ^ 32) (hn : 1 ≤ n) (hn' : n ≤ 2 ^ 32) :
    printed (UInt32.ofNat k) ≤ printed (UInt32.ofNat n) ↔ Before k n := by
  have hvalue : ∀ {m : Nat}, 1 ≤ m → m ≤ 2 ^ 32 →
      printed (UInt32.ofNat m) = if m < 2 ^ 31 then (m : Int) else m - 2 ^ 32 := by
    intro m hm hm'
    unfold printed
    rw [UInt32.toNat_ofNat']
    rcases Nat.lt_or_eq_of_le hm' with hlt | rfl
    · rw [Nat.mod_eq_of_lt hlt]
    · -- the last value wraps to zero
      decide
  rw [hvalue hk hk', hvalue hn hn']
  unfold Before
  split <;> split <;> omega

/-! ## What every state has -/

/-- As long as no id was given twice: the ids given are the first ones, the counter is behind them, and what is on the
    way or stored is one of them. -/
structure Facts (s : Sequence) : Prop where
  given : ∀ type v, v ∈ s.given type ↔ ∃ k, 1 ≤ k ∧ k ≤ (s.given type).length ∧ v = UInt32.ofNat k
  counter : ∀ type, (s.sequenceId type).toNat ≤ (s.given type).length
  pending : ∀ d type v n, .save type v n ∈ s.toDb d → v = UInt32.ofNat n ∧ 1 ≤ n ∧ n ≤ (s.given type).length
  executed : ∀ type, ∀ n ∈ s.executed type, 1 ≤ n ∧ n ≤ (s.given type).length
  stored : ∀ type, s.stored type = (s.executed type).map fun n => printed (UInt32.ofNat n)
  rows : ∀ type, s.rows type = (s.stored type).head?
  replies : ∀ r ∈ s.toGame, ∀ row ∈ r.rows, row.2.toNat ≤ (s.given row.1).length

theorem facts_init : Facts {} where
  given type v := by
    constructor
    · intro h
      cases h
    · rintro ⟨k, hk, hk', _⟩
      exact absurd (Nat.le_trans hk hk') (Nat.not_succ_le_zero 0)
  counter _ := Nat.le_refl 0
  pending _ _ _ _ h := nomatch h
  executed _ _ h := nomatch h
  stored _ := rfl
  rows _ := rfl
  replies _ h := nomatch h

theorem unique_init : Unique {} := fun _ => ⟨List.nodup_nil, List.Pairwise.nil⟩

/-- There are no more ids than values. -/
theorem Unique.length_le (h : Unique s) (type : SequenceType) : (s.given type).length ≤ 2 ^ 32 := by
  have hmap : ((s.given type).map UInt32.toNat).Nodup :=
    (h type).1.map fun _ _ heq => UInt32.toNat_inj.mp heq
  have hsub : (s.given type).map UInt32.toNat ⊆ List.range (2 ^ 32) := by
    intro n hn
    obtain ⟨v, _, rfl⟩ := List.mem_map.mp hn
    exact List.mem_range.mpr v.toNat_lt
  have := (List.subperm_of_subset hmap hsub).length_le
  rwa [List.length_map, List.length_range] at this

/-- The ids and the stored values of a step are those from before, and more. -/
structure Grown (s s' : Sequence) : Prop where
  given : ∀ type, s.given type <:+ s'.given type
  stored : ∀ type, s.stored type <:+ s'.stored type

theorem Unique.of_grown (h : Unique s') (hgrown : Grown s s') : Unique s := by
  intro type
  refine ⟨(h type).1.sublist (hgrown.given type).sublist, ?_⟩
  exact (h type).2.sublist (hgrown.stored type).sublist

/-! ## One operation -/

theorem given_dbOpt (s : Sequence) (op : SequenceOp) (d : Option Nat) : (s.dbOpt op d).given = s.given := by
  cases d <;> rfl

theorem stored_dbOpt (s : Sequence) (op : SequenceOp) (d : Option Nat) : (s.dbOpt op d).stored = s.stored := by
  cases d <;> rfl

theorem Facts.dbOpt (h : Facts s) {op : SequenceOp} (d : Option Nat)
    (hop : ∀ type v n, op = .save type v n → v = UInt32.ofNat n ∧ 1 ≤ n ∧ n ≤ (s.given type).length) :
    Facts (s.dbOpt op d) := by
  cases d with
  | none => exact h
  | some d =>
      refine ⟨h.given, h.counter, ?_, h.executed, h.stored, h.rows, h.replies⟩
      intro d' type v n hmem
      by_cases hd : d' = d
      · subst hd
        rw [show (s.dbOpt op (some d')).toDb d' = s.toDb d' ++ [op] from Function.update_self ..] at hmem
        rcases List.mem_append.mp hmem with hmem | hmem
        · exact h.pending d' type v n hmem
        · exact hop type v n (List.mem_singleton.mp hmem).symm
      · rw [show (s.dbOpt op (some d)).toDb d' = s.toDb d' from Function.update_of_ne hd ..] at hmem
        exact h.pending d' type v n hmem

/-- The next value, when the counter stands at the number of ids. -/
theorem succ_eq_ofNat {v : UInt32} {n : Nat} (h : v.toNat = n) : v + 1 = UInt32.ofNat (n + 1) := by
  apply UInt32.toNat_inj.mp
  rw [UInt32.toNat_add, UInt32.toNat_ofNat', h]
  rfl

/-- **The next id.** It is new exactly when the counter stands at the number of ids that were given. -/
theorem not_mem_given_iff (h : Facts s) (hunique : Unique s) (type : SequenceType) :
    s.sequenceId type + 1 ∉ s.given type ↔ (s.sequenceId type).toNat = (s.given type).length := by
  have hcounter := h.counter type
  rw [succ_eq_ofNat rfl, h.given]
  constructor
  · intro hnot
    by_contra hne
    exact hnot ⟨_, Nat.succ_pos _, Nat.lt_of_le_of_ne hcounter hne, rfl⟩
  · rintro heq ⟨k, hk, hk', hv⟩
    have hlength := hunique.length_le type
    have hmod := congrArg UInt32.toNat hv
    rw [UInt32.toNat_ofNat', UInt32.toNat_ofNat'] at hmod
    have hlt := (s.sequenceId type).toNat_lt
    -- `k` and the new value are different, and less than `2 ^ 32` apart
    omega

theorem sequenceId_advance (s : Sequence) (type : SequenceType) :
    (s.advance type).sequenceId type = s.sequenceId type + 1 := Function.update_self ..

theorem given_advance (s : Sequence) (type : SequenceType) :
    (s.advance type).given type = (s.sequenceId type + 1) :: s.given type := Function.update_self ..

theorem given_advance_of_ne (s : Sequence) {type type' : SequenceType} (ht : type' ≠ type) :
    (s.advance type).given type' = s.given type' := Function.update_of_ne ht ..

theorem grown_advance (s : Sequence) (type : SequenceType) : Grown s (s.advance type) := by
  refine ⟨fun type' => ?_, fun _ => List.suffix_refl _⟩
  by_cases ht : type' = type
  · subst ht
    rw [given_advance]
    exact List.suffix_cons ..
  · simp only [given_advance_of_ne s ht, List.suffix_refl]

theorem unique_advance_iff (h : Facts s) (hunique : Unique s) (type : SequenceType) :
    Unique (s.advance type) ↔ (s.sequenceId type).toNat = (s.given type).length := by
  rw [← not_mem_given_iff h hunique]
  constructor
  · intro hnew
    have hnodup := (hnew type).1
    rw [given_advance] at hnodup
    exact (List.nodup_cons.mp hnodup).1
  · intro hnot type'
    refine ⟨?_, (hunique type').2⟩
    by_cases ht : type' = type
    · subst ht
      rw [given_advance]
      exact List.nodup_cons.mpr ⟨hnot, (hunique type').1⟩
    · rw [given_advance_of_ne s ht]
      exact (hunique type').1

theorem Facts.advance (h : Facts s) {type : SequenceType}
    (hcounter : (s.sequenceId type).toNat = (s.given type).length) : Facts (s.advance type) := by
  have hvalue : s.sequenceId type + 1 = UInt32.ofNat ((s.given type).length + 1) := succ_eq_ofNat hcounter
  have hlength : ∀ type', (s.given type').length ≤ ((s.advance type).given type').length :=
    fun type' => ((grown_advance s type).given type').length_le
  constructor
  · intro type' v
    by_cases ht : type' = type
    · subst ht
      rw [given_advance, List.mem_cons, h.given, List.length_cons, hvalue]
      constructor
      · rintro (rfl | ⟨k, hk, hk', rfl⟩)
        · exact ⟨_, Nat.succ_pos _, Nat.le_refl _, rfl⟩
        · exact ⟨k, hk, Nat.le_succ_of_le hk', rfl⟩
      · rintro ⟨k, hk, hk', rfl⟩
        rcases Nat.lt_or_eq_of_le hk' with hlt | rfl
        · exact Or.inr ⟨k, hk, Nat.le_of_lt_succ hlt, rfl⟩
        · exact Or.inl rfl
    · rw [given_advance_of_ne s ht]
      exact h.given type' v
  · intro type'
    by_cases ht : type' = type
    · subst ht
      rw [sequenceId_advance, given_advance, hvalue, UInt32.toNat_ofNat']
      exact Nat.mod_le ..
    · rw [given_advance_of_ne s ht, show (s.advance type).sequenceId type' = s.sequenceId type' from
        Function.update_of_ne ht ..]
      exact h.counter type'
  · intro d type' v n hmem
    obtain ⟨hv, hn, hn'⟩ := h.pending d type' v n hmem
    exact ⟨hv, hn, Nat.le_trans hn' (hlength type')⟩
  · intro type' n hn
    obtain ⟨hn, hn'⟩ := h.executed type' n hn
    exact ⟨hn, Nat.le_trans hn' (hlength type')⟩
  · exact h.stored
  · exact h.rows
  · intro r hr row hrow
    exact Nat.le_trans (h.replies r hr row hrow) (hlength row.1)

theorem Facts.genSequenceId (h : Facts s) {type : SequenceType}
    (hcounter : (s.sequenceId type).toNat = (s.given type).length) (d : Option Nat) :
    Facts (s.genSequenceId type d) := by
  apply (h.advance hcounter).dbOpt
  intro type' v n hop
  cases hop
  rw [sequenceId_advance, given_advance]
  exact ⟨succ_eq_ofNat hcounter, Nat.succ_pos _, Nat.le_refl _⟩

/-- The value that a row holds. -/
theorem Facts.row (h : Facts s) {type : SequenceType} {value : Int} (hrow : s.rows type = some value) :
    (UInt32.ofNat (value % 2 ^ 32).toNat).toNat ≤ (s.given type).length := by
  rw [h.rows, h.stored, List.head?_map] at hrow
  obtain ⟨n, hn, rfl⟩ := Option.map_eq_some_iff.mp hrow
  rw [ofNat_printed, UInt32.toNat_ofNat']
  exact Nat.le_trans (Nat.mod_le ..) (h.executed type n (List.mem_of_mem_head? hn)).2

theorem Facts.found (h : Facts s) : ∀ row ∈ s.found, row.2.toNat ≤ (s.given row.1).length := by
  intro row hrow
  obtain ⟨type, _, hrow⟩ := List.mem_filterMap.mp hrow
  obtain ⟨value, hvalue, rfl⟩ := Option.map_eq_some_iff.mp hrow
  exact h.row hvalue

/-- The loop of the callback, with any bounds. -/
theorem foldl_update_le {bound : SequenceType → Nat} {rows : List (SequenceType × UInt32)}
    {ids : SequenceType → UInt32} (hrows : ∀ row ∈ rows, row.2.toNat ≤ bound row.1)
    (hids : ∀ type, (ids type).toNat ≤ bound type) (type : SequenceType) :
    (rows.foldl (fun ids row => Function.update ids row.1 row.2) ids type).toNat ≤ bound type := by
  induction rows generalizing ids with
  | nil => exact hids type
  | cons row rows ih =>
      refine ih (fun r hr => hrows r (List.mem_cons_of_mem _ hr)) fun type => ?_
      beta_reduce
      by_cases ht : type = row.1
      · subst ht
        rw [Function.update_self]
        exact hrows row List.mem_cons_self
      · rw [Function.update_of_ne ht]
        exact hids type

theorem Facts.onLoad (h : Facts s) {status : Bool} {rows : List (SequenceType × UInt32)}
    (hrows : ∀ row ∈ rows, row.2.toNat ≤ (s.given row.1).length) : Facts (s.onLoad status rows) := by
  unfold Sequence.onLoad
  split
  · exact h
  split
  · exact h
  · exact ⟨h.given, foldl_update_le hrows h.counter, h.pending, h.executed, h.stored, h.rows, h.replies⟩

theorem unique_onLoad (h : Unique s) (status : Bool) (rows : List (SequenceType × UInt32)) :
    Unique (s.onLoad status rows) := by
  unfold Sequence.onLoad
  split
  · exact h
  split
  · exact h
  · exact h

/-- **A value is stored.** It is not over a larger one exactly when it comes after those of the saves before. -/
theorem pairwise_stored_iff (h : Facts s) (hunique : Unique s) {type : SequenceType} {n : Nat} (hn : 1 ≤ n)
    (hn' : n ≤ (s.given type).length) :
    (printed (UInt32.ofNat n) :: s.stored type).Pairwise (· ≥ ·) ↔ ∀ k ∈ s.executed type, Before k n := by
  have hlength := hunique.length_le type
  have hbefore : ∀ k ∈ s.executed type, (printed (UInt32.ofNat n) ≥ printed (UInt32.ofNat k) ↔ Before k n) := by
    intro k hk
    obtain ⟨hk, hk'⟩ := h.executed type k hk
    exact printed_le_iff hk (Nat.le_trans hk' hlength) hn (Nat.le_trans hn' hlength)
  rw [List.pairwise_cons, and_iff_left (hunique type).2, h.stored, List.forall_mem_map]
  exact forall₂_congr hbefore


/-- A request is executed. -/
theorem Facts.executeOp (h : Facts s) {ok : Bool} {op : SequenceOp}
    (hop : ∀ type v n, op = .save type v n → v = UInt32.ofNat n ∧ 1 ≤ n ∧ n ≤ (s.given type).length) :
    Facts (s.executeOp ok op) := by
  cases op with
  -- a query reads the rows, and the reply has what is stored now
  | query start =>
      refine ⟨h.given, h.counter, h.pending, h.executed, h.stored, h.rows, ?_⟩
      intro r hr row hrow
      rcases List.mem_append.mp hr with hr | hr
      · exact h.replies r hr row hrow
      · rw [List.mem_singleton.mp hr] at hrow
        cases ok
        · cases hrow
        · exact h.found row hrow
  | save type v n =>
      cases ok
      · exact h
      -- the value written is the one that was given out n-th
      obtain ⟨hv, hn, hn'⟩ := hop type v n rfl
      refine ⟨h.given, h.counter, h.pending, ?_, ?_, ?_, h.replies⟩
      · intro type' k hk
        change k ∈ Function.update s.executed type (n :: s.executed type) type' at hk
        by_cases ht : type' = type
        · subst ht
          rw [Function.update_self, List.mem_cons] at hk
          rcases hk with rfl | hk
          · exact ⟨hn, hn'⟩
          · exact h.executed type' k hk
        · rw [Function.update_of_ne ht] at hk
          exact h.executed type' k hk
      · intro type'
        show Function.update s.stored type _ type' = (Function.update s.executed type _ type').map _
        by_cases ht : type' = type
        · subst ht
          rw [Function.update_self, Function.update_self, h.stored, List.map_cons, hv]
        · rw [Function.update_of_ne ht, Function.update_of_ne ht]
          exact h.stored type'
      · intro type'
        show Function.update s.rows type _ type' = (Function.update s.stored type _ type').head?
        by_cases ht : type' = type
        · subst ht
          rw [Function.update_self, Function.update_self, List.head?_cons]
        · rw [Function.update_of_ne ht, Function.update_of_ne ht]
          exact h.rows type'

theorem grown_executeOp (s : Sequence) (ok : Bool) (op : SequenceOp) : Grown s (s.executeOp ok op) := by
  cases op with
  | query start => exact ⟨fun _ => List.suffix_refl _, fun _ => List.suffix_refl _⟩
  | save type v n =>
      cases ok
      · exact ⟨fun _ => List.suffix_refl _, fun _ => List.suffix_refl _⟩
      refine ⟨fun _ => List.suffix_refl _, fun type' => ?_⟩
      show _ <:+ Function.update s.stored type _ type'
      by_cases ht : type' = type
      · subst ht
        rw [Function.update_self]
        exact List.suffix_cons ..
      · simp only [Function.update_of_ne ht, List.suffix_refl]

theorem unique_executeOp_iff (h : Facts s) (hunique : Unique s) {ok : Bool} {op : SequenceOp}
    (hop : ∀ type v n, op = .save type v n → v = UInt32.ofNat n ∧ 1 ≤ n ∧ n ≤ (s.given type).length) :
    Unique (s.executeOp ok op) ↔
      (ok → ∀ type v n, op = .save type v n → ∀ k ∈ s.executed type, Before k n) := by
  cases op with
  | query start => exact iff_of_true hunique fun _ _ _ _ hop => nomatch hop
  | save type v n =>
      cases ok
      · exact iff_of_true hunique fun hok => nomatch hok
      obtain ⟨rfl, hn, hn'⟩ := hop type v n rfl
      have hpairwise := pairwise_stored_iff h hunique hn hn'
      have hstored : (s.executeOp true (.save type (UInt32.ofNat n) n)).stored type =
          printed (UInt32.ofNat n) :: s.stored type := Function.update_self ..
      constructor
      · intro hnew _ type' v' n' hop
        cases hop
        rw [← hpairwise, ← hstored]
        exact (hnew type).2
      · intro hbefore type'
        refine ⟨(hunique type').1, ?_⟩
        by_cases ht : type' = type
        · rw [ht, hstored, hpairwise]
          exact hbefore rfl type _ n rfl
        · rw [show (s.executeOp true (.save type (UInt32.ofNat n) n)).stored type' = s.stored type' from
            Function.update_of_ne ht ..]
          exact (hunique type').2

/-! ## One step -/

theorem Facts.popDb (h : Facts s) (d : Nat) : Facts (s.popDb d) := by
  refine ⟨h.given, h.counter, ?_, h.executed, h.stored, h.rows, h.replies⟩
  intro d' type v n hmem
  change _ ∈ Function.update s.toDb d _ d' at hmem
  by_cases hd : d' = d
  · subst hd
    rw [Function.update_self] at hmem
    exact h.pending d' type v n (List.mem_of_mem_tail hmem)
  · rw [Function.update_of_ne hd] at hmem
    exact h.pending d' type v n hmem

theorem Facts.popGame (h : Facts s) (i : Nat) : Facts (s.popGame i) :=
  ⟨h.given, h.counter, h.pending, h.executed, h.stored, h.rows, fun r hr => h.replies r (List.mem_of_mem_eraseIdx hr)⟩

theorem Facts.restart (h : Facts s) : Facts { s with sequenceId := fun _ => 0, start := s.start + 1 } :=
  ⟨h.given, fun _ => Nat.zero_le _, h.pending, h.executed, h.stored, h.rows, h.replies⟩

/-- What one step can do. -/
inductive Stepped (s : Sequence) : SequenceLabel → Sequence → Prop where
  | init (d : Option Nat) : Stepped s (.init d) (s.dbOpt (.query s.start) d)
  | genSequenceId (type : SequenceType) (d : Option Nat) :
      Stepped s (.genSequenceId type d) (s.genSequenceId type d)
  | noRequest {d : Nat} (h : (s.toDb d).head? = none) (ok : Bool) : Stepped s (.execute d ok) s
  | execute {d : Nat} {op : SequenceOp} (h : (s.toDb d).head? = some op) (ok : Bool) :
      Stepped s (.execute d ok) ((s.popDb d).executeOp ok op)
  | noReply (i : Nat) : Stepped s (.reply i) s
  | lost (i : Nat) : Stepped s (.reply i) (s.popGame i)
  | reply {i : Nat} {r : SequenceReply} (h : s.toGame[i]? = some r) :
      Stepped s (.reply i) ((s.popGame i).onLoad r.status r.rows)
  | restart : Stepped s .restart { s with sequenceId := fun _ => 0, start := s.start + 1 }

theorem step_cases {label : SequenceLabel} (hstep : step s label = some s') : Stepped s label s' := by
  cases label with
  | init d =>
      cases hstep
      exact .init d
  | genSequenceId type d =>
      cases hstep
      exact .genSequenceId type d
  | execute d ok =>
      simp only [step] at hstep
      split at hstep
      next h =>
        cases hstep
        exact .noRequest h ok
      next op h =>
        cases hstep
        exact .execute h ok
  | reply i =>
      simp only [step] at hstep
      split at hstep
      next =>
        cases hstep
        exact .noReply i
      next r h =>
        cases hstep
        split
        · exact .reply h
        · exact .lost i
  | restart =>
      cases hstep
      exact .restart

theorem step_total (s : Sequence) (label : SequenceLabel) : ∃ s', step s label = some s' := by
  cases label with
  | init | genSequenceId | restart => exact ⟨_, rfl⟩
  | execute d ok =>
      simp only [step]
      split
      · exact ⟨_, rfl⟩
      · exact ⟨_, rfl⟩
  | reply i =>
      simp only [step]
      split
      · exact ⟨_, rfl⟩
      · exact ⟨_, rfl⟩

/-- The request at the head of a queue, if it is a save. -/
theorem Facts.first (h : Facts s) {d : Nat} {op : SequenceOp} (hd : (s.toDb d).head? = some op) (type : SequenceType)
    (v : UInt32) (n : Nat) (hop : op = .save type v n) : v = UInt32.ofNat n ∧ 1 ≤ n ∧ n ≤ (s.given type).length := by
  subst hop
  exact h.pending d type v n (List.mem_of_mem_head? hd)

theorem Stepped.grown {label : SequenceLabel} (hstep : Stepped s label s') : Grown s s' := by
  have hsame : ∀ {s' : Sequence}, s'.given = s.given → s'.stored = s.stored → Grown s s' :=
    fun hg hs => ⟨fun _ => hg ▸ List.suffix_refl _, fun _ => hs ▸ List.suffix_refl _⟩
  cases hstep with
  | init d => exact hsame (given_dbOpt ..) (stored_dbOpt ..)
  | genSequenceId type d =>
      have hgrown := grown_advance s type
      constructor
      · intro type'
        rw [Sequence.genSequenceId, given_dbOpt]
        exact hgrown.given type'
      · intro type'
        rw [Sequence.genSequenceId, stored_dbOpt]
        exact hgrown.stored type'
  | @execute d op _ ok =>
      have hgrown := grown_executeOp (s.popDb d) ok op
      exact ⟨hgrown.given, hgrown.stored⟩
  | noRequest | noReply | lost | restart => exact hsame rfl rfl
  | reply _ =>
      unfold onLoad
      split
      · exact hsame rfl rfl
      split
      · exact hsame rfl rfl
      · exact hsame rfl rfl

/-- **One step, the ids.** They stay unique exactly when the step meets the condition. -/
theorem Stepped.keeps_unique_iff (h : Facts s) (hunique : Unique s) {label : SequenceLabel} (hstep : Stepped s label s') :
    Unique s' ↔ Counted s label := by
  cases hstep with
  | init d =>
      refine iff_of_true (fun type => ?_) trivial
      rw [given_dbOpt, stored_dbOpt]
      exact hunique type
  | genSequenceId type d =>
      rw [Counted, ← unique_advance_iff h hunique, Unique, Unique, Sequence.genSequenceId, given_dbOpt, stored_dbOpt]
  | noRequest hd ok =>
      refine iff_of_true hunique fun _ type v n hd' => ?_
      rw [hd] at hd'
      cases hd'
  | @execute d op hd ok =>
      have hiff : Unique ((s.popDb d).executeOp ok op) ↔ _ := unique_executeOp_iff (h.popDb d) hunique (h.first hd)
      rw [Counted, hd]
      simp only [Option.some.injEq]
      exact hiff
  | noReply | lost | restart => exact iff_of_true hunique trivial
  | reply hr => exact iff_of_true (unique_onLoad (s := s.popGame _) hunique _ _) trivial

/-- **One step, the facts.** -/
theorem Stepped.facts (h : Facts s) {label : SequenceLabel} (hcounted : Counted s label)
    (hstep : Stepped s label s') : Facts s' := by
  cases hstep with
  | init d => exact h.dbOpt d fun _ _ _ hop => nomatch hop
  | genSequenceId type d => exact h.genSequenceId hcounted d
  | noRequest | noReply => exact h
  | execute hd ok => exact (h.popDb _).executeOp (h.first hd)
  | lost i => exact h.popGame i
  | reply hr => exact (h.popGame _).onLoad (h.replies _ (List.mem_of_getElem? hr))
  | restart => exact h.restart

/-! ## A whole run -/

/-- In a run no id is given twice and no stored value decreases, up to any of its steps, exactly when all its steps meet
    the condition. -/
theorem unique_iff (labels : List SequenceLabel) :
    (∃ s, run step {} labels = some s ∧ ∀ pre, pre <+: labels → ∀ s₁, run step {} pre = some s₁ → Unique s₁) ↔
      Along step Counted {} labels := by
  refine total_good_iff_along (I := fun s => Unique s → Facts s) ?_ ?_ (fun _ => facts_init) unique_init labels
  · intro s label s' hs hstep hunique'
    have hstepped := step_cases hstep
    have hunique := hunique'.of_grown hstepped.grown
    exact hstepped.facts (hs hunique) ((hstepped.keeps_unique_iff (hs hunique) hunique).mp hunique')
  · intro s label hs hunique
    obtain ⟨s', hstep⟩ := step_total s label
    rw [← (step_cases hstep).keeps_unique_iff (hs hunique) hunique]
    constructor
    · rintro ⟨s'', hstep'', h⟩
      rw [hstep] at hstep''
      cases hstep''
      exact h
    · exact fun h => ⟨s', hstep, h⟩

/-- An id is given, saved and stored. After a restart `gen_sequence_id` is called before the reply to `init` has come. -/
theorem counted_again : ¬ ∀ labels s, run step {} labels = some s → Unique s := by
  intro h
  let labels : List SequenceLabel :=
    [.genSequenceId .account (some 0), .execute 0 true, .restart, .init (some 0), .genSequenceId .account (some 0)]
  have hrun : ((run step {} labels).map fun s => s.given .account) = some [1, 1] := by decide
  obtain ⟨s, hs, hgiven⟩ := Option.map_eq_some_iff.mp hrun
  have hnodup := (h labels s hs .account).1
  rw [hgiven] at hnodup
  exact absurd hnodup (by decide)

end Sequence

end Mowang
