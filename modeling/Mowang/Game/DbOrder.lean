import Mowang.Game.DbStatus

/-!
# `Game.DbOrder` — the order in which the database executes what a game process asks for

Connections and queues keep the order, but each operation may go to another DB process, and each of these takes its
own time.

## Contents
- `DbSystem.InOrder` — on each table the executed operations are the first ones that were issued.
- `in_order_iff`.
- `overtaken`, where an older save of a role is the last one, and `in_order_iff_waiting`, where the newer one waits.
-/

namespace Mowang

/-- The table of an operation, as it arrives. -/
def Issued.tableName (i : Issued) : List UInt8 := cstr (ofCharPtr i.opt.table)

namespace DbSystem

/-- The numbers of the operations on a table, in the order they were issued. -/
def issuedOn (s : DbSystem) (table : List UInt8) : List Nat :=
  (s.issued.filter (·.tableName = table)).map (·.optId)

/-- In the order they were executed. -/
def executedOn (s : DbSystem) (table : List UInt8) : List Nat :=
  (s.executed.filter (·.tableName = table)).map (·.optId)

/-- In the queue of a DB process, and on the connection to it. -/
def queuedOn (s : DbSystem) (d : Nat) (table : List UInt8) : List Nat :=
  (ExecutorManager.onTable table (s.db d).pending).map (·.info.optId)

def travellingOn (s : DbSystem) (d : Nat) (table : List UInt8) : List Nat :=
  ((s.toDb d).filter (cstr ·.tableName = table)).map (·.optId)

/-- On each table the executed operations are the first ones that were issued, in that order. -/
def InOrder (s : DbSystem) : Prop := ∀ table, s.executedOn table <+: s.issuedOn table

/-- When a DB process executes its queue, every operation on one of its tables that was issued before one in the queue
    is executed, or was sent to the same process. -/
def OneProcess (s : DbSystem) : DbLabel → Prop
  | .update d _ => ∀ opt ∈ (s.db d).pending, ∀ i ∈ s.issued, i.tableName = opt.info.tableName →
      i.optId < opt.info.optId → i.optId ∈ s.executed.map (·.optId) ∨ i.process = some d
  | _ => True

/-- What holds of the order in every state. -/
structure Ordered (s : DbSystem) : Prop where
  /-- Towards a DB process the numbers rise. -/
  fifo : ∀ d table, (s.queuedOn d table ++ s.travellingOn d table).Pairwise (· < ·)
  /-- What was sent to a DB process was executed, or is in its queue, or on its way. -/
  located : ∀ d i, s.SentTo d i → i.optId ∈ s.executedOn i.tableName ∨ i.optId ∈ s.queuedOn d i.tableName ∨
    i.optId ∈ s.travellingOn d i.tableName
  executed : ∀ info ∈ s.executed, ∃ i ∈ s.issued, i.optId = info.optId ∧ i.tableName = info.tableName
  /-- What was executed is in no queue and on no connection any more. -/
  once : ∀ table, ∀ k ∈ s.executedOn table, ∀ d, k ∉ s.queuedOn d table ∧ k ∉ s.travellingOn d table

variable {conn : Nat → SocketIndex} {s s' : DbSystem}

/-! ## Numbers stand for operations -/

theorem eq_of_optId (hs : Inv conn s) {i j : Issued} (hi : i ∈ s.issued) (hj : j ∈ s.issued)
    (h : i.optId = j.optId) : i = j := by
  have hnodup : (s.issued.map (·.optId)).Nodup := List.pairwise_map.mpr (hs.increasing.imp fun hlt => Nat.ne_of_lt hlt)
  exact List.inj_on_of_nodup_map hnodup hi hj h

theorem issuedOn_sorted (hs : Inv conn s) (table : List UInt8) : (s.issuedOn table).Pairwise (· < ·) :=
  List.pairwise_map.mpr (hs.increasing.sublist List.filter_sublist)

theorem mem_issuedOn {table : List UInt8} {k : Nat} :
    k ∈ s.issuedOn table ↔ ∃ i ∈ s.issued, i.tableName = table ∧ i.optId = k := by
  simp only [issuedOn, List.mem_map, List.mem_filter, decide_eq_true_eq, and_assoc]

theorem mem_executedOn {table : List UInt8} {k : Nat} :
    k ∈ s.executedOn table ↔ ∃ info ∈ s.executed, info.tableName = table ∧ info.optId = k := by
  simp only [executedOn, List.mem_map, List.mem_filter, decide_eq_true_eq, and_assoc]

theorem mem_queuedOn {d : Nat} {table : List UInt8} {k : Nat} :
    k ∈ s.queuedOn d table ↔ ∃ opt ∈ (s.db d).pending, opt.info.tableName = table ∧ opt.info.optId = k := by
  simp only [queuedOn, List.mem_map, ExecutorManager.mem_onTable, and_assoc]

theorem mem_travellingOn {d : Nat} {table : List UInt8} {k : Nat} :
    k ∈ s.travellingOn d table ↔ ∃ r ∈ s.toDb d, cstr r.tableName = table ∧ r.optId = k := by
  simp only [travellingOn, List.mem_map, List.mem_filter, decide_eq_true_eq, and_assoc]

/-- What is in the queue of a DB process was sent to it. -/
theorem sentTo_of_queuedOn (hs : Inv conn s) {d : Nat} {table : List UInt8} {k : Nat} (h : k ∈ s.queuedOn d table) :
    ∃ i, s.SentTo d i ∧ i.optId = k ∧ i.tableName = table := by
  obtain ⟨opt, ho, rfl, rfl⟩ := mem_queuedOn.mp h
  obtain ⟨i, hi, heq⟩ := hs.queued d opt ho
  exact ⟨i, hi, congrArg DbOptInfo.optId heq, congrArg DbOptInfo.tableName heq⟩

theorem sentTo_of_travellingOn (hs : Inv conn s) {d : Nat} {table : List UInt8} {k : Nat}
    (h : k ∈ s.travellingOn d table) : ∃ i, s.SentTo d i ∧ i.optId = k ∧ i.tableName = table := by
  obtain ⟨r, hr, rfl, rfl⟩ := mem_travellingOn.mp h
  obtain ⟨i, hi, rfl⟩ := hs.sent d r hr
  exact ⟨i, hi, rfl, rfl⟩

/-! ## Executing a queue -/

/-- The state behind `update`. -/
def updated (s : DbSystem) (d : Nat) (x : ExecutorManager) (answers : List Answered) : DbSystem :=
  { s with
    db := Function.update s.db d x
    toGame := Function.update s.toGame d (s.toGame d ++ answers)
    executed := s.executed ++ (s.db d).pending.map (·.info) }

theorem executedOn_updated (d : Nat) (x : ExecutorManager) (answers : List Answered) (table : List UInt8) :
    (s.updated d x answers).executedOn table = s.executedOn table ++ s.queuedOn d table := by
  rw [executedOn, updated, List.filter_append, List.map_append, List.filter_map, List.map_map]
  rfl

/-- `update` leaves no queue. -/
theorem queuedOn_updated {d : Nat} {x : ExecutorManager} (hx : x.pending = []) (answers : List Answered) (d' : Nat)
    (table : List UInt8) :
    (s.updated d x answers).queuedOn d' table = if d' = d then [] else s.queuedOn d' table := by
  have hdb : (s.updated d x answers).db d' = Function.update s.db d x d' := rfl
  rw [queuedOn, hdb]
  by_cases hd : d' = d
  · rw [hd, if_pos rfl, Function.update_self, hx]
    rfl
  · rw [if_neg hd, Function.update_of_ne hd]
    rfl

/-- The queue is next on its tables exactly if nothing older is elsewhere. -/
theorem queue_next_iff (hs : Inv conn s) (ho : Ordered s) (hinOrder : InOrder s) (d : Nat) (outcome : Opt → Outcome) :
    (∀ table, s.executedOn table ++ s.queuedOn d table <+: s.issuedOn table) ↔ s.OneProcess (.update d outcome) := by
  constructor
  · intro hnext opt hopt i hi htable hlt
    have hqueued : opt.info.optId ∈ s.queuedOn d opt.info.tableName := mem_queuedOn.mpr ⟨opt, hopt, rfl, rfl⟩
    have hissued : i.optId ∈ s.issuedOn opt.info.tableName := mem_issuedOn.mpr ⟨i, hi, htable, rfl⟩
    have hbefore := mem_of_prefix (hnext opt.info.tableName) (issuedOn_sorted hs _) (List.mem_append_right _ hqueued)
      hissued hlt
    rcases List.mem_append.mp hbefore with hexecuted | hqueued
    · obtain ⟨info, hinfo, _, hid⟩ := mem_executedOn.mp hexecuted
      exact Or.inl (List.mem_map.mpr ⟨info, hinfo, hid⟩)
    · obtain ⟨j, hj, hid, _⟩ := sentTo_of_queuedOn hs hqueued
      rw [eq_of_optId hs hi hj.1 hid.symm]
      exact Or.inr hj.2
  · intro hone table
    obtain ⟨rest, hrest⟩ := hinOrder table
    have hsorted := issuedOn_sorted hs table
    rw [← hrest] at hsorted ⊢
    obtain ⟨_, hsortedRest, hlow⟩ := List.pairwise_append.mp hsorted
    have hnot : ∀ k ∈ s.executedOn table, k ∉ rest := fun k hk hk' => Nat.lt_irrefl k (hlow k hk k hk')
    refine (List.prefix_append_right_inj _).mpr
      (prefix_of_below (List.pairwise_append.mp (ho.fifo d table)).1 hsortedRest ?_ ?_)
    · intro k hk
      obtain ⟨i, hi, rfl, htable⟩ := sentTo_of_queuedOn hs hk
      have hissued : i.optId ∈ s.issuedOn table := mem_issuedOn.mpr ⟨i, hi.1, htable, rfl⟩
      rw [← hrest] at hissued
      exact (List.mem_append.mp hissued).resolve_left fun hexecuted => (ho.once table _ hexecuted d).1 hk
    · intro k hk k' hk' hlt
      -- an older operation that is not executed was sent here, and is in front of those on their way
      have hissued : k' ∈ s.issuedOn table := hrest ▸ List.mem_append_right _ hk'
      obtain ⟨i, hi, rfl, rfl⟩ := mem_issuedOn.mp hissued
      obtain ⟨opt, hopt, htable, rfl⟩ := mem_queuedOn.mp hk
      have hnotExecuted : i.optId ∉ s.executedOn i.tableName := fun h => hnot _ h hk'
      have hprocess : i.process = some d := by
        rcases hone opt hopt i hi htable.symm hlt with hexecuted | hprocess
        · obtain ⟨info, hinfo, hid⟩ := List.mem_map.mp hexecuted
          obtain ⟨j, hj, hjid, hjtable⟩ := ho.executed info hinfo
          rw [← eq_of_optId hs hj hi (hjid.trans hid)] at hnotExecuted
          exact absurd (mem_executedOn.mpr ⟨info, hinfo, hjtable.symm, hjid.symm⟩) hnotExecuted
        · exact hprocess
      rcases ho.located d i ⟨hi, hprocess⟩ with hexecuted | hqueued | htravelling
      · exact absurd hexecuted hnotExecuted
      · exact hqueued
      · exact absurd ((List.pairwise_append.mp (ho.fifo d _)).2.2 _ hk _ htravelling) (Nat.not_lt_of_lt hlt)

/-! ## Every step -/

theorem init_ordered (start : Nat) : Ordered (init conn start) where
  fifo := fun _ _ => List.Pairwise.nil
  located := fun _ _ hi => absurd hi.1 List.not_mem_nil
  executed := fun _ hinfo => absurd hinfo List.not_mem_nil
  once := fun _ _ hk => absurd hk List.not_mem_nil

theorem issuedOn_registering (opt : DbOpt) (client : Option Nat) (table : List UInt8) :
    s.issuedOn table <+: (s.registering opt client).issuedOn table := by
  simp only [issuedOn, registering, List.filter_append, List.map_append]
  exact List.prefix_append ..

/-- The numbers on their way to a DB process are no newer than the last one. -/
theorem le_optId (hs : Inv conn s) {d : Nat} {table : List UInt8} {k : Nat}
    (h : k ∈ s.queuedOn d table ++ s.travellingOn d table) : k ≤ s.optId := by
  rcases List.mem_append.mp h with h | h
  · obtain ⟨i, hi, rfl, _⟩ := sentTo_of_queuedOn hs h
    exact hs.bounded i hi.1
  · obtain ⟨i, hi, rfl, _⟩ := sentTo_of_travellingOn hs h
    exact hs.bounded i hi.1

theorem travellingOn_registering (opt : DbOpt) (client : Option Nat) (d : Nat) (table : List UInt8) :
    (s.registering opt client).travellingOn d table = s.travellingOn d table ++
      if client = some d ∧ cstr (ofCharPtr opt.table) = table then [s.optId + 1] else [] := by
  simp only [travellingOn, registering, List.filter_append, List.map_append]
  apply congrArg
  by_cases hclient : client = some d
  · by_cases htable : cstr (ofCharPtr opt.table) = table <;> simp [hclient, htable, DbOpt.request]
  · simp [hclient]

theorem issue_ordered (hs : Inv conn s) (ho : Ordered s) (opt : DbOpt) (client : Option Nat) :
    Ordered (s.registering opt client) where
  fifo d table := by
    rw [travellingOn_registering, ← List.append_assoc]
    refine List.pairwise_append.mpr ⟨ho.fifo d table, ?_, ?_⟩
    · split
      · exact List.pairwise_singleton ..
      · exact List.Pairwise.nil
    · intro k hk k' hk'
      split at hk'
      · rw [List.mem_singleton.mp hk']
        exact Nat.lt_succ_of_le (le_optId hs hk)
      · cases hk'
  located d i hi := by
    rw [travellingOn_registering, List.mem_append]
    rcases List.mem_append.mp hi.1 with hold | hnew
    · rcases ho.located d i ⟨hold, hi.2⟩ with h | h | h
      · exact Or.inl h
      · exact Or.inr (Or.inl h)
      · exact Or.inr (Or.inr (Or.inl h))
    · cases List.mem_singleton.mp hnew
      rw [if_pos ⟨hi.2, rfl⟩]
      exact Or.inr (Or.inr (Or.inr (List.mem_singleton_self _)))
  executed info hinfo := by
    obtain ⟨i, hi, h⟩ := ho.executed info hinfo
    exact ⟨i, List.mem_append_left _ hi, h⟩
  once table k hk d := by
    refine ⟨(ho.once table k hk d).1, fun h => ?_⟩
    rw [travellingOn_registering, List.mem_append] at h
    rcases h with h | h
    · exact (ho.once table k hk d).2 h
    · split at h
      · -- a new number is no executed one
        obtain ⟨info, hinfo, _, rfl⟩ := mem_executedOn.mp hk
        obtain ⟨i, hi, hid, _⟩ := ho.executed info hinfo
        have hle := hs.bounded i hi
        rw [hid, List.mem_singleton.mp h] at hle
        exact Nat.lt_irrefl _ hle
      · cases h

/-- A request goes from the connection to the end of its queue. -/
theorem queuedOn_arrive (hs : Inv conn s) {d : Nat} {request : DbRequest} {rest : List DbRequest} {x : ExecutorManager}
    (htoDb : s.toDb d = request :: rest) (hx : request.arrive (conn d) (s.db d) = some x) (d' : Nat)
    (table : List UInt8) :
    let s' : DbSystem := { s with toDb := Function.update s.toDb d rest, db := Function.update s.db d x }
    s'.queuedOn d' table ++ s'.travellingOn d' table = s.queuedOn d' table ++ s.travellingOn d' table := by
  intro s'
  by_cases hd : d' = d
  · subst hd
    have hqueue : s'.queuedOn d' table =
        s.queuedOn d' table ++ if cstr request.tableName = table then [request.optId] else [] := by
      simp only [queuedOn, s', Function.update_self]
      rw [DbRequest.arrive_eq hx, ExecutorManager.pending, ExecutorManager.addExecutor,
        ExecutorManager.onTable_pushOpt (hs.queues d').keyed, List.map_append]
      apply congrArg
      by_cases htable : cstr request.tableName = table <;> simp [ExecutorManager.onTable, htable]
    have htravelling : s.travellingOn d' table =
        (if cstr request.tableName = table then [request.optId] else []) ++ s'.travellingOn d' table := by
      simp only [travellingOn, s', Function.update_self, htoDb]
      by_cases htable : cstr request.tableName = table <;> simp [htable]
    rw [hqueue, htravelling, List.append_assoc]
  · simp only [queuedOn, travellingOn, s', Function.update_of_ne hd]

theorem addExecutor_ordered (hs : Inv conn s) (ho : Ordered s) {d : Nat} {request : DbRequest}
    {rest : List DbRequest} {x : ExecutorManager} (htoDb : s.toDb d = request :: rest)
    (hx : request.arrive (conn d) (s.db d) = some x) :
    Ordered { s with toDb := Function.update s.toDb d rest, db := Function.update s.db d x } where
  fifo d' table := by
    rw [queuedOn_arrive hs htoDb hx]
    exact ho.fifo d' table
  located d' i hi := by
    rcases ho.located d' i hi with h | h
    · exact Or.inl h
    · refine Or.inr (List.mem_append.mp ?_)
      rw [queuedOn_arrive hs htoDb hx]
      exact List.mem_append.mpr h
  executed := ho.executed
  once table k hk d' := by
    rw [← not_or, ← List.mem_append, queuedOn_arrive hs htoDb hx, List.mem_append, not_or]
    exact ho.once table k hk d'

theorem update_ordered (hs : Inv conn s) (ho : Ordered s) {d : Nat} {x : ExecutorManager} (hx : x.pending = [])
    (answers : List Answered) : Ordered (s.updated d x answers) where
  fifo d' table := by
    rw [queuedOn_updated hx]
    split
    · exact (List.pairwise_append.mp (ho.fifo d' table)).2.1
    · exact ho.fifo d' table
  located d' i hi := by
    rw [executedOn_updated, queuedOn_updated hx]
    rcases ho.located d' i hi with h | h | h
    · exact Or.inl (List.mem_append_left _ h)
    · split
      · rename_i hd
        exact Or.inl (List.mem_append_right _ (hd ▸ h))
      · exact Or.inr (Or.inl h)
    · exact Or.inr (Or.inr h)
  executed info hinfo := by
    rcases List.mem_append.mp hinfo with h | h
    · exact ho.executed info h
    · obtain ⟨opt, hopt, rfl⟩ := List.mem_map.mp h
      obtain ⟨i, hi, heq⟩ := hs.queued d opt hopt
      exact ⟨i, hi.1, congrArg DbOptInfo.optId heq, congrArg DbOptInfo.tableName heq⟩
  once table k hk d' := by
    rw [executedOn_updated] at hk
    rw [queuedOn_updated hx]
    rcases List.mem_append.mp hk with hexecuted | hqueued
    · obtain ⟨hqueue, htravelling⟩ := ho.once table k hexecuted d'
      refine ⟨?_, htravelling⟩
      split
      · exact List.not_mem_nil
      · exact hqueue
    · by_cases hd : d' = d
      · -- what follows it on the connection is newer
        subst hd
        rw [if_pos rfl]
        refine ⟨List.not_mem_nil, fun h => ?_⟩
        exact Nat.lt_irrefl k ((List.pairwise_append.mp (ho.fifo d' table)).2.2 k hqueued k h)
      · -- and it was sent to one process only
        rw [if_neg hd]
        obtain ⟨i, hi, hid, _⟩ := sentTo_of_queuedOn hs hqueued
        have helsewhere : ∀ j, s.SentTo d' j → j.optId = k → False := by
          intro j hj hjid
          obtain rfl := eq_of_optId hs hi.1 hj.1 (hid.trans hjid.symm)
          exact hd (Option.some.inj (hj.2.symm.trans hi.2))
        constructor
        · intro h
          obtain ⟨j, hj, hjid, _⟩ := sentTo_of_queuedOn hs h
          exact helsewhere j hj hjid
        · intro h
          obtain ⟨j, hj, hjid, _⟩ := sentTo_of_travellingOn hs h
          exact helsewhere j hj hjid

/-- A callback changes nothing of this. -/
theorem reply_same (hs : Inv conn s) {d : Nat} (h : step conn s (.reply d) = some s') :
    ∃ toGame calls, s' = { s with toGame := toGame, calls := calls } := by
  rw [step] at h
  split at h
  · cases h
    exact ⟨s.toGame, s.calls, rfl⟩
  · obtain ⟨c, _, _, _, _, _, _, rfl⟩ := receive_eq hs ‹_› h
    exact ⟨_, _, rfl⟩

theorem step_ordered (hs : Inv conn s) (ho : Ordered s) {l : DbLabel} (h : step conn s l = some s') : Ordered s' := by
  cases l with
  | issue opt client =>
      rw [issue_eq h]
      exact issue_ordered hs ho opt client
  | addExecutor d =>
      rw [step] at h
      split at h
      · cases h
        exact ho
      · obtain ⟨x, hx, rfl⟩ := Option.map_eq_some_iff.mp h
        exact addExecutor_ordered hs ho ‹_› hx
  | update d outcome =>
      obtain ⟨x, hx, h⟩ := Option.bind_eq_some_iff.mp h
      obtain ⟨answers, _, rfl⟩ := Option.map_eq_some_iff.mp h
      exact update_ordered hs ho (ExecutorManager.update_spec (hs.queues d) hx).1 answers
  | reply d =>
      obtain ⟨_, _, rfl⟩ := reply_same hs h
      exact ⟨ho.fifo, ho.located, ho.executed, ho.once⟩

/-- A step keeps the order exactly if it is not an `update` that comes too early. -/
theorem step_inOrder_iff (hs : Inv conn s) (ho : Ordered s) (hinOrder : InOrder s) {l : DbLabel}
    (h : step conn s l = some s') : InOrder s' ↔ s.OneProcess l := by
  cases l with
  | issue opt client =>
      rw [issue_eq h]
      exact iff_of_true (fun table => (hinOrder table).trans (issuedOn_registering opt client table)) trivial
  | addExecutor d =>
      rw [step] at h
      split at h
      · cases h
        exact iff_of_true hinOrder trivial
      · obtain ⟨x, _, rfl⟩ := Option.map_eq_some_iff.mp h
        exact iff_of_true hinOrder trivial
  | update d outcome =>
      obtain ⟨x, _, h⟩ := Option.bind_eq_some_iff.mp h
      obtain ⟨answers, _, rfl⟩ := Option.map_eq_some_iff.mp h
      rw [← queue_next_iff hs ho hinOrder d outcome]
      apply forall_congr'
      intro table
      rw [← executedOn_updated d x answers]
      exact Iff.rfl
  | reply d =>
      obtain ⟨_, _, rfl⟩ := reply_same hs h
      exact iff_of_true hinOrder trivial

theorem init_inOrder (start : Nat) : InOrder (init conn start) := fun _ => List.prefix_refl []

/-- **When the order is kept.** Over any run, with any number of DB processes and whatever each of them has reached: on
    each table the operations are executed in the order they were issued, in every state, if and only if a DB process
    executes a queue only when each operation that was issued earlier on one of its tables is executed, or was sent to
    the same process. -/
theorem in_order_iff {start : Nat} {labels : List DbLabel} {s : DbSystem}
    (hrun : run (step conn) (init conn start) labels = some s) :
    (∀ pre, pre <+: labels → ∀ s₁, run (step conn) (init conn start) pre = some s₁ → InOrder s₁) ↔
      Along (step conn) OneProcess (init conn start) labels := by
  have hstep : ∀ {s s' : DbSystem} {l}, Inv conn s ∧ Ordered s → step conn s l = some s' → Inv conn s' ∧ Ordered s' :=
    fun hs h => ⟨step_inv hs.1 h, step_ordered hs.1 hs.2 h⟩
  apply good_iff_along hstep (fun hs hinOrder h => step_inOrder_iff hs.1 hs.2 hinOrder h) _ (init_inOrder start) hrun
  exact ⟨init_inv start, init_ordered start⟩

/-! ## Two processes -/

/-- A step that is about one process: the others, and what is issued, stay. -/
structure About (d : Nat) (s s' : DbSystem) : Prop where
  issued : s'.issued = s.issued
  optId : s'.optId = s.optId
  toDb : ∀ d', d' ≠ d → s'.toDb d' = s.toDb d'
  db : ∀ d', d' ≠ d → s'.db d' = s.db d'

/-- One request arrives at an empty queue. -/
theorem addExecutor_single (hs : Inv conn s) {opt : DbOpt} (hshort : Short opt) {d k : Nat}
    (htoDb : s.toDb d = [opt.request k]) (hempty : (s.db d).pending = []) :
    ∃ s' o, step conn s (.addExecutor d) = some s' ∧ Inv conn s' ∧ About d s s' ∧ s'.executed = s.executed ∧
      (s'.db d).pending = [o] ∧ o.info = (opt.request k).info (conn d) := by
  obtain ⟨x, hx⟩ := arrive_isSome hshort k (conn d) (s.db d)
  obtain ⟨o, hinfo, hperm⟩ := arrive_pending hx
  rw [hempty, List.nil_append, List.perm_singleton] at hperm
  have hstep : step conn s (.addExecutor d) =
      some { s with toDb := Function.update s.toDb d [], db := Function.update s.db d x } := by
    rw [step, htoDb]
    exact congrArg (Option.map _) hx
  refine ⟨_, o, hstep, step_inv hs hstep, ⟨rfl, rfl, ?_, ?_⟩, rfl, ?_, hinfo⟩
  · exact fun d' hd' => Function.update_of_ne hd' ..
  · exact fun d' hd' => Function.update_of_ne hd' ..
  · show (Function.update s.db d x d).pending = [o]
    rw [Function.update_self, hperm]

/-- The statement of an update, as `executor` makes it. -/
def updateStatement (opt : DbOpt) : List UInt8 :=
  MysqlConn.updateSql (cstr (ofCharPtr opt.table)) (cstr (ofCharPtr opt.fields)) (cstr (ofCharPtr opt.condition))

/-- A save of a row, which fits in the packet and in the buffer of the statement. -/
structure Saves (opt : DbOpt) (table : List UInt8) : Prop where
  short : Short opt
  update : opt.optType = dbOptUpdate
  fits : (updateStatement opt).length < sizeofSql
  table : cstr (ofCharPtr opt.table) = table

/-- A queue of one save, on its table. -/
theorem queuedOn_single {opt : DbOpt} {table : List UInt8} (hsaves : Saves opt table) {d k : Nat} {o : Opt}
    (hpending : (s.db d).pending = [o]) (hinfo : o.info = (opt.request k).info (conn d)) :
    s.queuedOn d table = [k] := by
  have htable : o.info.tableName = table := by
    rw [hinfo]
    exact hsaves.table
  have hid : o.info.optId = k := congrArg DbOptInfo.optId hinfo
  simp [queuedOn, hpending, ExecutorManager.onTable, htable, hid]

/-- It is executed alone. -/
theorem update_saved (hs : Inv conn s) {opt : DbOpt} {table : List UInt8} (hsaves : Saves opt table) {d k : Nat}
    {o : Opt} (hpending : (s.db d).pending = [o]) (hinfo : o.info = (opt.request k).info (conn d)) :
    ∃ s', step conn s (.update d fun _ => .rows []) = some s' ∧ Inv conn s' ∧ About d s s' ∧
      s'.executed = s.executed ++ [o.info] ∧ s'.executedOn table = s.executedOn table ++ [k] := by
  have hfits : (MysqlConn.updateSql o.info.tableName o.info.fields o.info.condition).length < sizeofSql := by
    rw [hinfo]
    exact hsaves.fits
  have htype : o.info.optType = dbOptUpdate := by
    rw [hinfo]
    exact hsaves.update
  have hsocket : o.info.socketIndex = conn d := congrArg DbOptInfo.socketIndex hinfo
  obtain ⟨sql, hsql⟩ := Option.isSome_iff_exists.mp (sprintf_isSome_iff.mpr hfits)
  have hanswer : answer o.info (.rows []) = some ([cstr sql.cells], .status o.info.optId true) := by
    have hnotQuery : o.info.optType ≠ dbOptQuery := by
      rw [htype]
      decide
    rw [answer, if_neg hnotQuery, ExecutorManager.apply, if_pos htype, MysqlConn.update, hsql]
    rfl
  obtain ⟨_, hsent⟩ := ExecutorManager.statusReply_sent o.info.socketIndex o.info.optId
  obtain ⟨⟨x, hx⟩, hanswers⟩ := update_single hpending (hsocket ▸ hs.connected d) hanswer hsent
  have hstep : step conn s (.update d fun _ => .rows []) = some (s.updated d x _) :=
    Option.bind_eq_some_iff.mpr ⟨x, hx, Option.map_eq_some_iff.mpr ⟨_, hanswers, rfl⟩⟩
  refine ⟨_, hstep, step_inv hs hstep, ⟨rfl, rfl, fun _ _ => rfl, ?_⟩, ?_, ?_⟩
  · exact fun d' hd' => Function.update_of_ne hd' ..
  · show s.executed ++ (s.db d).pending.map _ = _
    rw [hpending, List.map_singleton]
  · rw [executedOn_updated, queuedOn_single hsaves hpending hinfo]

/-- Two saves of a row are sent to two DB processes. The second process is the faster one. -/
def overtakenRun (older newer : DbOpt) : List DbLabel :=
  [.issue older (some 0), .issue newer (some 1), .addExecutor 0, .addExecutor 1, .update 1 fun _ => .rows [],
    .update 0 fun _ => .rows []]

/-- The older save is the last one. -/
theorem overtakenRun_executed {older newer : DbOpt} {table : List UInt8} (holder : Saves older table)
    (hnewer : Saves newer table) : ∃ s, run (step conn) (init conn 0) (overtakenRun older newer) = some s ∧
      s.issuedOn table = [1, 2] ∧ s.executedOn table = [2, 1] := by
  let s₁ := (init conn 0).registering older (some 0)
  let s₂ := s₁.registering newer (some 1)
  have h₁ : step conn (init conn 0) (.issue older (some 0)) = some s₁ := issue_isSome holder.short _ 0
  have h₂ : step conn s₁ (.issue newer (some 1)) = some s₂ := issue_isSome hnewer.short _ 1
  have hs₂ : Inv conn s₂ := issue_inv (issue_inv (init_inv 0))
  -- each request arrives at its own process
  obtain ⟨s₃, o₀, h₃, hs₃, habout₃, hexecuted₃, hpending₀, hinfo₀⟩ :=
    addExecutor_single hs₂ (d := 0) (k := 1) holder.short rfl rfl
  have hempty₁ : (s₃.db 1).pending = [] := by
    rw [habout₃.db 1 (by decide)]
    rfl
  obtain ⟨s₄, o₁, h₄, hs₄, habout₄, hexecuted₄, hpending₁, hinfo₁⟩ :=
    addExecutor_single hs₃ hnewer.short (habout₃.toDb 1 (by decide)) hempty₁
  -- the second one is executed first
  obtain ⟨s₅, h₅, hs₅, habout₅, _, hexecuted₅⟩ := update_saved hs₄ hnewer hpending₁ hinfo₁
  have hdb₀ : (s₅.db 0).pending = [o₀] := by
    rw [habout₅.db 0 (by decide), habout₄.db 0 (by decide), hpending₀]
  obtain ⟨s₆, h₆, _, habout₆, _, hexecuted₆⟩ := update_saved hs₅ holder hdb₀ hinfo₀
  refine ⟨s₆, ?_, ?_, ?_⟩
  · simp only [overtakenRun, run, h₁, h₂, h₃, h₄, h₅, h₆, Option.bind_some]
  · have hissued : s₆.issued = [⟨some 0, 1, older⟩, ⟨some 1, 2, newer⟩] := by
      rw [habout₆.issued, habout₅.issued, habout₄.issued, habout₃.issued]
      rfl
    simp [issuedOn, hissued, Issued.tableName, holder.table, hnewer.table]
  · have hnone : s₄.executedOn table = [] := by
      rw [executedOn, hexecuted₄, hexecuted₃]
      rfl
    rw [hexecuted₆, hexecuted₅, hnone]
    rfl

/-- `role::save`, when the role has just got a new level. -/
def saveLevel (level : List UInt8) : DbOpt :=
  .update (ascii "role") (ascii "set level = " ++ level) (ascii "role_id = '1'")

theorem secondLevel_saves : Saves (saveLevel (ascii "2")) (ascii "role") :=
  ⟨⟨by decide, by decide, by decide⟩, rfl, by decide, by decide⟩

theorem thirdLevel_saves : Saves (saveLevel (ascii "3")) (ascii "role") :=
  ⟨⟨by decide, by decide, by decide⟩, rfl, by decide, by decide⟩

/-- Two saves of a row are sent to two DB processes, and the second one is issued when the first is executed. -/
def orderedRun (older newer : DbOpt) : List DbLabel :=
  [.issue older (some 0), .addExecutor 0, .update 0 fun _ => .rows [], .issue newer (some 1), .addExecutor 1,
    .update 1 fun _ => .rows []]

/-- One save, from its issue to its execution. -/
def savedRun (opt : DbOpt) (d : Nat) : List DbLabel :=
  [.issue opt (some d), .addExecutor d, .update d fun _ => .rows []]

/-- A save is sent to a process that has nothing to do, which executes it at once. -/
theorem saved_alone (hs : Inv conn s) {opt : DbOpt} {table : List UInt8} (hsaves : Saves opt table) {d : Nat}
    (htoDb : s.toDb d = []) (hempty : (s.db d).pending = [])
    (hdone : ∀ i ∈ s.issued, i.optId ∈ s.executed.map (·.optId)) :
    ∃ s', run (step conn) s (savedRun opt d) = some s' ∧ Along (step conn) OneProcess s (savedRun opt d) ∧
      Inv conn s' ∧ About d (s.registering opt (some d)) s' ∧
      s'.executedOn table = s.executedOn table ++ [s.optId + 1] ∧
      ∀ i ∈ s'.issued, i.optId ∈ s'.executed.map (·.optId) := by
  let s₁ := s.registering opt (some d)
  have h₁ : step conn s (.issue opt (some d)) = some s₁ := issue_isSome hsaves.short _ d
  have htoDb₁ : s₁.toDb d = [opt.request (s.optId + 1)] := by
    show s.toDb d ++ _ = _
    rw [htoDb, if_pos rfl]
    rfl
  obtain ⟨s₂, o, h₂, hs₂, habout₂, hexecuted₂, hpending, hinfo⟩ :=
    addExecutor_single (s := s₁) (issue_inv hs) hsaves.short htoDb₁ hempty
  obtain ⟨s₃, h₃, hs₃, habout₃, hexecuted₃, hexecutedOn₃⟩ := update_saved hs₂ hsaves hpending hinfo
  have hissued₂ : s₂.issued = s.issued ++ [⟨some d, s.optId + 1, opt⟩] := habout₂.issued
  have honly : s₂.OneProcess (.update d fun _ => .rows []) := by
    intro _ _ i hi _ _
    rw [hissued₂] at hi
    rcases List.mem_append.mp hi with hi | hi
    · exact Or.inl (hexecuted₂ ▸ hdone i hi)
    · rw [List.mem_singleton.mp hi]
      exact Or.inr rfl
  refine ⟨s₃, ?_, ?_, hs₃, ?_, ?_, ?_⟩
  · simp only [savedRun, run, h₁, h₂, h₃, Option.bind_some]
  · rw [savedRun, along_cons h₁, along_cons h₂, along_cons h₃]
    exact ⟨trivial, trivial, honly, trivial⟩
  · exact ⟨habout₃.issued.trans habout₂.issued, habout₃.optId.trans habout₂.optId,
      fun d' hd' => (habout₃.toDb d' hd').trans (habout₂.toDb d' hd'),
      fun d' hd' => (habout₃.db d' hd').trans (habout₂.db d' hd')⟩
  · rw [hexecutedOn₃, executedOn, hexecuted₂]
    rfl
  · intro i hi
    rw [habout₃.issued, hissued₂] at hi
    rw [hexecuted₃, hexecuted₂, List.map_append]
    rcases List.mem_append.mp hi with hi | hi
    · exact List.mem_append_left _ (hdone i hi)
    · rw [List.mem_singleton.mp hi]
      exact List.mem_append_right _ (List.mem_singleton.mpr (congrArg DbOptInfo.optId hinfo).symm)

/-- Each of them finds nothing older that is left to do. -/
theorem orderedRun_along {older newer : DbOpt} {table : List UInt8} (holder : Saves older table)
    (hnewer : Saves newer table) : (∃ s, run (step conn) (init conn 0) (orderedRun older newer) = some s ∧
      s.issuedOn table = [1, 2] ∧ s.executedOn table = [1, 2]) ∧
      Along (step conn) OneProcess (init conn 0) (orderedRun older newer) := by
  obtain ⟨s₁, hrun₁, halong₁, hs₁, habout₁, hexecuted₁, hdone₁⟩ :=
    saved_alone (init_inv 0) holder (d := 0) rfl rfl (List.forall_mem_nil _)
  have hempty₁ : (s₁.db 1).pending = [] := by
    rw [habout₁.db 1 (by decide)]
    rfl
  obtain ⟨s₂, hrun₂, halong₂, _, habout₂, hexecuted₂, _⟩ :=
    saved_alone hs₁ hnewer (habout₁.toDb 1 (by decide)) hempty₁ hdone₁
  have hsplit : orderedRun older newer = savedRun older 0 ++ savedRun newer 1 := rfl
  refine ⟨⟨s₂, ?_, ?_, ?_⟩, ?_⟩
  · rw [hsplit, run_append, hrun₁]
    exact hrun₂
  · have hissued : s₂.issued = [⟨some 0, 1, older⟩, ⟨some 1, 2, newer⟩] := by
      rw [habout₂.issued, registering, habout₁.issued, habout₁.optId]
      rfl
    simp [issuedOn, hissued, Issued.tableName, holder.table, hnewer.table]
  · rw [hexecuted₂, hexecuted₁, habout₁.optId]
    rfl
  · exact (along_append hrun₁).mpr ⟨halong₁, halong₂⟩

/-- A save of a role that is sent to another process than the one before it, when that one is done. -/
theorem in_order_iff_waiting : (∃ s, run (step fun _ => 5) (init (fun _ => 5) 0)
      (orderedRun (saveLevel (ascii "2")) (saveLevel (ascii "3"))) = some s ∧
      s.issuedOn (ascii "role") = [1, 2] ∧ s.executedOn (ascii "role") = [1, 2]) ∧
    ∀ pre, pre <+: orderedRun (saveLevel (ascii "2")) (saveLevel (ascii "3")) →
      ∀ s, run (step fun _ => 5) (init (fun _ => 5) 0) pre = some s → InOrder s := by
  obtain ⟨⟨s, hrun, hissued, hexecuted⟩, halong⟩ :=
    @orderedRun_along (fun _ => 5) _ _ _ secondLevel_saves thirdLevel_saves
  exact ⟨⟨s, hrun, hissued, hexecuted⟩, (in_order_iff hrun).mpr halong⟩

/-- The first of two saves of a role is the one that stays. -/
theorem overtaken : ∃ s, run (step fun _ => 5) (init (fun _ => 5) 0)
      (overtakenRun (saveLevel (ascii "2")) (saveLevel (ascii "3"))) = some s ∧
    s.issuedOn (ascii "role") = [1, 2] ∧ s.executedOn (ascii "role") = [2, 1] ∧ ¬ s.InOrder := by
  obtain ⟨s, hrun, hissued, hexecuted⟩ := overtakenRun_executed secondLevel_saves thirdLevel_saves
  refine ⟨s, hrun, hissued, hexecuted, fun hinOrder => ?_⟩
  have hprefix := hinOrder (ascii "role")
  rw [hissued, hexecuted] at hprefix
  exact absurd hprefix (by decide)

end DbSystem

end Mowang
