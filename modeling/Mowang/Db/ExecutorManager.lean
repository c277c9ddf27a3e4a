import Mathlib.Data.List.Nodup
import Mowang.Base.Run
import Mowang.Db.MysqlConn
import Mowang.Share.RpcClient

/-!
# `Db.ExecutorManager` — the requests of a DB process

`add_executor` queues a request under its table, and `update` executes all that is queued, table by table. A
request lives in a block of `m_mem_pool` until `executor` gives the block back. The requester of a queued
request may close its connection at any time; then `get_client_by_socket_index` finds no client for it.

## Contents
- `DbOptInfo`, `ExecutorManager.executor`, `update`, `addExecutor`.
- `ExecutorLabel`, `ExecutorManager.step`, `ExactlyOnce`, `AllAnswerable`.
- `exactly_once_iff`, and `requester_gone`, where an operation is lost.
-/

namespace Mowang

def dbOptQuery : UInt8 := 1
def dbOptUpdate : UInt8 := 2
def dbOptInsert : UInt8 := 3
def dbOptDelete : UInt8 := 4

/-- `db_opt_info`. -/
structure DbOptInfo where
  optType : UInt8
  optId : Nat
  socketIndex : SocketIndex
  tableName : List UInt8
  condition : List UInt8
  fields : List UInt8
  deriving DecidableEq

/-- A block of the pool, and what it holds. -/
structure Opt where
  block : Nat
  info : DbOptInfo
  deriving DecidableEq

structure ExecutorManager where
  /-- The connections that have an `rpc_client`. -/
  clients : SocketIndex → Bool := fun _ => false
  /-- `m_executors`, in the order of its keys. -/
  executors : List (List UInt8 × List Opt) := []
  /-- The next block of `m_mem_pool`. -/
  newBlock : Nat := 0
  /-- What handlers passed to the service. -/
  sent : List PacketSendInfo := []
  -- the rest is read by the theorems only
  added : List Opt := []
  /-- The statements the database executed, and the requests they are for. -/
  applied : List (Opt × List UInt8) := []
  /-- The blocks given back to the pool. -/
  freed : List Nat := []

/-- What happens in a DB process. `update` comes with what the database answers to each request. -/
inductive ExecutorLabel
  | handleInit (s : SocketIndex)
  | handleClose (s : SocketIndex)
  | addExecutor (s : SocketIndex) (optType : UInt8) (optId : Nat) (tableName fields query : List UInt8)
  | update (outcome : Opt → Outcome)

namespace ExecutorManager

/-- `get_client_by_socket_index`. -/
def getClientBySocketIndex (x : ExecutorManager) (s : SocketIndex) : Option RpcClient :=
  if x.clients s then some ⟨some s, []⟩ else none

/-- `binary_data result(db_result, len)`: a length of 0 means the C string. -/
def resultData (result : Block UInt8 sizeofResult) (len : Nat) : DynamicString :=
  let bytes := if len % 2 ^ 16 > 0 then result.slice 0 (len % 2 ^ 16) else cstr result.cells
  ⟨bytes.length, bytes.length + 1, bytes ++ [0]⟩

/-- The operation of the request, other than a query. -/
def apply (info : DbOptInfo) (outcome : Outcome) : Option MysqlConn.Done :=
  if info.optType = dbOptUpdate then MysqlConn.update info.tableName info.fields info.condition outcome
  else if info.optType = dbOptInsert then MysqlConn.insert info.tableName info.fields info.condition outcome
  else if info.optType = dbOptDelete then MysqlConn.remove info.tableName info.condition outcome
  else some ⟨true, []⟩

/-- The end of `executor`: the statements are executed, the reply is sent, the block is given back. -/
def finish (x : ExecutorManager) (opt : Opt) (executed : List (List UInt8)) (sent : List PacketSendInfo) :
    ExecutorManager :=
  { x with
    sent := x.sent ++ sent
    applied := x.applied ++ executed.map fun sql => (opt, sql)
    freed := x.freed ++ [opt.block] }

def onOptDbWithResult : List UInt8 := ascii "on_opt_db_with_result"
def onOptDbWithStatus : List UInt8 := ascii "on_opt_db_with_status"

/-- `executor`. -/
def executor (x : ExecutorManager) (opt : Opt) (outcome : Outcome) : Option ExecutorManager :=
  match x.getClientBySocketIndex opt.info.socketIndex with
  | none     => some x
  | some rpc =>
    if opt.info.optType = dbOptQuery then
      (MysqlConn.query opt.info.tableName opt.info.fields opt.info.condition (Block.fill sizeofResult 0) 0
        outcome).bind fun queried =>
      (rpc.callRemoteFunc onOptDbWithResult [.pod (Pod.ofNat 8 opt.info.optId), .pod (Pod.ofNat 1 1),
        .dynamicString (resultData queried.result queried.len)]).map fun sent =>
      x.finish opt queried.executed sent
    else
      (apply opt.info outcome).bind fun done =>
      (rpc.callRemoteFunc onOptDbWithStatus [.pod (Pod.ofNat 8 opt.info.optId), .pod (Pod.ofNat 1 1)]).map fun sent =>
      x.finish opt done.executed sent

/-- The requests of a table, or of all, one after the other. -/
def executeAll (outcome : Opt → Outcome) : List Opt → ExecutorManager → Option ExecutorManager
  | [],          x => some x
  | opt :: opts, x => (x.executor opt (outcome opt)).bind fun x => executeAll outcome opts x

/-- `update`: `executor` looks at no queue, so they may all be cleared at the end. -/
def update (x : ExecutorManager) (outcome : Opt → Outcome) : Option ExecutorManager :=
  (executeAll outcome (x.executors.flatMap (·.2)) x).map fun x' =>
  { x' with executors := x.executors.map fun entry => (entry.1, []) }

/-- `push_back` on the vector of the table, which is made first if there is none. -/
def pushOpt (opt : Opt) : List (List UInt8 × List Opt) → List (List UInt8 × List Opt)
  | []            => [(opt.info.tableName, [opt])]
  | entry :: rest =>
    if opt.info.tableName < entry.1 then (opt.info.tableName, [opt]) :: entry :: rest
    else if opt.info.tableName = entry.1 then (entry.1, entry.2 ++ [opt]) :: rest
    else entry :: pushOpt opt rest

/-- `add_executor`: the strings are taken over as C strings. -/
def addExecutor (x : ExecutorManager) (s : SocketIndex) (optType : UInt8) (optId : Nat)
    (tableName fields query : List UInt8) : ExecutorManager :=
  let opt : Opt := ⟨x.newBlock, optType, optId, s, cstr tableName, cstr query, cstr fields⟩
  { x with
    executors := pushOpt opt x.executors
    newBlock := x.newBlock + 1
    added := x.added ++ [opt] }

def step (x : ExecutorManager) : ExecutorLabel → Option ExecutorManager
  | .handleInit s  => some { x with clients := fun s' => if s' = s then true else x.clients s' }
  | .handleClose s => some { x with clients := fun s' => if s' = s then false else x.clients s' }
  | .addExecutor s optType optId tableName fields query =>
    some (x.addExecutor s optType optId tableName fields query)
  | .update outcome => x.update outcome

/-- All that is queued, in the order `update` takes it. -/
def pending (x : ExecutorManager) : List Opt := x.executors.flatMap (·.2)

/-- The requests on a table, in order. -/
def onTable (table : List UInt8) (opts : List Opt) : List Opt := opts.filter (·.info.tableName = table)

end ExecutorManager

/-- The statement a request stands for; an insertion without fields, or an unknown operation, is none. -/
def DbOptInfo.statement (info : DbOptInfo) : Option (List UInt8) :=
  if info.optType = dbOptQuery then some (MysqlConn.querySql info.tableName info.fields info.condition)
  else if info.optType = dbOptUpdate then some (MysqlConn.updateSql info.tableName info.fields info.condition)
  else if info.optType = dbOptInsert then
    if info.fields.length < 1 then none
    else some (MysqlConn.insertSql info.tableName info.fields info.condition)
  else if info.optType = dbOptDelete then some (MysqlConn.removeSql info.tableName info.condition)
  else none

namespace ExecutorManager

/-- Every request is executed once, and in the order of its table. -/
structure ExactlyOnce (x : ExecutorManager) : Prop where
  /-- Each request was executed once, or is queued once. -/
  once : ∀ opt ∈ x.added, (x.applied.map (·.1)).count opt + x.pending.count opt = 1
  /-- What was executed is the statement of a request. -/
  applied : ∀ opt sql, (opt, sql) ∈ x.applied → opt ∈ x.added ∧ opt.info.statement = some sql
  /-- The blocks given back are those of the executed requests. -/
  freed : x.freed = x.applied.map (·.1.block)
  /-- On each table the executed requests, then the queued ones, are all that were added, in order. -/
  inOrder : ∀ table, onTable table (x.applied.map (·.1)) ++ onTable table x.pending = onTable table x.added

/-- Every queued request stands for a statement, and its requester still has its `rpc_client`. -/
def AllAnswerable (x : ExecutorManager) : ExecutorLabel → Prop
  | .update _ => ∀ opt ∈ x.pending, x.clients opt.info.socketIndex = true ∧ opt.info.statement ≠ none
  | _ => True

/-! ## `m_executors` -/

/-- The keys are in order, and each request stands under its table. -/
def Keyed (entries : List (List UInt8 × List Opt)) : Prop :=
  entries.Pairwise (·.1 < ·.1) ∧ ∀ entry ∈ entries, ∀ opt ∈ entry.2, opt.info.tableName = entry.1

theorem mem_pushOpt_key {opt : Opt} {entries : List (List UInt8 × List Opt)} {entry : List UInt8 × List Opt}
    (h : entry ∈ pushOpt opt entries) : entry.1 = opt.info.tableName ∨ ∃ e ∈ entries, e.1 = entry.1 := by
  induction entries with
  | nil =>
      cases List.mem_singleton.mp h
      exact .inl rfl
  | cons e rest ih =>
      unfold pushOpt at h
      split at h
      · rcases List.mem_cons.mp h with rfl | h
        · exact .inl rfl
        · exact .inr ⟨entry, h, rfl⟩
      · split at h
        · rcases List.mem_cons.mp h with rfl | h
          · exact .inr ⟨e, List.mem_cons_self, rfl⟩
          · exact .inr ⟨entry, List.mem_cons_of_mem e h, rfl⟩
        · rcases List.mem_cons.mp h with rfl | h
          · exact .inr ⟨entry, List.mem_cons_self, rfl⟩
          · rcases ih h with h | ⟨e', he', h⟩
            · exact .inl h
            · exact .inr ⟨e', List.mem_cons_of_mem e he', h⟩

theorem keyed_pushOpt {opt : Opt} {entries : List (List UInt8 × List Opt)} (h : Keyed entries) :
    Keyed (pushOpt opt entries) := by
  -- the three ways of `pushOpt`: before the first entry, into it, or further on
  induction entries with
  | nil => simp [Keyed, pushOpt]
  | cons e rest ih =>
      obtain ⟨hsorted, hunder⟩ := h
      obtain ⟨hfirst, hrest⟩ := List.pairwise_cons.mp hsorted
      have hunder' : ∀ entry ∈ rest, ∀ o ∈ entry.2, o.info.tableName = entry.1 :=
        fun entry he => hunder entry (List.mem_cons_of_mem e he)
      unfold pushOpt
      split
      · rename_i hlt
        refine ⟨List.pairwise_cons.mpr ⟨?_, hsorted⟩, ?_⟩
        · intro e' he'
          rcases List.mem_cons.mp he' with rfl | he'
          · exact hlt
          · exact List.lt_trans hlt (hfirst e' he')
        · intro entry he o ho
          rcases List.mem_cons.mp he with rfl | he
          · rw [List.mem_singleton.mp ho]
          · exact hunder entry he o ho
      · split
        · rename_i heq
          refine ⟨List.pairwise_cons.mpr ⟨hfirst, hrest⟩, ?_⟩
          intro entry he o ho
          rcases List.mem_cons.mp he with rfl | he
          · rcases List.mem_append.mp ho with ho | ho
            · exact hunder e List.mem_cons_self o ho
            · rw [List.mem_singleton.mp ho, heq]
          · exact hunder' entry he o ho
        · rename_i hnlt hne
          have hgt : e.1 < opt.info.tableName := by
            rcases Std.Trichotomous.rel_or_eq_or_rel_swap (r := fun a b : List UInt8 => a < b)
              (a := opt.info.tableName) (b := e.1) with hlt | heq | hgt
            · exact absurd hlt hnlt
            · exact absurd heq hne
            · exact hgt
          obtain ⟨hsorted', hunder''⟩ := ih ⟨hrest, hunder'⟩
          refine ⟨List.pairwise_cons.mpr ⟨?_, hsorted'⟩, ?_⟩
          · intro e' he'
            rcases mem_pushOpt_key he' with h | ⟨e'', he'', h⟩
            · rw [h]
              exact hgt
            · rw [← h]
              exact hfirst e'' he''
          · intro entry he o ho
            rcases List.mem_cons.mp he with rfl | he
            · exact hunder entry List.mem_cons_self o ho
            · exact hunder'' entry he o ho

theorem onTable_append (table : List UInt8) (opts opts' : List Opt) :
    onTable table (opts ++ opts') = onTable table opts ++ onTable table opts' := List.filter_append ..

/-- Entries behind the table's place have no request on it, so its new request may stand before or behind them. -/
theorem onTable_swap {opt : Opt} {entries : List (List UInt8 × List Opt)} (h : Keyed entries)
    (hgt : ∀ entry ∈ entries, opt.info.tableName < entry.1) (table : List UInt8) :
    onTable table [opt] ++ onTable table (entries.flatMap (·.2)) =
      onTable table (entries.flatMap (·.2)) ++ onTable table [opt] := by
  by_cases htable : opt.info.tableName = table
  · have hnone : onTable table (entries.flatMap (·.2)) = [] := by
      rw [onTable, List.filter_eq_nil_iff]
      intro o ho
      obtain ⟨entry, he, ho⟩ := List.mem_flatMap.mp ho
      have hlt := hgt entry he
      rw [← h.2 entry he o ho, htable] at hlt
      intro heq
      rw [of_decide_eq_true heq] at hlt
      exact List.lt_irrefl _ hlt
    rw [hnone, List.append_nil, List.nil_append]
  · have hnone : onTable table [opt] = [] := by simp [onTable, htable]
    rw [hnone, List.nil_append, List.append_nil]

theorem onTable_pushOpt {opt : Opt} {entries : List (List UInt8 × List Opt)} (h : Keyed entries)
    (table : List UInt8) : onTable table ((pushOpt opt entries).flatMap (·.2)) =
      onTable table (entries.flatMap (·.2)) ++ onTable table [opt] := by
  induction entries with
  | nil => simp [pushOpt, onTable]
  | cons e rest ih =>
      obtain ⟨hfirst, hsorted⟩ := List.pairwise_cons.mp h.1
      have hrest : Keyed rest := ⟨hsorted, fun entry he => h.2 entry (List.mem_cons_of_mem e he)⟩
      unfold pushOpt
      split
      · rename_i hlt
        rw [List.flatMap_cons, onTable_append]
        apply onTable_swap h
        intro entry he
        rcases List.mem_cons.mp he with rfl | he
        · exact hlt
        · exact List.lt_trans hlt (hfirst entry he)
      · split
        · rename_i heq
          have hswap := onTable_swap hrest (fun entry he => heq ▸ hfirst entry he) table
          simp only [List.flatMap_cons, onTable_append, List.append_assoc]
          rw [hswap]
        · simp only [List.flatMap_cons, onTable_append, List.append_assoc]
          rw [ih hrest]

/-! ## `executor` and `update` -/

/-- What a request leads to in `applied`. -/
def results (clients : SocketIndex → Bool) (opt : Opt) : List (Opt × List UInt8) :=
  if clients opt.info.socketIndex then opt.info.statement.toList.map fun sql => (opt, sql) else []

/-- The strings of the request are C strings. -/
def CStrings (info : DbOptInfo) : Prop := NulFree info.tableName ∧ NulFree info.fields ∧ NulFree info.condition

variable {x x' : ExecutorManager} {opt : Opt} {outcome : Outcome}

theorem apply_executed {info : DbOptInfo} {done : MysqlConn.Done} (hstrings : CStrings info)
    (hquery : info.optType ≠ dbOptQuery) (h : apply info outcome = some done) :
    done.executed = info.statement.toList := by
  obtain ⟨ht, hf, hq⟩ := hstrings
  unfold apply at h
  unfold DbOptInfo.statement
  rw [if_neg hquery]
  split at h
  · rw [if_pos ‹_›, MysqlConn.update_executed ht hf hq h]
    rfl
  · rw [if_neg ‹_›]
    split at h
    · rw [if_pos ‹_›, MysqlConn.insert_executed ht hf hq h]
      split <;> rfl
    · rw [if_neg ‹_›]
      split at h
      · rw [if_pos ‹_›, MysqlConn.remove_executed ht hq h]
        rfl
      · rw [if_neg ‹_›]
        cases h
        rfl

/-- `executor` does nothing for a requester without a client, and otherwise executes the statement, if there is one,
    and gives the block back. -/
theorem executor_cases (hstrings : CStrings opt.info) (h : x.executor opt outcome = some x') :
    (x.clients opt.info.socketIndex = false ∧ x' = x) ∨
    (x.clients opt.info.socketIndex = true ∧ ∃ sent, x' = x.finish opt opt.info.statement.toList sent) := by
  unfold executor getClientBySocketIndex at h
  cases hclient : x.clients opt.info.socketIndex with
  | false =>
      rw [hclient] at h
      cases h
      exact .inl ⟨rfl, rfl⟩
  | true =>
      rw [hclient] at h
      refine .inr ⟨rfl, ?_⟩
      by_cases hquery : opt.info.optType = dbOptQuery
      · rw [if_pos rfl] at h
        dsimp only at h
        rw [if_pos hquery] at h
        obtain ⟨queried, hqueried, h⟩ := Option.bind_eq_some_iff.mp h
        obtain ⟨sent, _, rfl⟩ := Option.map_eq_some_iff.mp h
        refine ⟨sent, ?_⟩
        rw [MysqlConn.query_executed hstrings.1 hstrings.2.1 hstrings.2.2 hqueried, DbOptInfo.statement, if_pos hquery]
        rfl
      · rw [if_pos rfl] at h
        dsimp only at h
        rw [if_neg hquery] at h
        obtain ⟨done, hdone, h⟩ := Option.bind_eq_some_iff.mp h
        obtain ⟨sent, _, rfl⟩ := Option.map_eq_some_iff.mp h
        exact ⟨sent, by rw [apply_executed hstrings hquery hdone]⟩

/-- What a row of requests leads to. -/
theorem executeAll_spec {outcomes : Opt → Outcome} {opts : List Opt} (hstrings : ∀ opt ∈ opts, CStrings opt.info)
    (h : executeAll outcomes opts x = some x') :
    x'.applied = x.applied ++ opts.flatMap (results x.clients) ∧
    x'.freed = x.freed ++ (opts.filter fun opt => x.clients opt.info.socketIndex).map (·.block) ∧
    x'.clients = x.clients ∧ x'.added = x.added ∧ x'.newBlock = x.newBlock := by
  induction opts generalizing x with
  | nil =>
      cases h
      simp
  | cons opt opts ih =>
      obtain ⟨x₁, hone, h⟩ := Option.bind_eq_some_iff.mp h
      have hrest := ih (fun o ho => hstrings o (List.mem_cons_of_mem opt ho)) h
      rcases executor_cases (hstrings opt List.mem_cons_self) hone with ⟨hgone, rfl⟩ | ⟨hthere, sent, rfl⟩
      · simpa [results, hgone] using hrest
      · simpa [results, hthere, finish] using hrest

/-! ## Every step -/

/-- What holds in every state. -/
structure Inv (x : ExecutorManager) : Prop where
  keyed : Keyed x.executors
  blocks : ∀ opt ∈ x.added, opt.block < x.newBlock
  distinct : x.added.Nodup
  queued : ∀ opt ∈ x.pending, opt ∈ x.added
  strings : ∀ opt ∈ x.added, CStrings opt.info

theorem mem_onTable {table : List UInt8} {opts : List Opt} :
    opt ∈ onTable table opts ↔ opt ∈ opts ∧ opt.info.tableName = table := by
  rw [onTable, List.mem_filter, decide_eq_true_eq]

theorem pushOpt_perm (opt : Opt) (entries : List (List UInt8 × List Opt)) :
    ((pushOpt opt entries).flatMap (·.2)).Perm (entries.flatMap (·.2) ++ [opt]) := by
  induction entries with
  | nil => exact List.Perm.refl _
  | cons e rest ih =>
      unfold pushOpt
      split
      · exact @List.perm_append_comm _ [opt] _
      · split
        · simp only [List.flatMap_cons, List.append_assoc]
          exact List.perm_append_comm.append_left _
        · simp only [List.flatMap_cons, List.append_assoc]
          exact ih.append_left _

theorem mem_pushOpt {o : Opt} : o ∈ (pushOpt opt x.executors).flatMap (·.2) ↔ o ∈ x.pending ∨ o = opt := by
  rw [(pushOpt_perm opt x.executors).mem_iff, List.mem_append, List.mem_singleton]
  rfl

/-- What `update` leaves: nothing is queued. -/
theorem update_spec {outcomes : Opt → Outcome} (hx : Inv x) (h : x.update outcomes = some x') :
    x'.pending = [] ∧ Keyed x'.executors ∧ x'.added = x.added ∧ x'.newBlock = x.newBlock ∧
      x'.applied = x.applied ++ x.pending.flatMap (results x.clients) ∧
      x'.freed = x.freed ++ (x.pending.filter fun opt => x.clients opt.info.socketIndex).map (·.block) := by
  obtain ⟨x₁, hall, rfl⟩ := Option.map_eq_some_iff.mp h
  obtain ⟨happlied, hfreed, _, hadded, hblock⟩ :=
    executeAll_spec (fun opt ho => hx.strings opt (hx.queued opt ho)) hall
  refine ⟨?_, ⟨?_, ?_⟩, hadded, hblock, happlied, hfreed⟩
  · show (x.executors.map fun entry => (entry.1, ([] : List Opt))).flatMap (·.2) = []
    simp [List.flatMap_map]
  · exact List.pairwise_map.mpr hx.keyed.1
  · intro entry he o ho
    obtain ⟨_, _, rfl⟩ := List.mem_map.mp he
    cases ho

theorem update_clients {outcomes : Opt → Outcome} (hx : Inv x) (h : x.update outcomes = some x') :
    x'.clients = x.clients := by
  obtain ⟨x₁, hall, rfl⟩ := Option.map_eq_some_iff.mp h
  exact (executeAll_spec (fun opt ho => hx.strings opt (hx.queued opt ho)) hall).2.2.1

theorem step_inv {l : ExecutorLabel} (hx : Inv x) (h : x.step l = some x') : Inv x' := by
  cases l with
  | handleInit s =>
      cases h
      exact ⟨hx.keyed, hx.blocks, hx.distinct, hx.queued, hx.strings⟩
  | handleClose s =>
      cases h
      exact ⟨hx.keyed, hx.blocks, hx.distinct, hx.queued, hx.strings⟩
  | addExecutor s optType optId tableName fields query =>
      cases h
      refine ⟨keyed_pushOpt hx.keyed, ?_, ?_, ?_, ?_⟩
      · intro opt ho
        rcases List.mem_append.mp ho with ho | ho
        · exact Nat.lt_succ_of_lt (hx.blocks opt ho)
        · rw [List.mem_singleton.mp ho]
          exact Nat.lt_succ_self _
      · refine List.nodup_append.mpr ⟨hx.distinct, by simp, ?_⟩
        rintro opt ho opt' ho' rfl
        have hlt := hx.blocks opt ho
        rw [List.mem_singleton.mp ho'] at hlt
        exact Nat.lt_irrefl _ hlt
      · intro opt ho
        rcases mem_pushOpt.mp ho with ho | rfl
        · exact List.mem_append_left _ (hx.queued opt ho)
        · exact List.mem_append_right _ (List.mem_singleton_self _)
      · intro opt ho
        rcases List.mem_append.mp ho with ho | ho
        · exact hx.strings opt ho
        · rw [List.mem_singleton.mp ho]
          exact ⟨nulFree_cstr _, nulFree_cstr _, nulFree_cstr _⟩
  | update outcomes =>
      obtain ⟨hnone, hkeyed, hadded, hblock, _, _⟩ := update_spec hx h
      refine ⟨hkeyed, ?_, ?_, ?_, ?_⟩
      · rw [hadded, hblock]
        exact hx.blocks
      · rw [hadded]
        exact hx.distinct
      · rw [hnone]
        exact fun _ ho => absurd ho List.not_mem_nil
      · rw [hadded]
        exact hx.strings

theorem count_onTable (opt : Opt) (opts : List Opt) : (onTable opt.info.tableName opts).count opt = opts.count opt :=
  List.count_filter (decide_eq_true rfl)

/-- On its own table a request shows how often it was executed or is queued. -/
theorem exactlyOnce_of (hx : Inv x)
    (happlied : ∀ opt sql, (opt, sql) ∈ x.applied → opt ∈ x.added ∧ opt.info.statement = some sql)
    (hfreed : x.freed = x.applied.map (·.1.block))
    (hinOrder : ∀ table, onTable table (x.applied.map (·.1)) ++ onTable table x.pending = onTable table x.added) :
    ExactlyOnce x where
  once opt ho := by
    have hcount := congrArg (List.count opt) (hinOrder opt.info.tableName)
    rw [List.count_append, count_onTable, count_onTable, count_onTable] at hcount
    rw [hcount]
    exact List.count_eq_one_of_mem hx.distinct ho
  applied := happlied
  freed := hfreed
  inOrder := hinOrder

/-- Requests that can all be answered are all executed, each by its statement. -/
theorem results_answerable {clients : SocketIndex → Bool} {opts : List Opt}
    (h : ∀ opt ∈ opts, clients opt.info.socketIndex = true ∧ opt.info.statement ≠ none) :
    (opts.flatMap (results clients)).map (·.1) = opts ∧
      ∀ opt sql, (opt, sql) ∈ opts.flatMap (results clients) → opt ∈ opts ∧ opt.info.statement = some sql := by
  induction opts with
  | nil => simp
  | cons opt opts ih =>
      obtain ⟨hfirst, hsecond⟩ := ih fun o ho => h o (List.mem_cons_of_mem opt ho)
      obtain ⟨hclient, hsome⟩ := h opt List.mem_cons_self
      obtain ⟨sql, hsql⟩ := Option.ne_none_iff_exists'.mp hsome
      have hone : results clients opt = [(opt, sql)] := by rw [results, if_pos hclient, hsql]; rfl
      rw [List.flatMap_cons, hone]
      refine ⟨congrArg (opt :: ·) hfirst, ?_⟩
      intro o sql' hmem
      rcases List.mem_append.mp hmem with hmem | hmem
      · cases List.mem_singleton.mp hmem
        exact ⟨List.mem_cons_self, hsql⟩
      · obtain ⟨ho, hsql'⟩ := hsecond o sql' hmem
        exact ⟨List.mem_cons_of_mem opt ho, hsql'⟩

/-- An update from such a state leads to one exactly when all that is queued can be answered. -/
theorem update_exactlyOnce_iff {outcomes : Opt → Outcome} (hx : Inv x) (hg : ExactlyOnce x)
    (h : x.update outcomes = some x') : ExactlyOnce x' ↔ AllAnswerable x (.update outcomes) := by
  have hx' : Inv x' := step_inv (l := .update outcomes) hx h
  obtain ⟨hnone, _, hadded, _, happlied, hfreed⟩ := update_spec hx h
  constructor
  · intro hg' opt ho
    have hthere : opt ∈ x'.applied.map (·.1) := by
      have hone := hg'.once opt (hadded ▸ hx.queued opt ho)
      rw [hnone, List.count_nil, Nat.add_zero] at hone
      exact List.count_pos_iff.mp (by omega)
    -- it was not there before, since it was queued
    have hnew : opt ∉ x.applied.map (·.1) := by
      intro hold
      have hone := hg.once opt (hx.queued opt ho)
      have h₁ := List.count_pos_iff.mpr hold
      have h₂ := List.count_pos_iff.mpr ho
      omega
    rw [happlied, List.map_append, List.mem_append] at hthere
    obtain ⟨⟨o, sql⟩, hmem, rfl⟩ := List.mem_map.mp (hthere.resolve_left hnew)
    obtain ⟨o', _, hmem⟩ := List.mem_flatMap.mp hmem
    unfold results at hmem
    split at hmem
    · rename_i hclient
      obtain ⟨sql', hsql, heq⟩ := List.mem_map.mp hmem
      cases heq
      have hsome : o.info.statement = some sql := Option.mem_toList.mp hsql
      exact ⟨hclient, by rw [hsome]; exact Option.some_ne_none _⟩
    · cases hmem
  · intro hall
    obtain ⟨hfirst, hsecond⟩ := results_answerable hall
    have hclients : (x.pending.filter fun opt => x.clients opt.info.socketIndex) = x.pending :=
      List.filter_eq_self.mpr fun opt ho => (hall opt ho).1
    apply exactlyOnce_of hx'
    · intro opt sql hmem
      rw [hadded]
      rcases List.mem_append.mp (happlied ▸ hmem) with hmem | hmem
      · exact hg.applied opt sql hmem
      · obtain ⟨ho, hsql⟩ := hsecond opt sql hmem
        exact ⟨hx.queued opt ho, hsql⟩
    · have hblocks : (x.pending.flatMap (results x.clients)).map (·.1.block) = x.pending.map (·.block) := by
        rw [← hfirst, List.map_map, hfirst]
        rfl
      rw [hfreed, happlied, hclients, List.map_append, hblocks, hg.freed]
    · intro table
      rw [hnone, hadded, happlied, List.map_append, hfirst, onTable_append, ← hg.inOrder table]
      exact List.append_nil _

theorem step_exactlyOnce_iff {l : ExecutorLabel} (hx : Inv x) (hg : ExactlyOnce x) (h : x.step l = some x') :
    ExactlyOnce x' ↔ AllAnswerable x l := by
  cases l with
  | handleInit s =>
      cases h
      exact iff_of_true ⟨hg.once, hg.applied, hg.freed, hg.inOrder⟩ trivial
  | handleClose s =>
      cases h
      exact iff_of_true ⟨hg.once, hg.applied, hg.freed, hg.inOrder⟩ trivial
  | addExecutor s optType optId tableName fields query =>
      have hx' : Inv x' := step_inv hx h
      cases h
      refine iff_of_true (exactlyOnce_of hx' ?_ hg.freed ?_) trivial
      · intro opt sql hmem
        obtain ⟨ho, hsql⟩ := hg.applied opt sql hmem
        exact ⟨List.mem_append_left _ ho, hsql⟩
      · intro table
        show onTable table (x.applied.map (·.1)) ++ onTable table ((pushOpt _ x.executors).flatMap (·.2)) =
          onTable table (x.added ++ [_])
        rw [onTable_pushOpt hx.keyed, ← List.append_assoc, onTable_append, ← hg.inOrder table]
        rfl
  | update outcomes => exact update_exactlyOnce_iff hx hg h

theorem inv_init : Inv {} := by
  constructor <;> simp [Keyed, pending]

theorem exactlyOnce_init : ExactlyOnce {} := by
  constructor <;> simp [pending, onTable]

/-- **When every request is executed exactly once.** Over any run of connections, requests and updates, and
    whatever the database answers: in every state on the way each request was executed once or is queued once,
    its block given back once it was executed, and on each table the requests are executed in the order they
    were added, if and only if at each update every queued request stands for a statement and its requester still
    has its `rpc_client`. -/
theorem exactly_once_iff {labels : List ExecutorLabel} {x : ExecutorManager} (hrun : run step {} labels = some x) :
    (∀ pre, pre <+: labels → ∀ y, run step {} pre = some y → ExactlyOnce y) ↔
      Along step AllAnswerable {} labels :=
  good_iff_along (fun hx h => step_inv hx h) (fun hx hg h => step_exactlyOnce_iff hx hg h) inv_init
    exactlyOnce_init hrun

theorem statusReply_sent (s : SocketIndex) (optId : Nat) : ∃ sent,
    (⟨some s, []⟩ : RpcClient).callRemoteFunc onOptDbWithStatus [.pod (Pod.ofNat 8 optId), .pod (Pod.ofNat 1 1)] =
      some sent := by
  apply RpcClient.callRemoteFunc_eq_some (.cons (.pod _) (.cons (.pod _) .nil)) rfl
  exact ⟨by decide, by simp [Value.encode, Pod.ofNat, sizeofBuffer]⟩

/-- An operation whose statement fits is answered. -/
theorem executor_isSome {done : MysqlConn.Done} (hclient : x.clients opt.info.socketIndex = true)
    (hquery : opt.info.optType ≠ dbOptQuery) (hdone : apply opt.info outcome = some done) :
    ∃ x', x.executor opt outcome = some x' := by
  obtain ⟨sent, hsent⟩ := statusReply_sent opt.info.socketIndex opt.info.optId
  refine ⟨x.finish opt done.executed sent, ?_⟩
  rw [executor, getClientBySocketIndex, if_pos hclient]
  dsimp only
  rw [if_neg hquery, hdone, Option.bind_some, hsent]
  rfl

/-- An update executes the one request that is queued. -/
theorem update_isSome {outcomes : Opt → Outcome} (hpending : x.pending = [opt])
    (h : x.executor opt (outcomes opt) = some x') : ∃ y, x.update outcomes = some y := by
  unfold update
  rw [show x.executors.flatMap (·.2) = [opt] from hpending, executeAll, h]
  exact ⟨_, rfl⟩

/-- `role::save` of a game process at the connection 5. -/
def saveRole : ExecutorLabel :=
  .addExecutor 5 dbOptUpdate 1 (ascii "role") (ascii "set level = 2") (ascii "role_id = '1'")

def savedRun : List ExecutorLabel := [.handleInit 5, saveRole, .update fun _ => .rows []]

/-- The requester stays until the update. -/
theorem exactly_once_iff_saved : (∃ y, run step {} savedRun = some y) ∧
    ∀ pre, pre <+: savedRun → ∀ y, run step {} pre = some y → ExactlyOnce y := by
  let opt : Opt := ⟨0, dbOptUpdate, 1, 5, ascii "role", ascii "role_id = '1'", ascii "set level = 2"⟩
  obtain ⟨x, hx⟩ : ∃ x, run step {} [.handleInit 5, saveRole] = some x := ⟨_, rfl⟩
  have hclient : x.clients 5 = true := by
    cases hx
    rfl
  have hpending : x.pending = [opt] := by
    cases hx
    decide
  have hrun : ∃ y, run step {} savedRun = some y := by
    obtain ⟨done, hdone⟩ : ∃ done, apply opt.info (.rows []) = some done := by
      apply Option.isSome_iff_exists.mp
      show (MysqlConn.update opt.info.tableName opt.info.fields opt.info.condition (.rows [])).isSome = true
      rw [MysqlConn.update, Option.isSome_map]
      exact sprintf_isSome_iff.mpr (by decide)
    have hexecutor : ∃ x', x.executor opt (.rows []) = some x' := executor_isSome hclient (by decide) hdone
    obtain ⟨_, hexecutor⟩ := hexecutor
    have hupdate : ∃ y, x.update (fun _ => .rows []) = some y := update_isSome hpending hexecutor
    obtain ⟨y, hy⟩ := hupdate
    refine ⟨y, ?_⟩
    have hparts := run_append step ({} : ExecutorManager) [.handleInit 5, saveRole] [.update fun _ => .rows []]
    rw [hx, Option.bind_some] at hparts
    have hstep : x.step (.update fun _ => .rows []) = some y := hy
    exact hparts.trans (by rw [run, hstep, Option.bind_some, run])
  obtain ⟨y, hy⟩ := hrun
  refine ⟨⟨y, hy⟩, (exactly_once_iff hy).mpr ⟨trivial, fun _ h₁ => ⟨trivial, fun x' h₂ =>
    ⟨?_, fun _ _ => trivial⟩⟩⟩⟩
  have hx' : x' = x := by
    cases hx
    cases h₁
    cases h₂
    rfl
  rw [hx']
  intro o ho
  rw [hpending] at ho
  rw [List.mem_singleton.mp ho]
  exact ⟨hclient, by decide⟩

/-- A game process asks for a save and closes its connection before the next update. -/
theorem requester_gone : ∃ x, run step {} [.handleInit 5, saveRole, .handleClose 5, .update fun _ => .rows []] =
    some x ∧ x.added.length = 1 ∧ x.applied = [] ∧ x.pending = [] ∧ x.freed = [] := by
  refine ⟨_, rfl, rfl, rfl, rfl, rfl⟩

end ExecutorManager

end Mowang
