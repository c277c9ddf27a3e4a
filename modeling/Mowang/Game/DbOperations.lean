import Mathlib.Logic.Function.Basic
import Mowang.Base.Lists
import Mowang.Base.Run
import Mowang.Db.ResultSet

/-!
# `Game.DbOperations` — the database operations of a game process, from the call to the callback

`db_opt` gives an operation the next number and sends it to one of the connected DB processes, whichever
`get_client_by_process_type` picks; the callback is registered under the number. A connection delivers in order. A
DB process queues what arrives, its `update` executes the queue, and each answer goes back on the connection it
came from, where the game process looks up the number. Nothing takes a callback out of its table.

The numbers are not cut to 64 bits. `none` is a write outside a buffer.

## Contents
- `DbOpt`, `DbRequest`, `ExecutorReply`.
- `answer` — what `executor` replies, and `executor_answer`, that it does.
- `DbSystem`, `DbLabel`, `DbSystem.step`.
- `DbSystem.Inv` — where the operations are, and `step_inv`.
-/

namespace Mowang

open LittleEndian Block

/-- An operation, with the arguments of `db_remove`, `db_insert`, `db_update` and `db_query`. -/
inductive DbOpt
  | remove (table query : List UInt8)
  | insert (table fields query : List UInt8)
  | update (table fields query : List UInt8)
  | query (table fields query : List UInt8)
  deriving DecidableEq

namespace DbOpt

def optType : DbOpt → UInt8
  | .remove _ _   => dbOptDelete
  | .insert _ _ _ => dbOptInsert
  | .update _ _ _ => dbOptUpdate
  | .query _ _ _  => dbOptQuery

def table : DbOpt → List UInt8
  | .remove table _   => table
  | .insert table _ _ => table
  | .update table _ _ => table
  | .query table _ _  => table

/-- `db_remove` passes `NULL`, which a `dynamic_string` takes for the empty string. -/
def fields : DbOpt → List UInt8
  | .remove _ _        => []
  | .insert _ fields _ => fields
  | .update _ fields _ => fields
  | .query _ fields _  => fields

def condition : DbOpt → List UInt8
  | .remove _ q   => q
  | .insert _ _ q => q
  | .update _ _ q => q
  | .query _ _ q  => q

/-- Its callback takes a result. -/
def hasResult : DbOpt → Bool
  | .query _ _ _ => true
  | _            => false

end DbOpt

/-- What `dynamic_string(s)` holds: the length of `s` is cut to 16 bits. -/
def ofCharPtr (s : List UInt8) : List UInt8 := (cstr s).take ((cstr s).length % 2 ^ 16)

/-- The arguments of `add_executor` on their way. -/
structure DbRequest where
  optType : UInt8
  optId : Nat
  tableName : List UInt8
  fields : List UInt8
  query : List UInt8

def DbOpt.request (opt : DbOpt) (optId : Nat) : DbRequest :=
  ⟨opt.optType, optId, ofCharPtr opt.table, ofCharPtr opt.fields, ofCharPtr opt.condition⟩

namespace DbRequest

def args (r : DbRequest) : List Param :=
  [.pod (Pod.ofNat 1 r.optType.toNat), .pod (Pod.ofNat 8 r.optId), .dynamicString (.ofBytes r.tableName),
    .dynamicString (.ofBytes r.fields), .dynamicString (.ofBytes r.query)]

/-- The `db_opt_info` that comes of it. -/
def info (r : DbRequest) (s : SocketIndex) : DbOptInfo := .ofRequest s r.optType r.optId r.tableName r.fields r.query

/-- `add_executor` is called, with strings that are pushed together again. -/
def arrive (r : DbRequest) (s : SocketIndex) (x : ExecutorManager) : Option ExecutorManager :=
  (MysqlConn.pushAll r.tableName).bind fun tableName =>
  (MysqlConn.pushAll r.fields).bind fun fields =>
  (MysqlConn.pushAll r.query).map fun query =>
  x.addExecutor s r.optType r.optId tableName.toList fields.toList query.toList

end DbRequest

/-- The arguments of `on_opt_db_with_status` or `on_opt_db_with_result` on their way. -/
inductive ExecutorReply
  | status (optId : Nat) (status : Bool)
  | result (optId : Nat) (status : Bool) (result : DynamicString)

namespace ExecutorReply

def optId : ExecutorReply → Nat
  | .status optId _   => optId
  | .result optId _ _ => optId

def packets (rpc : RpcClient) : ExecutorReply → Option (List PacketSendInfo)
  | .status optId ok      => rpc.callRemoteFunc ExecutorManager.onOptDbWithStatus
      [.pod (Pod.ofNat 8 optId), .pod (Pod.ofNat 1 ok.toNat)]
  | .result optId ok data => rpc.callRemoteFunc ExecutorManager.onOptDbWithResult
      [.pod (Pod.ofNat 8 optId), .pod (Pod.ofNat 1 ok.toNat), .dynamicString data]

end ExecutorReply

/-- What `executor` does for a request: the statements it executes, and its reply. -/
def answer (info : DbOptInfo) (outcome : Outcome) : Option (List (List UInt8) × ExecutorReply) :=
  if info.optType = dbOptQuery then
    (MysqlConn.query info.tableName info.fields info.condition (Block.fill sizeofResult 0) 0 outcome).map fun queried =>
    (queried.executed, .result info.optId true (ExecutorManager.resultData queried.result queried.len))
  else
    (ExecutorManager.apply info outcome).map fun done => (done.executed, .status info.optId true)

/-- `executor` executes and sends this, if the requester has its client. -/
theorem executor_answer (x : ExecutorManager) (opt : Opt) (outcome : Outcome)
    (hclient : x.clients opt.info.socketIndex = true) : x.executor opt outcome =
      (answer opt.info outcome).bind fun a => (a.2.packets ⟨some opt.info.socketIndex, []⟩).map fun sent =>
        x.finish opt a.1 sent := by
  rw [ExecutorManager.executor, ExecutorManager.getClientBySocketIndex, if_pos hclient, answer]
  dsimp only
  split <;> simp only [Option.bind_map, Function.comp_def, ExecutorReply.packets, Bool.toNat_true]

/-- A reply, with the request and the outcome it stands for. -/
structure Answered where
  info : DbOptInfo
  outcome : Outcome
  reply : ExecutorReply

/-- The reply to a queued request, once it is sent. -/
def answered (outcome : Opt → Outcome) (opt : Opt) : Option Answered :=
  (answer opt.info (outcome opt)).bind fun a =>
  (a.2.packets ⟨some opt.info.socketIndex, []⟩).map fun _ => ⟨opt.info, outcome opt, a.2⟩

/-- An operation with its number, and the DB process it was sent to, if there was one. -/
structure Issued where
  process : Option Nat
  optId : Nat
  opt : DbOpt

/-- A callback that was called. `opt` is the operation it was registered for, `outcome` what the database made of the
    operation that is answered. -/
structure DbCall where
  process : Nat
  optId : Nat
  opt : DbOpt
  status : Bool
  /-- What a callback of a query gets besides. -/
  result : Option (List UInt8)
  outcome : Outcome

/-- A game process and the DB processes. -/
structure DbSystem where
  /-- `m_opt_id`; `2 ^ 64` operations are out of reach of a run. -/
  optId : Nat
  /-- `m_db_status_callbacks`. -/
  statusCallbacks : List (Nat × DbOpt)
  /-- `m_db_result_callbacks`. -/
  resultCallbacks : List (Nat × DbOpt)
  toDb : Nat → List DbRequest
  db : Nat → ExecutorManager
  toGame : Nat → List Answered
  calls : List DbCall
  -- the rest is read by the theorems only
  issued : List Issued
  /-- The operations the database executed, over all processes. -/
  executed : List DbOptInfo

inductive DbLabel
  /-- The client that is picked, or none if no DB process is connected. -/
  | issue (opt : DbOpt) (client : Option Nat)
  | addExecutor (d : Nat)
  | update (d : Nat) (outcome : Opt → Outcome)
  | reply (d : Nat)

namespace DbSystem

-- `conn d` is the connection of the game process at the DB process `d`
variable (conn : Nat → SocketIndex)

/-- `db_opt_with_status`, `db_opt_with_result` and `db_opt`. -/
def issue (s : DbSystem) (opt : DbOpt) (client : Option Nat) : Option DbSystem :=
  let optId := s.optId + 1
  let s' := { s with
    optId := optId
    statusCallbacks := if opt.hasResult then s.statusCallbacks else (optId, opt) :: s.statusCallbacks
    resultCallbacks := if opt.hasResult then (optId, opt) :: s.resultCallbacks else s.resultCallbacks
    issued := s.issued ++ [⟨client, optId, opt⟩] }
  match client with
  | none   => some s'
  | some d =>
    ((⟨some d, []⟩ : RpcClient).callRemoteFunc (ascii "add_executor") (opt.request optId).args).map fun _ =>
    { s' with toDb := Function.update s.toDb d (s.toDb d ++ [opt.request optId]) }

/-- `on_opt_db_with_status`. -/
def onOptDbWithStatus (s : DbSystem) (d : Nat) (a : Answered) (optId : Nat) (status : Bool) : DbSystem :=
  match s.statusCallbacks.lookup optId with
  | none     => s
  | some opt => { s with calls := s.calls ++ [⟨d, optId, opt, status, none, a.outcome⟩] }

/-- `on_opt_db_with_result`. -/
def onOptDbWithResult (s : DbSystem) (d : Nat) (a : Answered) (optId : Nat) (status : Bool) (result : List UInt8) :
    DbSystem :=
  match s.resultCallbacks.lookup optId with
  | none     => s
  | some opt => { s with calls := s.calls ++ [⟨d, optId, opt, status, some result, a.outcome⟩] }

/-- A reply arrives; a result is pushed together again. -/
def receive (s : DbSystem) (d : Nat) (a : Answered) : Option DbSystem :=
  match a.reply with
  | .status optId status        => some (s.onOptDbWithStatus d a optId status)
  | .result optId status result =>
    (MysqlConn.pushAll result.toList).map fun result => s.onOptDbWithResult d a optId status result.toList

def step (s : DbSystem) : DbLabel → Option DbSystem
  | .issue opt client => s.issue opt client
  | .addExecutor d    =>
    match s.toDb d with
    | []             => some s
    | request :: rest =>
      (request.arrive (conn d) (s.db d)).map fun x =>
      { s with toDb := Function.update s.toDb d rest, db := Function.update s.db d x }
  | .update d outcome =>
    ((s.db d).update outcome).bind fun x =>
    ((s.db d).pending.mapM (answered outcome)).map fun answers =>
    { s with
      db := Function.update s.db d x
      toGame := Function.update s.toGame d (s.toGame d ++ answers)
      executed := s.executed ++ (s.db d).pending.map (·.info) }
  | .reply d          =>
    match s.toGame d with
    | []        => some s
    | a :: rest => { s with toGame := Function.update s.toGame d rest }.receive d a

/-- Nothing is issued yet; the DB processes know the connection of the game process. -/
def init (optId : Nat) : DbSystem :=
  { optId := optId, statusCallbacks := [], resultCallbacks := [], toDb := fun _ => []
    db := fun d => { clients := fun s => s = conn d }
    toGame := fun _ => [], calls := [], issued := [], executed := [] }

end DbSystem

/-! ## Requests and replies -/

theorem pushAll_toList {bytes : List UInt8} {s : DynamicString} (h : MysqlConn.pushAll bytes = some s) :
    s.toList = bytes := by
  obtain ⟨_, _, htoList⟩ := DynamicString.pushBack_accumulates.foldlM_sound
    ⟨DynamicString.mk'_grown, DynamicString.mk'_toList⟩ h
  exact htoList

theorem DbRequest.arrive_eq {r : DbRequest} {s : SocketIndex} {x x' : ExecutorManager} (h : r.arrive s x = some x') :
    x' = x.addExecutor s r.optType r.optId r.tableName r.fields r.query := by
  obtain ⟨tableName, htableName, h⟩ := Option.bind_eq_some_iff.mp h
  obtain ⟨fields, hfields, h⟩ := Option.bind_eq_some_iff.mp h
  obtain ⟨query, hquery, rfl⟩ := Option.map_eq_some_iff.mp h
  rw [pushAll_toList htableName, pushAll_toList hfields, pushAll_toList hquery]

/-- The reply to a query has a result, and any other reply a status only; the status is `true` in both. -/
theorem answer_reply {info : DbOptInfo} {outcome : Outcome} {executed : List (List UInt8)} {reply : ExecutorReply}
    (h : answer info outcome = some (executed, reply)) :
    (info.optType = dbOptQuery ∧ ∃ data, reply = .result info.optId true data) ∨
    (info.optType ≠ dbOptQuery ∧ reply = .status info.optId true) := by
  unfold answer at h
  split at h
  · obtain ⟨queried, _, heq⟩ := Option.map_eq_some_iff.mp h
    cases heq
    exact Or.inl ⟨‹_›, _, rfl⟩
  · obtain ⟨done, _, heq⟩ := Option.map_eq_some_iff.mp h
    cases heq
    exact Or.inr ⟨‹_›, rfl⟩

/-- A reply on its way is the one that `executor` gives. -/
def Answered.Honest (a : Answered) : Prop := ∃ executed, answer a.info a.outcome = some (executed, a.reply)

theorem answered_spec {outcome : Opt → Outcome} {opt : Opt} {a : Answered} (h : answered outcome opt = some a) :
    a.info = opt.info ∧ a.Honest := by
  obtain ⟨⟨executed, reply⟩, hanswer, h⟩ := Option.bind_eq_some_iff.mp h
  obtain ⟨_, _, rfl⟩ := Option.map_eq_some_iff.mp h
  exact ⟨rfl, executed, hanswer⟩

theorem answered_all {outcome : Opt → Outcome} {opts : List Opt} {answers : List Answered}
    (h : opts.mapM (answered outcome) = some answers) :
    answers.map (·.info) = opts.map (·.info) ∧ ∀ a ∈ answers, a.Honest := by
  have hall := forall₂_of_mapM h
  clear h
  induction hall with
  | nil => exact ⟨rfl, fun a ha => absurd ha List.not_mem_nil⟩
  | cons hone _ ih =>
      obtain ⟨hinfo, hhonest⟩ := answered_spec hone
      exact ⟨congrArg₂ List.cons hinfo ih.1, List.forall_mem_cons.mpr ⟨hhonest, ih.2⟩⟩

theorem DbOpt.hasResult_iff (opt : DbOpt) : opt.hasResult = true ↔ opt.optType = dbOptQuery := by
  cases opt <;> simp [hasResult, optType, dbOptQuery, dbOptDelete, dbOptInsert, dbOptUpdate]

/-- The `db_opt_info` of an operation at a DB process. -/
def Issued.info (conn : Nat → SocketIndex) (d : Nat) (i : Issued) : DbOptInfo := (i.opt.request i.optId).info (conn d)

/-- The callback got what the reply says. -/
def DbCall.Got (c : DbCall) : ExecutorReply → Prop
  | .status optId ok      => c.optId = optId ∧ c.status = ok ∧ c.result = none
  | .result optId ok data => c.optId = optId ∧ c.status = ok ∧ c.result = some data.toList

/-! ## Where the operations are -/

namespace DbSystem

variable (conn : Nat → SocketIndex) (s : DbSystem)

/-- `i` was sent to the DB process `d`. -/
def SentTo (d : Nat) (i : Issued) : Prop := i ∈ s.issued ∧ i.process = some d

/-- Of operations sent to the DB process `d` are the requests on a connection, the requests in a queue, and the replies
    on a connection. -/
def RequestsOf (d : Nat) (requests : List DbRequest) : Prop :=
  ∀ r ∈ requests, ∃ i, s.SentTo d i ∧ i.opt.request i.optId = r

def QueueOf (d : Nat) (x : ExecutorManager) : Prop :=
  ∀ opt ∈ x.pending, ∃ i, s.SentTo d i ∧ i.info conn d = opt.info

def RepliesOf (d : Nat) (answers : List Answered) : Prop :=
  ∀ a ∈ answers, (∃ i, s.SentTo d i ∧ i.info conn d = a.info) ∧ a.Honest

/-- The numbers of the operations sent to the DB process `d`, and of those that are somewhere on the way there and back,
    or back. -/
def sentIds (d : Nat) : List Nat := (s.issued.filter (·.process = some d)).map (·.optId)

def calledIds (d : Nat) : List Nat := (s.calls.filter (·.process = d)).map (·.optId)

def placedIds (d : Nat) : List Nat :=
  (s.toDb d).map (·.optId) ++ ((s.db d).pending.map (·.info.optId) ++
    ((s.toGame d).map (·.info.optId) ++ s.calledIds d))

/-- What holds in every state. -/
structure Inv : Prop where
  increasing : s.issued.Pairwise fun i j => i.optId < j.optId
  bounded : ∀ i ∈ s.issued, i.optId ≤ s.optId
  /-- The callback of an operation stands in its table, under its number. -/
  registered : ∀ i ∈ s.issued,
    (if i.opt.hasResult then s.resultCallbacks else s.statusCallbacks).lookup i.optId = some i.opt
  queues : ∀ d, ExecutorManager.Inv (s.db d)
  connected : ∀ d, (s.db d).clients (conn d) = true
  sent : ∀ d, s.RequestsOf d (s.toDb d)
  queued : ∀ d, s.QueueOf conn d (s.db d)
  replied : ∀ d, s.RepliesOf conn d (s.toGame d)
  called : ∀ c ∈ s.calls, s.SentTo c.process ⟨some c.process, c.optId, c.opt⟩ ∧
    ∃ executed reply, answer (Issued.info conn c.process ⟨some c.process, c.optId, c.opt⟩) c.outcome =
      some (executed, reply) ∧ c.Got reply
  /-- Each operation is in one place. -/
  placed : ∀ d, (s.sentIds d).Perm (s.placedIds d)

variable {conn s}

theorem init_inv (optId : Nat) : Inv conn (init conn optId) where
  increasing := List.Pairwise.nil
  bounded := fun i hi => absurd hi List.not_mem_nil
  registered := fun i hi => absurd hi List.not_mem_nil
  queues := fun d => by constructor <;> simp [init, ExecutorManager.Keyed, ExecutorManager.pending]
  connected := fun d => decide_eq_true rfl
  sent := fun d r hr => absurd hr List.not_mem_nil
  queued := fun d opt ho => absurd ho List.not_mem_nil
  replied := fun d a ha => absurd ha List.not_mem_nil
  called := fun c hc => absurd hc List.not_mem_nil
  placed := fun d => List.Perm.refl _

/-! ## Issuing -/

/-- The state behind `db_opt`. -/
def registering (s : DbSystem) (opt : DbOpt) (client : Option Nat) : DbSystem :=
  { s with
    optId := s.optId + 1
    statusCallbacks := if opt.hasResult then s.statusCallbacks else (s.optId + 1, opt) :: s.statusCallbacks
    resultCallbacks := if opt.hasResult then (s.optId + 1, opt) :: s.resultCallbacks else s.resultCallbacks
    toDb := fun d => s.toDb d ++ if client = some d then [opt.request (s.optId + 1)] else []
    issued := s.issued ++ [⟨client, s.optId + 1, opt⟩] }

theorem issue_eq {opt : DbOpt} {client : Option Nat} {s' : DbSystem} (h : s.issue opt client = some s') :
    s' = s.registering opt client := by
  cases client with
  | none =>
      cases h
      simp [registering]
  | some d =>
      obtain ⟨_, _, rfl⟩ := Option.map_eq_some_iff.mp h
      simp only [registering, DbSystem.mk.injEq, true_and, and_true]
      funext d'
      by_cases hd : d' = d
      · rw [hd, Function.update_self, if_pos rfl]
      · rw [Function.update_of_ne hd, if_neg fun heq => hd (Option.some.inj heq).symm, List.append_nil]

theorem sentTo_registering {opt : DbOpt} {client : Option Nat} {d : Nat} {i : Issued} (h : s.SentTo d i) :
    (s.registering opt client).SentTo d i := ⟨List.mem_append_left _ h.1, h.2⟩

/-- A new number is no old one. -/
theorem lookup_cons_of_le {table : List (Nat × DbOpt)} {opt : DbOpt} {k n : Nat} (h : k ≤ n) :
    ((n + 1, opt) :: table).lookup k = table.lookup k := by
  have hne : (k == n + 1) = false := beq_false_of_ne (by omega)
  rw [List.lookup_cons, hne]

theorem registered_registering (hs : Inv conn s) (opt : DbOpt) (client : Option Nat) :
    ∀ i ∈ (s.registering opt client).issued,
      (if i.opt.hasResult then (s.registering opt client).resultCallbacks
        else (s.registering opt client).statusCallbacks).lookup i.optId = some i.opt := by
  intro i hi
  simp only [registering]
  rcases List.mem_append.mp hi with hi | hi
  · -- an old number, in whichever of the two tables the new one goes
    have hle := hs.bounded i hi
    have hreg := hs.registered i hi
    cases hkind : i.opt.hasResult <;> cases opt.hasResult <;> simpa [hkind, lookup_cons_of_le hle] using hreg
  · rw [List.mem_singleton.mp hi]
    cases opt.hasResult <;> simp

theorem sentIds_registering (opt : DbOpt) (client : Option Nat) (d : Nat) :
    (s.registering opt client).sentIds d = s.sentIds d ++ if client = some d then [s.optId + 1] else [] := by
  simp only [sentIds, registering, List.filter_append, List.map_append, List.filter_singleton]
  by_cases h : client = some d <;> simp [h]

theorem issue_inv (hs : Inv conn s) {opt : DbOpt} {client : Option Nat} : Inv conn (s.registering opt client) where
  increasing := by
    refine List.pairwise_append.mpr ⟨hs.increasing, List.pairwise_singleton .., ?_⟩
    intro i hi j hj
    rw [List.mem_singleton.mp hj]
    exact Nat.lt_succ_of_le (hs.bounded i hi)
  bounded := by
    intro i hi
    rcases List.mem_append.mp hi with hi | hi
    · exact Nat.le_succ_of_le (hs.bounded i hi)
    · rw [List.mem_singleton.mp hi]
      exact Nat.le_refl _
  registered := registered_registering hs opt client
  queues := hs.queues
  connected := hs.connected
  sent d r hr := by
    rcases List.mem_append.mp hr with hr | hr
    · obtain ⟨i, hi, heq⟩ := hs.sent d r hr
      exact ⟨i, sentTo_registering hi, heq⟩
    · split at hr
      · rename_i hclient
        have hlast : (⟨client, s.optId + 1, opt⟩ : Issued) ∈ (s.registering opt client).issued :=
          List.mem_append_right _ (List.mem_singleton_self _)
        exact ⟨_, ⟨hlast, hclient⟩, (List.mem_singleton.mp hr).symm⟩
      · cases hr
  queued d o ho := by
    obtain ⟨i, hi, heq⟩ := hs.queued d o ho
    exact ⟨i, sentTo_registering hi, heq⟩
  replied d a ha := by
    obtain ⟨⟨i, hi, heq⟩, hhonest⟩ := hs.replied d a ha
    exact ⟨⟨i, sentTo_registering hi, heq⟩, hhonest⟩
  called c hc := ⟨sentTo_registering (hs.called c hc).1, (hs.called c hc).2⟩
  placed d := by
    have hids : ((s.registering opt client).toDb d).map (·.optId) =
        (s.toDb d).map (·.optId) ++ if client = some d then [s.optId + 1] else [] := by
      simp only [registering, List.map_append]
      split <;> rfl
    rw [sentIds_registering, placedIds, hids, List.append_assoc]
    refine ((hs.placed d).append_right _).trans ?_
    rw [placedIds, List.append_assoc]
    exact List.perm_append_comm.append_left _

/-! ## Arriving -/

theorem arrive_pending {request : DbRequest} {d : Nat} {x : ExecutorManager}
    (hx : request.arrive (conn d) (s.db d) = some x) :
    ∃ opt : Opt, opt.info = request.info (conn d) ∧ x.pending.Perm ((s.db d).pending ++ [opt]) := by
  rw [DbRequest.arrive_eq hx]
  exact ⟨_, rfl, ExecutorManager.pushOpt_perm _ _⟩

/-- `add_executor` moves a request from its connection into the queue. -/
theorem addExecutor_inv (hs : Inv conn s) {d : Nat} {request : DbRequest} {rest : List DbRequest}
    {x : ExecutorManager} (htoDb : s.toDb d = request :: rest) (hx : request.arrive (conn d) (s.db d) = some x) :
    Inv conn { s with toDb := Function.update s.toDb d rest, db := Function.update s.db d x } where
  increasing := hs.increasing
  bounded := hs.bounded
  registered := hs.registered
  queues := by
    refine (Function.forall_update_iff _ fun _ => ExecutorManager.Inv).mpr ⟨?_, fun d' _ => hs.queues d'⟩
    exact ExecutorManager.step_inv (l := .addExecutor ..) (hs.queues d) (congrArg some (DbRequest.arrive_eq hx).symm)
  connected := by
    refine (Function.forall_update_iff _ fun d (x : ExecutorManager) => x.clients (conn d) = true).mpr
      ⟨?_, fun d' _ => hs.connected d'⟩
    rw [DbRequest.arrive_eq hx]
    exact hs.connected d
  sent := by
    refine (Function.forall_update_iff _ s.RequestsOf).mpr ⟨fun r hr => ?_, fun d' _ => hs.sent d'⟩
    exact hs.sent d r (htoDb ▸ List.mem_cons_of_mem request hr)
  queued := by
    refine (Function.forall_update_iff _ (s.QueueOf conn)).mpr ⟨fun o ho => ?_, fun d' _ => hs.queued d'⟩
    obtain ⟨opt, hopt, hperm⟩ := arrive_pending hx
    rcases List.mem_append.mp (hperm.mem_iff.mp ho) with ho | ho
    · exact hs.queued d o ho
    · obtain ⟨i, hi, heq⟩ := hs.sent d request (htoDb ▸ List.mem_cons_self)
      rw [List.mem_singleton.mp ho, hopt]
      exact ⟨i, hi, congrArg (·.info (conn d)) heq⟩
  replied := hs.replied
  called := hs.called
  placed d' := by
    refine (hs.placed d').trans ?_
    by_cases hd : d' = d
    · subst hd
      obtain ⟨opt, hopt, hperm⟩ := arrive_pending hx
      have hid : opt.info.optId = request.optId := congrArg DbOptInfo.optId hopt
      have hpending := hperm.map (·.info.optId)
      rw [List.map_append, List.map_singleton, hid] at hpending
      simp only [placedIds, calledIds, Function.update_self, htoDb, List.map_cons]
      refine List.perm_middle.symm.trans (List.Perm.append_left _ ?_)
      exact ((List.perm_append_singleton _ _).symm.trans hpending.symm).append_right _
    · simp only [placedIds, calledIds, Function.update_of_ne hd]
      exact List.Perm.refl _

/-! ## Executing -/

/-- `update` moves the queue onto the connection back. -/
theorem update_inv (hs : Inv conn s) {d : Nat} {outcome : Opt → Outcome} {x : ExecutorManager}
    {answers : List Answered} (hx : (s.db d).update outcome = some x)
    (hanswers : (s.db d).pending.mapM (answered outcome) = some answers) :
    Inv conn { s with
      db := Function.update s.db d x
      toGame := Function.update s.toGame d (s.toGame d ++ answers)
      executed := s.executed ++ (s.db d).pending.map (·.info) } where
  increasing := hs.increasing
  bounded := hs.bounded
  registered := hs.registered
  queues := by
    refine (Function.forall_update_iff _ fun _ => ExecutorManager.Inv).mpr ⟨?_, fun d' _ => hs.queues d'⟩
    exact ExecutorManager.step_inv (l := .update outcome) (hs.queues d) hx
  connected := by
    refine (Function.forall_update_iff _ fun d (x : ExecutorManager) => x.clients (conn d) = true).mpr
      ⟨?_, fun d' _ => hs.connected d'⟩
    rw [ExecutorManager.update_clients (hs.queues d) hx]
    exact hs.connected d
  sent := hs.sent
  queued := by
    refine (Function.forall_update_iff _ (s.QueueOf conn)).mpr ⟨fun o ho => ?_, fun d' _ => hs.queued d'⟩
    rw [(ExecutorManager.update_spec (hs.queues d) hx).1] at ho
    cases ho
  replied := by
    refine (Function.forall_update_iff _ (s.RepliesOf conn)).mpr ⟨fun a ha => ?_, fun d' _ => hs.replied d'⟩
    obtain ⟨hinfos, hhonest⟩ := answered_all hanswers
    rcases List.mem_append.mp ha with ha | ha
    · exact hs.replied d a ha
    · have hinfo : a.info ∈ (s.db d).pending.map (·.info) := hinfos ▸ List.mem_map_of_mem ha
      obtain ⟨o, ho, heq⟩ := List.mem_map.mp hinfo
      refine ⟨?_, hhonest a ha⟩
      rw [← heq]
      exact hs.queued d o ho
  called := hs.called
  placed d' := by
    refine (hs.placed d').trans ?_
    by_cases hd : d' = d
    · subst hd
      -- all that was pending is answered, so the places only move from one end to the other
      have hnone := (ExecutorManager.update_spec (hs.queues d') hx).1
      have hids : answers.map (·.info.optId) = (s.db d').pending.map (·.info.optId) := by
        have h := congrArg (List.map DbOptInfo.optId) (answered_all hanswers).1
        rwa [List.map_map, List.map_map] at h
      simp only [placedIds, calledIds, Function.update_self, hnone, List.map_nil, List.nil_append, List.map_append,
        hids]
      refine List.Perm.append_left _ ?_
      rw [← List.append_assoc]
      exact List.perm_append_comm.append_right _
    · simp only [placedIds, calledIds, Function.update_of_ne hd]
      exact List.Perm.refl _

/-! ## Calling back -/

/-- A reply finds the callback of its operation. -/
theorem receive_eq (hs : Inv conn s) {d : Nat} {a : Answered} {rest : List Answered} {s' : DbSystem}
    (htoGame : s.toGame d = a :: rest)
    (h : { s with toGame := Function.update s.toGame d rest }.receive d a = some s') :
    ∃ c : DbCall, c.process = d ∧ c.optId = a.info.optId ∧ c.outcome = a.outcome ∧ c.Got a.reply ∧
      s.SentTo d ⟨some d, c.optId, c.opt⟩ ∧ Issued.info conn d ⟨some d, c.optId, c.opt⟩ = a.info ∧
      s' = { s with toGame := Function.update s.toGame d rest, calls := s.calls ++ [c] } := by
  obtain ⟨⟨⟨_, optId, opt⟩, ⟨hi, rfl⟩, hinfo⟩, executed, hanswer⟩ :=
    hs.replied d a (htoGame ▸ List.mem_cons_self)
  have hid : a.info.optId = optId := congrArg DbOptInfo.optId hinfo.symm
  have htype : a.info.optType = opt.optType := congrArg DbOptInfo.optType hinfo.symm
  have hreg := hs.registered _ hi
  rcases answer_reply hanswer with ⟨hquery, data, hreply⟩ | ⟨hquery, hreply⟩
  · rw [if_pos (opt.hasResult_iff.mpr (htype ▸ hquery))] at hreg
    rw [receive, hreply] at h
    obtain ⟨result, hresult, rfl⟩ := Option.map_eq_some_iff.mp h
    refine ⟨⟨d, optId, opt, true, some data.toList, a.outcome⟩, rfl, hid.symm, rfl, ?_, ⟨hi, rfl⟩,
      hinfo, ?_⟩
    · rw [hreply]
      exact ⟨hid.symm, rfl, rfl⟩
    · rw [onOptDbWithResult, hid, hreg, pushAll_toList hresult]
  · rw [if_neg fun hkind => hquery (htype.trans (opt.hasResult_iff.mp hkind))] at hreg
    rw [receive, hreply] at h
    cases h
    refine ⟨⟨d, optId, opt, true, none, a.outcome⟩, rfl, hid.symm, rfl, ?_, ⟨hi, rfl⟩, hinfo, ?_⟩
    · rw [hreply]
      exact ⟨hid.symm, rfl, rfl⟩
    · rw [onOptDbWithStatus, hid, hreg]

/-- A callback is called, and the reply is gone. -/
theorem reply_inv (hs : Inv conn s) {d : Nat} {a : Answered} {rest : List Answered} {s' : DbSystem}
    (htoGame : s.toGame d = a :: rest)
    (h : { s with toGame := Function.update s.toGame d rest }.receive d a = some s') : Inv conn s' := by
  obtain ⟨c, rfl, hid, houtcome, hgot, hsent, hinfo, rfl⟩ := receive_eq hs htoGame h
  obtain ⟨_, executed, hanswer⟩ := hs.replied c.process a (htoGame ▸ List.mem_cons_self)
  exact
    { increasing := hs.increasing
      bounded := hs.bounded
      registered := hs.registered
      queues := hs.queues
      connected := hs.connected
      sent := hs.sent
      queued := hs.queued
      replied := by
        refine (Function.forall_update_iff _ (s.RepliesOf conn)).mpr ⟨fun a' ha => ?_, fun d' _ => hs.replied d'⟩
        exact hs.replied c.process a' (htoGame ▸ List.mem_cons_of_mem a ha)
      called := by
        intro c' hc
        rcases List.mem_append.mp hc with hc | hc
        · exact hs.called c' hc
        · rw [List.mem_singleton.mp hc, hinfo, houtcome]
          exact ⟨hsent, executed, a.reply, hanswer, hgot⟩
      placed := by
        intro d'
        refine (hs.placed d').trans ?_
        by_cases hd : d' = c.process
        · subst hd
          have hcalled : (s.calls ++ [c]).filter (·.process = c.process) =
              s.calls.filter (·.process = c.process) ++ [c] := by simp
          simp only [placedIds, calledIds, Function.update_self, htoGame, hcalled, List.map_cons, List.map_append,
            List.map_nil, ← hid]
          refine List.Perm.append_left _ (List.Perm.append_left _ ?_)
          rw [← List.append_assoc]
          exact (List.perm_append_singleton _ _).symm
        · have hcalled : (s.calls ++ [c]).filter (·.process = d') = s.calls.filter (·.process = d') := by
            simp [Ne.symm hd]
          simp only [placedIds, calledIds, Function.update_of_ne hd, hcalled]
          exact List.Perm.refl _ }

theorem step_inv (hs : Inv conn s) {l : DbLabel} {s' : DbSystem} (h : step conn s l = some s') : Inv conn s' := by
  cases l with
  | issue opt client =>
      rw [issue_eq h]
      exact issue_inv hs
  | addExecutor d =>
      rw [step] at h
      split at h
      · cases h
        exact hs
      · obtain ⟨x, hx, rfl⟩ := Option.map_eq_some_iff.mp h
        exact addExecutor_inv hs ‹_› hx
  | update d outcome =>
      obtain ⟨x, hx, h⟩ := Option.bind_eq_some_iff.mp h
      obtain ⟨answers, hanswers, rfl⟩ := Option.map_eq_some_iff.mp h
      exact update_inv hs hx hanswers
  | reply d =>
      rw [step] at h
      split at h
      · cases h
        exact hs
      · exact reply_inv hs ‹_› h

end DbSystem

end Mowang
