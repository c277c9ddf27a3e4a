import Mowang.Game.DbOperations

/-!
# `Game.DbStatus` — what a database callback is told

`remove` and `insert` return `true` from behind the handler of the exception, `update` returns `false` always, and
`executor` looks at no return value: each reply says `true`. A query that fails leaves its buffer as it is or half
filled, so its callback gets `true` and no result, or a part of one.

## Contents
- `Succeeded`, `Truthful` — what the database did, and what the callback should be told.
- `status_truthful_iff`, and `failed_query`, which creates an account.
-/

namespace Mowang

open Block

/-- `fill_result` throws. -/
def Cell.throws (cell : Cell) : Bool :=
  match cell.columnType with
  | .tinyint     => cell.getInt.isNone
  | .smallint    => cell.getInt.isNone
  | .integer     => cell.getInt.isNone
  | .bigint      => cell.getInt64.isNone
  | .char        => cell.getString.isNone
  | .varchar     => cell.getString.isNone
  | .longvarchar => cell.getString.isNone
  | .unknown _   => false

/-- Nothing is thrown, neither by the statement nor while its rows are read. -/
def Outcome.Readable : Outcome → Prop
  | .throws  => False
  | .rows rs => ∀ row ∈ rs, ∃ cells, row = some cells ∧ ∀ cell ∈ cells, cell.throws = false

/-- The statement succeeded; an insertion without fields has none. -/
def Succeeded : DbOpt → Outcome → Prop
  | .remove _ _, outcome        => outcome ≠ .throws
  | .insert _ fields _, outcome => ofCharPtr fields ≠ [] ∧ outcome ≠ .throws
  | .update _ _ _, outcome      => outcome ≠ .throws
  | .query _ _ _, outcome       => outcome.Readable

/-- The test of `on_load_account_callback` before `create_account`. -/
def createsAccount (status : Bool) (result : List UInt8) : Bool := status && result.isEmpty

/-- The status is `true` exactly if the statement succeeded, and with an empty result exactly if it found no row; so
    only then an account is created. -/
def DbCall.Truthful (c : DbCall) : Prop :=
  (c.status = true ↔ Succeeded c.opt c.outcome) ∧
  ∀ result, c.result = some result → (createsAccount c.status result = true ↔ c.outcome = .rows [])

namespace DbSystem

variable {conn : Nat → SocketIndex}

/-- The bytes that `binary_data result(db_result, len)` holds. -/
theorem resultData_toList (result : Block UInt8 sizeofResult) (len : Nat) :
    (ExecutorManager.resultData result len).toList =
      if len % 2 ^ 16 > 0 then result.slice 0 (len % 2 ^ 16) else cstr result.cells := by
  rw [ExecutorManager.resultData, DynamicCells.toList]
  exact List.take_left' rfl

theorem resultData_holds (result : Block UInt8 sizeofResult) (len : Nat) :
    DynamicCells.Holds (ExecutorManager.resultData result len) (ExecutorManager.resultData result len).toList := by
  refine ⟨rfl, ?_⟩
  rw [ExecutorManager.resultData, DynamicCells.toList]
  exact (congrArg List.length (List.take_left' rfl)).symm

theorem resultData_nil : (ExecutorManager.resultData (Block.fill sizeofResult 0) 0).toList = [] := by
  rw [resultData_toList, if_neg (by decide)]
  exact cstr_append_nul List.not_mem_nil (List.replicate 64999 0)

/-- A result without bytes comes of a query without rows, or of one that failed at once. -/
theorem resultData_empty {info : DbOptInfo} {outcome : Outcome} {queried : MysqlConn.Queried sizeofResult}
    (h : MysqlConn.query info.tableName info.fields info.condition (Block.fill sizeofResult 0) 0 outcome =
      some queried) : (ExecutorManager.resultData queried.result queried.len).toList = [] ↔
        outcome = .rows [] ∨ outcome = .throws := by
  cases outcome with
  | throws =>
      obtain ⟨sql, _, h⟩ := Option.bind_eq_some_iff.mp h
      cases h
      exact iff_of_true resultData_nil (Or.inr rfl)
  | rows rows =>
      by_cases hne : rows = []
      · subst hne
        obtain ⟨sql, _, h⟩ := Option.bind_eq_some_iff.mp h
        cases h
        exact iff_of_true resultData_nil (Or.inl rfl)
      · -- the count of the rows takes two bytes
        obtain ⟨hpos, hle⟩ := MysqlConn.query_len_pos hne h
        have hmod : queried.len % 2 ^ 16 = queried.len := by
          have : sizeofResult = 65000 := rfl
          omega
        refine iff_of_false ?_ (by simp [hne])
        rw [resultData_toList, hmod, if_pos hpos]
        intro hnil
        have hlen := slice_length (b := queried.result) (show 0 + queried.len ≤ sizeofResult by omega)
        rw [hnil, List.length_nil] at hlen
        omega

/-! ## Each callback -/

/-- What a callback gets: the status `true`, and for a query the result, which may be empty for two reasons. -/
theorem got_spec {c : DbCall} {info : DbOptInfo} {executed : List (List UInt8)} {reply : ExecutorReply}
    (h : answer info c.outcome = some (executed, reply)) (hgot : c.Got reply) : c.status = true ∧
      ∀ result, c.result = some result → (result = [] ↔ c.outcome = .rows [] ∨ c.outcome = .throws) := by
  unfold answer at h
  split at h
  · obtain ⟨queried, hquery, heq⟩ := Option.map_eq_some_iff.mp h
    cases heq
    obtain ⟨_, hstatus, hresult⟩ := hgot
    refine ⟨hstatus, fun result h => ?_⟩
    rw [hresult] at h
    cases h
    exact resultData_empty hquery
  · obtain ⟨done, _, heq⟩ := Option.map_eq_some_iff.mp h
    cases heq
    obtain ⟨_, hstatus, hresult⟩ := hgot
    refine ⟨hstatus, fun result h => ?_⟩
    rw [hresult] at h
    cases h

theorem not_throws_of_succeeded {opt : DbOpt} {outcome : Outcome} (h : Succeeded opt outcome) :
    outcome ≠ .throws := by
  cases opt with
  | remove _ _ => exact h
  | insert _ _ _ => exact h.2
  | update _ _ _ => exact h
  | query _ _ _ =>
      rintro rfl
      exact h

/-- A callback is told the truth exactly if there is nothing to hide. -/
theorem truthful_iff {c : DbCall} {info : DbOptInfo} {executed : List (List UInt8)} {reply : ExecutorReply}
    (h : answer info c.outcome = some (executed, reply)) (hgot : c.Got reply) :
    c.Truthful ↔ Succeeded c.opt c.outcome := by
  obtain ⟨hstatus, hempty⟩ := got_spec h hgot
  constructor
  · intro htruthful
    exact htruthful.1.mp hstatus
  · intro hsucceeded
    refine ⟨iff_of_true hstatus hsucceeded, fun result hresult => ?_⟩
    rw [createsAccount, hstatus, Bool.true_and, List.isEmpty_iff, hempty result hresult]
    exact or_iff_left (not_throws_of_succeeded hsucceeded)

/-- Nothing is on its way to a DB process, in it, or on its way back. -/
def Quiet (s : DbSystem) : Prop := ∀ d, s.toDb d = [] ∧ (s.db d).pending = [] ∧ s.toGame d = []

/-! ## One operation -/

section Single

variable {opt : DbOpt} {outcome : Outcome} {executed : List (List UInt8)} {reply : ExecutorReply}
  {sent : List PacketSendInfo}

/-- The strings of an operation are short enough for the packet, and for `push_back`. -/
def Short (opt : DbOpt) : Prop :=
  opt.table.length ≤ 1000 ∧ opt.fields.length ≤ 1000 ∧ opt.condition.length ≤ 1000

theorem ofCharPtr_length_le (s : List UInt8) : (ofCharPtr s).length ≤ s.length :=
  Nat.le_trans (List.length_take_le' _ _) (cstr_length_le s)

/-- Its request is sent. -/
theorem issue_isSome (hshort : Short opt) (s : DbSystem) (d : Nat) :
    s.issue opt (some d) = some (s.registering opt (some d)) := by
  obtain ⟨htable, hfields, hcondition⟩ := hshort
  have h₁ := Nat.le_trans (ofCharPtr_length_le opt.table) htable
  have h₂ := Nat.le_trans (ofCharPtr_length_le opt.fields) hfields
  have h₃ := Nat.le_trans (ofCharPtr_length_le opt.condition) hcondition
  obtain ⟨sent, hsent⟩ : ∃ sent, (⟨some d, []⟩ : RpcClient).callRemoteFunc (ascii "add_executor")
      (opt.request (s.optId + 1)).args = some sent := by
    apply RpcClient.callRemoteFunc_eq_some (.cons (.pod _) (.cons (.pod _)
      (.cons (.dynamicString (DynamicString.ofBytes_holds _)) (.cons (.dynamicString (DynamicString.ofBytes_holds _))
        (.cons (.dynamicString (DynamicString.ofBytes_holds _)) .nil))))) rfl
    refine ⟨by decide, ?_⟩
    simp only [DbOpt.request, List.flatMap_cons, List.flatMap_nil, Value.encode, Value.encodeString, List.length_append,
      LittleEndian.leBytes_length, Pod.ofNat, List.length_nil, sizeofBuffer]
    omega
  have hsome : (s.issue opt (some d)).isSome := by
    rw [issue, hsent]
    rfl
  obtain ⟨s', hs'⟩ := Option.isSome_iff_exists.mp hsome
  rw [hs', issue_eq hs']

/-- Its request arrives. -/
theorem arrive_isSome (hshort : Short opt) (optId : Nat) (s : SocketIndex) (x : ExecutorManager) :
    ∃ x', (opt.request optId).arrive s x = some x' := by
  obtain ⟨htable, hfields, hcondition⟩ := hshort
  obtain ⟨_, h₁, _⟩ := MysqlConn.pushAll_spec (Nat.le_trans (ofCharPtr_length_le opt.table) (by omega))
  obtain ⟨_, h₂, _⟩ := MysqlConn.pushAll_spec (Nat.le_trans (ofCharPtr_length_le opt.fields) (by omega))
  obtain ⟨_, h₃, _⟩ := MysqlConn.pushAll_spec (Nat.le_trans (ofCharPtr_length_le opt.condition) (by omega))
  exact ⟨_, by
    rw [DbRequest.arrive, DbOpt.request, h₁, Option.bind_some, h₂, Option.bind_some, h₃, Option.map_some]⟩

theorem receive_isSome {s : DbSystem} {d : Nat} {a : Answered}
    (h : ∀ optId ok data, a.reply = .result optId ok data → data.toList.length ≤ 32767) :
    ∃ s', s.receive d a = some s' := by
  rw [receive]
  split
  · exact ⟨_, rfl⟩
  · rename_i optId ok data hreply
    obtain ⟨result, hresult, _⟩ := MysqlConn.pushAll_spec (h optId ok data hreply)
    exact ⟨_, by rw [hresult, Option.map_some]⟩

/-- The queue of one request is executed and answered. -/
theorem update_single {x : ExecutorManager} {o : Opt} (hpending : x.pending = [o])
    (hclient : x.clients o.info.socketIndex = true) (hanswer : answer o.info outcome = some (executed, reply))
    (hsent : reply.packets ⟨some o.info.socketIndex, []⟩ = some sent) :
    (∃ y, x.update (fun _ => outcome) = some y) ∧
      x.pending.mapM (answered fun _ => outcome) = some [⟨o.info, outcome, reply⟩] := by
  constructor
  · have hexecutor : ∃ x', x.executor o outcome = some x' := by
      rw [executor_answer x o outcome hclient, hanswer, Option.bind_some, hsent]
      exact ⟨_, rfl⟩
    obtain ⟨_, hexecutor⟩ := hexecutor
    exact ExecutorManager.update_isSome hpending hexecutor
  · have hone : answered (fun _ => outcome) o = some ⟨o.info, outcome, reply⟩ := by
      rw [answered, hanswer, Option.bind_some, hsent, Option.map_some]
    rw [hpending, List.mapM_cons, hone]
    rfl

/-- The first operation, sent to the DB process 0, executed and answered, before anything else happens. -/
theorem single_run (hshort : Short opt)
    (hanswer : answer ((opt.request 1).info (conn 0)) outcome = some (executed, reply))
    (hsent : reply.packets ⟨some (conn 0), []⟩ = some sent)
    (hreceive : ∀ optId ok data, reply = .result optId ok data → data.toList.length ≤ 32767) :
    ∃ s, run (step conn) (init conn 0) [.issue opt (some 0), .addExecutor 0, .update 0 fun _ => outcome, .reply 0] =
      some s ∧ ∃ c, s.calls = [c] ∧ c.opt = opt ∧ c.outcome = outcome ∧ c.Got reply := by
  have hinv₁ : Inv conn ((init conn 0).registering opt (some 0)) := issue_inv (init_inv 0)
  have h₁ : step conn (init conn 0) (.issue opt (some 0)) = some ((init conn 0).registering opt (some 0)) :=
    issue_isSome hshort _ 0
  -- the request is queued
  obtain ⟨x, hx⟩ := arrive_isSome hshort 1 (conn 0) ((init conn 0).db 0)
  obtain ⟨s₂, h₂, rfl, hgame, hissued, hcalls⟩ : ∃ s₂,
      step conn ((init conn 0).registering opt (some 0)) (.addExecutor 0) = some s₂ ∧ s₂.db 0 = x ∧
      s₂.toGame 0 = [] ∧ s₂.issued = [⟨some 0, 1, opt⟩] ∧ s₂.calls = [] :=
    ⟨_, congrArg (Option.map _) hx, rfl, rfl, rfl, rfl⟩
  have hinv₂ := step_inv hinv₁ h₂
  obtain ⟨o, hinfo, hpending⟩ : ∃ o : Opt, o.info = (opt.request 1).info (conn 0) ∧
      (s₂.db 0).pending = [o] := by
    rw [DbRequest.arrive_eq hx]
    exact ⟨_, rfl, rfl⟩
  have hsocket : o.info.socketIndex = conn 0 := congrArg DbOptInfo.socketIndex hinfo
  -- it is executed and answered
  rw [← hinfo] at hanswer
  rw [← hsocket] at hsent
  obtain ⟨⟨y, hy⟩, hmapM⟩ := update_single hpending (hsocket ▸ hinv₂.connected 0) hanswer hsent
  obtain ⟨s₃, h₃, hgame₃, hissued₃, hcalls₃⟩ : ∃ s₃,
      step conn s₂ (.update 0 fun _ => outcome) = some s₃ ∧ s₃.toGame 0 = [⟨o.info, outcome, reply⟩] ∧
      s₃.issued = s₂.issued ∧ s₃.calls = s₂.calls :=
    ⟨_, Option.bind_eq_some_iff.mpr ⟨y, hy, Option.map_eq_some_iff.mpr ⟨_, hmapM, rfl⟩⟩,
      congrArg (· ++ [_]) hgame, rfl, rfl⟩
  have hinv₃ := step_inv hinv₂ h₃
  -- and the callback is called
  obtain ⟨s₄, h₄⟩ := receive_isSome (s := { s₃ with toGame := Function.update s₃.toGame 0 [] }) (d := 0)
    (a := ⟨o.info, outcome, reply⟩) hreceive
  obtain ⟨c, _, _, houtcome, hgot, ⟨hmem, _⟩, _, hs₄⟩ := receive_eq hinv₃ hgame₃ h₄
  have h₄' : step conn s₃ (.reply 0) = some s₄ := by
    rw [step, hgame₃]
    exact h₄
  refine ⟨s₄, ?_, c, ?_, ?_, houtcome, hgot⟩
  · rw [run, h₁, Option.bind_some, run, h₂, Option.bind_some, run, h₃, Option.bind_some, run, h₄',
      Option.bind_some, run]
  · rw [hs₄, hcalls₃, hcalls]
    rfl
  · rw [hissued₃, hissued] at hmem
    exact congrArg Issued.opt (List.mem_singleton.mp hmem)

end Single

/-! ## Every callback -/

theorem run_inv {start : Nat} {labels : List DbLabel} {s : DbSystem}
    (h : run (step conn) (init conn start) labels = some s) : Inv conn s :=
  run_invariant (fun hs hl => step_inv hs hl) (init_inv start) h

/-- Once everything is quiet, the callback of each operation that was sent has been called once. -/
theorem called_once {s : DbSystem} (hs : Inv conn s) (hquiet : s.Quiet) {d : Nat} {i : Issued} (hi : s.SentTo d i) :
    (s.calledIds d).count i.optId = 1 := by
  obtain ⟨htoDb, hqueue, htoGame⟩ := hquiet d
  have hperm := hs.placed d
  simp only [placedIds, htoDb, hqueue, htoGame, List.map_nil, List.nil_append] at hperm
  rw [← hperm.count_eq]
  have hnodup : (s.sentIds d).Nodup := by
    refine List.pairwise_map.mpr ((hs.increasing.sublist List.filter_sublist).imp ?_)
    exact fun hlt => Nat.ne_of_lt hlt
  apply List.count_eq_one_of_mem hnodup
  exact List.mem_map_of_mem (List.mem_filter.mpr ⟨hi.1, decide_eq_true hi.2⟩)

/-- **Which callbacks are told the truth.** Over any run, with any number of DB processes, operations and outcomes: a
    callback that is called is that of an operation sent to the answering process, and it is told the truth if and only
    if the statement succeeded; and once nothing is on the way, each operation that was sent has been called back
    once. -/
theorem status_truthful_iff {start : Nat} {labels : List DbLabel} {s : DbSystem}
    (h : run (step conn) (init conn start) labels = some s) :
    (∀ c ∈ s.calls, s.SentTo c.process ⟨some c.process, c.optId, c.opt⟩ ∧
      (c.Truthful ↔ Succeeded c.opt c.outcome)) ∧
    (s.Quiet → ∀ d i, s.SentTo d i → (s.calledIds d).count i.optId = 1) := by
  have hs := run_inv h
  refine ⟨fun c hc => ?_, fun hquiet d i hi => called_once hs hquiet hi⟩
  obtain ⟨hsent, executed, reply, hanswer, hgot⟩ := hs.called c hc
  exact ⟨hsent, truthful_iff hanswer hgot⟩

/-- The query by which `account::login` asks for an account. -/
def accountQuery : DbOpt :=
  .query (ascii "account") (ascii "account_id, role_id") (ascii "platform_id = 1 and user_id = 'alice'")

/-- It is asked, executed and answered, alone. -/
theorem accountQuery_run {outcome : Outcome} {queried : MysqlConn.Queried sizeofResult}
    (hquery : MysqlConn.query (ascii "account") (ascii "account_id, role_id")
      (ascii "platform_id = 1 and user_id = 'alice'") (Block.fill sizeofResult 0) 0 outcome = some queried)
    (hlen : (ExecutorManager.resultData queried.result queried.len).toList.length ≤ 1000) :
    ∃ s, run (step fun _ => 5) (init (fun _ => 5) 0)
      [.issue accountQuery (some 0), .addExecutor 0, .update 0 fun _ => outcome, .reply 0] = some s ∧
    ∃ c, s.calls = [c] ∧ c.opt = accountQuery ∧ c.outcome = outcome ∧ c.status = true ∧
      c.result = some (ExecutorManager.resultData queried.result queried.len).toList := by
  obtain ⟨data, hdata⟩ : ∃ data, data = ExecutorManager.resultData queried.result queried.len := ⟨_, rfl⟩
  have hholds : DynamicCells.Holds data data.toList := hdata ▸ resultData_holds queried.result queried.len
  rw [← hdata] at hlen ⊢
  have hanswer : answer ((accountQuery.request 1).info 5) outcome =
      some (queried.executed, .result 1 true data) := by
    have htype : ((accountQuery.request 1).info 5).optType = dbOptQuery := rfl
    have hinfo : MysqlConn.query ((accountQuery.request 1).info 5).tableName
        ((accountQuery.request 1).info 5).fields ((accountQuery.request 1).info 5).condition
        (Block.fill sizeofResult 0) 0 outcome = some queried := hquery
    rw [answer, if_pos htype, hinfo, hdata]
    rfl
  obtain ⟨sent, hsent⟩ : ∃ sent, (ExecutorReply.result 1 true data).packets ⟨some 5, []⟩ = some sent := by
    apply RpcClient.callRemoteFunc_eq_some (.cons (.pod _) (.cons (.pod _) (.cons (.dynamicString hholds) .nil))) rfl
    refine ⟨by decide, ?_⟩
    simp only [List.flatMap_cons, List.flatMap_nil, Value.encode, Value.encodeString, List.length_append,
      LittleEndian.leBytes_length, Pod.ofNat, List.length_nil, sizeofBuffer]
    omega
  have hshort : Short accountQuery := ⟨by decide, by decide, by decide⟩
  have hreceive : ∀ optId ok data', ExecutorReply.result 1 true data = .result optId ok data' →
      data'.toList.length ≤ 32767 := by
    intro optId ok data' hreply
    cases hreply
    omega
  obtain ⟨s, hrun, c, hcalls, hopt, houtcome, _, hstatus, hresult⟩ :=
    @single_run (fun _ => 5) _ _ _ _ _ hshort hanswer hsent hreceive
  exact ⟨s, hrun, c, hcalls, hopt, houtcome, hstatus, hresult⟩

/-- The text of its statement. -/
theorem accountQuery_sql : ∃ sql, sprintf sizeofSql (MysqlConn.querySql (ascii "account")
    (ascii "account_id, role_id") (ascii "platform_id = 1 and user_id = 'alice'")) = some sql :=
  Option.isSome_iff_exists.mp (sprintf_isSome_iff.mpr (by decide))

/-- The account that is found: its id, and that of its role. -/
def accountRow : List Cell := [⟨.bigint, none, some 3001, none⟩, ⟨.bigint, none, some 7, none⟩]

/-- The count of the rows, and the two numbers. -/
def accountBytes : List UInt8 := [1, 0, 185, 11, 0, 0, 0, 0, 0, 0, 7, 0, 0, 0, 0, 0, 0, 0]

theorem accountRow_values : ∃ values, resultValues [some accountRow] = some values ∧
    MysqlConn.AllPushable values ∧ counted encodeRow values = accountBytes := by
  refine ⟨[[intValue 8 3001, intValue 8 7]], rfl, ?_, by decide⟩
  intro vs hvs v hv
  rw [List.mem_singleton.mp hvs] at hv
  rcases List.mem_cons.mp hv with rfl | hv
  · trivial
  · rw [List.mem_singleton.mp hv]
    trivial

/-- The account is found, and its callback gets the row. -/
theorem status_truthful_iff_account : ∃ s, run (step fun _ => 5) (init (fun _ => 5) 0)
      [.issue accountQuery (some 0), .addExecutor 0, .update 0 fun _ => .rows [some accountRow], .reply 0] = some s ∧
    ∃ c, s.calls = [c] ∧ c.result = some accountBytes ∧ c.Truthful := by
  obtain ⟨sql, hsql⟩ := accountQuery_sql
  obtain ⟨values, hvalues, hpush, hbytes⟩ := accountRow_values
  have hquery := @MysqlConn.query_rows sizeofResult _ _ _ (Block.fill sizeofResult 0) sql hsql _ (List.cons_ne_nil _ _)
    values hvalues hpush
  rw [hbytes] at hquery
  obtain ⟨b, hwrite, ⟨_, hslice⟩, _⟩ := writeBytes_spec (b := Block.fill sizeofResult 0) (i := 0)
    (show 0 + accountBytes.length ≤ sizeofResult by decide)
  rw [hwrite, Option.map_some] at hquery
  have hresult : (ExecutorManager.resultData b (0 + accountBytes.length)).toList = accountBytes := by
    rw [resultData_toList, if_pos (by decide)]
    exact hslice
  obtain ⟨s, hrun, c, hcalls, hopt, houtcome, _, hcalled⟩ := accountQuery_run hquery (by
    rw [hresult]
    decide)
  refine ⟨s, hrun, c, hcalls, hcalled.trans (congrArg some hresult), ?_⟩
  -- both cells are read
  apply ((status_truthful_iff hrun).1 c (hcalls ▸ List.mem_cons_self)).2.mpr
  rw [hopt, houtcome]
  intro row hrow
  rw [List.mem_singleton.mp hrow]
  refine ⟨accountRow, rfl, ?_⟩
  decide

/-- The account query fails, and an account is created. -/
theorem failed_query : ∃ s, run (step fun _ => 5) (init (fun _ => 5) 0)
      [.issue accountQuery (some 0), .addExecutor 0, .update 0 fun _ => .throws, .reply 0] = some s ∧
    ∃ c ∈ s.calls, createsAccount c.status (c.result.getD []) = true ∧ c.outcome = .throws ∧ ¬ c.Truthful := by
  obtain ⟨sql, hsql⟩ := accountQuery_sql
  have hquery : MysqlConn.query (ascii "account") (ascii "account_id, role_id")
      (ascii "platform_id = 1 and user_id = 'alice'") (Block.fill sizeofResult 0) 0 .throws =
      some ⟨⟨false, [cstr sql.cells]⟩, Block.fill sizeofResult 0, 0⟩ := by
    rw [MysqlConn.query, hsql]
    rfl
  obtain ⟨s, hrun, c, hcalls, hopt, houtcome, hstatus, hresult⟩ := accountQuery_run hquery (by
    rw [resultData_nil]
    exact Nat.zero_le _)
  rw [resultData_nil] at hresult
  refine ⟨s, hrun, c, hcalls ▸ List.mem_cons_self, ?_, houtcome, ?_⟩
  · rw [hstatus, hresult]
    rfl
  · intro htruthful
    have hsucceeded := htruthful.1.mp hstatus
    rw [hopt, houtcome] at hsucceeded
    exact hsucceeded

end DbSystem

end Mowang
