import Mathlib.Algebra.Group.Nat.Defs
import Mathlib.Data.List.Basic
import Mowang.Base.Run
import Mowang.HttpClient.HttpProxy

/-!
# `HttpClient.HttpCallbacks` — who gets the answer to an http request

A service asks the http client for a request under a number that it takes from `m_opt_id`, and keeps the callback under
that number. The http client answers requests in the order in which they end, and the answer comes back with the number.
The numbers of database operations are taken from `m_opt_id` too. Callbacks are never erased.

What the http client does with a request is in `HttpClient.HttpProxy`: it calls back once at most. Requests and answers
are those that fit a packet; a longer one is written over the end of its `m_buffer`.

## Contents
- `HttpCaller`, `HttpExchange`, `HttpCalls`, `HttpCalls.step`.
- `proxy_answers` — what a proxy calls back is an answer that its request can get.
- `Inv`, `step_inv`: numbers, callbacks and phases.
- `http_callbacks` — each callback runs once at most, with the answer to its own request.
-/

namespace Mowang

/-- A service, as far as http requests go. -/
structure HttpCaller (C : Type) where
  /-- `m_opt_id`. -/
  optId : UInt64
  /-- `m_http_response_callbacks`, the last entry first. -/
  callbacks : List (UInt64 × C) := []

/-- Where an http request is. -/
inductive HttpPhase
  | requested | started | answered | closed
deriving DecidableEq

/-- An http request of a service, with the arguments of its packet, and those of the packet of its answer. -/
structure HttpExchange (C : Type) where
  service : Nat
  optId : UInt64
  host : List UInt8
  url : List UInt8
  params : List UInt8
  usessl : Bool
  answer : Option (Int × List UInt8) := none
  phase : HttpPhase
  /-- The callback that the service was given with it. Read by the theorems only. -/
  callback : C

/-- A call of a callback, with the place of its request in the list of all requests. -/
structure HttpCalled (C : Type) where
  request : Nat
  callback : C
  status : Int
  result : List UInt8

/-- The services of a server, and all http requests that they have made. -/
structure HttpCalls (C : Type) where
  callers : Nat → HttpCaller C
  exchanges : List (HttpExchange C) := []
  called : List (HttpCalled C) := []

inductive HttpLabel (C : Type)
  /-- `service::http_request`; without a connection to an http client nothing is sent. -/
  | httpRequest (service : Nat) (host url params : List UInt8) (usessl : Bool) (callback : C) (connected : Bool)
  /-- Another use of `m_opt_id`. -/
  | genOptId (service : Nat)
  /-- `http_client::http_request`; whatever host the packet names, the proxy is started with `m_etcd_host`. -/
  | startRequest (request : Nat)
  /-- The callback of the proxy. -/
  | answer (request : Nat) (status : Int) (result : List UInt8)
  /-- `on_http_response`. -/
  | onHttpResponse (request : Nat)
  /-- A connection is closed, or the request has thrown an exception. -/
  | lose (request : Nat)

namespace HttpCalls

variable {C : Type}

def init (optIds : Nat → UInt64) : HttpCalls C := { callers := fun service => ⟨optIds service, []⟩ }

/-- `m_opt_id += 1`. -/
def genOptId (s : HttpCalls C) (service : Nat) : HttpCalls C :=
  let caller := s.callers service
  { s with callers := Function.update s.callers service { caller with optId := caller.optId + 1 } }

def httpRequest (s : HttpCalls C) (service : Nat) (host url params : List UInt8) (usessl : Bool) (callback : C)
    (connected : Bool) : HttpCalls C :=
  let s := s.genOptId service
  let caller := s.callers service
  { s with
    exchanges := s.exchanges ++ [
      { service := service, optId := caller.optId, host := host, url := url, params := params, usessl := usessl,
        phase := if connected then .requested else .closed, callback := callback }]
    callers := Function.update s.callers service
      { caller with callbacks := (caller.optId, callback) :: caller.callbacks } }

/-- A request moves on. -/
def move (s : HttpCalls C) (request : Nat) (e : HttpExchange C) : HttpCalls C :=
  { s with exchanges := s.exchanges.set request e }

def onHttpResponse (s : HttpCalls C) (request : Nat) (e : HttpExchange C) (status : Int) (result : List UInt8) :
    HttpCalls C :=
  match (s.callers e.service).callbacks.lookup e.optId with
  | some callback => { s with called := s.called ++ [⟨request, callback, status, result⟩] }
  | none          => s

def step (s : HttpCalls C) : HttpLabel C → Option (HttpCalls C)
  | .httpRequest service host url params usessl callback connected =>
    some (s.httpRequest service host url params usessl callback connected)
  | .genOptId service              => some (s.genOptId service)
  | .startRequest request          =>
    s.exchanges[request]?.bind fun e =>
    if e.phase = .requested then some (s.move request { e with phase := .started }) else none
  | .answer request status result  =>
    s.exchanges[request]?.bind fun e =>
    if e.phase = .started then some (s.move request { e with phase := .answered, answer := some (status, result) })
    else none
  | .onHttpResponse request        =>
    s.exchanges[request]?.bind fun e =>
    e.answer.bind fun (status, result) =>
    if e.phase = .answered then
      some ((s.onHttpResponse request e status result).move request { e with phase := .closed })
    else none
  | .lose request                  =>
    s.exchanges[request]?.bind fun e => some (s.move request { e with phase := .closed })

/-! ## The proxy of a request -/

section Proxy

open HttpProxy (Completes)

variable {fresh : Nat → UInt8} {usessl : Bool} {outs : List HttpProxy.Completion} {p : HttpProxy.Proxy}

/-- A proxy calls back once at most. -/
theorem proxy_calls (h : Completes fresh (HttpProxy.init fresh usessl) outs)
    (hrun : run (HttpProxy.step fresh) (HttpProxy.init fresh usessl) outs = some p) : p.calls.length ≤ 1 := by
  have hended := HttpProxy.run_ended h
  rw [hrun] at hended
  generalize hresult : some p = result at hended
  cases hended with
  | @failed _ o _ _ _ _ hcalls _ _ =>
      cases hresult
      rw [hcalls]
      cases o.operation <;> decide
  | invalid _ _ _ _ hcalls =>
      cases hresult
      exact Nat.le_of_eq (congrArg List.length hcalls)
  | responded _ _ _ _ _ _ =>
      have hspec := @HttpProxy.respond_spec fresh usessl (HttpProxy.headerBuffer outs)
        (HttpProxy.responseBuffer outs)
      rw [← hresult, Option.map_some] at hspec
      obtain ⟨_, _, heq⟩ := Option.map_eq_some_iff.mp hspec.symm
      exact Nat.le_of_eq (congrArg List.length (Prod.mk.inj heq).2.symm)

/-- A request that has been started gets each answer that its proxy calls back. -/
theorem proxy_answers {s : HttpCalls C} {request : Nat} {e : HttpExchange C} (he : s.exchanges[request]? = some e)
    (hphase : e.phase = .started) (h : Completes fresh (HttpProxy.init fresh e.usessl) outs)
    (hrun : run (HttpProxy.step fresh) (HttpProxy.init fresh e.usessl) outs = some p) :
    ∃ s', run step s (p.calls.map fun call => .answer request call.status call.result) = some s' := by
  have honce := proxy_calls h hrun
  cases hcalls : p.calls with
  | nil => exact ⟨s, rfl⟩
  | cons call calls =>
      rw [hcalls, List.length_cons] at honce
      obtain rfl : calls = [] := List.length_eq_zero_iff.mp (by omega)
      refine ⟨s.move request { e with phase := .answered, answer := some (call.status, call.result) }, ?_⟩
      rw [List.map_singleton, run, step, he, Option.bind_some, if_pos hphase]
      rfl

end Proxy

/-! ## Numbers, callbacks and phases -/

/-- After `n` steps: a service has taken `n` numbers at most, and its requests are under different ones; each request
    has its callback under its number; those whose callback has run are closed, with the answer that it got. -/
structure Inv (optIds : Nat → UInt64) (n : Nat) (s : HttpCalls C) : Prop where
  numbers : ∀ service, ∃ used ≤ n, (s.callers service).optId = optIds service + UInt64.ofNat used ∧
    ∀ e ∈ s.exchanges, e.service = service → ∃ m ≤ used, e.optId = optIds service + UInt64.ofNat m
  callbacks : ∀ e ∈ s.exchanges, (s.callers e.service).callbacks.lookup e.optId = some e.callback
  once : (s.called.map (·.request)).Nodup
  calls : ∀ call ∈ s.called, ∃ e, s.exchanges[call.request]? = some e ∧ e.phase = .closed ∧
    e.callback = call.callback ∧ e.answer = some (call.status, call.result)

theorem init_inv (optIds : Nat → UInt64) : Inv optIds 0 (init optIds : HttpCalls C) where
  numbers _ := ⟨0, Nat.le_refl 0, (UInt64.add_zero _).symm, List.forall_mem_nil _⟩
  callbacks := List.forall_mem_nil _
  once := .nil
  calls := List.forall_mem_nil _

theorem number_ne {base : UInt64} {m n : Nat} (hlt : m < n) (hn : n < 2 ^ 64) :
    base + UInt64.ofNat m ≠ base + UInt64.ofNat n := by
  intro heq
  have hmod := congrArg UInt64.toNat heq
  simp only [UInt64.toNat_add, UInt64.toNat_ofNat'] at hmod
  omega

variable {optIds : Nat → UInt64} {n : Nat} {s s' : HttpCalls C}

theorem Inv.genOptId (h : Inv optIds n s) (service : Nat) : Inv optIds (n + 1) (s.genOptId service) where
  numbers service' := by
    obtain ⟨used, hle, hid, hold⟩ := h.numbers service'
    by_cases hs : service' = service
    · subst hs
      refine ⟨used + 1, Nat.succ_le_succ hle, ?_, fun e he hservice => ?_⟩
      · show (Function.update s.callers service' _ service').optId = _
        rw [Function.update_self, hid, UInt64.ofNat_add, UInt64.add_assoc]
        rfl
      · obtain ⟨m, hm, hopt⟩ := hold e he hservice
        exact ⟨m, Nat.le_succ_of_le hm, hopt⟩
    · refine ⟨used, Nat.le_succ_of_le hle, ?_, hold⟩
      show (Function.update s.callers service _ service').optId = _
      rw [Function.update_of_ne hs, hid]
  callbacks e he := by
    show (Function.update s.callers service _ e.service).callbacks.lookup _ = _
    by_cases hs : e.service = service
    · rw [hs, Function.update_self, ← hs]
      exact h.callbacks e he
    · rw [Function.update_of_ne hs]
      exact h.callbacks e he
  once := h.once
  calls := h.calls

/-- A new request is under a new number. -/
theorem Inv.httpRequest (h : Inv optIds n s) (hn : n + 1 < 2 ^ 64) (service : Nat) (host url params : List UInt8)
    (usessl : Bool) (callback : C) (connected : Bool) :
    Inv optIds (n + 1) (s.httpRequest service host url params usessl callback connected) := by
  have hgen := h.genOptId service
  obtain ⟨used, hle, hid, hold⟩ := h.numbers service
  have hnew : ((s.genOptId service).callers service).optId = optIds service + UInt64.ofNat (used + 1) := by
    show (Function.update s.callers service _ service).optId = _
    rw [Function.update_self, hid, UInt64.ofNat_add, UInt64.add_assoc]
    rfl
  constructor
  · intro service'
    obtain ⟨used', hle', hid', hold'⟩ := hgen.numbers service'
    refine ⟨used', hle', ?_, fun e he hservice => ?_⟩
    · show (Function.update (s.genOptId service).callers service _ service').optId = _
      by_cases hs : service' = service
      · subst hs
        rw [Function.update_self, hid']
      · rw [Function.update_of_ne hs, hid']
    · rcases List.mem_append.mp he with he | he
      · exact hold' e he hservice
      · obtain rfl := List.mem_singleton.mp he
        obtain rfl : service = service' := hservice
        exact ⟨used', Nat.le_refl _, hid'⟩
  · intro e he
    show (Function.update (s.genOptId service).callers service _ e.service).callbacks.lookup _ = _
    rcases List.mem_append.mp he with he | he
    · by_cases hs : e.service = service
      · -- the number of an old request is another one
        obtain ⟨m, hm, hopt⟩ := hold e he hs
        have hne : e.optId ≠ ((s.genOptId service).callers service).optId := by
          rw [hopt, hnew]
          exact number_ne (Nat.lt_succ_of_le hm) (by omega)
        rw [hs, Function.update_self]
        show List.lookup _ (_ :: _) = _
        rw [List.lookup_cons, beq_eq_false_iff_ne.mpr hne]
        exact hs ▸ hgen.callbacks e he
      · rw [Function.update_of_ne hs]
        exact hgen.callbacks e he
    · obtain rfl := List.mem_singleton.mp he
      show (Function.update (s.genOptId service).callers service _ service).callbacks.lookup _ = _
      rw [Function.update_self]
      exact List.lookup_cons_self
  · exact h.once
  · intro call hcall
    obtain ⟨e, he, hrest⟩ := h.calls call hcall
    exact ⟨e, (List.getElem?_append_left (List.getElem?_eq_some_iff.mp he).1).trans he, hrest⟩

/-- A request may move on, unless its callback has run. -/
theorem Inv.move (h : Inv optIds n s) {request : Nat} {e e' : HttpExchange C} (he : s.exchanges[request]? = some e)
    (hsame : e'.service = e.service ∧ e'.optId = e.optId ∧ e'.callback = e.callback)
    (hcalled : request ∈ s.called.map (·.request) → e'.phase = .closed ∧ e'.answer = e.answer) :
    Inv optIds (n + 1) (s.move request e') := by
  obtain ⟨hservice, hoptId, hcallback⟩ := hsame
  have hmem := List.mem_of_getElem? he
  constructor
  · intro service
    obtain ⟨used, hle, hid, hold⟩ := h.numbers service
    refine ⟨used, Nat.le_succ_of_le hle, hid, fun d hd hs => ?_⟩
    rcases List.mem_or_eq_of_mem_set hd with hd | rfl
    · exact hold d hd hs
    · rw [hoptId]
      exact hold e hmem (hservice ▸ hs)
  · intro d hd
    rcases List.mem_or_eq_of_mem_set hd with hd | rfl
    · exact h.callbacks d hd
    · rw [hservice, hoptId, hcallback]
      exact h.callbacks e hmem
  · exact h.once
  · intro call hcall
    obtain ⟨d, hd, hclosed, hback, hanswer⟩ := h.calls call hcall
    by_cases hr : request = call.request
    · subst hr
      obtain rfl := Option.some.inj (he.symm.trans hd)
      obtain ⟨hphase, hans⟩ := hcalled (List.mem_map_of_mem hcall)
      exact ⟨e', List.getElem?_set_self (List.getElem?_eq_some_iff.mp he).1, hphase, hcallback.trans hback,
        hans.trans hanswer⟩
    · exact ⟨d, (List.getElem?_set_ne hr).trans hd, hclosed, hback, hanswer⟩

/-- A request whose callback has run is closed. -/
theorem Inv.closed (h : Inv optIds n s) {request : Nat} {e : HttpExchange C} (he : s.exchanges[request]? = some e)
    (hmem : request ∈ s.called.map (·.request)) : e.phase = .closed := by
  obtain ⟨call, hcall, rfl⟩ := List.mem_map.mp hmem
  obtain ⟨d, hd, hclosed, _⟩ := h.calls call hcall
  obtain rfl := Option.some.inj (he.symm.trans hd)
  exact hclosed

theorem step_inv {label : HttpLabel C} (h : Inv optIds n s) (hn : n + 1 < 2 ^ 64) (hstep : s.step label = some s') :
    Inv optIds (n + 1) s' := by
  cases label with
  | httpRequest service host url params usessl callback connected =>
      cases hstep
      exact h.httpRequest hn ..
  | genOptId service =>
      cases hstep
      exact h.genOptId service
  | startRequest request =>
      obtain ⟨e, he, hs⟩ := Option.bind_eq_some_iff.mp hstep
      obtain ⟨hphase, hs⟩ := Option.ite_none_right_eq_some.mp hs
      cases hs
      exact h.move he ⟨rfl, rfl, rfl⟩ fun hmem => absurd (hphase.symm.trans (h.closed he hmem)) (by decide)
  | answer request status result =>
      obtain ⟨e, he, hs⟩ := Option.bind_eq_some_iff.mp hstep
      obtain ⟨hphase, hs⟩ := Option.ite_none_right_eq_some.mp hs
      cases hs
      exact h.move he ⟨rfl, rfl, rfl⟩ fun hmem => absurd (hphase.symm.trans (h.closed he hmem)) (by decide)
  | onHttpResponse request =>
      obtain ⟨e, he, hs⟩ := Option.bind_eq_some_iff.mp hstep
      obtain ⟨⟨status, result⟩, hanswer, hs⟩ := Option.bind_eq_some_iff.mp hs
      obtain ⟨hphase, hs⟩ := Option.ite_none_right_eq_some.mp hs
      cases hs
      have hnot : request ∉ s.called.map (·.request) := fun hmem =>
        absurd (hphase.symm.trans (h.closed he hmem)) (by decide)
      -- the callback is the one that the request was made with
      rw [HttpCalls.onHttpResponse, h.callbacks e (List.mem_of_getElem? he)]
      have hmoved : Inv optIds (n + 1) (s.move request { e with phase := .closed }) :=
        h.move he ⟨rfl, rfl, rfl⟩ fun hmem => absurd hmem hnot
      refine ⟨hmoved.numbers, hmoved.callbacks, ?_, ?_⟩
      · show ((s.called ++ [_]).map _).Nodup
        rw [List.map_append]
        refine List.nodup_append.mpr ⟨h.once, List.pairwise_singleton _ _, fun k hk k' hk' => ?_⟩
        obtain rfl := List.mem_singleton.mp hk'
        exact ne_of_mem_of_not_mem hk hnot
      · intro call hcall
        rcases List.mem_append.mp hcall with hcall | hcall
        · exact hmoved.calls call hcall
        · obtain rfl := List.mem_singleton.mp hcall
          exact ⟨_, List.getElem?_set_self (List.getElem?_eq_some_iff.mp he).1, rfl, rfl, hanswer⟩
  | lose request =>
      obtain ⟨e, he, hs⟩ := Option.bind_eq_some_iff.mp hstep
      cases hs
      exact h.move he ⟨rfl, rfl, rfl⟩ fun _ => ⟨rfl, rfl⟩

theorem run_inv {labels : List (HttpLabel C)} (h : Inv optIds n s) (hlength : n + labels.length < 2 ^ 64)
    (hrun : run step s labels = some s') : Inv optIds (n + labels.length) s' := by
  induction labels generalizing n s with
  | nil =>
      cases hrun
      exact h
  | cons label labels ih =>
      obtain ⟨s₁, hstep, hrest⟩ := Option.bind_eq_some_iff.mp hrun
      rw [List.length_cons] at hlength ⊢
      rw [Nat.add_comm labels.length, ← Nat.add_assoc] at hlength ⊢
      exact ih (step_inv h (by omega) hstep) hlength hrest

/-- **Answers to http requests.** Services make requests and database operations, requests start, end, and get lost, in
    any order, with fewer than `2 ^ 64` steps in all: no request runs a callback twice, and each callback that has run is
    that of its request, with the status and the result that this request ended with. -/
theorem http_callbacks {labels : List (HttpLabel C)} (hlength : labels.length < 2 ^ 64)
    (hrun : run step (init optIds) labels = some s) :
    (s.called.map (·.request)).Nodup ∧
    ∀ call ∈ s.called, ∃ e, s.exchanges[call.request]? = some e ∧ e.callback = call.callback ∧
      e.answer = some (call.status, call.result) := by
  have h : Inv optIds (0 + labels.length) s := run_inv (init_inv optIds) (by omega) hrun
  refine ⟨h.once, fun call hcall => ?_⟩
  obtain ⟨e, he, _, hcallback, hanswer⟩ := h.calls call hcall
  exact ⟨e, he, hcallback, hanswer⟩

/-- Two requests of one service that end in the other order. -/
theorem http_callbacks_two : ∃ s : HttpCalls Nat, run step (init fun _ => 0)
      [.httpRequest 1 [] [] [] false 10 true, .httpRequest 1 [] [] [] false 11 true, .startRequest 0, .startRequest 1,
        .answer 1 200 [65], .answer 0 404 [66], .onHttpResponse 1, .onHttpResponse 0] = some s ∧
    (s.called.map fun call => (call.callback, call.status)) = [(11, 200), (10, 404)] ∧
    (s.called.map (·.request)).Nodup ∧
    ∀ call ∈ s.called, ∃ e, s.exchanges[call.request]? = some e ∧ e.callback = call.callback ∧
      e.answer = some (call.status, call.result) := by
  refine ⟨_, rfl, ?_, http_callbacks (by decide) (show run step (init fun _ => 0) [.httpRequest 1 [] [] [] false 10 true,
    .httpRequest 1 [] [] [] false 11 true, .startRequest 0, .startRequest 1, .answer 1 200 [65], .answer 0 404 [66],
    .onHttpResponse 1, .onHttpResponse 0] = some _ from rfl)⟩
  decide

end HttpCalls

end Mowang
