import Mowang.HttpClient.BodyDecoding
import Mowang.HttpClient.EtcdResponses
import Mowang.Share.DynamicObjects

/-!
# `HttpClient.HttpProxy` — one request of the http client

A proxy is made for one request. It starts one asynchronous operation at a time, and the handler of its completion
starts the next, or calls back. The request text is not modelled: no handler looks at it.

`m_response` collects what the reads bring. A read up to a delimiter brings what has arrived, so the handler of the
header sees a part of the body, and the body is looked for in the whole buffer once the stream has ended.

`none` is an access outside an allocation, or an exception in the handler of the body.

## Contents
- `Completion`, `Proxy`, `step`, `Possible`.
- `Completes` — the completions of one request, from its start on.
- `answer?`, what the end of the stream makes of a buffer, and `respond_spec`.
- `Ended`, `run_ended` — how a request ends.
-/

namespace Mowang

namespace HttpProxy

open Search HttpMessage

/-! ## The proxy -/

/-- The asynchronous operations; `resolve` of an `https_proxy` blocks. -/
inductive Operation
  | resolve | connect | handshake | write | readStatusLine | readHeader | readBody
deriving DecidableEq

/-- `boost::system::error_code`. -/
inductive ErrorCode
  | success | eof | other
deriving DecidableEq

/-- The completion of an operation, with what it added to `m_response`. -/
structure Completion where
  operation : Operation
  error : ErrorCode
  received : List UInt8
deriving DecidableEq

/-- A call of `m_callback`. -/
structure Call where
  status : Int
  header : List UInt8
  result : List UInt8
deriving DecidableEq

structure Proxy where
  usessl : Bool
  /-- The operation under way. -/
  awaits : Option Operation
  chucked : Bool
  response : List UInt8
  responseHeader : DynamicString
  responseBody : DynamicString
  calls : List Call

/-- An empty `dynamic_string`. -/
def emptyString (fresh : Nat → UInt8) : DynamicString := ⟨0, 64, ((List.range 64).map fresh).set 0 0⟩

/-- A new proxy, after `start_request`. -/
def init (fresh : Nat → UInt8) (usessl : Bool) : Proxy :=
  ⟨usessl, some .resolve, false, [], emptyString fresh, emptyString fresh, []⟩

namespace Proxy

/-- `m_callback`, after which nothing is started. -/
def callback (p : Proxy) (call : Call) : Proxy := { p with awaits := none, calls := p.calls ++ [call] }

/-- `m_callback(-1, "", ...)`. -/
def fail (p : Proxy) (error : Etcd.TransportError) : Proxy := p.callback ⟨-1, [], error.text⟩

/-- `handle_resolve` of `http_proxy`, which only logs an error; in `https_proxy` the error is thrown out of
    `start_request`. -/
def handleResolve (p : Proxy) (error : ErrorCode) : Proxy :=
  if error = .success then { p with awaits := some .connect } else { p with awaits := none }

/-- `write_request`. -/
def writeRequest (p : Proxy) : Proxy := { p with awaits := some .write }

/-- `bind_handshake` of the two classes. -/
def bindHandshake (p : Proxy) : Proxy := if p.usessl then { p with awaits := some .handshake } else p.writeRequest

def handleConnect (p : Proxy) (error : ErrorCode) : Proxy :=
  if error = .success then p.bindHandshake else p.fail .connect

def handleHandshake (p : Proxy) (error : ErrorCode) : Proxy :=
  if error = .success then p.writeRequest else p.fail .handshake

def handleWrite (p : Proxy) (error : ErrorCode) : Proxy :=
  if error = .success then { p with awaits := some .readStatusLine } else p.fail .write

end Proxy

/-- The status code that is taken from a stream, and what is left behind the line. The extractions skip blanks; each
    fails where the one before has come to the end. -/
def readStatusLine (response : List UInt8) : Option (Nat × List UInt8) :=
  let stream := response.dropWhile isSpace
  let httpVersion := stream.takeWhile fun c => !isSpace c
  let (negative, digits, stream) := scanNumber (stream.dropWhile fun c => !isSpace c)
  let v := digitsValue digits
  if digits = [] ∨ 2 ^ 32 ≤ v ∨ stream = [] ∨ httpVersion.take 5 ≠ ascii "HTTP/" then none
  else some (if negative then (2 ^ 32 - v) % 2 ^ 32 else v, (stream.dropWhile (· ≠ 10)).tail)

/-- The test for `chunked` in what has arrived with the header. -/
def isChucked (header : List UInt8) : Bool := 0 < toInt (find header (ascii "chunked") 0)

/-- The length and the offset of the part of `m_response` that is copied, where its first blank line is `found`. -/
def bodyPart (size found : Nat) : Nat × Nat :=
  let offset := toInt (found + 4)
  let len : Int := (size % 2 ^ 16 : Nat)
  if offset > 0 then (((len - offset) % 2 ^ 16).toNat, (offset % 2 ^ 16).toNat) else (len.toNat, 0)

namespace Proxy

def handleReadStatusLine (p : Proxy) (error : ErrorCode) : Proxy :=
  if error = .success then
    match readStatusLine p.response with
    | none                    => p.fail .invalidResponse
    | some (statusCode, rest) =>
      let p := { p with response := rest }
      -- no number is in both ranges
      if statusCode < 200 ∧ statusCode ≥ 300 then
        p.callback ⟨toInt statusCode, ascii "please check status code", ascii "status code is not in range [200, 300]"⟩
      else { p with awaits := some .readHeader }
  else p.fail .readStatusLine

variable (fresh : Nat → UInt8)

def handleReadHeaders (p : Proxy) (error : ErrorCode) : Option Proxy :=
  if error = .success then
    (p.responseHeader.appendIn fresh false (p.response ++ [0]) 0 0).map fun responseHeader =>
    { p with chucked := p.chucked || isChucked p.response, responseHeader, awaits := some .readBody }
  else some (p.fail .readHeaders)

/-- `result`, a `dynamic_string` of its own. -/
def result? (p : Proxy) : Option DynamicString :=
  if p.chucked then
    (DynamicString.strlen? p.responseBody.data).bind fun n =>
    (decode? (p.responseBody.data.take n)).bind fun tmp =>
    (emptyString fresh).appendIn fresh false (tmp ++ [0]) (tmp.length % 2 ^ 16) 0
  else p.responseBody.copyIn? fresh

/-- `handle_read_body` at the end of the stream. -/
def deliver? (p : Proxy) : Option Proxy :=
  let part := bodyPart p.response.length (find p.response blankLine 0)
  (p.responseBody.appendIn fresh false (p.response ++ [0]) part.1 part.2).bind fun responseBody =>
  let p := { p with responseBody }
  (p.result? fresh).map fun result => p.callback ⟨200, p.responseHeader.toList, result.toList⟩

def handleReadBody (p : Proxy) (error : ErrorCode) : Option Proxy :=
  if error = .success then some p else if error = .eof then p.deliver? fresh else some (p.fail .readContent)

end Proxy

section Steps

variable (fresh : Nat → UInt8)

/-- The completion of the operation under way. -/
def step (p : Proxy) (o : Completion) : Option Proxy :=
  let p := { p with response := p.response ++ o.received }
  match o.operation with
  | .resolve        => some (p.handleResolve o.error)
  | .connect        => some (p.handleConnect o.error)
  | .handshake      => some (p.handleHandshake o.error)
  | .write          => some (p.handleWrite o.error)
  | .readStatusLine => some (p.handleReadStatusLine o.error)
  | .readHeader     => p.handleReadHeaders fresh o.error
  | .readBody       => p.handleReadBody fresh o.error

/-- `async_read_until` reads while there is no delimiter in the buffer. -/
def ReadsUntil (delim response : List UInt8) (o : Completion) : Prop :=
  if o.error = .success then delim <:+: response ++ o.received ∧ (delim <:+: response → o.received = [])
  else ¬ delim <:+: response ++ o.received

/-- The operation under way can complete so. -/
def Possible (p : Proxy) (o : Completion) : Prop :=
  p.awaits = some o.operation ∧
    match o.operation with
    | .readStatusLine => ReadsUntil crlf p.response o
    | .readHeader     => ReadsUntil blankLine p.response o
    -- at least one byte is transferred
    | .readBody       => o.error = .success ↔ o.received ≠ []
    | _               => o.received = []

/-- The completions of a request up to its end. -/
def Completes (p : Proxy) : List Completion → Prop
  | []        => p.awaits = none
  | o :: outs =>
    Possible p o ∧
      match step fresh p o with
      | none    => outs = []
      | some p' => Completes p' outs

instance (delim response : List UInt8) (o : Completion) : Decidable (ReadsUntil delim response o) :=
  inferInstanceAs (Decidable (if o.error = .success then
    delim <:+: response ++ o.received ∧ (delim <:+: response → o.received = [])
    else ¬ delim <:+: response ++ o.received))

instance (p : Proxy) : ∀ o, Decidable (Possible p o)
  | ⟨.resolve, _, bytes⟩      => inferInstanceAs (Decidable (p.awaits = some .resolve ∧ bytes = []))
  | ⟨.connect, _, bytes⟩      => inferInstanceAs (Decidable (p.awaits = some .connect ∧ bytes = []))
  | ⟨.handshake, _, bytes⟩    => inferInstanceAs (Decidable (p.awaits = some .handshake ∧ bytes = []))
  | ⟨.write, _, bytes⟩        => inferInstanceAs (Decidable (p.awaits = some .write ∧ bytes = []))
  | ⟨.readStatusLine, e, bytes⟩ =>
    inferInstanceAs (Decidable
      (p.awaits = some .readStatusLine ∧ ReadsUntil crlf p.response ⟨.readStatusLine, e, bytes⟩))
  | ⟨.readHeader, e, bytes⟩ =>
    inferInstanceAs (Decidable (p.awaits = some .readHeader ∧ ReadsUntil blankLine p.response ⟨.readHeader, e, bytes⟩))
  | ⟨.readBody, e, bytes⟩ =>
    inferInstanceAs (Decidable (p.awaits = some .readBody ∧ (e = .success ↔ bytes ≠ [])))

instance instDecidableCompletes : ∀ p outs, Decidable (Completes fresh p outs)
  | p, []        => inferInstanceAs (Decidable (p.awaits = none))
  | p, o :: outs =>
    match h : step fresh p o with
    | none    => decidable_of_iff (Possible p o ∧ outs = []) (by simp [Completes, h])
    | some p' =>
      have : Decidable (Completes fresh p' outs) := instDecidableCompletes p' outs
      decidable_of_iff (Possible p o ∧ Completes fresh p' outs) (by simp [Completes, h])

end Steps

/-! ## The strings -/

section Strings

/-- What `append` copies into an empty string. -/
def appended? (data : List UInt8) (len offset : Nat) : Option (List UInt8) :=
  (if len = 0 then (DynamicString.strlen? data).map (· % 2 ^ 16) else some len).bind fun n =>
  if offset + n ≤ data.length ∧ n ≠ 65535 then some ((data.drop offset).take n) else none

/-- What is copied as the body. -/
def body? (response : List UInt8) : Option (List UInt8) :=
  let part := bodyPart response.length (find response blankLine 0)
  appended? (response ++ [0]) part.1 part.2

/-- What the copy becomes. -/
def decoded? (chucked : Bool) (body : List UInt8) : Option (List UInt8) :=
  if chucked then decode? (cstr body) else some body

/-- The header and the result that the callback gets at the end of a stream, of which `header` had arrived when the
    header was handled. -/
def answer? (header response : List UInt8) : Option (List UInt8 × List UInt8) :=
  (appended? (header ++ [0]) 0 0).bind fun responseHeader =>
  (body? response).bind fun body => (decoded? (isChucked header) body).map (responseHeader, ·)

variable {fresh : Nat → UInt8}

theorem emptyString_terminated : DynamicString.Terminated (emptyString fresh) [] := by
  refine ⟨⟨rfl, rfl, ?_, ?_, ?_⟩, ?_⟩
  · show (((List.range 64).map fresh).set 0 0).length = 64
    rw [List.length_set, List.length_map, List.length_range]
  · show 0 < 64
    decide
  · show 64 < 2 ^ 16
    decide
  · show (((List.range 64).map fresh).set 0 0)[0]? = some 0
    rw [List.getElem?_set_self (by rw [List.length_map, List.length_range]; decide)]

/-- An `append` of 65535 bytes makes an allocation of none. -/
theorem appendIn_full {data : List UInt8} {len offset : Nat}
    (hn : (if len = 0 then (DynamicString.strlen? data).map (· % 2 ^ 16) else some len) = some 65535) :
    (emptyString fresh).appendIn fresh false data len offset = none := by
  have hs : DynamicCells.Spare (emptyString fresh) [] := emptyString_terminated.toSpare
  have hgrown : (emptyString fresh).regrow? fresh ((0 + 65535 + 1) % 2 ^ 16) = some ⟨0, 0, []⟩ := by
    rw [DynamicCells.regrow?, hs.cells?_eq, Option.bind_some]
    rfl
  rw [DynamicString.appendIn, hn, Option.bind_some]
  show ((if ((65535 : Nat) : Int) ≥ (64 : Nat) - (0 : Nat) then _ else _) : Option DynamicString).bind _ = none
  rw [if_pos (by decide)]
  show ((emptyString fresh).regrow? fresh ((0 + 65535 + 1) % 2 ^ 16)).bind _ = none
  rw [hgrown, Option.bind_some]
  exact if_neg fun h => absurd h.2.2 (by show ¬ 0 + 65535 ≤ 0; decide)

/-- An `append` to an empty string. -/
theorem appendIn_emptyString (data : List UInt8) {len : Nat} (hlen : len < 2 ^ 16) (offset : Nat) :
    (appended? data len offset = none ∧ (emptyString fresh).appendIn fresh false data len offset = none) ∨
      ∃ bytes s, appended? data len offset = some bytes ∧
        (emptyString fresh).appendIn fresh false data len offset = some s ∧ DynamicString.Terminated s bytes := by
  rw [appended?]
  cases hn : (if len = 0 then (DynamicString.strlen? data).map (· % 2 ^ 16) else some len) with
  | none =>
      refine Or.inl ⟨rfl, ?_⟩
      rw [DynamicString.appendIn, hn]
      rfl
  | some n =>
      have hsmall : n < 2 ^ 16 := by
        split at hn
        · obtain ⟨k, _, rfl⟩ := Option.map_eq_some_iff.mp hn
          exact Nat.mod_lt _ (by decide)
        · cases hn
          exact hlen
      rw [Option.bind_some]
      by_cases hfull : n = 65535
      · rw [if_neg fun h => h.2 hfull]
        exact Or.inl ⟨rfl, appendIn_full (hn.trans (congrArg some hfull))⟩
      by_cases hread : offset + n ≤ data.length
      · rw [if_pos ⟨hread, hfull⟩]
        obtain ⟨s, hs, hterminated⟩ := @DynamicString.appendIn_terminated (emptyString fresh) [] fresh
          emptyString_terminated.toSpare data false len offset n hn hread (by show 0 + n < 65535; omega)
          fun h => absurd h Bool.false_ne_true
        exact Or.inr ⟨_, s, rfl, hs, hterminated⟩
      · rw [if_neg fun h => hread h.1]
        refine Or.inl ⟨rfl, ?_⟩
        rw [DynamicString.appendIn, hn, Option.bind_some]
        generalize (if ((n : Nat) : Int) ≥ _ then _ else _ : Option DynamicString) = grown
        cases grown with
        | none => rfl
        | some s => exact if_neg fun h => hread h.1

theorem strlen?_nul (s t : List UInt8) : DynamicString.strlen? (s ++ 0 :: t) = some (cstr s).length := by
  rw [DynamicString.strlen?, if_pos (by simp), cstr_append_cons_nul]

theorem bodyPart_lt (size found : Nat) : (bodyPart size found).1 < 2 ^ 16 := by
  rw [bodyPart]
  split
  · dsimp only
    omega
  · dsimp only
    omega

/-- A text of its own length is copied whole. -/
theorem appended?_whole {bytes : List UInt8} (h : bytes.length < 65535) :
    appended? (bytes ++ [0]) (bytes.length % 2 ^ 16) 0 = some bytes := by
  cases bytes with
  | nil => rfl
  | cons c bytes =>
      have hmod : (c :: bytes).length % 2 ^ 16 = (c :: bytes).length := Nat.mod_eq_of_lt (by omega)
      rw [appended?, hmod, if_neg (by simp), Option.bind_some, if_pos ⟨by simp, by omega⟩, List.drop_zero,
        List.take_left]

theorem appendIn_whole {bytes : List UInt8} (h : bytes.length < 65535) :
    ∃ s, (emptyString fresh).appendIn fresh false (bytes ++ [0]) (bytes.length % 2 ^ 16) 0 = some s ∧
      DynamicString.Terminated s bytes := by
  have hlt : bytes.length % 2 ^ 16 < 2 ^ 16 := Nat.mod_lt _ (by decide)
  rcases @appendIn_emptyString fresh (bytes ++ [0]) _ hlt 0 with ⟨hnone, _⟩ | ⟨bytes', s, hsome, hs, hterminated⟩
  · rw [appended?_whole h] at hnone
    cases hnone
  · rw [appended?_whole h] at hsome
    cases hsome
    exact ⟨s, hs, hterminated⟩

/-- What a string holds is shorter than its allocation. -/
theorem length_lt_of_terminated {s : DynamicString} {bytes : List UInt8} (h : DynamicString.Terminated s bytes) :
    bytes.length < 65535 := by
  have hlen := h.len
  have hspare := h.spare
  have hcap := h.cap
  omega

/-- The result of a body. -/
theorem result?_spec {p : Proxy} {body : List UInt8} (h : DynamicString.Terminated p.responseBody body) :
    ∃ s, p.result? fresh = some s ∧ decoded? p.chucked body = some s.toList := by
  have hshort := length_lt_of_terminated h
  rw [Proxy.result?, decoded?]
  cases p.chucked with
  | false =>
      obtain ⟨s, hs, hterminated⟩ := @DynamicString.copyIn?_terminated _ _ fresh h.toSpare
      exact ⟨s, hs, congrArg some hterminated.contents.symm⟩
  | true =>
      obtain ⟨rest, hdata⟩ := h.data_eq
      have hle := cstr_length_le body
      obtain ⟨out, hout, hbound⟩ := @decode?_spec (cstr body) (by omega)
      have htake : (body ++ 0 :: rest).take (cstr body).length = cstr body := by
        rw [← cstr_append_cons_nul body rest]
        exact (List.prefix_iff_eq_take.mp (List.takeWhile_prefix _)).symm
      have hsmall : out.length < 65535 := by
        rcases hbound with rfl | hbound
        · exact Nat.zero_lt_succ _
        · omega
      obtain ⟨s, hs, hterminated⟩ := @appendIn_whole fresh _ hsmall
      refine ⟨s, ?_, ?_⟩
      · rw [if_pos rfl, hdata, strlen?_nul, Option.bind_some, htake, hout, Option.bind_some]
        exact hs
      · rw [if_pos rfl, hout, hterminated.contents]

/-- The end of the stream: one call with the status 200, unless the copy leaves the buffer. -/
theorem deliver?_spec {p : Proxy} (hp : p.responseBody = emptyString fresh) :
    (p.deliver? fresh).map (fun p' => (p'.chucked, p'.calls)) =
      ((body? p.response).bind (decoded? p.chucked)).map fun result =>
        (p.chucked, p.calls ++ [⟨200, p.responseHeader.toList, result⟩]) := by
  have hlt := bodyPart_lt p.response.length (find p.response blankLine 0)
  rw [Proxy.deliver?, body?, hp]
  dsimp only
  rcases @appendIn_emptyString fresh (p.response ++ [0]) _ hlt
    (bodyPart p.response.length (find p.response blankLine 0)).2 with ⟨hnone, hs⟩ | ⟨body, s, hsome, hs, hterminated⟩
  · rw [hnone, hs]
    rfl
  · obtain ⟨result, hresult, hvalue⟩ := @result?_spec fresh { p with responseBody := s } body hterminated
    rw [hsome, Option.bind_some, show decoded? p.chucked body = some result.toList from hvalue, hs, Option.bind_some,
      hresult]
    rfl

/-- The proxy behind the status line. -/
def opened (fresh : Nat → UInt8) (usessl : Bool) (response : List UInt8) : Proxy :=
  { init fresh usessl with awaits := some .readHeader, response }

/-- The proxy at the end of a stream, of which `header` had arrived when the header was handled. -/
def respond (fresh : Nat → UInt8) (usessl : Bool) (header response : List UInt8) : Option Proxy :=
  ((opened fresh usessl header).handleReadHeaders fresh .success).bind fun p => Proxy.deliver? fresh { p with response }

theorem handleReadHeaders_eq {usessl : Bool} {header : List UInt8} {responseHeader : DynamicString}
    (hs : (emptyString fresh).appendIn fresh false (header ++ [0]) 0 0 = some responseHeader) :
    (opened fresh usessl header).handleReadHeaders fresh .success =
      some ⟨usessl, some .readBody, isChucked header, header, responseHeader, emptyString fresh, []⟩ := by
  have hmode : ((opened fresh usessl header).chucked || isChucked header) = isChucked header := Bool.false_or _
  rw [Proxy.handleReadHeaders, if_pos rfl,
    show (opened fresh usessl header).responseHeader.appendIn fresh false ((opened fresh usessl header).response ++ [0])
      0 0 = some responseHeader from hs, Option.map_some, show (opened fresh usessl header).response = header from rfl,
    hmode]
  rfl

/-- It has called back once, with the status 200. -/
theorem respond_spec (usessl : Bool) (header response : List UInt8) :
    (respond fresh usessl header response).map (fun p => (p.chucked, p.calls)) =
      (answer? header response).map fun (h, result) => (isChucked header, [⟨200, h, result⟩]) := by
  rw [answer?, respond]
  rcases @appendIn_emptyString fresh (header ++ [0]) 0 (by decide) 0 with
    ⟨hnone, hs⟩ | ⟨h, responseHeader, hsome, hs, hterminated⟩
  · rw [Proxy.handleReadHeaders, if_pos rfl, hnone,
      show (opened fresh usessl header).responseHeader.appendIn fresh false
        ((opened fresh usessl header).response ++ [0]) 0 0 = none from hs]
    rfl
  · rw [handleReadHeaders_eq hs, hsome, Option.bind_some, Option.bind_some, deliver?_spec rfl]
    dsimp only
    rw [hterminated.contents]
    rw [Option.map_bind, Option.map_bind]
    refine congrArg _ (funext fun body => ?_)
    rw [Function.comp_apply, Function.comp_apply, Option.map_map]
    rfl

end Strings

/-! ## Runs -/

section Runs

/-- What the completions of an operation brought. -/
def received (operation : Operation) (outs : List Completion) : List UInt8 :=
  (outs.filter (·.operation = operation)).flatMap (·.received)

def arrived (outs : List Completion) : List UInt8 := outs.flatMap (·.received)

/-- The status line is taken from what had arrived when it was complete. -/
def statusLine? (outs : List Completion) : Option (Nat × List UInt8) := readStatusLine (received .readStatusLine outs)

/-- The buffer when the header is handled. -/
def headerBuffer (outs : List Completion) : List UInt8 :=
  ((statusLine? outs).map Prod.snd).getD [] ++ received .readHeader outs

/-- The buffer at the end of the stream. -/
def responseBuffer (outs : List Completion) : List UInt8 := headerBuffer outs ++ received .readBody outs

/-- A failure of the transport; the end of the stream is one before the body. -/
def Completion.Failed (o : Completion) : Prop :=
  o.error ≠ .success ∧ ¬ (o.operation = .readBody ∧ o.error = .eof)

instance (o : Completion) : Decidable o.Failed := inferInstanceAs (Decidable (_ ∧ _))

/-- What the failure of an operation calls back. -/
def failureCalls : Operation → List Call
  | .resolve        => []
  | .connect        => [⟨-1, [], Etcd.TransportError.connect.text⟩]
  | .handshake      => [⟨-1, [], Etcd.TransportError.handshake.text⟩]
  | .write          => [⟨-1, [], Etcd.TransportError.write.text⟩]
  | .readStatusLine => [⟨-1, [], Etcd.TransportError.readStatusLine.text⟩]
  | .readHeader     => [⟨-1, [], Etcd.TransportError.readHeaders.text⟩]
  | .readBody       => [⟨-1, [], Etcd.TransportError.readContent.text⟩]

variable (fresh : Nat → UInt8) (usessl : Bool)

/-- Where a request stands after completions that all succeeded. -/
inductive Stage (outs : List Completion) : Proxy → Prop
  | opening {operation : Operation} (hearly : operation ≠ .readHeader ∧ operation ≠ .readBody)
      (hnone : ∀ operation, received operation outs = []) :
      Stage outs { init fresh usessl with awaits := some operation }
  | header {code : Nat} {rest : List UInt8} (hline : statusLine? outs = some (code, rest))
      (hfound : crlf <:+: received .readStatusLine outs) (hheader : received .readHeader outs = [])
      (hbody : received .readBody outs = []) : Stage outs (opened fresh usessl rest)
  | body {code : Nat} {rest : List UInt8} {p : Proxy} (hline : statusLine? outs = some (code, rest))
      (hfound : crlf <:+: received .readStatusLine outs) (hblank : blankLine <:+: headerBuffer outs)
      (hp : (opened fresh usessl (headerBuffer outs)).handleReadHeaders fresh .success = some p) :
      Stage outs { p with response := responseBuffer outs }

structure Inv (outs : List Completion) (p : Proxy) : Prop where
  success : ∀ o ∈ outs, o.error = .success
  ordered : arrived outs = received .readStatusLine outs ++ received .readHeader outs ++ received .readBody outs
  stage : Stage fresh usessl outs p

/-- How a request ends. -/
inductive Ended (outs : List Completion) : Option Proxy → Prop
  | failed {front : List Completion} {o : Completion} {p : Proxy} (hlast : outs = front ++ [o])
      (hfront : ∀ o ∈ front, o.error = .success) (hfailed : o.Failed) (hcalls : p.calls = failureCalls o.operation)
      (hstatus : o.operation = .readStatusLine → ¬ crlf <:+: arrived outs)
      (hheader : o.operation = .readHeader → crlf <:+: received .readStatusLine outs ∧
        arrived outs = received .readStatusLine outs ++ received .readHeader outs ∧
        ¬ blankLine <:+: headerBuffer outs) : Ended outs (some p)
  | invalid {p : Proxy} (hall : ∀ o ∈ outs, o.error = .success) (hline : statusLine? outs = none)
      (hfound : crlf <:+: received .readStatusLine outs) (harrived : arrived outs = received .readStatusLine outs)
      (hcalls : p.calls = [⟨-1, [], Etcd.TransportError.invalidResponse.text⟩]) : Ended outs (some p)
  | responded {code : Nat} {rest : List UInt8} (hall : ∀ o ∈ outs, ¬ o.Failed)
      (hline : statusLine? outs = some (code, rest)) (hfound : crlf <:+: received .readStatusLine outs)
      (hblank : blankLine <:+: headerBuffer outs)
      (hordered : arrived outs =
        received .readStatusLine outs ++ received .readHeader outs ++ received .readBody outs)
      (hlast : (opened fresh usessl (headerBuffer outs)).handleReadHeaders fresh .success = none ∨
        ∃ o ∈ outs, o.error = .eof) :
      Ended outs (respond fresh usessl (headerBuffer outs) (responseBuffer outs))

variable {fresh usessl} {outs : List Completion} {p : Proxy} {o : Completion}

theorem received_snoc {operation : Operation} (h : o.operation = operation) :
    received operation (outs ++ [o]) = received operation outs ++ o.received := by
  rw [received, received, List.filter_append, List.flatMap_append, List.filter_singleton]
  simp [h]

theorem received_snoc_of_ne {operation : Operation} (h : o.operation ≠ operation) :
    received operation (outs ++ [o]) = received operation outs := by
  rw [received, received, List.filter_append, List.flatMap_append, List.filter_singleton]
  simp [h]

theorem arrived_snoc : arrived (outs ++ [o]) = arrived outs ++ o.received := by
  simp [arrived]

theorem forall_snoc {P : Completion → Prop} (houts : ∀ o ∈ outs, P o) (ho : P o) : ∀ o' ∈ outs ++ [o], P o' := by
  intro o' ho'
  rcases List.mem_append.mp ho' with h | h
  · exact houts o' h
  · rw [List.mem_singleton.mp h]
    exact ho

theorem init_inv : Inv fresh usessl [] (init fresh usessl) :=
  ⟨nofun, rfl, .opening ⟨nofun, nofun⟩ fun _ => rfl⟩

variable (fresh usessl) in
/-- The request goes on, or it has ended. -/
def Steps (outs : List Completion) (result : Option Proxy) : Prop :=
  (∃ p, result = some p ∧ Inv fresh usessl outs p) ∨
    (∀ p, result = some p → p.awaits = none) ∧ Ended fresh usessl outs result

theorem arrived_eq_nil (hordered : arrived outs =
    received .readStatusLine outs ++ received .readHeader outs ++ received .readBody outs)
    (hnone : ∀ operation, received operation outs = []) : arrived outs = [] := by
  rw [hordered, hnone, hnone, hnone]
  rfl

/-- An operation before the reads. -/
theorem steps_opening {result : Option Proxy} (next : Operation) (hall : ∀ o ∈ outs, o.error = .success)
    (hordered : arrived outs = received .readStatusLine outs ++ received .readHeader outs ++ received .readBody outs)
    (hnone : ∀ operation, received operation outs = []) (hbytes : o.received = [])
    (hop : o.operation ≠ .readStatusLine ∧ o.operation ≠ .readHeader ∧ o.operation ≠ .readBody)
    (hnext : next ≠ .readHeader ∧ next ≠ .readBody)
    (hcontinues : o.error = .success → result = some { init fresh usessl with awaits := some next })
    (hfails : o.error ≠ .success → ∃ p, result = some p ∧ p.awaits = none ∧ p.calls = failureCalls o.operation) :
    Steps fresh usessl (outs ++ [o]) result := by
  by_cases herror : o.error = .success
  · have hnone' : ∀ operation, received operation (outs ++ [o]) = [] := by
      intro operation
      by_cases heq : o.operation = operation
      · rw [received_snoc heq, hnone, hbytes]
        rfl
      · rw [received_snoc_of_ne heq, hnone]
    refine Or.inl ⟨_, hcontinues herror, forall_snoc hall herror, ?_, .opening hnext hnone'⟩
    rw [arrived_snoc, arrived_eq_nil hordered hnone, hbytes, hnone', hnone', hnone']
    rfl
  · obtain ⟨p, rfl, hawaits, hcalls⟩ := hfails herror
    refine Or.inr ⟨fun q hq => ?_, .failed rfl hall ⟨herror, fun h => hop.2.2 h.1⟩ hcalls (fun h => absurd h hop.1)
      fun h => absurd h hop.2.1⟩
    cases hq
    exact hawaits

/-- The read of the status line. -/
theorem steps_statusLine (hop : o.operation = .readStatusLine) (hall : ∀ o ∈ outs, o.error = .success)
    (hordered : arrived outs = received .readStatusLine outs ++ received .readHeader outs ++ received .readBody outs)
    (hnone : ∀ operation, received operation outs = []) (hreads : ReadsUntil crlf [] o) :
    Steps fresh usessl (outs ++ [o])
      (some (({ init fresh usessl with awaits := some .readStatusLine, response := o.received } :
        Proxy).handleReadStatusLine o.error)) := by
  have hline : received .readStatusLine (outs ++ [o]) = o.received := by
    rw [received_snoc hop, hnone]
    rfl
  have hnone' : ∀ operation, o.operation ≠ operation → received operation (outs ++ [o]) = [] := by
    intro operation hne
    rw [received_snoc_of_ne hne, hnone]
  have harrived : arrived (outs ++ [o]) = received .readStatusLine (outs ++ [o]) := by
    rw [arrived_snoc, arrived_eq_nil hordered hnone, hline]
    rfl
  rw [ReadsUntil] at hreads
  by_cases herror : o.error = .success
  · rw [if_pos herror] at hreads
    have hfound : crlf <:+: received .readStatusLine (outs ++ [o]) := by
      rw [hline]
      exact hreads.1
    rw [Proxy.handleReadStatusLine, if_pos herror]
    cases hread : readStatusLine o.received with
    | none =>
        refine Or.inr ⟨fun q hq => ?_, .invalid (forall_snoc hall herror) ?_ hfound harrived rfl⟩
        · cases hq
          rfl
        · rw [statusLine?, hline, hread]
    | some found =>
        obtain ⟨code, rest⟩ := found
        have hline' : statusLine? (outs ++ [o]) = some (code, rest) := by rw [statusLine?, hline, hread]
        have hheader := hnone' .readHeader (by rw [hop]; nofun)
        have hbody := hnone' .readBody (by rw [hop]; nofun)
        refine Or.inl ⟨opened fresh usessl rest, congrArg some (if_neg (by omega)), forall_snoc hall herror, ?_,
          .header hline' hfound hheader hbody⟩
        rw [harrived, hheader, hbody, List.append_nil, List.append_nil]
  · rw [if_neg herror] at hreads
    rw [Proxy.handleReadStatusLine, if_neg herror]
    refine Or.inr ⟨fun q hq => ?_, .failed rfl hall ⟨herror, fun h => ?_⟩ ?_ (fun _ => ?_) fun h => ?_⟩
    · cases hq
      rfl
    · rw [hop] at h
      cases h.1
    · rw [hop]
      rfl
    · rw [harrived, hline]
      exact hreads
    · rw [hop] at h
      cases h

/-- What the handler of the header leaves as it is. -/
theorem handleReadHeaders_some {header : List UInt8}
    (hp : (opened fresh usessl header).handleReadHeaders fresh .success = some p) :
    p.awaits = some .readBody ∧ p.response = header ∧ p.calls = [] := by
  rw [Proxy.handleReadHeaders, if_pos rfl, Option.map_eq_some_iff] at hp
  obtain ⟨_, _, rfl⟩ := hp
  exact ⟨rfl, rfl, rfl⟩

/-- The read of the header. -/
theorem steps_header {code : Nat} {rest : List UInt8} (hop : o.operation = .readHeader)
    (hall : ∀ o ∈ outs, o.error = .success)
    (hordered : arrived outs = received .readStatusLine outs ++ received .readHeader outs ++ received .readBody outs)
    (hline : statusLine? outs = some (code, rest)) (hfound : crlf <:+: received .readStatusLine outs)
    (hheader : received .readHeader outs = []) (hbody : received .readBody outs = [])
    (hreads : ReadsUntil blankLine rest o) :
    Steps fresh usessl (outs ++ [o]) ((opened fresh usessl (rest ++ o.received)).handleReadHeaders fresh o.error) := by
  have hstatus : received .readStatusLine (outs ++ [o]) = received .readStatusLine outs :=
    received_snoc_of_ne (by rw [hop]; nofun)
  have hheader' : received .readHeader (outs ++ [o]) = o.received := by
    rw [received_snoc hop, hheader, List.nil_append]
  have hbody' : received .readBody (outs ++ [o]) = [] := by
    rw [received_snoc_of_ne (by rw [hop]; nofun), hbody]
  have hline' : statusLine? (outs ++ [o]) = some (code, rest) := by rw [statusLine?, hstatus, ← statusLine?, hline]
  have hfound' : crlf <:+: received .readStatusLine (outs ++ [o]) := by
    rw [hstatus]
    exact hfound
  have hbuffer : headerBuffer (outs ++ [o]) = rest ++ o.received := by
    rw [headerBuffer, hline', hheader']
    rfl
  have harrived : arrived (outs ++ [o]) =
      received .readStatusLine (outs ++ [o]) ++ received .readHeader (outs ++ [o]) := by
    rw [arrived_snoc, hordered, hheader, hbody, List.append_nil, List.append_nil, hstatus, hheader']
  have hordered' : arrived (outs ++ [o]) = received .readStatusLine (outs ++ [o]) ++
      received .readHeader (outs ++ [o]) ++ received .readBody (outs ++ [o]) := by
    rw [harrived, hbody', List.append_nil]
  rw [ReadsUntil] at hreads
  by_cases herror : o.error = .success
  · rw [if_pos herror] at hreads
    rw [herror]
    have hblank : blankLine <:+: headerBuffer (outs ++ [o]) := by
      rw [hbuffer]
      exact hreads.1
    cases hp : (opened fresh usessl (rest ++ o.received)).handleReadHeaders fresh .success with
    | none =>
        -- the copy of the header leaves the buffer
        have hrespond : respond fresh usessl (headerBuffer (outs ++ [o])) (responseBuffer (outs ++ [o])) = none := by
          rw [respond, hbuffer, hp]
          rfl
        have hended : Ended fresh usessl (outs ++ [o])
            (respond fresh usessl (headerBuffer (outs ++ [o])) (responseBuffer (outs ++ [o]))) :=
          .responded (forall_snoc (fun o ho h => h.1 (hall o ho)) fun h => h.1 herror) hline' hfound' hblank hordered'
            (Or.inl (by rw [hbuffer]; exact hp))
        rw [hrespond] at hended
        exact Or.inr ⟨nofun, hended⟩
    | some q =>
        have hwhole : responseBuffer (outs ++ [o]) = q.response := by
          rw [responseBuffer, hbuffer, hbody', List.append_nil, (handleReadHeaders_some hp).2.1]
        have hstage := @Stage.body fresh usessl (outs ++ [o]) code rest q hline' hfound' hblank
          (by rw [hbuffer]; exact hp)
        rw [hwhole] at hstage
        exact Or.inl ⟨q, rfl, forall_snoc hall herror, hordered', hstage⟩
  · rw [if_neg herror] at hreads
    rw [Proxy.handleReadHeaders, if_neg herror]
    refine Or.inr ⟨fun q hq => ?_, .failed rfl hall ⟨herror, fun h => ?_⟩ ?_ (fun h => ?_) fun _ =>
      ⟨hfound', harrived, ?_⟩⟩
    · cases hq
      rfl
    · rw [hop] at h
      cases h.1
    · rw [hop]
      rfl
    · rw [hop] at h
      cases h
    · rw [hbuffer]
      exact hreads

/-- A read of the body. -/
theorem steps_body {code : Nat} {rest : List UInt8} (hop : o.operation = .readBody)
    (hall : ∀ o ∈ outs, o.error = .success)
    (hordered : arrived outs = received .readStatusLine outs ++ received .readHeader outs ++ received .readBody outs)
    (hline : statusLine? outs = some (code, rest)) (hfound : crlf <:+: received .readStatusLine outs)
    (hblank : blankLine <:+: headerBuffer outs)
    (hp : (opened fresh usessl (headerBuffer outs)).handleReadHeaders fresh .success = some p) :
    Steps fresh usessl (outs ++ [o])
      (Proxy.handleReadBody fresh { p with response := responseBuffer outs ++ o.received } o.error) := by
  have hstatus : received .readStatusLine (outs ++ [o]) = received .readStatusLine outs :=
    received_snoc_of_ne (by rw [hop]; nofun)
  have hheader : received .readHeader (outs ++ [o]) = received .readHeader outs :=
    received_snoc_of_ne (by rw [hop]; nofun)
  have hbody : received .readBody (outs ++ [o]) = received .readBody outs ++ o.received := received_snoc hop
  have hline' : statusLine? (outs ++ [o]) = some (code, rest) := by rw [statusLine?, hstatus, ← statusLine?, hline]
  have hfound' : crlf <:+: received .readStatusLine (outs ++ [o]) := by
    rw [hstatus]
    exact hfound
  have hbuffer : headerBuffer (outs ++ [o]) = headerBuffer outs := by
    rw [headerBuffer, hline', hheader, headerBuffer, hline]
  have hwhole : responseBuffer (outs ++ [o]) = responseBuffer outs ++ o.received := by
    rw [responseBuffer, hbuffer, hbody, ← List.append_assoc, responseBuffer]
  have hordered' : arrived (outs ++ [o]) = received .readStatusLine (outs ++ [o]) ++
      received .readHeader (outs ++ [o]) ++ received .readBody (outs ++ [o]) := by
    rw [arrived_snoc, hordered, hstatus, hheader, hbody, List.append_assoc]
  have hblank' : blankLine <:+: headerBuffer (outs ++ [o]) := by
    rw [hbuffer]
    exact hblank
  have hp' : (opened fresh usessl (headerBuffer (outs ++ [o]))).handleReadHeaders fresh .success = some p := by
    rw [hbuffer]
    exact hp
  rw [Proxy.handleReadBody]
  cases herror : o.error with
  | success =>
      refine Or.inl ⟨_, if_pos rfl, forall_snoc hall herror, hordered', ?_⟩
      rw [← hwhole]
      exact .body hline' hfound' hblank' hp'
  -- the peer has closed: what has come is the response
  | eof =>
      have hrespond : respond fresh usessl (headerBuffer (outs ++ [o])) (responseBuffer (outs ++ [o])) =
          Proxy.deliver? fresh { p with response := responseBuffer outs ++ o.received } := by
        rw [respond, hp', Option.bind_some, hwhole]
      have hended : Ended fresh usessl (outs ++ [o])
          (respond fresh usessl (headerBuffer (outs ++ [o])) (responseBuffer (outs ++ [o]))) :=
        .responded (forall_snoc (fun o ho h => h.1 (hall o ho)) fun h => h.2 ⟨hop, herror⟩) hline' hfound' hblank'
          hordered' (Or.inr ⟨o, List.mem_append_right _ List.mem_cons_self, herror⟩)
      rw [hrespond] at hended
      rw [if_neg nofun, if_pos rfl]
      refine Or.inr ⟨fun q hq => ?_, hended⟩
      rw [Proxy.deliver?] at hq
      obtain ⟨_, _, hq⟩ := Option.bind_eq_some_iff.mp hq
      obtain ⟨_, _, rfl⟩ := Option.map_eq_some_iff.mp hq
      rfl
  -- any other error fails the request
  | other =>
      have hfailed : o.Failed := by
        rw [Completion.Failed, herror]
        exact ⟨nofun, fun h => nomatch h.2⟩
      rw [if_neg nofun, if_neg nofun]
      refine Or.inr ⟨fun q hq => ?_, .failed rfl hall hfailed ?_ (fun h => ?_) fun h => ?_⟩
      · cases hq
        rfl
      · rw [hop]
        show p.calls ++ _ = _
        rw [(handleReadHeaders_some hp).2.2]
        rfl
      · rw [hop] at h
        cases h
      · rw [hop] at h
        cases h

/-- **One completion.** -/
theorem step_steps (h : Inv fresh usessl outs p) (ho : Possible p o) :
    Steps fresh usessl (outs ++ [o]) (step fresh p o) := by
  obtain ⟨hall, hordered, hstage⟩ := h
  obtain ⟨operation, error, bytes⟩ := o
  obtain ⟨hawaits, hpossible⟩ := ho
  cases hstage with
  | opening hearly hnone =>
      cases hawaits
      cases operation with
      | resolve =>
          dsimp only at hpossible
          subst hpossible
          refine steps_opening .connect hall hordered hnone rfl ⟨nofun, nofun, nofun⟩ ⟨nofun, nofun⟩ ?_ ?_
          · rintro rfl
            rfl
          · intro herror
            exact ⟨_, congrArg some (if_neg herror), rfl, rfl⟩
      | connect =>
          dsimp only at hpossible
          subst hpossible
          refine steps_opening (if usessl then .handshake else .write) hall hordered hnone rfl
            ⟨nofun, nofun, nofun⟩ (by cases usessl <;> exact ⟨nofun, nofun⟩) ?_ ?_
          · rintro rfl
            cases usessl <;> rfl
          · intro herror
            exact ⟨_, congrArg some (if_neg herror), rfl, rfl⟩
      | handshake =>
          dsimp only at hpossible
          subst hpossible
          refine steps_opening .write hall hordered hnone rfl ⟨nofun, nofun, nofun⟩ ⟨nofun, nofun⟩ ?_ ?_
          · rintro rfl
            rfl
          · intro herror
            exact ⟨_, congrArg some (if_neg herror), rfl, rfl⟩
      | write =>
          dsimp only at hpossible
          subst hpossible
          refine steps_opening .readStatusLine hall hordered hnone rfl ⟨nofun, nofun, nofun⟩ ⟨nofun, nofun⟩
            ?_ ?_
          · rintro rfl
            rfl
          · intro herror
            exact ⟨_, congrArg some (if_neg herror), rfl, rfl⟩
      | readStatusLine => exact steps_statusLine rfl hall hordered hnone hpossible
      | readHeader => exact absurd rfl hearly.1
      | readBody => exact absurd rfl hearly.2
  | header hline hfound hheader hbody =>
      cases hawaits
      exact steps_header rfl hall hordered hline hfound hheader hbody hpossible
  | @body code rest q hline hfound hblank hp =>
      cases (handleReadHeaders_some hp).1.symm.trans hawaits
      exact @steps_body fresh usessl outs q ⟨.readBody, error, bytes⟩ code rest rfl hall hordered hline hfound hblank hp

theorem Stage.awaits_ne (h : Stage fresh usessl outs p) : p.awaits ≠ none := by
  cases h with
  | opening => nofun
  | header => nofun
  | body hline hfound hblank hp =>
      show Proxy.awaits _ ≠ none
      rw [(handleReadHeaders_some hp).1]
      nofun

/-- Nothing completes where nothing is under way. -/
theorem Completes.eq_nil {more : List Completion} (h : Completes fresh p more) (hp : p.awaits = none) : more = [] := by
  cases more with
  | nil => rfl
  | cons o more =>
      have hawaits := h.1.1
      rw [hp] at hawaits
      cases hawaits

/-- From any stage on, a request ends so. -/
theorem run_ended_of {more : List Completion} (h : Inv fresh usessl outs p) (hmore : Completes fresh p more) :
    Ended fresh usessl (outs ++ more) (run (step fresh) p more) := by
  induction more generalizing outs p with
  | nil => exact absurd hmore h.stage.awaits_ne
  | cons o more ih =>
      obtain ⟨hpossible, hrest⟩ := hmore
      show Ended fresh usessl _ ((step fresh p o).bind _)
      rcases step_steps h hpossible with ⟨p', hstep, hinv⟩ | ⟨hnone, hended⟩
      · rw [hstep] at hrest ⊢
        rw [Option.bind_some, List.append_cons]
        exact ih hinv hrest
      · cases hstep : step fresh p o with
        | none =>
            rw [hstep] at hrest hended
            rw [show more = [] from hrest]
            exact hended
        | some p' =>
            rw [hstep] at hrest hended
            rw [Completes.eq_nil hrest (hnone p' hstep)]
            exact hended

/-- **Every request** fails, gets an invalid status line, or comes to the end of the stream. -/
theorem run_ended (h : Completes fresh (init fresh usessl) outs) :
    Ended fresh usessl outs (run (step fresh) (init fresh usessl) outs) :=
  run_ended_of init_inv h

end Runs

end HttpProxy

end Mowang
