import Mowang.HttpClient.HttpBodies
import Mowang.HttpClient.RequestText
import Mowang.HttpServer.Connections

/-!
# `HttpServer.Fetch` — the http client and the http server together

The client sends a request, the server answers it, and the client hands on what it has read. The callback gets the
content of the reply, and the status 200 also where the reply has another one.

## Contents
- `answers_of_request` — the reply to the request of a client.
- `isChucked_described`, `reply_received` — what the client makes of a reply.
- `fetch_spec`.
-/

namespace Mowang

namespace HttpServer

open Recognizer RequestParser RequestHandler HttpMessage Search

/-! ## The reply to a client -/

section Server

variable {docRoot : List UInt8} {status : StatusType} {files : List UInt8 → Option (List UInt8)}
  {received : List UInt8} {reply : Reply}

/-- However much of the body has arrived, the reply is that of the request. -/
theorem answers_of_request (r : HttpProxy.ClientRequest) (h : received <+: r.message.bytes ++ cstr r.body)
    (hanswers : Answers docRoot status (fun open? => open? = files) received reply) :
    reply = handleRequest docRoot files r.request (initReply status) := by
  rcases hanswers with ⟨m, rest, open?, rfl, rfl, hreply⟩ | ⟨hbad, _⟩
  · obtain ⟨more, hmore⟩ := h
    rw [List.append_assoc] at hmore
    have hsame := (Accepts.unique (m.accepts 0 0) (r.message.accepts 0 0) hmore).2.1
    rw [hreply, ← r.message_request]
    exact congrArg (fun p => handleRequest docRoot open? p.req (initReply status)) hsame
  · obtain ⟨hnot, hnot'⟩ := hbad r.message
    rcases List.prefix_or_prefix_of_prefix h (List.prefix_append r.message.bytes (cstr r.body)) with hpre | hpre
    · exact absurd hpre hnot'
    · exact absurd hpre hnot

end Server

/-! ## The reply at the client -/

section Client

open HttpProxy

variable {fresh : Nat → UInt8} {usessl : Bool} {outs : List Completion} {rep : Reply}

/-- The fields of a reply have no small `c`. -/
theorem c_notMem_block (n : Nat) {type : List UInt8} (htype : type ∈ contentTypes) :
    (99 : UInt8) ∉ block [lengthLine n, typeLine type htype] := by
  have hname : (99 : UInt8) ∉ ascii "Content-Length: " := by decide
  have hlines : ∀ type ∈ contentTypes, (99 : UInt8) ∉ crlf ++ (ascii "Content-Type: " ++ type ++ crlf ++ crlf) := by
    decide
  intro hmem
  have hblock : block [lengthLine n, typeLine type htype] =
      ascii "Content-Length: " ++ (decimal n ++ (crlf ++ (ascii "Content-Type: " ++ type ++ crlf ++ crlf))) := by
    simp only [block, lengthLine, typeLine, List.flatMap_cons, List.flatMap_nil, List.append_assoc, List.append_nil]
  rw [hblock] at hmem
  rcases List.mem_append.mp hmem with h | h
  · exact hname h
  · rcases List.mem_append.mp h with h | h
    · exact absurd (mem_decimal h).2 (by decide)
    · exact hlines type htype h

/-- A reply is not taken for a chunked one, unless its content has the word. -/
theorem isChucked_described {header early : List UInt8} (hc : (99 : UInt8) ∉ header)
    (hearly : ¬ ascii "chunked" <:+: early) : isChucked (header ++ early) = false := by
  have hnone : find? (ascii "chunked") (header ++ early) = none := by
    have hleft := @find?_append_left _ _ (ascii "hunked") header 99 hc early
    refine hleft.trans ?_
    rw [Option.map_eq_none_iff]
    exact find?_eq_none_iff.mpr hearly
  rw [isChucked, find_zero, hnone]
  decide

/-- **The client hands on the content** of a reply that fits its buffers. -/
theorem reply_received (hrep : rep.Described) (hpos : 0 < rep.content.length) (hshort : rep.written.length < 65535)
    (hplain : ¬ ascii "chunked" <:+: rep.content) (h : Serves fresh (HttpProxy.init fresh usessl) rep.written outs) :
    ∃ p call, run (HttpProxy.step fresh) (HttpProxy.init fresh usessl) outs = some p ∧ p.calls = [call] ∧
      call.status = 200 ∧ call.result = rep.content := by
  obtain ⟨type, htype, hheaders⟩ := hrep
  have hwritten := Reply.written_eq htype hheaders
  rw [hwritten] at h hshort
  simp only [List.length_append] at hshort
  have hends : Ends blankLine (block [lengthLine rep.content.length, typeLine type htype]) :=
    block_ends (List.cons_ne_nil _ _)
  rcases served _ h with ⟨hblank, _⟩ | ⟨hblank, hpre, _, hrun⟩
  · exact absurd (blankLine_found hends rep.content) hblank
  obtain ⟨early, hearly⟩ := headerBuffer_eq hends hblank hpre
  have hbegins : early <+: rep.content := by
    rw [hearly] at hpre
    exact (List.prefix_append_right_inj _).mp hpre
  have hmode := isChucked_described (c_notMem_block rep.content.length htype)
    (fun hpart => hplain (hpart.trans hbegins.isInfix))
  have hle : (headerBuffer outs).length < 65535 := by
    have hle := hpre.length_le
    rw [List.length_append] at hle
    omega
  have hstrlen : strlen16 (headerBuffer outs) ≠ 65535 := by
    have hle' := strlen16_le (headerBuffer outs)
    omega
  obtain ⟨p, call, hp, hcalls, hcall⟩ := (@respond_iff fresh usessl (headerBuffer outs)
    (block [lengthLine rep.content.length, typeLine type htype] ++ rep.content)
    fun status result _ => status = 200 ∧ result = rep.content).mpr
      ⟨hstrlen, rep.content, rep.content, body?_located hends (by omega) hpos (by omega),
        by rw [hearly, hmode]; rfl, rfl, rfl⟩
  exact ⟨p, call, hrun.trans hp, hcalls, hcall⟩

end Client

/-! ## Both -/

section Both

open HttpProxy (Completion Serves ClientRequest inOneRead)

variable {docRoot : List UInt8} {major minor : Int} {status : StatusType} {files : List UInt8 → Option (List UInt8)}
  {fresh : Nat → UInt8} {usessl : Bool} {outs : List Completion} {s : Server} {i : Nat} {c : Connection}

/-- **Fetching a file.** The text of a client comes to a connection of the server in any pieces, next to any other
    connections, and the answer comes back to the client in any pieces: where nothing fails, the callback gets the
    content of the reply to the request. Where the path leads to a file, that is the file. -/
theorem fetch_spec (r : ClientRequest) {text : List UInt8} (htext : r.text? = some text)
    (hfits : r.requestLine.length ≤ 2046) {events : List Event} (hsees : ∀ e ∈ events, e.Sees (· = files))
    (hrun : run (step docRoot major minor status) init events = some s) (hc : s.connections[i]? = some c)
    (hreceived : c.received <+: text) (hdone : c.pending = none) (hok : c.failed = false)
    (hpos : 0 < (handleRequest docRoot files r.request (initReply status)).content.length)
    (hshort : (handleRequest docRoot files r.request (initReply status)).written.length < 65535)
    (hplain : ¬ ascii "chunked" <:+: (handleRequest docRoot files r.request (initReply status)).content)
    (hserves : Serves fresh (HttpProxy.init fresh usessl) c.sent outs) :
    ∃ p call, run (HttpProxy.step fresh) (HttpProxy.init fresh usessl) outs = some p ∧ p.calls = [call] ∧
      call.status = 200 ∧
      call.result = (handleRequest docRoot files r.request (initReply status)).content ∧
      ∀ path file, requestPath? r.path = some path → files (cstr (docRoot ++ path)) = some file →
        call.result = file := by
  obtain ⟨_, _, _, hfinished⟩ := (run_spec hsees hrun).2 i c hc
  obtain ⟨hanswers, hsent⟩ := hfinished hdone hok
  obtain rfl : r.message.bytes ++ cstr r.body = text := by
    rw [HttpProxy.requestText_eq, List.take_of_length_le hfits, ← r.message_bytes] at htext
    exact Option.some.inj htext
  have hreply := answers_of_request r hreceived hanswers
  rw [hsent, hreply] at hserves
  obtain ⟨p, call, hp, hcalls, hstatus, hresult⟩ :=
    reply_received (handleRequest_described _ _ _ _) hpos hshort hplain hserves
  refine ⟨p, call, hp, hcalls, hstatus, hresult, fun path file hpath hfile => ?_⟩
  have huri : requestPath? r.request.uri = some path := hpath
  rw [hresult, handleRequest_file huri hfile]
  exact List.nil_append _

/-- `GET /` -/
def rootRequest : ClientRequest where
  opt := ascii "GET"
  host := ascii "h"
  path := ascii "/"
  body := []
  port := 80
  opt_ne_nil := by decide
  opt_token := by decide +kernel
  path_text := by decide +kernel
  host_text := by decide +kernel
  host_fits := by decide

/-- A file system with one file. -/
def oneFile (name : List UInt8) : Option (List UInt8) :=
  if name = ascii "/srv/index.html" then some (ascii "A") else none

def rootReply : Reply := handleRequest (ascii "/srv") oneFile rootRequest.request (initReply .ok)

def rootRun : List Event :=
  [.accept .success, .read 0 .success (rootRequest.message.bytes.take 20) oneFile,
    .read 0 .success (rootRequest.message.bytes.drop 20) oneFile, .write 0 .success rootReply.written.length]

theorem fetch_spec_root : ∃ p call, run (HttpProxy.step fun _ => 0) (HttpProxy.init (fun _ => 0) false)
    (inOneRead rootReply.written) = some p ∧ p.calls = [call] ∧ call.status = 200 ∧ call.result = ascii "A" := by
  have hsees : ∀ e ∈ rootRun, e.Sees (· = oneFile) := by
    simp [rootRun, Event.Sees]
  have hrun : (run (step (ascii "/srv") 0 0 .ok) init rootRun).map (fun s => (s.connections[0]?).map fun c =>
      (c.pending, c.failed, c.received, c.sent)) =
        some (some (none, false, rootRequest.message.bytes, rootReply.written)) := by decide +kernel
  obtain ⟨s, hs, hview⟩ := Option.map_eq_some_iff.mp hrun
  obtain ⟨c, hc, hview⟩ := Option.map_eq_some_iff.mp hview
  simp only [Prod.mk.injEq] at hview
  obtain ⟨hpending, hfailed, hreceived, hsent⟩ := hview
  have hprefix : c.received <+: rootRequest.requestLine.take 2046 ++ rootRequest.rest := by
    rw [hreceived, List.take_of_length_le (by decide +kernel), ← rootRequest.message_bytes]
    exact List.prefix_append _ _
  obtain ⟨p, call, hp, hcalls, hstatus, _, hfile⟩ :=
    fetch_spec rootRequest (HttpProxy.requestText_eq _) (by decide +kernel) hsees hs hc hprefix hpending hfailed
      (by decide +kernel) (by decide +kernel) (by decide +kernel)
      (show HttpProxy.Serves (fun _ => 0) (HttpProxy.init (fun _ => 0) false) c.sent (inOneRead rootReply.written) by
        rw [hsent]
        decide +kernel)
  exact ⟨p, call, hp, hcalls, hstatus, hfile (ascii "/index.html") _ (by decide +kernel) (by decide +kernel)⟩

end Both

end HttpServer

end Mowang
