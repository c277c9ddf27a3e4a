import Mowang.Base.Run
import Mowang.HttpServer.RequestGrammar
import Mowang.HttpServer.RequestHandler

/-!
# `HttpServer.Connections` — the connections of a server, and their manager

The server accepts connections until a signal stops it. A connection has one asynchronous operation under way: it reads
until its parser says what to answer, and writes the answer. Any operation can fail. An operation that is under way when
its socket is closed completes as aborted, or with what it had done before.

An operation keeps its connection alive, so a connection that the manager has forgotten still handles its completion.

## Contents
- `Connection`, `Server`, `Event`, `step`.
- `Answers` — what a connection makes of the bytes it has read, however they were split.
- `Connection.Valid`, `Inv`, `step_inv`.
- `run_spec`.
-/

namespace Mowang

namespace HttpServer

open Recognizer RequestParser RequestHandler

/-! ## The server -/

/-- The asynchronous operations of a connection. -/
inductive Operation
  | read | write
deriving DecidableEq

/-- `boost::system::error_code`. -/
inductive ErrorCode
  | success | operationAborted | other
deriving DecidableEq

/-- `connection`. -/
structure Connection where
  isOpen : Bool
  parser : Parser
  reply : Reply
  /-- The operation under way. -/
  pending : Option Operation
  /-- What all reads have brought. -/
  received : List UInt8
  /-- What has been written. -/
  sent : List UInt8
  /-- An operation has failed. -/
  failed : Bool

/-- `server`, with its `connection_manager`. A connection has the number of its accept. -/
structure Server where
  /-- The acceptor is open, and no signal has come. -/
  listening : Bool
  connections : List Connection
  /-- `connections_`. -/
  managed : List Nat

/-- The completions, and the signal. The file system is that of the moment. -/
inductive Event
  | accept (error : ErrorCode)
  | read (i : Nat) (error : ErrorCode) (bytes : List UInt8) (open? : List UInt8 → Option (List UInt8))
  | write (i : Nat) (error : ErrorCode) (transferred : Nat)
  | signal

namespace Connection

/-- `connection::stop`. -/
def stop (c : Connection) : Connection := { c with isOpen := false }

/-- `connection::do_write`. -/
def doWrite (c : Connection) (reply : Reply) : Connection := { c with reply, pending := some .write }

/-- The handler of `do_read` where there is no error. -/
def handleRead (docRoot : List UInt8) (c : Connection) (bytes : List UInt8)
    (open? : List UInt8 → Option (List UInt8)) : Connection :=
  let result := parse consume c.parser bytes
  let c := { c with parser := result.2.1, received := c.received ++ bytes }
  match result.1 with
  | .good          => c.doWrite (handleRequest docRoot open? c.parser.req c.reply)
  | .bad           => c.doWrite (.stockReply .badRequest)
  | .indeterminate => { c with pending := some .read }

/-- An operation can complete so: `operation_aborted` is only for those whose socket was closed. -/
def Completes (c : Connection) (operation : Operation) (error : ErrorCode) : Prop :=
  c.pending = some operation ∧ (error = .operationAborted → c.isOpen = false)

instance (c : Connection) (operation : Operation) (error : ErrorCode) : Decidable (c.Completes operation error) :=
  inferInstanceAs (Decidable (_ ∧ _))

end Connection

namespace Server

/-- `connection_manager::stop`. -/
def stop (s : Server) (i : Nat) (c : Connection) : Server :=
  { s with connections := s.connections.set i c.stop, managed := s.managed.erase i }

/-- The connection `i` after a completion. -/
def update (s : Server) (i : Nat) (c : Connection) : Server := { s with connections := s.connections.set i c }

/-- What the handlers do with the errors of a completion. -/
def fail (s : Server) (i : Nat) (c : Connection) (error : ErrorCode) : Server :=
  let c := { c with pending := none, failed := true }
  if error ≠ .operationAborted then s.stop i c else s.update i c

end Server

section Steps

variable (docRoot : List UInt8) (major minor : Int) (status : StatusType)

/-- The `reply_` of a new connection. -/
def initReply : Reply := ⟨status, [], []⟩

/-- A new connection, after `start`. -/
def newConnection : Connection :=
  ⟨true, RequestParser.init major minor, initReply status, some .read, [], [], false⟩

/-- One completion handler of the server. -/
def step (s : Server) : Event → Option Server
  | .accept error =>
    if s.listening = true ∧ error = .success then
      some { s with
        connections := s.connections ++ [newConnection major minor status],
        managed := s.managed ++ [s.connections.length] }
    else some s
  | .read i error bytes open? =>
    (s.connections[i]?).bind fun c =>
    if c.Completes .read error then
      if error = .success then
        if 1 ≤ bytes.length ∧ bytes.length ≤ 8192 then some (s.update i (c.handleRead docRoot bytes open?)) else none
      else some (s.fail i c error)
    else none
  | .write i error transferred =>
    (s.connections[i]?).bind fun c =>
    if c.Completes .write error then
      let c := { c with sent := c.sent ++ c.reply.written.take transferred }
      if error = .success then
        if transferred = c.reply.written.length then some (s.stop i { c with pending := none }) else none
      else some (s.fail i c error)
    else none
  | .signal =>
    if s.listening = true then
      some ⟨false, (s.connections.mapIdx fun i c => if i ∈ s.managed then c.stop else c), []⟩
    else none

/-- The server before the first accept. -/
def init : Server := ⟨true, [], []⟩

/-! ## Answers -/

variable (seen : (List UInt8 → Option (List UInt8)) → Prop)

/-- The file system that the handler reads is one of these. -/
def Event.Sees : Event → Prop
  | .read _ _ _ open? => seen open?
  | _                 => True

/-- The reply to the bytes that were read: it is that of the request they begin with, or says that no request begins
    so. -/
def Answers (received : List UInt8) (reply : Reply) : Prop :=
  (∃ (m : Message) (rest : List UInt8) (open? : List UInt8 → Option (List UInt8)), seen open? ∧
    received = m.bytes ++ rest ∧ reply = handleRequest docRoot open? m.request (initReply status)) ∨
  ((∀ m : Message, ¬ m.bytes <+: received ∧ ¬ received <+: m.bytes) ∧ reply = .stockReply .badRequest)

/-- What holds of a connection at any time. -/
structure Connection.Valid (c : Connection) : Prop where
  open_pending : c.isOpen = true → c.pending ≠ none
  reading : c.pending = some .read →
    Passes consume (RequestParser.init major minor) c.parser c.received ∧ c.reply = initReply status ∧ c.sent = []
  writing : c.pending = some .write → Answers docRoot status seen c.received c.reply ∧ c.sent = []
  finished : c.pending = none → c.failed = false →
    Answers docRoot status seen c.received c.reply ∧ c.sent = c.reply.written
  sent : c.sent ≠ [] → Answers docRoot status seen c.received c.reply ∧ c.sent <+: c.reply.written

/-- What holds of the server at any time. -/
structure Inv (s : Server) : Prop where
  valid : ∀ (i : Nat) (c : Connection), s.connections[i]? = some c → c.Valid docRoot major minor status seen
  managed_iff : ∀ (i : Nat) (c : Connection), s.connections[i]? = some c → (i ∈ s.managed ↔ c.isOpen = true)
  bound : ∀ i ∈ s.managed, i < s.connections.length
  nodup : s.managed.Nodup
  stopped : s.listening = false → s.managed = []

end Steps

section Valid

variable {docRoot : List UInt8} {major minor : Int} {status : StatusType}
  {seen : (List UInt8 → Option (List UInt8)) → Prop} {c : Connection}

theorem newConnection_valid : (newConnection major minor status).Valid docRoot major minor status seen where
  open_pending _ := by simp [newConnection]
  reading _ := ⟨Passes.nil _, rfl, rfl⟩
  writing h := by cases h
  finished h := by cases h
  sent h := absurd rfl h

theorem Connection.Valid.stop (h : c.Valid docRoot major minor status seen) :
    c.stop.Valid docRoot major minor status seen where
  open_pending hopen := by cases hopen
  reading := h.reading
  writing := h.writing
  finished := h.finished
  sent := h.sent

/-- What a read makes of a connection. -/
theorem Connection.Valid.handleRead (h : c.Valid docRoot major minor status seen) (hpending : c.pending = some .read)
    (bytes : List UInt8) {open? : List UInt8 → Option (List UInt8)} (hseen : seen open?) :
    (c.handleRead docRoot bytes open?).Valid docRoot major minor status seen := by
  obtain ⟨hpasses, hreply, hsent⟩ := h.reading hpending
  -- the parser is where one look at all the bytes would have led
  have hparse := parse_of_passes hpasses bytes
  obtain ⟨hgood, hmore, hbad, _⟩ := parse_spec major minor (c.received ++ bytes)
  rw [hparse] at hmore hbad
  rw [Connection.handleRead]
  cases hresult : (parse consume c.parser bytes).1 with
  | good =>
      obtain ⟨m, hm, hp⟩ := (hgood (parse consume c.parser bytes).2.1 (parse consume c.parser bytes).2.2).mp
        (by rw [hparse, ← hresult])
      have hanswers : Answers docRoot status seen (c.received ++ bytes)
          (handleRequest docRoot open? (parse consume c.parser bytes).2.1.req c.reply) :=
        Or.inl ⟨m, _, open?, hseen, hm, by rw [hp, hreply]⟩
      exact {
        open_pending := fun _ => Option.some_ne_none _
        reading := fun h => by cases h
        writing := fun _ => ⟨hanswers, hsent⟩
        finished := fun h => by cases h
        sent := fun h => absurd hsent h }
  | bad =>
      have hanswers : Answers docRoot status seen (c.received ++ bytes) (.stockReply .badRequest) :=
        Or.inr ⟨hbad.mp hresult, rfl⟩
      exact {
        open_pending := fun _ => Option.some_ne_none _
        reading := fun h => by cases h
        writing := fun _ => ⟨hanswers, hsent⟩
        finished := fun h => by cases h
        sent := fun h => absurd hsent h }
  | indeterminate =>
      have hpasses' : Passes consume (RequestParser.init major minor) (parse consume c.parser bytes).2.1
          (c.received ++ bytes) := hpasses.append (passes_of_indeterminate hresult)
      exact {
        open_pending := fun _ => Option.some_ne_none _
        reading := fun _ => ⟨hpasses', hreply, hsent⟩
        writing := fun h => by cases h
        finished := fun h => by cases h
        sent := fun h => absurd hsent h }

/-- A failed operation leaves what was written before. -/
theorem Connection.Valid.failed (h : c.Valid docRoot major minor status seen) :
    ({ c with pending := none, failed := true } : Connection).stop.Valid docRoot major minor status seen where
  open_pending hopen := by cases hopen
  reading h := by cases h
  writing h := by cases h
  finished _ h := by cases h
  sent := h.sent

/-- What a write makes of a connection, of which a part was written. -/
theorem Connection.Valid.partlyWritten (h : c.Valid docRoot major minor status seen) (hpending : c.pending = some .write)
    (transferred : Nat) :
    ({ c with sent := c.sent ++ c.reply.written.take transferred, pending := none, failed := true } :
      Connection).stop.Valid docRoot major minor status seen where
  open_pending hopen := by cases hopen
  reading h := by cases h
  writing h := by cases h
  finished _ h := by cases h
  sent _ := by
    obtain ⟨hanswers, hsent⟩ := h.writing hpending
    refine ⟨hanswers, ?_⟩
    show c.sent ++ _ <+: _
    rw [hsent]
    exact List.take_prefix _ _

theorem Connection.Valid.written (h : c.Valid docRoot major minor status seen) (hpending : c.pending = some .write)
    {transferred : Nat} (hall : transferred = c.reply.written.length) :
    ({ c with sent := c.sent ++ c.reply.written.take transferred, pending := none } : Connection).stop.Valid docRoot
      major minor status seen := by
  obtain ⟨hanswers, hsent⟩ := h.writing hpending
  have hwhole : c.sent ++ c.reply.written.take transferred = c.reply.written := by
    rw [hsent, hall, List.take_length]
    rfl
  rw [hwhole]
  exact {
    open_pending := fun hopen => by cases hopen
    reading := fun h => by cases h
    writing := fun h => by cases h
    finished := fun _ _ => ⟨hanswers, rfl⟩
    sent := fun _ => ⟨hanswers, List.prefix_refl _⟩ }

end Valid

/-! ## Steps -/

section Invariant

variable {docRoot : List UInt8} {major minor : Int} {status : StatusType}
  {seen : (List UInt8 → Option (List UInt8)) → Prop} {s s' : Server} {i : Nat} {c c' : Connection}

theorem init_inv : Inv docRoot major minor status seen init where
  valid i c h := by cases h
  managed_iff i c h := by cases h
  bound i h := by cases h
  nodup := List.nodup_nil
  stopped _ := rfl

/-- A connection that stays open, or closed. -/
theorem Inv.update (hs : Inv docRoot major minor status seen s) (hc : s.connections[i]? = some c)
    (hvalid : c'.Valid docRoot major minor status seen) (hopen : c'.isOpen = c.isOpen) :
    Inv docRoot major minor status seen (s.update i c') where
  valid j d hd := by
    rcases eq_or_ne i j with rfl | hne
    · rw [Server.update, List.getElem?_set_self (List.getElem?_eq_some_iff.mp hc).1] at hd
      cases hd
      exact hvalid
    · rw [Server.update, List.getElem?_set_ne hne] at hd
      exact hs.valid j d hd
  managed_iff j d hd := by
    rcases eq_or_ne i j with rfl | hne
    · rw [Server.update, List.getElem?_set_self (List.getElem?_eq_some_iff.mp hc).1] at hd
      cases hd
      rw [hopen]
      exact hs.managed_iff i c hc
    · rw [Server.update, List.getElem?_set_ne hne] at hd
      exact hs.managed_iff j d hd
  bound j hj := by
    rw [Server.update, List.length_set]
    exact hs.bound j hj
  nodup := hs.nodup
  stopped := hs.stopped

/-- A connection that the manager stops. -/
theorem Inv.stop (hs : Inv docRoot major minor status seen s) (hc : s.connections[i]? = some c)
    (hvalid : c'.stop.Valid docRoot major minor status seen) : Inv docRoot major minor status seen (s.stop i c') where
  valid j d hd := by
    rcases eq_or_ne i j with rfl | hne
    · rw [Server.stop, List.getElem?_set_self (List.getElem?_eq_some_iff.mp hc).1] at hd
      cases hd
      exact hvalid
    · rw [Server.stop, List.getElem?_set_ne hne] at hd
      exact hs.valid j d hd
  managed_iff j d hd := by
    show j ∈ s.managed.erase i ↔ _
    rw [hs.nodup.mem_erase_iff]
    rcases eq_or_ne i j with rfl | hne
    · rw [Server.stop, List.getElem?_set_self (List.getElem?_eq_some_iff.mp hc).1] at hd
      cases hd
      exact iff_of_false (fun h => h.1 rfl) Bool.false_ne_true
    · rw [Server.stop, List.getElem?_set_ne hne] at hd
      rw [← hs.managed_iff j d hd]
      exact and_iff_right hne.symm
  bound j hj := by
    rw [Server.stop, List.length_set]
    exact hs.bound j (List.mem_of_mem_erase hj)
  nodup := hs.nodup.erase i
  stopped h := by
    show s.managed.erase i = []
    rw [hs.stopped h, List.erase_nil]

/-- A failed operation stops its connection, unless that was stopped before. -/
theorem Inv.fail (hs : Inv docRoot major minor status seen s) (hc : s.connections[i]? = some c) {error : ErrorCode}
    (haborted : error = .operationAborted → c.isOpen = false) (hopen : c'.isOpen = c.isOpen)
    (hvalid : ({ c' with pending := none, failed := true } : Connection).stop.Valid docRoot major minor status seen) :
    Inv docRoot major minor status seen (s.fail i c' error) := by
  rw [Server.fail]
  split
  · exact hs.stop hc hvalid
  · rename_i herror
    have hclosed : c'.isOpen = false := hopen.trans (haborted (not_not.mp herror))
    have hsame : ({ c' with pending := none, failed := true } : Connection).stop =
        { c' with pending := none, failed := true } := by
      rw [Connection.stop, ← hclosed]
    exact hs.update hc (hsame ▸ hvalid) hopen

/-- A connection of the list with one more. -/
theorem getElem?_accepted {d : Connection} {j : Nat} (hd : (s.connections ++ [c])[j]? = some d) :
    (j < s.connections.length ∧ s.connections[j]? = some d) ∨ (j = s.connections.length ∧ d = c) := by
  rw [List.getElem?_append] at hd
  split at hd
  · rename_i hlt
    exact Or.inl ⟨hlt, hd⟩
  · rename_i hge
    obtain ⟨hj, rfl⟩ := List.getElem?_eq_some_iff.mp hd
    rw [List.length_singleton] at hj
    exact Or.inr ⟨by omega, by simp⟩

theorem Inv.accept (hs : Inv docRoot major minor status seen s) (hlistening : s.listening = true) :
    Inv docRoot major minor status seen { s with
      connections := s.connections ++ [newConnection major minor status],
      managed := s.managed ++ [s.connections.length] } where
  valid j d hd := by
    rcases getElem?_accepted hd with ⟨_, h⟩ | ⟨_, rfl⟩
    · exact hs.valid j d h
    · exact newConnection_valid
  managed_iff j d hd := by
    show j ∈ s.managed ++ [s.connections.length] ↔ _
    rw [List.mem_append, List.mem_singleton]
    rcases getElem?_accepted hd with ⟨hlt, h⟩ | ⟨rfl, rfl⟩
    · rw [← hs.managed_iff j d h]
      exact or_iff_left (by omega)
    · exact iff_of_true (Or.inr rfl) rfl
  bound j hj := by
    rw [List.length_append]
    rcases List.mem_append.mp hj with hj | hj
    · exact Nat.lt_add_right 1 (hs.bound j hj)
    · rw [List.mem_singleton.mp hj]
      exact Nat.lt_succ_self _
  nodup := by
    refine List.nodup_append.mpr ⟨hs.nodup, List.pairwise_singleton _ _, fun j hj k hk => ?_⟩
    have hlt := hs.bound j hj
    rw [List.mem_singleton.mp hk]
    exact Nat.ne_of_lt hlt
  stopped h := by
    rw [hlistening] at h
    cases h

/-- `stop_all` closes what the manager has, which is all that is open. -/
theorem Inv.stopAll (hs : Inv docRoot major minor status seen s) :
    Inv docRoot major minor status seen
      ⟨false, s.connections.mapIdx fun i c => if i ∈ s.managed then c.stop else c, []⟩ where
  valid j d hd := by
    obtain ⟨c, hc, rfl⟩ := Option.map_eq_some_iff.mp (List.getElem?_mapIdx.symm.trans hd)
    split
    · exact (hs.valid j c hc).stop
    · exact hs.valid j c hc
  managed_iff j d hd := by
    obtain ⟨c, hc, rfl⟩ := Option.map_eq_some_iff.mp (List.getElem?_mapIdx.symm.trans hd)
    refine iff_of_false List.not_mem_nil ?_
    split
    · exact Bool.false_ne_true
    · rename_i hmanaged
      exact fun hopen => hmanaged ((hs.managed_iff j c hc).mpr hopen)
  bound j hj := by cases hj
  nodup := List.nodup_nil
  stopped _ := rfl

theorem handleRead_isOpen (bytes : List UInt8) (open? : List UInt8 → Option (List UInt8)) :
    (c.handleRead docRoot bytes open?).isOpen = c.isOpen := by
  rw [Connection.handleRead]
  cases (parse consume c.parser bytes).1 with
  | good => rfl
  | bad => rfl
  | indeterminate => rfl

/-- Every handler keeps the invariant. -/
theorem step_inv {e : Event} (hs : Inv docRoot major minor status seen s) (hsees : e.Sees seen)
    (h : step docRoot major minor status s e = some s') : Inv docRoot major minor status seen s' := by
  cases e with
  | accept error =>
      rw [step] at h
      split at h
      · rename_i haccepted
        cases h
        exact hs.accept haccepted.1
      · cases h
        exact hs
  | read i error bytes open? =>
      obtain ⟨c, hc, h⟩ := Option.bind_eq_some_iff.mp h
      split at h
      · rename_i hcompletes
        have hvalid := hs.valid i c hc
        split at h
        · split at h
          · cases h
            exact hs.update hc (hvalid.handleRead hcompletes.1 bytes hsees) (handleRead_isOpen bytes open?)
          · cases h
        · cases h
          exact hs.fail hc hcompletes.2 rfl hvalid.failed
      · cases h
  | write i error transferred =>
      obtain ⟨c, hc, h⟩ := Option.bind_eq_some_iff.mp h
      split at h
      · rename_i hcompletes
        have hvalid := hs.valid i c hc
        dsimp only at h
        split at h
        · split at h
          · rename_i hall
            cases h
            exact hs.stop hc (hvalid.written hcompletes.1 hall)
          · cases h
        · cases h
          exact hs.fail hc hcompletes.2 rfl (hvalid.partlyWritten hcompletes.1 transferred)
      · cases h
  | signal =>
      rw [step] at h
      split at h
      · cases h
        exact hs.stopAll
      · cases h

/-- **Connections over whole runs.** The manager has exactly the open connections, and each of them has an operation
    under way; after the signal there are none. What is written to a connection is a part of the one answer to all it
    has sent, and the whole of it where no operation has failed. -/
theorem run_spec {events : List Event} (hsees : ∀ e ∈ events, e.Sees seen)
    (h : run (step docRoot major minor status) init events = some s) :
    (s.listening = false → s.managed = []) ∧
    ∀ (i : Nat) (c : Connection), s.connections[i]? = some c →
      (i ∈ s.managed ↔ c.isOpen = true) ∧ (c.isOpen = true → c.pending ≠ none) ∧
      (c.sent ≠ [] → Answers docRoot status seen c.received c.reply ∧ c.sent <+: c.reply.written) ∧
      (c.pending = none → c.failed = false →
        Answers docRoot status seen c.received c.reply ∧ c.sent = c.reply.written) := by
  have hs : Inv docRoot major minor status seen s :=
    run_invariant_along (fun hI hP hl => step_inv hI hP.2 hl) init_inv ((along_true _ _ _).and_labels hsees) h
  refine ⟨hs.stopped, fun i c hc => ?_⟩
  have hvalid := hs.valid i c hc
  exact ⟨hs.managed_iff i c hc, hvalid.open_pending, hvalid.sent, hvalid.finished⟩

/-- A page, and nothing else. -/
def hallPage (path : List UInt8) : Option (List UInt8) :=
  if path = ascii "/srv/www/index.html" then some (ascii "hall") else none

/-- A request for the page, in two parts; a request that is none, whose peer reads three bytes of the answer; and a
    connection that is waiting when the signal comes. -/
def servedRun : List Event :=
  [.accept .success, .accept .success, .read 0 .success (ascii "GET / HT") hallPage, .read 1 .success [0] hallPage,
    .write 1 .other 3, .accept .success, .read 0 .success (ascii "TP/1.1\r\nHost: a\r\n\r\n") hallPage,
    .write 0 .success 67, .signal, .read 2 .operationAborted [0] hallPage]

theorem run_spec_served : ∃ s, run (step (ascii "/srv/www") 0 0 .ok) init servedRun = some s ∧
    s.connections.map (·.sent) = [ascii "HTTP/1.0 200 OK\r\nContent-Length: 4\r\nContent-Type: text/html\r\n\r\nhall",
      ascii "HTT", []] ∧
    (s.listening = false → s.managed = []) ∧
    ∀ (i : Nat) (c : Connection), s.connections[i]? = some c →
      (i ∈ s.managed ↔ c.isOpen = true) ∧ (c.isOpen = true → c.pending ≠ none) ∧
      (c.sent ≠ [] → Answers (ascii "/srv/www") .ok (· = hallPage) c.received c.reply ∧ c.sent <+: c.reply.written) ∧
      (c.pending = none → c.failed = false →
        Answers (ascii "/srv/www") .ok (· = hallPage) c.received c.reply ∧ c.sent = c.reply.written) := by
  have hsees : ∀ e ∈ servedRun, e.Sees (· = hallPage) := by
    simp [servedRun, Event.Sees]
  exact ⟨_, rfl, rfl, @run_spec _ 0 0 .ok _ _ servedRun hsees rfl⟩

end Invariant

end HttpServer

end Mowang
