import Mathlib.Data.List.Nodup
import Mathlib.Data.List.Perm.Basic
import Mowang.Base.Run

/-!
# `Share.SocketManager` — the queues between the net loop and the logic loop

`socket_manager::update` runs on the net thread and `service::do_loop` on the logic thread. They share
the queues of `socket_manager`, each swap under one lock. `World` is that shared state together with the
position and the local vectors of both loops; `act` takes one step of one of them, so a list of actions
is an interleaving.

A socket is named by its `m_socket_index`. The 64-bit counter behind `gen_socket_index` is a `Nat`: it
would repeat only after `2 ^ 64` connections. Packet and send blocks are numbered by their allocation,
so a block that a pool hands out again is a new one.

`World.trace` records what happened to sockets and blocks, the newest event first. It is read by the
theorems only, never by a step.

## Contents
- `World`, and the operations `addSocket`, `delSocket`, `handleSocketUnpack`, `sendPacket`.
- `update`, `doLoop`, `act`.
- The vectors of each loop as queues, and `SocketLaw.delSocket`: what `del_socket` queued is conserved.
-/

namespace Mowang

/-- `packet_recv_info`: the socket it points to, and the block its packet was copied into. -/
structure RecvInfo where
  socket : Nat
  packet : Nat
  deriving DecidableEq

/-- `packet_send_info`. -/
structure SendInfo where
  socketIndex : Nat
  buffer : Nat
  deriving DecidableEq

/-- What a run does to a socket or to a block. -/
inductive SocketEvent where
  /-- `handle_socket_unpacket` put these packets into `m_read_packets`. -/
  | unpack (packets : List RecvInfo)
  | handleInit (s : Nat)
  | handlePacket (p : RecvInfo)
  | handleClose (s : Nat)
  /-- `socket_manager::del_socket` put the socket into `m_wait_delete_sockets`. -/
  | delSocket (s : Nat)
  /-- Buffer, `socket_handler`, packet handler and socket object are freed. -/
  | release (s : Nat)
  /-- An event-loop callback bound to the socket runs. -/
  | callback (s : Nat)
  | freeRecv (p : RecvInfo)
  /-- `send_packet` wrote the block to its socket. -/
  | write (q : SendInfo)
  /-- `send_packet` found no such socket, or an inactive one. -/
  | drop (q : SendInfo)
  | freeSend (q : SendInfo)
  deriving DecidableEq

/-- Where the net thread is in `update`, with the local vectors of that phase. -/
inductive UpdatePhase where
  /-- The event loop, before the phases of `socket_manager::update`. -/
  | poll
  | newSocket (todo : List Nat)
  /-- The sockets still to be visited, and `del_sockets` so far. -/
  | unpacket (todo delSockets : List Nat)
  | closeSocket (delSockets : List Nat)
  | kickSocket (kickSockets : List Nat)
  | releasePacket (packets : List RecvInfo)
  | writeMsg (packets finishPackets : List SendInfo)
  /-- `handle_write_msg` is over; `handle_release_socket` has not taken its lock. -/
  | finishWrite
  | releaseSocket (sockets : List Nat)
  deriving DecidableEq

/-- The local vectors of one `do_loop`. `read_packets` and `del_sockets` are kept in two parts, what the
    loop over them has done and what it has still to do. -/
structure LoopLocals where
  finishWritePackets : List SendInfo := []
  addSockets : List Nat := []
  readTodo : List RecvInfo := []
  readDone : List RecvInfo := []
  delTodo : List Nat := []
  delDone : List Nat := []
  deriving DecidableEq

/-- Where the logic thread is. -/
inductive LoopPhase where
  | idle
  | doLoop (locals : LoopLocals)
  deriving DecidableEq

def LoopPhase.locals : LoopPhase → LoopLocals
  | .idle     => {}
  | .doLoop l => l

structure World where
  -- `socket_manager`
  /-- `m_socket_sequence_index`. Its low 40 bits count the sockets; a run that makes `2 ^ 40` of them is not modelled. -/
  sequenceIndex : Nat
  newSockets : List Nat := []
  /-- The keys of `m_sockets`. -/
  sockets : List Nat := []
  /-- The sockets whose `m_active_flag` is false. -/
  inactive : List Nat := []
  waitInitSockets : List Nat := []
  waitKickSockets : List Nat := []
  waitDeleteSockets : List Nat := []
  deleteSockets : List Nat := []
  readPackets : List RecvInfo := []
  finishReadPackets : List RecvInfo := []
  writePackets : List SendInfo := []
  finishWritePackets : List SendInfo := []
  phase : UpdatePhase := .poll
  -- `service`
  loop : LoopPhase := .idle
  serviceWritePackets : List SendInfo := []
  serviceKickSockets : List Nat := []
  -- the allocations so far
  nextPacket : Nat := 0
  nextBuffer : Nat := 0
  trace : List SocketEvent := []
  deriving DecidableEq

namespace World

/-- `socket_manager::init`, before the first `update`. -/
def init (processType processId : Nat) : World :=
  { sequenceIndex := ((processType <<< 16) + processId) <<< 40 }

def log (w : World) (e : SocketEvent) : World := { w with trace := e :: w.trace }

/-! ## The operations of `socket_manager` -/

/-- `set_active(false)` on `s`, when `flag` says that a stream of `s` overflowed. -/
def deactivate (w : World) (s : Nat) (flag : Bool) : World :=
  { w with inactive := if flag then s :: w.inactive else w.inactive }

def addSocket (w : World) (s : Nat) : World :=
  if s ∈ w.sockets then w
  else { w with sockets := w.sockets ++ [s], waitInitSockets := w.waitInitSockets ++ [s] }

def delSocket (w : World) (s : Nat) : World :=
  { w with
    sockets := w.sockets.erase s
    waitDeleteSockets := w.waitDeleteSockets ++ [s]
    trace := .delSocket s :: w.trace }

/-- The packets that `unpack_packets` allocates when the socket's buffer holds `n` whole ones. -/
def unpackPackets (w : World) (s n : Nat) : List RecvInfo :=
  (List.range n).map fun i => ⟨s, w.nextPacket + i⟩

def handleSocketUnpack (w : World) (s n : Nat) : World :=
  { w with
    readPackets := w.readPackets ++ w.unpackPackets s n
    nextPacket := w.nextPacket + n
    trace := .unpack (w.unpackPackets s n) :: w.trace }

def sendPacket (w : World) (q : SendInfo) : World :=
  w.log (if q.socketIndex ∈ w.sockets ∧ q.socketIndex ∉ w.inactive then .write q else .drop q)

/-! ## The two loops -/

/-- What the program text does not decide in one step of `update`. -/
structure Choice where
  /-- The order in which the hash map `m_sockets` is walked. -/
  order : List Nat := []
  /-- How many whole packets the visited socket's buffer holds. -/
  unpacked : Nat := 0
  /-- The step makes its socket inactive. -/
  inactive : Bool := false

/-- One step of the net thread through `socket_manager::update`. The step that ends a phase takes the
    lock of the next one. -/
def update (c : Choice) (w : World) : Option World :=
  match w.phase with
  | .poll => some { w with phase := .newSocket w.newSockets }
  | .newSocket (s :: todo) => some { w.addSocket s with phase := .newSocket todo }
  | .newSocket [] =>
      if c.order.Perm w.sockets then some { w with newSockets := [], phase := .unpacket c.order [] }
      else none
  | .unpacket (s :: todo) del =>
      if s ∈ w.inactive then some { w with phase := .unpacket todo del }
      else
        some { (w.handleSocketUnpack s c.unpacked).deactivate s c.inactive with
          phase := .unpacket todo (if c.inactive then del ++ [s] else del) }
  | .unpacket [] del => some { w with phase := .closeSocket del }
  | .closeSocket (s :: del) => some { w.delSocket s with phase := .closeSocket del }
  | .closeSocket [] => some { w with waitKickSockets := [], phase := .kickSocket w.waitKickSockets }
  | .kickSocket (s :: kicks) =>
      if s ∈ w.sockets then some { w.delSocket s with phase := .kickSocket kicks }
      else some { w with phase := .kickSocket kicks }
  | .kickSocket [] => some { w with finishReadPackets := [], phase := .releasePacket w.finishReadPackets }
  | .releasePacket (p :: packets) => some { w.log (.freeRecv p) with phase := .releasePacket packets }
  | .releasePacket [] => some { w with writePackets := [], phase := .writeMsg w.writePackets [] }
  | .writeMsg (q :: packets) finish =>
      some { (w.sendPacket q).deactivate q.socketIndex c.inactive with
        phase := .writeMsg packets (finish ++ [q]) }
  | .writeMsg [] finish =>
      some { w with finishWritePackets := w.finishWritePackets ++ finish, phase := .finishWrite }
  | .finishWrite => some { w with deleteSockets := [], phase := .releaseSocket w.deleteSockets }
  | .releaseSocket (s :: sockets) => some { w.log (.release s) with phase := .releaseSocket sockets }
  | .releaseSocket [] => some { w with phase := .poll }

/-- `swap_net_2_logic`. -/
def swapNet2Logic (w : World) : World :=
  { w with
    readPackets := []
    finishWritePackets := []
    waitInitSockets := []
    waitDeleteSockets := []
    loop := .doLoop
      { finishWritePackets := w.finishWritePackets
        addSockets := w.waitInitSockets
        readTodo := w.readPackets
        delTodo := w.waitDeleteSockets } }

/-- `swap_login_2_net`, and the two `clear` after it. -/
def swapLogin2Net (w : World) (l : LoopLocals) : World :=
  { w with
    writePackets := w.writePackets ++ w.serviceWritePackets
    finishReadPackets := w.finishReadPackets ++ l.readDone
    waitKickSockets := w.waitKickSockets ++ w.serviceKickSockets
    deleteSockets := w.deleteSockets ++ l.delDone
    serviceWritePackets := []
    serviceKickSockets := []
    loop := .idle }

/-- One step of the logic thread through `service::do_loop`: its four loops run one after the other, so
    the first vector that is not exhausted says which loop it is in. -/
def doLoop (w : World) : World :=
  match w.loop with
  | .idle => w.swapNet2Logic
  | .doLoop l =>
    match l.finishWritePackets, l.addSockets, l.readTodo, l.delTodo with
    | q :: rest, _, _, _ =>
        { w.log (.freeSend q) with loop := .doLoop { l with finishWritePackets := rest } }
    | [], s :: rest, _, _ =>
        { w.log (.handleInit s) with loop := .doLoop { l with addSockets := rest } }
    | [], [], p :: rest, _ =>
        { w.log (.handlePacket p) with loop := .doLoop { l with readTodo := rest, readDone := l.readDone ++ [p] } }
    | [], [], [], s :: rest =>
        { w.log (.handleClose s) with
          loop := .doLoop { l with delTodo := rest, delDone := l.delDone ++ [s] } }
    | [], [], [], [] => w.swapLogin2Net l

/-- `push_write_packets` with a block just allocated for it. -/
def pushWritePackets (w : World) (socketIndex : Nat) : World :=
  { w with
    serviceWritePackets := w.serviceWritePackets ++ [⟨socketIndex, w.nextBuffer⟩]
    nextBuffer := w.nextBuffer + 1 }

/-- `service::kick_socket` (or `kick_ws_socket`). -/
def kickSocket (w : World) (socketIndex : Nat) : World :=
  { w with serviceKickSockets := w.serviceKickSockets ++ [socketIndex] }

end World

/-- The steps that `tcp_manager` and `web_socket_manager` share. -/
inductive Action where
  | update (c : World.Choice)
  | doLoop
  | pushWritePackets (socketIndex : Nat)
  | kickSocket (socketIndex : Nat)

def World.act (w : World) : Action → Option World
  | .update c           => w.update c
  | .doLoop             => some w.doLoop
  | .pushWritePackets i => some (w.pushWritePackets i)
  | .kickSocket i       => some (w.kickSocket i)

/-! ## What one step can do -/

namespace World

/-- The branches of `update`. -/
inductive Updated (c : Choice) (w : World) : World → Prop where
  | begin (hphase : w.phase = .poll) : Updated c w { w with phase := .newSocket w.newSockets }
  | add {s : Nat} {todo : List Nat} (hs : s ∉ w.sockets)
      (hphase : w.phase = .newSocket (s :: todo)) :
      Updated c w
        { w with
          sockets := w.sockets ++ [s]
          waitInitSockets := w.waitInitSockets ++ [s]
          phase := .newSocket todo }
  | addAgain {s : Nat} {todo : List Nat} (hs : s ∈ w.sockets)
      (hphase : w.phase = .newSocket (s :: todo)) :
      Updated c w { w with phase := .newSocket todo }
  | walk (horder : c.order.Perm w.sockets) (hphase : w.phase = .newSocket []) :
      Updated c w { w with newSockets := [], phase := .unpacket c.order [] }
  | skip {s : Nat} {todo del : List Nat} (hs : s ∈ w.inactive)
      (hphase : w.phase = .unpacket (s :: todo) del) :
      Updated c w { w with phase := .unpacket todo del }
  | visit {s : Nat} {todo del : List Nat} (hs : s ∉ w.inactive)
      (hphase : w.phase = .unpacket (s :: todo) del) :
      Updated c w
        { w with
          inactive := if c.inactive then s :: w.inactive else w.inactive
          readPackets := w.readPackets ++ w.unpackPackets s c.unpacked
          nextPacket := w.nextPacket + c.unpacked
          trace := .unpack (w.unpackPackets s c.unpacked) :: w.trace
          phase := .unpacket todo (if c.inactive then del ++ [s] else del) }
  | walked {del : List Nat} (hphase : w.phase = .unpacket [] del) :
      Updated c w { w with phase := .closeSocket del }
  | close {s : Nat} {del : List Nat} (hphase : w.phase = .closeSocket (s :: del)) :
      Updated c w { w.delSocket s with phase := .closeSocket del }
  | takeKicks (hphase : w.phase = .closeSocket []) :
      Updated c w { w with waitKickSockets := [], phase := .kickSocket w.waitKickSockets }
  | kick {s : Nat} {kicks : List Nat} (hs : s ∈ w.sockets)
      (hphase : w.phase = .kickSocket (s :: kicks)) :
      Updated c w { w.delSocket s with phase := .kickSocket kicks }
  | kickUnknown {s : Nat} {kicks : List Nat} (hs : s ∉ w.sockets)
      (hphase : w.phase = .kickSocket (s :: kicks)) :
      Updated c w { w with phase := .kickSocket kicks }
  | takeRead (hphase : w.phase = .kickSocket []) :
      Updated c w { w with finishReadPackets := [], phase := .releasePacket w.finishReadPackets }
  | freeRecv {p : RecvInfo} {packets : List RecvInfo} (hphase : w.phase = .releasePacket (p :: packets)) :
      Updated c w { w with trace := .freeRecv p :: w.trace, phase := .releasePacket packets }
  | takeWrite (hphase : w.phase = .releasePacket []) :
      Updated c w { w with writePackets := [], phase := .writeMsg w.writePackets [] }
  | write {q : SendInfo} {packets finish : List SendInfo} (hphase : w.phase = .writeMsg (q :: packets) finish) :
      Updated c w
        { w with
          inactive := if c.inactive then q.socketIndex :: w.inactive else w.inactive
          trace := .write q :: w.trace
          phase := .writeMsg packets (finish ++ [q]) }
  | drop {q : SendInfo} {packets finish : List SendInfo} (hphase : w.phase = .writeMsg (q :: packets) finish) :
      Updated c w
        { w with
          inactive := if c.inactive then q.socketIndex :: w.inactive else w.inactive
          trace := .drop q :: w.trace
          phase := .writeMsg packets (finish ++ [q]) }
  | finish {finish : List SendInfo} (hphase : w.phase = .writeMsg [] finish) :
      Updated c w { w with finishWritePackets := w.finishWritePackets ++ finish, phase := .finishWrite }
  | takeDelete (hphase : w.phase = .finishWrite) :
      Updated c w { w with deleteSockets := [], phase := .releaseSocket w.deleteSockets }
  | release {s : Nat} {sockets : List Nat} (hphase : w.phase = .releaseSocket (s :: sockets)) :
      Updated c w { w with trace := .release s :: w.trace, phase := .releaseSocket sockets }
  | done (hphase : w.phase = .releaseSocket []) : Updated c w { w with phase := .poll }

theorem update_cases {c : Choice} {w w' : World} (h : w.update c = some w') : Updated c w w' := by
  -- one goal for each phase, in the order of the definition
  unfold update at h
  split at h <;> rename_i hphase
  · cases h
    exact .begin hphase
  · cases h
    unfold addSocket
    split
    · rename_i hs
      exact .addAgain hs hphase
    · rename_i hs
      exact .add hs hphase
  · split at h
    · rename_i horder
      cases h
      exact .walk horder hphase
    · cases h
  · split at h <;> rename_i hs <;> cases h
    · exact .skip hs hphase
    · exact .visit hs hphase
  · cases h
    exact .walked hphase
  · cases h
    exact .close hphase
  · cases h
    exact .takeKicks hphase
  · split at h <;> rename_i hs <;> cases h
    · exact .kick hs hphase
    · exact .kickUnknown hs hphase
  · cases h
    exact .takeRead hphase
  · cases h
    exact .freeRecv hphase
  · cases h
    exact .takeWrite hphase
  · cases h
    unfold sendPacket
    split
    · exact .write hphase
    · exact .drop hphase
  · cases h
    exact .finish hphase
  · cases h
    exact .takeDelete hphase
  · cases h
    exact .release hphase
  · cases h
    exact .done hphase

/-- The branches of `do_loop`. -/
inductive Looped (w : World) : World → Prop where
  | swapNet2Logic (hloop : w.loop = .idle) : Looped w w.swapNet2Logic
  | freeSend {l : LoopLocals} {q : SendInfo} {rest : List SendInfo}
      (hloop : w.loop = .doLoop { l with finishWritePackets := q :: rest }) :
      Looped w
        { w with trace := .freeSend q :: w.trace, loop := .doLoop { l with finishWritePackets := rest } }
  | handleInit {l : LoopLocals} {s : Nat} {rest : List Nat}
      (hloop : w.loop = .doLoop { l with addSockets := s :: rest }) :
      Looped w { w with trace := .handleInit s :: w.trace, loop := .doLoop { l with addSockets := rest } }
  | handle {l : LoopLocals} {p : RecvInfo} {rest : List RecvInfo}
      (hloop : w.loop = .doLoop { l with addSockets := [], readTodo := p :: rest }) :
      Looped w
        { w with
          trace := .handlePacket p :: w.trace
          loop := .doLoop { l with addSockets := [], readTodo := rest, readDone := l.readDone ++ [p] } }
  | handleClose {l : LoopLocals} {s : Nat} {rest : List Nat}
      (hloop : w.loop = .doLoop { l with addSockets := [], readTodo := [], delTodo := s :: rest }) :
      Looped w
        { w with
          trace := .handleClose s :: w.trace
          loop := .doLoop
            { l with addSockets := [], readTodo := [], delTodo := rest, delDone := l.delDone ++ [s] } }
  | swapLogin2Net {l : LoopLocals}
      (hloop : w.loop = .doLoop { readDone := l.readDone, delDone := l.delDone }) :
      Looped w (w.swapLogin2Net l)

theorem doLoop_cases (w : World) : Looped w w.doLoop := by
  unfold doLoop
  split <;> rename_i hloop
  · exact .swapNet2Logic hloop
  · rename_i l
    obtain ⟨_, _, _, readDone, _, delDone⟩ := l
    split <;> simp only at * <;> subst_vars
    · exact .freeSend (l := ⟨[], _, _, _, _, _⟩) hloop
    · exact .handleInit (l := ⟨_, [], _, _, _, _⟩) hloop
    · exact .handle (l := ⟨_, [], [], _, _, _⟩) hloop
    · exact .handleClose (l := ⟨_, [], [], _, [], _⟩) hloop
    · exact .swapLogin2Net (l := ⟨[], [], [], _, [], _⟩) hloop

end World

/-! ## The vectors of the two loops as queues -/

namespace UpdatePhase

def visiting : UpdatePhase → List Nat
  | .unpacket todo _ => todo
  | _                => []

def closing : UpdatePhase → List Nat
  | .unpacket _ del  => del
  | .closeSocket del => del
  | _                => []

def freeing : UpdatePhase → List RecvInfo
  | .releasePacket packets => packets
  | _                      => []

def writing : UpdatePhase → List SendInfo
  | .writeMsg packets _ => packets
  | _                   => []

def written : UpdatePhase → List SendInfo
  | .writeMsg _ finish => finish
  | _                  => []

def releasing : UpdatePhase → List Nat
  | .releaseSocket sockets => sockets
  | _                      => []

end UpdatePhase

namespace World

/-- How often `s` is past its `handle_close`. -/
def closed (w : World) (s : Nat) : Nat :=
  w.loop.locals.delDone.count s + w.deleteSockets.count s + w.phase.releasing.count s +
    w.trace.count (.release s)

/-- How often `s` is past `del_socket`. -/
def deleted (w : World) (s : Nat) : Nat :=
  w.waitDeleteSockets.count s + w.loop.locals.delTodo.count s + w.closed s

/-- How often the packet is past its `handlePacket`. -/
def handled (w : World) (p : RecvInfo) : Nat :=
  w.loop.locals.readDone.count p + w.finishReadPackets.count p + w.phase.freeing.count p +
    w.trace.count (.freeRecv p)

/-- How often the packet is past `handle_socket_unpack`. -/
def unpacked (w : World) (p : RecvInfo) : Nat :=
  w.readPackets.count p + w.loop.locals.readTodo.count p + w.handled p

/-- How often the block is past `send_packet`. -/
def sent (w : World) (q : SendInfo) : Nat :=
  w.phase.written.count q + w.finishWritePackets.count q + w.loop.locals.finishWritePackets.count q +
    w.trace.count (.freeSend q)

/-- How often the block was pushed. -/
def pushed (w : World) (q : SendInfo) : Nat :=
  w.serviceWritePackets.count q + w.writePackets.count q + w.phase.writing.count q + w.sent q

/-- **Conservation.** The queues that a socket goes through after `del_socket` hold it as often as the
    events say; nothing here depends on when a socket is deleted, or how often. -/
structure SocketLaw (w : World) (s : Nat) : Prop where
  deleted_eq : w.trace.count (.delSocket s) = w.deleted s
  closed_eq : w.trace.count (.handleClose s) = w.closed s

/-- A packet is in one queue at a time. -/
structure PacketLaw (w : World) (p : RecvInfo) : Prop where
  handled_eq : w.trace.count (.handlePacket p) = w.handled p
  unpacked_le : w.unpacked p ≤ 1
  unpacked_fresh : w.nextPacket ≤ p.packet → w.unpacked p = 0
  unpacked_pos : ∀ packets, .unpack packets ∈ w.trace → p ∈ packets → 0 < w.unpacked p

/-- A send block is in one queue at a time. -/
structure SendLaw (w : World) (q : SendInfo) : Prop where
  sent_eq : w.trace.count (.write q) + w.trace.count (.drop q) = w.sent q
  pushed_le : w.pushed q ≤ 1
  pushed_fresh : w.nextBuffer ≤ q.buffer → w.pushed q = 0

theorem count_cons_eq {α : Type} [DecidableEq α] (a b : α) (l : List α) :
    (b :: l).count a = l.count a + if b = a then 1 else 0 := by
  simp [List.count_cons]

section Laws

variable {c : Choice} {w w' : World} {s : Nat} {p : RecvInfo} {q : SendInfo}

theorem SocketLaw.delSocket (h : SocketLaw w s) (x : Nat) : SocketLaw (w.delSocket x) s := by
  obtain ⟨hdel, hclose⟩ := h
  simp only [deleted, closed] at hdel hclose
  constructor <;>
    simp only [deleted, closed, World.delSocket, List.count_append, count_cons_eq, List.count_nil,
      SocketEvent.delSocket.injEq, reduceCtorEq, if_false]
  · omega
  · omega

theorem SocketLaw.update (h : SocketLaw w s) (hstep : Updated c w w') : SocketLaw w' s := by
  obtain ⟨hdel, hclose⟩ := h
  cases hstep <;> rename_i hphase <;>
    simp only [deleted, closed, hphase, UpdatePhase.releasing, List.count_nil] at hdel hclose <;>
    constructor <;>
    simp only [deleted, closed, World.delSocket, UpdatePhase.releasing, List.count_append, count_cons_eq,
      List.count_nil, SocketEvent.delSocket.injEq, SocketEvent.release.injEq, reduceCtorEq, if_false] at hdel hclose ⊢ <;>
    omega

theorem SocketLaw.doLoop (h : SocketLaw w s) (hstep : Looped w w') : SocketLaw w' s := by
  obtain ⟨hdel, hclose⟩ := h
  cases hstep <;> rename_i hloop <;>
    simp only [deleted, closed, hloop, LoopPhase.locals] at hdel hclose <;>
    constructor <;>
    simp only [deleted, closed, World.swapNet2Logic, World.swapLogin2Net, LoopPhase.locals, List.count_append,
      count_cons_eq, List.count_nil, SocketEvent.handleClose.injEq, reduceCtorEq, if_false] at hdel hclose ⊢ <;>
    omega

theorem mem_unpackPackets {n : Nat} :
    p ∈ w.unpackPackets s n ↔ p.socket = s ∧ w.nextPacket ≤ p.packet ∧ p.packet < w.nextPacket + n := by
  simp only [unpackPackets, List.mem_map, List.mem_range]
  constructor
  · rintro ⟨i, hi, rfl⟩
    exact ⟨rfl, Nat.le_add_right _ i, Nat.add_lt_add_left hi _⟩
  · rintro ⟨rfl, hle, hlt⟩
    have hi : p.packet - w.nextPacket < n := by omega
    exact ⟨p.packet - w.nextPacket, hi, by rw [Nat.add_sub_cancel' hle]⟩

theorem count_unpackPackets_le (w : World) (s n : Nat) (p : RecvInfo) : (w.unpackPackets s n).count p ≤ 1 := by
  have hnodup : (w.unpackPackets s n).Nodup := by
    apply List.Nodup.map _ List.nodup_range
    intro i j hij
    simpa using hij
  exact List.nodup_iff_count_le_one.mp hnodup p

/-- The packets a step unpacks are new, so none of them was in a queue before. -/
theorem PacketLaw.visit (h : PacketLaw w p) (s n : Nat) : PacketLaw (w.handleSocketUnpack s n) p := by
  obtain ⟨hhandle, hle, hfresh, hpos⟩ := h
  have hcount := count_unpackPackets_le w s n p
  have hmem : 0 < (w.unpackPackets s n).count p → w.nextPacket ≤ p.packet ∧ p.packet < w.nextPacket + n := by
    intro hp
    exact (mem_unpackPackets.mp (List.count_pos_iff.mp hp)).2
  have hunpacked : (w.handleSocketUnpack s n).unpacked p = w.unpacked p + (w.unpackPackets s n).count p := by
    simp only [unpacked, handled, handleSocketUnpack, List.count_append, count_cons_eq, reduceCtorEq, if_false]
    omega
  constructor
  · simpa [handled, handleSocketUnpack] using hhandle
  · rw [hunpacked]
    omega
  · intro hp
    rw [hunpacked]
    simp only [handleSocketUnpack] at hp
    omega
  · intro packets hin hp
    rw [hunpacked]
    rcases List.mem_cons.mp hin with heq | hin
    · cases heq
      exact Nat.add_pos_right _ (List.count_pos_iff.mpr hp)
    · exact Nat.add_pos_left (hpos packets hin hp) _

theorem PacketLaw.update (h : PacketLaw w p) (hstep : Updated c w w') : PacketLaw w' p := by
  cases hstep with
  | @visit s todo del hs hphase =>
      obtain ⟨hhandle, hle, hfresh, hpos⟩ := h.visit s c.unpacked
      simp only [unpacked, handled, handleSocketUnpack, hphase] at hhandle hle hfresh hpos
      exact ⟨hhandle, hle, hfresh, hpos⟩
  | _ =>
      rename_i hphase
      obtain ⟨hhandle, hle, hfresh, hpos⟩ := h
      simp only [unpacked, handled, hphase, UpdatePhase.freeing, count_cons_eq, List.count_nil]
        at hhandle hle hfresh hpos
      constructor <;>
        simp only [unpacked, handled, World.delSocket, UpdatePhase.freeing, count_cons_eq, List.count_nil,
          List.mem_cons, SocketEvent.freeRecv.injEq, reduceCtorEq, if_false, false_or]
      · omega
      · omega
      · omega
      · intro packets hin hp
        have hcount := hpos packets hin hp
        omega

theorem PacketLaw.doLoop (h : PacketLaw w p) (hstep : Looped w w') : PacketLaw w' p := by
  obtain ⟨hhandle, hle, hfresh, hpos⟩ := h
  cases hstep <;> rename_i hloop <;>
    simp only [unpacked, handled, hloop, LoopPhase.locals, count_cons_eq, List.count_nil]
      at hhandle hle hfresh hpos <;>
    constructor <;>
    simp only [unpacked, handled, World.swapNet2Logic, World.swapLogin2Net, LoopPhase.locals, List.count_append,
      count_cons_eq, List.count_nil, List.mem_cons, SocketEvent.handlePacket.injEq, reduceCtorEq, if_false, false_or]
  all_goals
    first
      | omega
      | intro packets hin hp
        have hcount := hpos packets hin hp
        omega

theorem SendLaw.update (h : SendLaw w q) (hstep : Updated c w w') : SendLaw w' q := by
  obtain ⟨hsent, hle, hfresh⟩ := h
  cases hstep <;> rename_i hphase <;>
    simp only [pushed, sent, hphase, UpdatePhase.writing, UpdatePhase.written, count_cons_eq, List.count_nil]
      at hsent hle hfresh <;>
    constructor <;>
    simp only [pushed, sent, World.delSocket, UpdatePhase.writing, UpdatePhase.written, List.count_append,
      count_cons_eq, List.count_nil, SocketEvent.write.injEq, SocketEvent.drop.injEq, reduceCtorEq, if_false] <;>
    omega

theorem SendLaw.doLoop (h : SendLaw w q) (hstep : Looped w w') : SendLaw w' q := by
  obtain ⟨hsent, hle, hfresh⟩ := h
  cases hstep <;> rename_i hloop <;>
    simp only [pushed, sent, hloop, LoopPhase.locals, count_cons_eq, List.count_nil] at hsent hle hfresh <;>
    constructor <;>
    simp only [pushed, sent, World.swapNet2Logic, World.swapLogin2Net, LoopPhase.locals, List.count_append,
      count_cons_eq, List.count_nil, SocketEvent.freeSend.injEq, reduceCtorEq, if_false] <;>
    omega

theorem SendLaw.pushWritePackets (h : SendLaw w q) (i : Nat) : SendLaw (w.pushWritePackets i) q := by
  obtain ⟨hsent, hle, hfresh⟩ := h
  have hnew : (⟨i, w.nextBuffer⟩ : SendInfo) = q → w.pushed q = 0 := by
    rintro rfl
    exact hfresh (Nat.le_refl _)
  simp only [pushed, sent] at hsent hle hfresh hnew
  constructor
  · exact hsent
  · simp only [pushed, sent, World.pushWritePackets, List.count_append, count_cons_eq, List.count_nil]
    split
    · have := hnew ‹_›
      omega
    · omega
  · intro hq
    simp only [World.pushWritePackets] at hq
    have := hfresh (by omega)
    have hne : (⟨i, w.nextBuffer⟩ : SendInfo) ≠ q := by
      rintro rfl
      simp only at hq
      omega
    simp only [pushed, sent, World.pushWritePackets, List.count_append, count_cons_eq, List.count_nil, hne, if_false]
    omega

end Laws

/-- **Conservation.** The laws of the queues, for every socket and block. -/
structure Conserved (w : World) : Prop where
  socket : ∀ s, SocketLaw w s
  packet : ∀ p, PacketLaw w p
  send : ∀ q, SendLaw w q

theorem conserved_init (processType processId : Nat) : Conserved (init processType processId) := by
  constructor
  · intro s
    constructor <;> rfl
  · intro p
    constructor
    · rfl
    · exact Nat.zero_le 1
    · intro _
      rfl
    · intro packets hin
      cases hin
  · intro q
    constructor
    · rfl
    · exact Nat.zero_le 1
    · intro _
      rfl

theorem Conserved.update {c : Choice} {w w' : World} (h : Conserved w) (hstep : Updated c w w') :
    Conserved w' :=
  ⟨fun s => (h.socket s).update hstep, fun p => (h.packet p).update hstep, fun q => (h.send q).update hstep⟩

theorem Conserved.doLoop {w w' : World} (h : Conserved w) (hstep : Looped w w') : Conserved w' :=
  ⟨fun s => (h.socket s).doLoop hstep, fun p => (h.packet p).doLoop hstep, fun q => (h.send q).doLoop hstep⟩

/-- The laws read neither `m_active_flag` nor what leads to `m_sockets`. -/
theorem Conserved.unread {w : World} (h : Conserved w) (inactive newSockets : List Nat) (index : Nat)
    (kicks : List Nat) :
    Conserved
      { w with
        inactive := inactive
        newSockets := newSockets
        sequenceIndex := index
        serviceKickSockets := kicks } :=
  { socket := fun s => ⟨(h.socket s).deleted_eq, (h.socket s).closed_eq⟩
    packet := fun p =>
      ⟨(h.packet p).handled_eq, (h.packet p).unpacked_le, (h.packet p).unpacked_fresh, (h.packet p).unpacked_pos⟩
    send := fun q => ⟨(h.send q).sent_eq, (h.send q).pushed_le, (h.send q).pushed_fresh⟩ }

/-- Every step that the two managers share keeps the laws. -/
theorem Conserved.act {w w' : World} {a : Action} (h : Conserved w) (hstep : w.act a = some w') :
    Conserved w' := by
  cases a with
  | update c => exact h.update (update_cases hstep)
  | doLoop =>
      cases hstep
      exact h.doLoop (doLoop_cases w)
  | pushWritePackets i =>
      cases hstep
      exact
        { socket := fun s => ⟨(h.socket s).deleted_eq, (h.socket s).closed_eq⟩
          packet := fun p =>
            ⟨(h.packet p).handled_eq, (h.packet p).unpacked_le, (h.packet p).unpacked_fresh,
              (h.packet p).unpacked_pos⟩
          send := fun q => (h.send q).pushWritePackets i }
  | kickSocket i =>
      cases hstep
      exact h.unread w.inactive w.newSockets w.sequenceIndex (w.serviceKickSockets ++ [i])

/-- A callback is in no queue. -/
theorem Conserved.callback {w : World} (h : Conserved w) (s : Nat) : Conserved (w.log (.callback s)) := by
  constructor
  · intro x
    obtain ⟨hdel, hclose⟩ := h.socket x
    constructor
    · simpa [deleted, closed, log] using hdel
    · simpa [closed, log] using hclose
  · intro p
    obtain ⟨hhandle, hle, hfresh, hpos⟩ := h.packet p
    constructor
    · simpa [handled, log] using hhandle
    · simpa [unpacked, handled, log] using hle
    · simpa [unpacked, handled, log] using hfresh
    · simpa [unpacked, handled, log] using hpos
  · intro q
    obtain ⟨hsent, hle, hfresh⟩ := h.send q
    constructor
    · simpa [sent, log] using hsent
    · simpa [pushed, sent, log] using hle
    · simpa [pushed, sent, log] using hfresh

theorem Conserved.delSocket {w : World} (h : Conserved w) (s : Nat) : Conserved (w.delSocket s) := by
  constructor
  · intro x
    exact (h.socket x).delSocket s
  · intro p
    obtain ⟨hhandle, hle, hfresh, hpos⟩ := h.packet p
    constructor
    · simpa [handled, World.delSocket] using hhandle
    · simpa [unpacked, handled, World.delSocket] using hle
    · simpa [unpacked, handled, World.delSocket] using hfresh
    · simpa [unpacked, handled, World.delSocket] using hpos
  · intro q
    obtain ⟨hsent, hle, hfresh⟩ := h.send q
    constructor
    · simpa [sent, World.delSocket] using hsent
    · simpa [pushed, sent, World.delSocket] using hle
    · simpa [pushed, sent, World.delSocket] using hfresh

end World

end Mowang
