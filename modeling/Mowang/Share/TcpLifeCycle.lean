import Mowang.Share.SocketManager

/-!
# `Share.TcpLifeCycle` — the life of a TCP socket and of its blocks

The net thread of `tcp_manager` runs the libevent callbacks and then `update`; the logic thread runs
`do_loop`. A socket is named in one queue at a time (`SocketPlace`), and its packets run ahead of its
deletion through both swaps (`PacketPlace`). With the conservation laws of `Share.SocketManager` these
say, at each event, what has happened before it (`Allowed`).

## Contents
- `TcpLabel`, `tcpStep`.
- `LifeCycle`: the order and the number of the events of one run.
- `SocketPlace`, `PacketPlace`, `Inv`, and what each step preserves.
- `tcp_life_cycle`.
-/

namespace Mowang

namespace World

/-! ## The callbacks of `tcp_manager` -/

/-- `gen_socket_index`. -/
def genSocketIndex (w : World) : World := { w with sequenceIndex := w.sequenceIndex + 1 }

def onAccept (w : World) : World :=
  { w.genSocketIndex with newSockets := w.newSockets ++ [w.sequenceIndex + 1] }

/-- `OnReadEvent`; `ok` is false when the event is no `EV_READ`, or `socket->on_read()` fails. -/
def onRead (w : World) (s : Nat) (ok overflow : Bool) : World :=
  if s ∈ w.inactive then w.log (.callback s)
  else if ok then (w.log (.callback s)).deactivate s overflow
  else ((w.log (.callback s)).deactivate s overflow).delSocket s

/-- `OnWriteEvent`. -/
def onWrite (w : World) (s : Nat) (ok overflow : Bool) : World :=
  if ok then (w.log (.callback s)).deactivate s overflow
  else ((w.log (.callback s)).deactivate s overflow).delSocket s

/-- `start_connect`, once the connection is up. -/
def startConnect (w : World) : World := w.genSocketIndex.addSocket (w.sequenceIndex + 1)

end World

/-- One step of the net thread, of the logic thread or of `start_connect`. -/
inductive TcpLabel where
  | onAccept
  | onRead (s : Nat) (ok overflow : Bool)
  | onWrite (s : Nat) (ok overflow : Bool)
  | startConnect
  | act (a : Action)

/-- The event loop runs between two `update`; the read and write events of a socket are registered by
    `add_socket` and removed by `del_socket`. -/
def tcpStep (w : World) : TcpLabel → Option World
  | .onAccept              => if w.phase = .poll then some w.onAccept else none
  | .onRead s ok overflow  => if w.phase = .poll ∧ s ∈ w.sockets then some (w.onRead s ok overflow) else none
  | .onWrite s ok overflow => if w.phase = .poll ∧ s ∈ w.sockets then some (w.onWrite s ok overflow) else none
  | .startConnect          => some w.startConnect
  | .act a                 => w.act a

/-! ## What a run may do -/

open SocketEvent

/-- **The life cycle.** `trace` is the newest event first: in `newer ++ e :: older`, `older` is what
    happened before `e`. -/
structure LifeCycle (trace : List SocketEvent) : Prop where
  init_once : ∀ s, trace.count (handleInit s) ≤ 1
  init_first : ∀ newer older p, trace = newer ++ handlePacket p :: older → handleInit p.socket ∈ older
  close_once : ∀ s, trace.count (handleClose s) ≤ 1
  close_last : ∀ newer older s p, trace = newer ++ handleClose s :: older → p.socket = s → handlePacket p ∉ newer
  release_once : ∀ s, trace.count (release s) ≤ 1
  release_closed : ∀ newer older s, trace = newer ++ release s :: older → handleClose s ∈ older
  /-- Every packet of a released socket was handled before, and none is received after. -/
  release_handled : ∀ newer older s, trace = newer ++ release s :: older →
    (∀ packets p, unpack packets ∈ older → p ∈ packets → p.socket = s → handlePacket p ∈ older) ∧
    (∀ packets p, unpack packets ∈ newer → p ∈ packets → p.socket ≠ s) ∧
    callback s ∉ newer
  freeRecv_once : ∀ p, trace.count (freeRecv p) ≤ 1
  freeRecv_handled : ∀ newer older p, trace = newer ++ freeRecv p :: older → handlePacket p ∈ older
  freeSend_once : ∀ q, trace.count (freeSend q) ≤ 1
  freeSend_sent : ∀ newer older q, trace = newer ++ freeSend q :: older → write q ∈ older ∨ drop q ∈ older

/-- When an event may happen, after the events of `trace`. -/
def Allowed : SocketEvent → List SocketEvent → Prop
  | unpack packets, trace => ∀ p ∈ packets, release p.socket ∉ trace
  | handleInit s, trace   => handleInit s ∉ trace
  | handlePacket p, trace => handleInit p.socket ∈ trace ∧ handleClose p.socket ∉ trace
  | handleClose s, trace  => handleClose s ∉ trace
  | delSocket s, trace    => delSocket s ∉ trace
  | release s, trace      =>
      release s ∉ trace ∧ handleClose s ∈ trace ∧
      ∀ packets p, unpack packets ∈ trace → p ∈ packets → p.socket = s → handlePacket p ∈ trace
  | callback s, trace     => release s ∉ trace
  | freeRecv p, trace     => freeRecv p ∉ trace ∧ handlePacket p ∈ trace
  | write _, _            => True
  | drop _, _             => True
  | freeSend q, trace     => freeSend q ∉ trace ∧ (write q ∈ trace ∨ drop q ∈ trace)

/-- Events that are all allowed follow the life cycle. -/
theorem lifeCycle_of_guarded {trace : List SocketEvent} (h : Guarded Allowed trace) : LifeCycle trace := by
  constructor
  · intro s
    exact h.count_le_one fun _ hok => hok
  · rintro newer older p rfl
    exact h.before.1
  · intro s
    exact h.count_le_one fun _ hok => hok
  · rintro newer older s p rfl rfl
    apply h.not_after
    intro trace hok
    exact hok.2
  · intro s
    exact h.count_le_one fun _ hok => hok.1
  · rintro newer older s rfl
    exact h.before.2.1
  · rintro newer older s rfl
    refine ⟨h.before.2.2, ?_, h.not_after fun _ hok => hok⟩
    rintro packets p hin hp rfl
    have hnot : unpack packets ∉ newer := by
      apply h.not_after
      intro trace hok
      exact hok p hp
    exact hnot hin
  · intro p
    exact h.count_le_one fun _ hok => hok.1
  · rintro newer older p rfl
    exact h.before.2
  · intro q
    exact h.count_le_one fun _ hok => hok.1
  · rintro newer older q rfl
    exact h.before.2

/-! ## Where a socket is -/

namespace World

/-- The sockets that `handle_new_socket` has still to add. -/
def awaiting (w : World) : List Nat :=
  match w.phase with
  | .newSocket todo => todo
  | _               => w.newSockets

/-- How often `s` is named by the queues that lead to `m_sockets`, by `m_sockets`, or past it. -/
def placed (w : World) (s : Nat) : Nat :=
  w.awaiting.count s + w.sockets.count s + w.deleted s

/-- A socket is in one place at a time, the vectors of `handle_unpacket` name sockets of `m_sockets`, and
    whatever was added gets `handle_init` from the one queue that leads there. -/
structure SocketPlace (w : World) (s : Nat) : Prop where
  placed_le : w.placed s ≤ 1
  placed_fresh : w.sequenceIndex < s → w.placed s = 0
  closing_le : w.phase.visiting.count s + w.phase.closing.count s ≤ w.sockets.count s
  init_eq : w.trace.count (handleInit s) + w.waitInitSockets.count s + w.loop.locals.addSockets.count s =
    w.sockets.count s + w.deleted s

/-- The packets that are still to be handled belong to sockets whose `handle_close` is still to come,
    and whose `handle_init` is not. -/
structure PacketPlace (w : World) (p : RecvInfo) : Prop where
  read_open : p ∈ w.readPackets → 0 < w.sockets.count p.socket + w.waitDeleteSockets.count p.socket
  todo_open : p ∈ w.loop.locals.readTodo →
    0 < w.sockets.count p.socket + w.waitDeleteSockets.count p.socket + w.loop.locals.delTodo.count p.socket
  todo_init : p ∈ w.loop.locals.readTodo → w.waitInitSockets.count p.socket = 0

structure Inv (w : World) : Prop where
  conserved : Conserved w
  socket : ∀ s, SocketPlace w s
  packet : ∀ p, PacketPlace w p
  guarded : Guarded Allowed w.trace

theorem count_erase_eq (a b : Nat) (l : List Nat) :
    (l.erase b).count a = l.count a - if b = a then 1 else 0 := by
  simp [List.count_erase]

theorem le_count_of_mem {a b : Nat} {l : List Nat} (h : b ∈ l) : (if b = a then 1 else 0) ≤ l.count a := by
  split
  · subst b
    exact List.count_pos_iff.mpr h
  · exact Nat.zero_le _

section Places

variable {c : Choice} {w w' : World} {s : Nat} {p : RecvInfo}

/-- Deleting a socket of `m_sockets` moves it from there to `m_wait_delete_sockets`. -/
theorem placed_delSocket {x : Nat} (hx : x ∈ w.sockets) (s : Nat) :
    (w.delSocket x).sockets.count s + (w.delSocket x).deleted s = w.sockets.count s + w.deleted s := by
  have hle : (if x = s then 1 else 0) ≤ w.sockets.count s := le_count_of_mem hx
  simp only [deleted, closed, World.delSocket, List.count_append, count_cons_eq, List.count_nil, count_erase_eq,
    reduceCtorEq, if_false]
  omega

theorem SocketPlace.delSocket {x : Nat} (h : SocketPlace w s) (hx : x ∈ w.sockets)
    (hclosing : w.phase.visiting = [] ∧ w.phase.closing = []) : SocketPlace (w.delSocket x) s := by
  have hplaced := placed_delSocket hx s
  obtain ⟨hle, hfresh, _, hinit⟩ := h
  have hsame : (w.delSocket x).placed s = w.placed s := by
    show w.awaiting.count s + _ + _ = _
    unfold placed
    omega
  constructor
  · rwa [hsame]
  · rwa [hsame]
  · show w.phase.visiting.count s + w.phase.closing.count s ≤ _
    rw [hclosing.1, hclosing.2]
    exact Nat.zero_le _
  · rw [hplaced, ← hinit]
    simp only [World.delSocket, count_cons_eq, reduceCtorEq, if_false, Nat.add_zero]

theorem SocketPlace.update (h : SocketPlace w s) (hstep : Updated c w w') : SocketPlace w' s := by
  cases hstep with
  | walk horder hphase =>
      have hcount := horder.count_eq s
      obtain ⟨hle, hfresh, hclosing, hinit⟩ := h
      simp only [placed, awaiting, deleted, closed, hphase, UpdatePhase.releasing, List.count_nil]
        at hle hfresh hinit
      constructor <;>
        simp only [placed, awaiting, deleted, closed, UpdatePhase.releasing, UpdatePhase.visiting,
          UpdatePhase.closing, List.count_nil] <;>
        omega
  | @visit x todo del hs hphase =>
      have hdel : (if c.inactive then del ++ [x] else del).count s ≤ del.count s + if x = s then 1 else 0 := by
        split
        · simp [List.count_append, count_cons_eq]
        · exact Nat.le_add_right _ _
      obtain ⟨hle, hfresh, hclosing, hinit⟩ := h
      simp only [placed, awaiting, deleted, closed, hphase, UpdatePhase.releasing, UpdatePhase.visiting,
        UpdatePhase.closing, count_cons_eq, List.count_nil] at hle hfresh hclosing hinit
      constructor <;>
        simp only [placed, awaiting, deleted, closed, UpdatePhase.releasing, UpdatePhase.visiting,
          UpdatePhase.closing, count_cons_eq, List.count_nil, reduceCtorEq, if_false] <;>
        omega
  | kick hs hphase =>
      have hnone : w.phase.visiting = [] ∧ w.phase.closing = [] := by rw [hphase]; exact ⟨rfl, rfl⟩
      obtain ⟨hle, hfresh, _, hinit⟩ := h.delSocket hs hnone
      simp only [placed, awaiting, deleted, closed, World.delSocket, hphase, UpdatePhase.releasing]
        at hle hfresh hinit
      exact ⟨hle, hfresh, Nat.zero_le _, hinit⟩
  | _ =>
      rename_i hphase
      obtain ⟨hle, hfresh, hclosing, hinit⟩ := h
      simp only [placed, awaiting, deleted, closed, hphase, UpdatePhase.releasing, UpdatePhase.visiting,
        UpdatePhase.closing, count_cons_eq, List.count_nil] at hle hfresh hclosing hinit
      constructor <;>
        simp only [placed, awaiting, deleted, closed, World.delSocket, UpdatePhase.releasing,
          UpdatePhase.visiting, UpdatePhase.closing, List.count_append, count_cons_eq, List.count_nil,
          count_erase_eq, SocketEvent.release.injEq, reduceCtorEq, if_false] <;>
        omega

theorem SocketPlace.doLoop (h : SocketPlace w s) (hstep : Looped w w') : SocketPlace w' s := by
  obtain ⟨hle, hfresh, hclosing, hinit⟩ := h
  cases hstep <;> rename_i hloop <;>
    simp only [placed, awaiting, deleted, closed, hloop, LoopPhase.locals, count_cons_eq, List.count_nil]
      at hle hfresh hinit <;>
    constructor <;>
    simp only [placed, awaiting, deleted, closed, World.swapNet2Logic, World.swapLogin2Net, LoopPhase.locals,
      List.count_append, count_cons_eq, List.count_nil, SocketEvent.handleInit.injEq, reduceCtorEq, if_false] <;>
    omega

/-- Where a packet waits does not change when its socket is deleted or another one added. -/
theorem PacketPlace.update (h : PacketPlace w p) (hs : SocketPlace w p.socket) (hstep : Updated c w w') :
    PacketPlace w' p := by
  obtain ⟨hread, htodo, hwait⟩ := h
  cases hstep with
  | @add x todo hx hphase =>
      have hplaced := hs.placed_le
      simp only [placed, awaiting, deleted, hphase, count_cons_eq] at hplaced
      constructor
      · intro hp
        have := hread hp
        simp only [List.count_append]
        omega
      · intro hp
        have := htodo hp
        simp only [List.count_append]
        omega
      · intro hp
        have := htodo hp
        have := hwait hp
        simp only [List.count_append, count_cons_eq, List.count_nil]
        omega
  | @visit x todo del hx hphase =>
      have hclosing := hs.closing_le
      simp only [hphase, UpdatePhase.visiting, count_cons_eq] at hclosing
      refine ⟨?_, htodo, hwait⟩
      intro hp
      rcases List.mem_append.mp hp with hp | hp
      · exact hread hp
      · have hsocket := (mem_unpackPackets.mp hp).1
        simp only [hsocket, if_true] at hclosing ⊢
        omega
  | _ =>
      constructor <;> intro hp <;>
        simp only [World.delSocket, List.count_append, count_cons_eq, List.count_nil, count_erase_eq]
      · have := hread hp
        omega
      · have := htodo hp
        omega
      · exact hwait hp

theorem PacketPlace.doLoop (h : PacketPlace w p) (hstep : Looped w w') : PacketPlace w' p := by
  obtain ⟨hread, htodo, hwait⟩ := h
  cases hstep with
  | swapNet2Logic hloop =>
      constructor
      · intro hp
        cases hp
      · intro hp
        simpa [World.swapNet2Logic, LoopPhase.locals] using hread hp
      · intro _
        rfl
  | swapLogin2Net hloop =>
      refine ⟨hread, ?_, ?_⟩
      · intro hp
        cases hp
      · intro hp
        cases hp
  | handle hloop =>
      simp only [hloop, LoopPhase.locals] at htodo hwait
      exact ⟨hread, fun hp => htodo (List.mem_cons_of_mem _ hp), fun hp => hwait (List.mem_cons_of_mem _ hp)⟩
  | handleClose hloop =>
      refine ⟨hread, ?_, ?_⟩
      · intro hp
        cases hp
      · intro hp
        cases hp
  | _ =>
      rename_i hloop
      simp only [hloop, LoopPhase.locals] at htodo hwait
      exact ⟨hread, htodo, hwait⟩

end Places

/-! ## What has happened before an event -/

section Events

variable {c : Choice} {w w' : World} {s : Nat} {p : RecvInfo}

/-- A socket of `m_sockets` was not deleted, so it was not released either. -/
theorem Inv.open_socket (h : Inv w) (hs : s ∈ w.sockets) :
    SocketEvent.delSocket s ∉ w.trace ∧ release s ∉ w.trace := by
  have hcount := List.count_pos_iff.mpr hs
  have hle := (h.socket s).placed_le
  have hdel := (h.conserved.socket s).deleted_eq
  simp only [placed, deleted, closed] at hle hdel
  constructor
  · rw [← List.count_eq_zero]
    omega
  · rw [← List.count_eq_zero]
    omega

/-- A packet that left `m_read_packets` and the logic loop's vector was handled. -/
theorem Inv.handled_of_gone (h : Inv w) {packets : List RecvInfo} (hin : unpack packets ∈ w.trace)
    (hp : p ∈ packets) (hread : p ∉ w.readPackets) (htodo : p ∉ w.loop.locals.readTodo) :
    handlePacket p ∈ w.trace := by
  have hlaw := h.conserved.packet p
  have hpos := hlaw.unpacked_pos packets hin hp
  unfold unpacked at hpos
  rw [List.count_eq_zero.mpr hread, List.count_eq_zero.mpr htodo, ← hlaw.handled_eq] at hpos
  apply List.count_pos_iff.mp
  omega

/-- The queue that `handle_release_socket` walks names sockets that are nowhere else, whose
    `handle_close` was called and whose packets were all handled. -/
theorem Inv.allowed_release (h : Inv w) {sockets : List Nat} (hphase : w.phase = .releaseSocket (s :: sockets)) :
    Allowed (release s) w.trace := by
  have hle := (h.socket s).placed_le
  have hclose := (h.conserved.socket s).closed_eq
  simp only [placed, deleted, closed, hphase, UpdatePhase.releasing, count_cons_eq, if_true] at hle hclose
  refine ⟨?_, ?_, ?_⟩
  · rw [← List.count_eq_zero]
    omega
  · apply List.count_pos_iff.mp
    omega
  · rintro packets p hin hp rfl
    apply h.handled_of_gone hin hp
    · intro hread
      have hopen := (h.packet p).read_open hread
      omega
    · intro htodo
      have hopen := (h.packet p).todo_open htodo
      omega

theorem Inv.allowed_freeRecv (h : Inv w) {packets : List RecvInfo} (hphase : w.phase = .releasePacket (p :: packets)) :
    Allowed (freeRecv p) w.trace := by
  have hle := (h.conserved.packet p).unpacked_le
  have hhandle := (h.conserved.packet p).handled_eq
  simp only [unpacked, handled, hphase, UpdatePhase.freeing, count_cons_eq, if_true] at hle hhandle
  constructor
  · rw [← List.count_eq_zero]
    omega
  · apply List.count_pos_iff.mp
    omega

theorem Inv.allowed_freeSend (h : Inv w) {q : SendInfo} {l : LoopLocals} {rest : List SendInfo}
    (hloop : w.loop = .doLoop { l with finishWritePackets := q :: rest }) : Allowed (freeSend q) w.trace := by
  have hle := (h.conserved.send q).pushed_le
  have hsent := (h.conserved.send q).sent_eq
  simp only [pushed, sent, hloop, LoopPhase.locals, count_cons_eq, if_true] at hle hsent
  constructor
  · rw [← List.count_eq_zero]
    omega
  · rcases Nat.eq_zero_or_pos (w.trace.count (write q)) with hzero | hpos
    · apply Or.inr
      apply List.count_pos_iff.mp
      omega
    · exact Or.inl (List.count_pos_iff.mp hpos)

/-- A packet is handled while its socket is in `m_sockets` or on its way to `handle_close`, and after the
    loop over the new sockets. -/
theorem Inv.allowed_handle (h : Inv w) {l : LoopLocals} {rest : List RecvInfo}
    (hloop : w.loop = .doLoop { l with addSockets := [], readTodo := p :: rest }) :
    Allowed (handlePacket p) w.trace := by
  have hmem : p ∈ w.loop.locals.readTodo := by
    rw [hloop]
    exact List.mem_cons_self
  have hopen := (h.packet p).todo_open hmem
  have hwait := (h.packet p).todo_init hmem
  have hle := (h.socket p.socket).placed_le
  have hinit := (h.socket p.socket).init_eq
  have hclose := (h.conserved.socket p.socket).closed_eq
  simp only [placed, deleted, closed, hloop, LoopPhase.locals, List.count_nil] at hopen hle hinit hclose
  constructor
  · apply List.count_pos_iff.mp
    omega
  · rw [← List.count_eq_zero]
    omega

theorem Inv.guarded_update (h : Inv w) (hstep : Updated c w w') : Guarded Allowed w'.trace := by
  cases hstep with
  | @visit x todo del hx hphase =>
      refine ⟨?_, h.guarded⟩
      intro p hp
      have hclosing := (h.socket x).closing_le
      simp only [hphase, UpdatePhase.visiting, count_cons_eq, if_true] at hclosing
      rw [(mem_unpackPackets.mp hp).1]
      have hin : x ∈ w.sockets := by
        apply List.count_pos_iff.mp
        omega
      exact (h.open_socket hin).2
  | @close x del hphase =>
      have hclosing := (h.socket x).closing_le
      simp only [hphase, UpdatePhase.closing, count_cons_eq, if_true] at hclosing
      have hin : x ∈ w.sockets := by
        apply List.count_pos_iff.mp
        omega
      exact ⟨(h.open_socket hin).1, h.guarded⟩
  | kick hs hphase => exact ⟨(h.open_socket hs).1, h.guarded⟩
  | freeRecv hphase => exact ⟨h.allowed_freeRecv hphase, h.guarded⟩
  | write hphase => exact ⟨trivial, h.guarded⟩
  | drop hphase => exact ⟨trivial, h.guarded⟩
  | release hphase => exact ⟨h.allowed_release hphase, h.guarded⟩
  | _ => exact h.guarded

theorem Inv.guarded_doLoop (h : Inv w) (hstep : Looped w w') : Guarded Allowed w'.trace := by
  cases hstep with
  | swapNet2Logic hloop => exact h.guarded
  | freeSend hloop => exact ⟨h.allowed_freeSend hloop, h.guarded⟩
  | @handleInit l x rest hloop =>
      refine ⟨?_, h.guarded⟩
      have hle := (h.socket x).placed_le
      have hinit := (h.socket x).init_eq
      simp only [placed, hloop, LoopPhase.locals, count_cons_eq, if_true] at hle hinit
      show handleInit x ∉ w.trace
      rw [← List.count_eq_zero]
      omega
  | handle hloop => exact ⟨h.allowed_handle hloop, h.guarded⟩
  | @handleClose l x rest hloop =>
      refine ⟨?_, h.guarded⟩
      have hle := (h.socket x).placed_le
      have hclose := (h.conserved.socket x).closed_eq
      simp only [placed, deleted, closed, hloop, LoopPhase.locals, count_cons_eq, if_true] at hle hclose
      show handleClose x ∉ w.trace
      rw [← List.count_eq_zero]
      omega
  | swapLogin2Net hloop => exact h.guarded

end Events

/-! ## Every step keeps the invariant -/

theorem inv_init (processType processId : Nat) : Inv (init processType processId) := by
  refine ⟨conserved_init processType processId, ?_, ?_, trivial⟩
  · intro s
    constructor
    · exact Nat.zero_le 1
    · intro _
      rfl
    · exact Nat.le_refl 0
    · rfl
  · intro p
    constructor <;> intro hp <;> cases hp

section Steps

variable {w w' : World} {s : Nat}

/-- The invariant reads neither `m_active_flag` nor the kick requests. -/
theorem Inv.unread (h : Inv w) (inactive kicks : List Nat) :
    Inv { w with inactive := inactive, serviceKickSockets := kicks } :=
  { conserved := h.conserved.unread inactive w.newSockets w.sequenceIndex kicks
    socket := fun s =>
      ⟨(h.socket s).placed_le, (h.socket s).placed_fresh, (h.socket s).closing_le, (h.socket s).init_eq⟩
    packet := fun p => ⟨(h.packet p).read_open, (h.packet p).todo_open, (h.packet p).todo_init⟩
    guarded := h.guarded }

theorem Inv.act {a : Action} (h : Inv w) (hstep : w.act a = some w') : Inv w' := by
  have hconserved := h.conserved.act hstep
  cases a with
  | update c =>
      have hcases := update_cases hstep
      exact
        { conserved := hconserved
          socket := fun s => (h.socket s).update hcases
          packet := fun p => (h.packet p).update (h.socket p.socket) hcases
          guarded := h.guarded_update hcases }
  | doLoop =>
      cases hstep
      have hcases := doLoop_cases w
      exact
        { conserved := hconserved
          socket := fun s => (h.socket s).doLoop hcases
          packet := fun p => (h.packet p).doLoop hcases
          guarded := h.guarded_doLoop hcases }
  | pushWritePackets i =>
      cases hstep
      exact
        { conserved := hconserved
          socket := fun s =>
            ⟨(h.socket s).placed_le, (h.socket s).placed_fresh, (h.socket s).closing_le, (h.socket s).init_eq⟩
          packet := fun p => ⟨(h.packet p).read_open, (h.packet p).todo_open, (h.packet p).todo_init⟩
          guarded := h.guarded }
  | kickSocket i =>
      cases hstep
      exact h.unread w.inactive (w.serviceKickSockets ++ [i])

theorem Inv.callback (h : Inv w) (hs : s ∈ w.sockets) : Inv (w.log (.callback s)) := by
  refine ⟨h.conserved.callback s, ?_, ?_, (h.open_socket hs).2, h.guarded⟩
  · intro x
    obtain ⟨hle, hfresh, hclosing, hinit⟩ := h.socket x
    constructor
    · simpa [placed, awaiting, deleted, closed, log] using hle
    · simpa [placed, awaiting, deleted, closed, log] using hfresh
    · exact hclosing
    · simpa [deleted, closed, log] using hinit
  · intro p
    exact ⟨(h.packet p).read_open, (h.packet p).todo_open, (h.packet p).todo_init⟩

theorem Inv.deactivate (h : Inv w) (s : Nat) (flag : Bool) : Inv (w.deactivate s flag) :=
  h.unread (if flag then s :: w.inactive else w.inactive) w.serviceKickSockets

/-- Closing a socket from a callback. -/
theorem Inv.delSocket (h : Inv w) (hs : s ∈ w.sockets) (hphase : w.phase = .poll) : Inv (w.delSocket s) := by
  have hnone : w.phase.visiting = [] ∧ w.phase.closing = [] := by
    rw [hphase]
    exact ⟨rfl, rfl⟩
  refine ⟨h.conserved.delSocket s, fun x => (h.socket x).delSocket hs hnone, ?_, (h.open_socket hs).1, h.guarded⟩
  intro p
  obtain ⟨hread, htodo, hwait⟩ := h.packet p
  constructor <;> intro hp <;>
    simp only [World.delSocket, List.count_append, count_cons_eq, List.count_nil, count_erase_eq]
  · have hopen := hread hp
    omega
  · have hopen := htodo hp
    omega
  · exact hwait hp

theorem Inv.onRead (h : Inv w) (hs : s ∈ w.sockets) (hphase : w.phase = .poll) (ok overflow : Bool) :
    Inv (w.onRead s ok overflow) := by
  unfold World.onRead
  split
  · exact h.callback hs
  · split
    · exact (h.callback hs).deactivate s overflow
    · exact ((h.callback hs).deactivate s overflow).delSocket hs hphase

theorem Inv.onWrite (h : Inv w) (hs : s ∈ w.sockets) (hphase : w.phase = .poll) (ok overflow : Bool) :
    Inv (w.onWrite s ok overflow) := by
  unfold World.onWrite
  split
  · exact (h.callback hs).deactivate s overflow
  · exact ((h.callback hs).deactivate s overflow).delSocket hs hphase

/-- `gen_socket_index` draws an index that is nowhere yet, so it may be placed once. -/
theorem SocketPlace.drawn (h : SocketPlace w s) (hindex : w'.sequenceIndex = w.sequenceIndex + 1)
    (hplaced : w'.placed s = w.placed s + if w.sequenceIndex + 1 = s then 1 else 0) :
    w'.placed s ≤ 1 ∧ (w'.sequenceIndex < s → w'.placed s = 0) := by
  have hle := h.placed_le
  have hfresh := h.placed_fresh
  rw [hplaced]
  constructor
  · split <;> omega
  · intro hs
    rw [hindex] at hs
    rw [if_neg (Nat.ne_of_lt hs)]
    exact hfresh (Nat.lt_of_succ_lt hs)

theorem Inv.onAccept (h : Inv w) (hphase : w.phase = .poll) : Inv w.onAccept := by
  refine ⟨h.conserved.unread w.inactive _ _ w.serviceKickSockets, ?_, ?_, h.guarded⟩
  · intro s
    have hplaced : w.onAccept.placed s = w.placed s + if w.sequenceIndex + 1 = s then 1 else 0 := by
      simp only [placed, awaiting, deleted, closed, World.onAccept, genSocketIndex, hphase, List.count_append,
        count_cons_eq, List.count_nil]
      omega
    obtain ⟨hle, hfresh⟩ := (h.socket s).drawn rfl hplaced
    exact ⟨hle, hfresh, (h.socket s).closing_le, (h.socket s).init_eq⟩
  · intro p
    exact ⟨(h.packet p).read_open, (h.packet p).todo_open, (h.packet p).todo_init⟩

theorem Inv.startConnect (h : Inv w) : Inv w.startConnect := by
  have hnew := (h.socket (w.sequenceIndex + 1)).placed_fresh (Nat.lt_succ_self _)
  have hnot : w.sequenceIndex + 1 ∉ w.sockets := by
    rw [← List.count_eq_zero]
    unfold placed at hnew
    omega
  have hadd : w.startConnect =
      { w with
        sequenceIndex := w.sequenceIndex + 1
        sockets := w.sockets ++ [w.sequenceIndex + 1]
        waitInitSockets := w.waitInitSockets ++ [w.sequenceIndex + 1] } := by
    unfold World.startConnect addSocket
    exact if_neg hnot
  rw [hadd]
  refine ⟨?_, ?_, ?_, h.guarded⟩
  · exact
      { socket := fun s => ⟨(h.conserved.socket s).deleted_eq, (h.conserved.socket s).closed_eq⟩
        packet := fun p =>
          ⟨(h.conserved.packet p).handled_eq, (h.conserved.packet p).unpacked_le,
            (h.conserved.packet p).unpacked_fresh, (h.conserved.packet p).unpacked_pos⟩
        send := fun q =>
          ⟨(h.conserved.send q).sent_eq, (h.conserved.send q).pushed_le, (h.conserved.send q).pushed_fresh⟩ }
  · intro s
    have hplaced : w.startConnect.placed s = w.placed s + if w.sequenceIndex + 1 = s then 1 else 0 := by
      rw [hadd]
      simp only [placed, awaiting, deleted, closed, List.count_append, count_cons_eq, List.count_nil]
      omega
    rw [hadd] at hplaced
    obtain ⟨hle, hfresh⟩ := (h.socket s).drawn rfl hplaced
    refine ⟨hle, hfresh, ?_, ?_⟩
    · rw [List.count_append]
      exact Nat.le_add_right_of_le (h.socket s).closing_le
    · have hinit := (h.socket s).init_eq
      simp only [deleted, closed, List.count_append, count_cons_eq, List.count_nil] at hinit ⊢
      omega
  · intro p
    obtain ⟨hread, htodo, hwait⟩ := h.packet p
    constructor
    · intro hp
      have hopen := hread hp
      simp only [List.count_append]
      omega
    · intro hp
      have hopen := htodo hp
      simp only [List.count_append]
      omega
    · intro hp
      -- the new socket is not the packet's, which is in `m_sockets` or past it
      have hopen := htodo hp
      have hzero := hwait hp
      have hne : w.sequenceIndex + 1 ≠ p.socket := by
        intro heq
        rw [← heq] at hopen
        simp only [placed, deleted] at hnew
        omega
      simp only [List.count_append, count_cons_eq, List.count_nil, hne, if_false]
      omega

/-- Every step of the net thread, of the logic thread or of `start_connect` keeps the invariant. -/
theorem Inv.step {l : TcpLabel} (h : Inv w) (hstep : tcpStep w l = some w') : Inv w' := by
  cases l with
  | onAccept =>
      obtain ⟨hphase, rfl⟩ := Option.ite_some_none_eq_some.mp hstep
      exact h.onAccept hphase
  | onRead s ok overflow =>
      obtain ⟨⟨hphase, hs⟩, rfl⟩ := Option.ite_some_none_eq_some.mp hstep
      exact h.onRead hs hphase ok overflow
  | onWrite s ok overflow =>
      obtain ⟨⟨hphase, hs⟩, rfl⟩ := Option.ite_some_none_eq_some.mp hstep
      exact h.onWrite hs hphase ok overflow
  | startConnect =>
      cases hstep
      exact h.startConnect
  | act a => exact h.act hstep

end Steps

end World

/-- **The life cycle of TCP sockets and blocks.** In every interleaving of the two loops, with any kick
    requests, the events of a run follow `LifeCycle`. -/
theorem tcp_life_cycle (processType processId : Nat) {labels : List TcpLabel} {w : World}
    (hrun : run tcpStep (World.init processType processId) labels = some w) : LifeCycle w.trace := by
  have hinv : World.Inv w := run_invariant World.Inv.step (World.inv_init processType processId) hrun
  exact lifeCycle_of_guarded hinv.guarded

/-- A socket that is accepted, sends one packet and then fails a read. -/
def acceptedRun : List TcpLabel :=
  let net (c : World.Choice) : TcpLabel := .act (.update c)
  let logic : TcpLabel := .act .doLoop
  [.onAccept, net {}, net {}, net { order := [1] }, net { unpacked := 1 }] ++ List.replicate 7 (net {}) ++
    List.replicate 4 logic ++ [.onRead 1 false false] ++ List.replicate 3 logic ++ List.replicate 11 (net {})

theorem tcp_life_cycle_accepted :
    LifeCycle
      [release 1, freeRecv ⟨1, 0⟩, handleClose 1, delSocket 1, callback 1, handlePacket ⟨1, 0⟩, handleInit 1,
        unpack [⟨1, 0⟩]] := by
  have hrun : (run tcpStep (World.init 0 0) acceptedRun).map World.trace =
      some [release 1, freeRecv ⟨1, 0⟩, handleClose 1, delSocket 1, callback 1, handlePacket ⟨1, 0⟩, handleInit 1,
        unpack [⟨1, 0⟩]] := by decide
  obtain ⟨w, hw, htrace⟩ := Option.map_eq_some_iff.mp hrun
  rw [← htrace]
  exact tcp_life_cycle 0 0 hw

/-- A block pushed for an index that no socket has. -/
def unsentRun : List TcpLabel :=
  [.act (.pushWritePackets 7)] ++ List.replicate 2 (.act .doLoop) ++ List.replicate 8 (.act (.update {})) ++
    List.replicate 2 (.act .doLoop)

/-- Such a block goes back to its pool although no socket was written. -/
theorem unsent_block_freed :
    ¬ ∀ labels w, run tcpStep (World.init 0 0) labels = some w →
        ∀ newer older q, w.trace = newer ++ freeSend q :: older → write q ∈ older := by
  intro h
  have hrun : (run tcpStep (World.init 0 0) unsentRun).map World.trace =
      some [freeSend ⟨7, 0⟩, drop ⟨7, 0⟩] := by decide
  obtain ⟨w, hw, htrace⟩ := Option.map_eq_some_iff.mp hrun
  have hin := h unsentRun w hw [] [drop ⟨7, 0⟩] ⟨7, 0⟩ htrace
  exact absurd hin (by decide)

end Mowang
