import Mowang.Share.SocketManager

/-!
# `Share.WsLifeCycle` — the life of a web socket wrapper

`web_socket_manager` shares the phases of `update` with `tcp_manager`; its callbacks come from
websocketpp, which runs the close callback of an opened connection once, some time after either side
closed it. A wrapper is a raw pointer bound to these callbacks.

`on_client_close` queues the wrapper for deletion, and so does `handle_kick_socket` through
`web_socket_manager::del_socket`, which also asks websocketpp to close the connection. Its close callback
then runs on a wrapper that is already queued, or freed.

## Contents
- `WsWorld`, `wsStep`.
- `WrapperLifeCycle`, and the run that breaks it.
- `NoLiveKick`, the condition; `ws_life_cycle_iff`.
-/

namespace Mowang

open SocketEvent

structure WsWorld where
  manager : World
  /-- The wrappers of `start_connect` whose connection has neither opened nor failed. -/
  connecting : List Nat := []
  /-- The wrappers whose connection has opened and whose close callback has not run. -/
  opened : List Nat := []
  deriving DecidableEq

namespace WsWorld

def init (processType processId : Nat) : WsWorld := { manager := World.init processType processId }

/-- A callback bound to the wrapper `s`. -/
def call (w : WsWorld) (s : Nat) : WsWorld := { w with manager := w.manager.log (.callback s) }

def setActive (w : WsWorld) (s : Nat) (flag : Bool) : WsWorld :=
  let inactive := if flag then w.manager.inactive.filter (· ≠ s) else s :: w.manager.inactive
  { w with manager := { w.manager with inactive := inactive } }

/-- `gen_socket_index`. -/
def genSocketIndex (w : WsWorld) : WsWorld :=
  { w with manager := { w.manager with sequenceIndex := w.manager.sequenceIndex + 1 } }

/-- The connection of `s` is open, and `m_new_sockets` gets its wrapper. -/
def pushNew (w : WsWorld) (s : Nat) : WsWorld :=
  { w with
    manager := { w.manager with newSockets := w.manager.newSockets ++ [s] }
    opened := s :: w.opened }

def onAccept (w : WsWorld) : WsWorld := w.genSocketIndex.pushNew (w.manager.sequenceIndex + 1)

def startConnect (w : WsWorld) : WsWorld :=
  { w.genSocketIndex with connecting := (w.manager.sequenceIndex + 1) :: w.connecting }

def onClientOpen (w : WsWorld) (s : Nat) : WsWorld :=
  { ((w.call s).setActive s true).pushNew s with connecting := w.connecting.erase s }

def onClientFail (w : WsWorld) (s : Nat) : WsWorld := { w.call s with connecting := w.connecting.erase s }

def onClientClose (w : WsWorld) (s : Nat) : WsWorld :=
  let w' := (w.call s).setActive s false
  { w' with manager := w'.manager.delSocket s, opened := w.opened.erase s }

end WsWorld

inductive WsLabel where
  | onAccept
  | startConnect
  | onClientOpen (s : Nat)
  | onClientFail (s : Nat)
  | onMessage (s : Nat)
  | onClientClose (s : Nat)
  | act (a : Action)

/-- `m_status` is written by the callbacks only, so no step of `update` makes a wrapper inactive. -/
def Action.quiet : Action → Action
  | .update c => .update { c with inactive := false }
  | a         => a

/-- Callbacks run from `poll_one`, before the phases of `update`: open or fail for a connection that is
    being set up, messages and then the close callback for one that is open. Closing a connection is
    only a request to websocketpp, so it has no step of its own. -/
def wsStep (w : WsWorld) : WsLabel → Option WsWorld
  | .onAccept        => if w.manager.phase = .poll then some w.onAccept else none
  | .startConnect    => some w.startConnect
  | .onClientOpen s  => if w.manager.phase = .poll ∧ s ∈ w.connecting then some (w.onClientOpen s) else none
  | .onClientFail s  => if w.manager.phase = .poll ∧ s ∈ w.connecting then some (w.onClientFail s) else none
  | .onMessage s     => if w.manager.phase = .poll ∧ s ∈ w.opened then some (w.call s) else none
  | .onClientClose s => if w.manager.phase = .poll ∧ s ∈ w.opened then some (w.onClientClose s) else none
  | .act a           => (w.manager.act a.quiet).map fun m => { w with manager := m }

/-- **The life cycle of a wrapper.** `trace` is the newest event first. -/
structure WrapperLifeCycle (trace : List SocketEvent) : Prop where
  queued_once : ∀ s, trace.count (delSocket s) ≤ 1
  freed_once : ∀ s, trace.count (release s) ≤ 1
  no_callback : ∀ newer older s, trace = newer ++ release s :: older → callback s ∉ newer

/-- The kick request that the next step of `update` handles. -/
def UpdatePhase.kicking : UpdatePhase → List Nat
  | .kickSocket (s :: _) => [s]
  | _                    => []

def WsLabel.isUpdate : WsLabel → Bool
  | .act (.update _) => true
  | _                => false

/-- **The condition.** `handle_kick_socket` finds no wrapper of its request in `m_sockets`. -/
def NoLiveKick (w : WsWorld) (l : WsLabel) : Prop :=
  l.isUpdate → ∀ s ∈ w.manager.phase.kicking, s ∉ w.manager.sockets

instance (w : WsWorld) (l : WsLabel) : Decidable (NoLiveKick w l) :=
  inferInstanceAs (Decidable (l.isUpdate → ∀ s ∈ w.manager.phase.kicking, s ∉ w.manager.sockets))

/-! ## What queues a wrapper for deletion -/

namespace World

/-- The sockets that the next step of `update` passes to `del_socket`. -/
def deleting (w : World) : List Nat :=
  match w.phase with
  | .closeSocket (s :: _) => [s]
  | .kickSocket (s :: _)  => if s ∈ w.sockets then [s] else []
  | _                     => []

theorem count_delSocket_update {c : Choice} {w w' : World} (hstep : Updated c w w') (s : Nat) :
    w'.trace.count (.delSocket s) = w.trace.count (.delSocket s) + w.deleting.count s := by
  cases hstep with
  | kick hs hphase => simp [deleting, hphase, World.delSocket, count_cons_eq, hs]
  | kickUnknown hs hphase => simp [deleting, hphase, hs]
  | _ =>
      rename_i hphase
      simp [deleting, hphase, World.delSocket, count_cons_eq]

theorem count_delSocket_doLoop {w w' : World} (hstep : Looped w w') (s : Nat) :
    w'.trace.count (.delSocket s) = w.trace.count (.delSocket s) := by
  cases hstep <;> simp [World.swapNet2Logic, World.swapLogin2Net]

/-- Nothing becomes inactive in `handle_unpacket`, so its `del_sockets` stays empty. -/
theorem closing_update {c : Choice} {w w' : World} (hstep : Updated c w w') (hc : c.inactive = false)
    (h : w.phase.closing = []) : w'.phase.closing = [] := by
  cases hstep <;> rename_i hphase <;> simp [UpdatePhase.closing, hphase, hc] at h ⊢ <;> exact h

end World

namespace WsWorld

/-- How often `s` was queued for deletion, or will be by its close callback. -/
def ending (w : WsWorld) (s : Nat) : Nat :=
  w.opened.count s + w.manager.trace.count (delSocket s)

/-! ## Without a live kick, only the close callback deletes -/

/-- A callback runs on a wrapper that was not freed. -/
def Alive : SocketEvent → List SocketEvent → Prop
  | callback s, trace => release s ∉ trace
  | _, _              => True

structure Inv (w : WsWorld) : Prop where
  conserved : World.Conserved w.manager
  ending_le : ∀ s, w.connecting.count s + w.ending s ≤ 1
  ending_fresh : ∀ s, w.manager.sequenceIndex < s → w.connecting.count s + w.ending s = 0
  closing_nil : w.manager.phase.closing = []
  guarded : Guarded Alive w.manager.trace

theorem inv_init (processType processId : Nat) : Inv (init processType processId) := by
  refine ⟨World.conserved_init processType processId, ?_, ?_, rfl, trivial⟩
  · intro s
    exact Nat.zero_le 1
  · intro s _
    rfl

section Steps

variable {w w' : WsWorld} {s : Nat}

/-- What `del_socket` has not queued is not freed. -/
theorem Inv.alive (h : Inv w) (hdel : w.manager.trace.count (delSocket s) = 0) : release s ∉ w.manager.trace := by
  have hdeleted := (h.conserved.socket s).deleted_eq
  simp only [World.deleted, World.closed] at hdeleted
  rw [← List.count_eq_zero]
  omega

/-- The queue that `handle_release_socket` frees from is filled by `del_socket` only. -/
theorem Inv.wrapperLifeCycle (h : Inv w) : WrapperLifeCycle w.manager.trace := by
  have hqueued : ∀ s, w.manager.trace.count (delSocket s) ≤ 1 := by
    intro s
    have hle := h.ending_le s
    unfold ending at hle
    omega
  refine ⟨hqueued, ?_, ?_⟩
  · intro s
    have hdeleted := (h.conserved.socket s).deleted_eq
    have hle := hqueued s
    simp only [World.deleted, World.closed] at hdeleted
    omega
  · intro newer older s htrace
    have hguarded := h.guarded
    rw [htrace] at hguarded
    exact hguarded.not_after fun _ hok => hok

/-- Without a live kick, no step of `update` reaches `del_socket`. -/
theorem deleting_eq_nil {c : World.Choice} (hclosing : w.manager.phase.closing = [])
    (hP : NoLiveKick w (.act (.update c))) : w.manager.deleting = [] := by
  unfold World.deleting
  split
  · rename_i hphase
    simp [UpdatePhase.closing, hphase] at hclosing
  · rename_i hphase
    apply if_neg
    apply hP rfl
    rw [hphase]
    exact List.mem_singleton_self _
  · rfl

theorem Inv.update {c : World.Choice} {m : World} (h : Inv w) (hP : NoLiveKick w (.act (.update c)))
    (hstep : World.Updated { c with inactive := false } w.manager m) : Inv { w with manager := m } := by
  have hcount := World.count_delSocket_update hstep
  rw [deleting_eq_nil h.closing_nil hP] at hcount
  have hindex : m.sequenceIndex = w.manager.sequenceIndex := by cases hstep <;> rfl
  have hending : ∀ s, ending { w with manager := m } s = w.ending s := by
    intro s
    exact congrArg (w.opened.count s + ·) (hcount s)
  refine ⟨h.conserved.update hstep, ?_, ?_, World.closing_update hstep rfl h.closing_nil, ?_⟩
  · intro s
    rw [hending]
    exact h.ending_le s
  · intro s hs
    rw [hending]
    exact h.ending_fresh s (hindex ▸ hs)
  · cases hstep <;> first | exact h.guarded | exact ⟨trivial, h.guarded⟩

theorem Inv.doLoop {m : World} (h : Inv w) (hstep : World.Looped w.manager m) : Inv { w with manager := m } := by
  have hcount := World.count_delSocket_doLoop hstep
  have hindex : m.sequenceIndex = w.manager.sequenceIndex := by cases hstep <;> rfl
  have hphase : m.phase = w.manager.phase := by cases hstep <;> rfl
  have hending : ∀ s, ending { w with manager := m } s = w.ending s := by
    intro s
    exact congrArg (w.opened.count s + ·) (hcount s)
  refine ⟨h.conserved.doLoop hstep, ?_, ?_, ?_, ?_⟩
  · intro s
    rw [hending]
    exact h.ending_le s
  · intro s hs
    rw [hending]
    exact h.ending_fresh s (hindex ▸ hs)
  · show m.phase.closing = []
    rw [hphase]
    exact h.closing_nil
  · cases hstep <;> first | exact h.guarded | exact ⟨trivial, h.guarded⟩

theorem Inv.act {a : Action} {m : World} (h : Inv w) (hP : NoLiveKick w (.act a))
    (hstep : w.manager.act a.quiet = some m) : Inv { w with manager := m } := by
  have hconserved := h.conserved.act hstep
  cases a with
  | update c => exact h.update hP (World.update_cases hstep)
  | doLoop =>
      cases hstep
      exact h.doLoop (World.doLoop_cases w.manager)
  | pushWritePackets i =>
      cases hstep
      exact ⟨hconserved, h.ending_le, h.ending_fresh, h.closing_nil, h.guarded⟩
  | kickSocket i =>
      cases hstep
      exact ⟨hconserved, h.ending_le, h.ending_fresh, h.closing_nil, h.guarded⟩

theorem Inv.call (h : Inv w) (hs : w.manager.trace.count (delSocket s) = 0) : Inv (w.call s) := by
  refine ⟨h.conserved.callback s, ?_, ?_, h.closing_nil, h.alive hs, h.guarded⟩
  · intro x
    simpa [WsWorld.call, ending, World.log] using h.ending_le x
  · intro x
    simpa [WsWorld.call, ending, World.log] using h.ending_fresh x

theorem Inv.setActive (h : Inv w) (s : Nat) (flag : Bool) : Inv (w.setActive s flag) :=
  ⟨h.conserved.unread _ w.manager.newSockets w.manager.sequenceIndex w.manager.serviceKickSockets, h.ending_le,
    h.ending_fresh, h.closing_nil, h.guarded⟩

/-- A wrapper whose connection is opening or open has not been queued. -/
theorem Inv.not_queued (h : Inv w) (hs : s ∈ w.connecting ∨ s ∈ w.opened) :
    w.manager.trace.count (delSocket s) = 0 := by
  have hle := h.ending_le s
  unfold ending at hle
  rcases hs with hs | hs
  · have hpos := List.count_pos_iff.mpr hs
    omega
  · have hpos := List.count_pos_iff.mpr hs
    omega

theorem count_erase_add {l : List Nat} (hs : s ∈ l) (x : Nat) :
    (l.erase s).count x + (if s = x then 1 else 0) = l.count x := by
  rw [List.count_erase]
  by_cases hx : s = x
  · subst x
    have hpos := List.count_pos_iff.mpr hs
    simp only [beq_self_eq_true, if_true]
    omega
  · simp [hx]

theorem Inv.onClientFail (h : Inv w) (hs : s ∈ w.connecting) : Inv (w.onClientFail s) := by
  have hcall := h.call (h.not_queued (Or.inl hs))
  refine ⟨hcall.conserved, ?_, ?_, hcall.closing_nil, hcall.guarded⟩
  · intro x
    have hle := hcall.ending_le x
    have hcount := count_erase_add hs x
    show (w.connecting.erase s).count x + (w.call s).ending x ≤ 1
    simp only [WsWorld.call] at hle ⊢
    omega
  · intro x hx
    have hfresh := hcall.ending_fresh x hx
    have hcount := count_erase_add hs x
    show (w.connecting.erase s).count x + (w.call s).ending x = 0
    simp only [WsWorld.call] at hfresh ⊢
    omega

theorem Inv.onClientOpen (h : Inv w) (hs : s ∈ w.connecting) : Inv (w.onClientOpen s) := by
  have hcall := (h.call (h.not_queued (Or.inl hs))).setActive s true
  have hending : ∀ x, (w.onClientOpen s).ending x = ((w.call s).setActive s true).ending x + if s = x then 1 else 0 := by
    intro x
    simp only [ending, WsWorld.onClientOpen, pushNew, World.count_cons_eq]
    omega
  refine ⟨hcall.conserved.unread _ _ _ _, ?_, ?_, hcall.closing_nil, hcall.guarded⟩
  · intro x
    have hle := hcall.ending_le x
    have hcount := count_erase_add hs x
    rw [hending]
    show (w.connecting.erase s).count x + _ ≤ 1
    simp only [WsWorld.setActive, WsWorld.call] at hle ⊢
    omega
  · intro x hx
    have hfresh := hcall.ending_fresh x hx
    have hcount := count_erase_add hs x
    rw [hending]
    show (w.connecting.erase s).count x + _ = 0
    simp only [WsWorld.setActive, WsWorld.call] at hfresh ⊢
    omega

/-- The close callback is the one that queues. -/
theorem Inv.onClientClose (h : Inv w) (hs : s ∈ w.opened) : Inv (w.onClientClose s) := by
  have hcall := (h.call (h.not_queued (Or.inr hs))).setActive s false
  have hending : ∀ x, (w.onClientClose s).ending x = ((w.call s).setActive s false).ending x := by
    intro x
    have hcount := count_erase_add hs x
    simp only [ending, WsWorld.onClientClose, WsWorld.setActive, WsWorld.call, World.delSocket, World.count_cons_eq,
      SocketEvent.delSocket.injEq]
    omega
  refine ⟨hcall.conserved.delSocket s, ?_, ?_, hcall.closing_nil, trivial, hcall.guarded⟩
  · intro x
    rw [hending]
    exact hcall.ending_le x
  · intro x hx
    rw [hending]
    exact hcall.ending_fresh x hx

theorem Inv.onAccept (h : Inv w) : Inv w.onAccept := by
  have hending : ∀ x, w.onAccept.ending x = w.ending x + if w.manager.sequenceIndex + 1 = x then 1 else 0 := by
    intro x
    simp only [ending, WsWorld.onAccept, pushNew, genSocketIndex, World.count_cons_eq]
    omega
  refine ⟨h.conserved.unread w.manager.inactive _ _ w.manager.serviceKickSockets, ?_, ?_, h.closing_nil, h.guarded⟩
  · intro x
    have hle := h.ending_le x
    have hfresh := h.ending_fresh x
    show w.connecting.count x + _ ≤ 1
    rw [hending]
    split <;> omega
  · intro x hx
    have hlt : w.manager.sequenceIndex + 1 < x := hx
    show w.connecting.count x + _ = 0
    rw [hending, if_neg (Nat.ne_of_lt hlt)]
    exact h.ending_fresh x (Nat.lt_of_succ_lt hlt)

theorem Inv.startConnect (h : Inv w) : Inv w.startConnect := by
  refine ⟨h.conserved.unread w.manager.inactive w.manager.newSockets _ w.manager.serviceKickSockets, ?_, ?_,
    h.closing_nil, h.guarded⟩
  · intro x
    have hle := h.ending_le x
    have hfresh := h.ending_fresh x
    show ((w.manager.sequenceIndex + 1) :: w.connecting).count x + w.ending x ≤ 1
    rw [World.count_cons_eq]
    split <;> omega
  · intro x hx
    have hlt : w.manager.sequenceIndex + 1 < x := hx
    show ((w.manager.sequenceIndex + 1) :: w.connecting).count x + w.ending x = 0
    rw [World.count_cons_eq, if_neg (Nat.ne_of_lt hlt)]
    exact h.ending_fresh x (Nat.lt_of_succ_lt hlt)

theorem Inv.step {l : WsLabel} (h : Inv w) (hP : NoLiveKick w l) (hstep : wsStep w l = some w') : Inv w' := by
  cases l with
  | onAccept =>
      obtain ⟨_, rfl⟩ := Option.ite_some_none_eq_some.mp hstep
      exact h.onAccept
  | startConnect =>
      cases hstep
      exact h.startConnect
  | onClientOpen s =>
      obtain ⟨⟨_, hs⟩, rfl⟩ := Option.ite_some_none_eq_some.mp hstep
      exact h.onClientOpen hs
  | onClientFail s =>
      obtain ⟨⟨_, hs⟩, rfl⟩ := Option.ite_some_none_eq_some.mp hstep
      exact h.onClientFail hs
  | onMessage s =>
      obtain ⟨⟨_, hs⟩, rfl⟩ := Option.ite_some_none_eq_some.mp hstep
      exact h.call (h.not_queued (Or.inr hs))
  | onClientClose s =>
      obtain ⟨⟨_, hs⟩, rfl⟩ := Option.ite_some_none_eq_some.mp hstep
      exact h.onClientClose hs
  | act a =>
      obtain ⟨m, hm, rfl⟩ := Option.map_eq_some_iff.mp hstep
      exact h.act hP hm

end Steps

/-! ## A live kick ends in a second deletion -/

/-- The sockets that `handle_new_socket` has still to add. -/
def adding (w : WsWorld) : List Nat :=
  match w.manager.phase with
  | .newSocket todo => todo
  | _               => []

/-- A wrapper of `m_sockets`, or on its way there, is one whose connection was opened: its close callback
    is still to come, or has already queued it. -/
def Opened (w : WsWorld) : Prop :=
  ∀ s, s ∈ w.manager.sockets ∨ s ∈ w.manager.newSockets ∨ s ∈ w.adding → 1 ≤ w.ending s

section Exactness

variable {w w' : WsWorld} {l : WsLabel}

theorem ending_update {c : World.Choice} {m : World} (hstep : World.Updated c w.manager m) (s : Nat) :
    ending { w with manager := m } s = w.ending s + w.manager.deleting.count s := by
  have hcount := World.count_delSocket_update hstep s
  simp only [ending]
  omega

/-- A connection that was opened stays so, or its close callback queues it. -/
theorem ending_mono (hstep : wsStep w l = some w') (s : Nat) : w.ending s ≤ w'.ending s := by
  cases l with
  | onAccept =>
      obtain ⟨_, rfl⟩ := Option.ite_some_none_eq_some.mp hstep
      simp only [ending, onAccept, pushNew, genSocketIndex, World.count_cons_eq]
      omega
  | startConnect =>
      cases hstep
      exact Nat.le_refl _
  | onClientOpen x =>
      obtain ⟨_, rfl⟩ := Option.ite_some_none_eq_some.mp hstep
      simp only [ending, onClientOpen, pushNew, setActive, call, World.log, World.count_cons_eq]
      omega
  | onClientFail x =>
      obtain ⟨_, rfl⟩ := Option.ite_some_none_eq_some.mp hstep
      simp only [ending, onClientFail, call, World.log, World.count_cons_eq]
      omega
  | onMessage x =>
      obtain ⟨_, rfl⟩ := Option.ite_some_none_eq_some.mp hstep
      simp only [ending, call, World.log, World.count_cons_eq]
      omega
  | onClientClose x =>
      obtain ⟨⟨_, hx⟩, rfl⟩ := Option.ite_some_none_eq_some.mp hstep
      have hcount := count_erase_add hx s
      simp only [ending, onClientClose, setActive, call, World.log, World.delSocket, World.count_cons_eq,
        SocketEvent.delSocket.injEq]
      omega
  | act a =>
      obtain ⟨m, hm, rfl⟩ := Option.map_eq_some_iff.mp hstep
      cases a with
      | update c =>
          rw [ending_update (World.update_cases hm)]
          exact Nat.le_add_right _ _
      | doLoop =>
          cases hm
          exact Nat.le_of_eq (congrArg (w.opened.count s + ·)
            (World.count_delSocket_doLoop (World.doLoop_cases w.manager) s).symm)
      | pushWritePackets i =>
          cases hm
          exact Nat.le_refl _
      | kickSocket i =>
          cases hm
          exact Nat.le_refl _

/-- `handle_new_socket` moves wrappers from `m_new_sockets` to `m_sockets`, and no phase adds others. -/
theorem known_update {c : World.Choice} {m : World} (hstep : World.Updated c w.manager m) {s : Nat}
    (hs : s ∈ m.sockets ∨ s ∈ m.newSockets ∨ s ∈ adding { w with manager := m }) :
    s ∈ w.manager.sockets ∨ s ∈ w.manager.newSockets ∨ s ∈ w.adding := by
  -- a socket gets into these lists before the loop, and its steps only hand it on or take it out
  cases hstep with
  | begin hphase =>
      rcases hs with hs | hs | hs
      · exact Or.inl hs
      · exact Or.inr (Or.inl hs)
      · exact Or.inr (Or.inl hs)
  | @add x todo hx hphase =>
      have hadding : w.adding = x :: todo := by
        unfold adding
        rw [hphase]
      rw [hadding]
      rcases hs with hs | hs | hs
      · rcases List.mem_append.mp hs with hs | hs
        · exact Or.inl hs
        · rw [List.mem_singleton.mp hs]
          exact Or.inr (Or.inr List.mem_cons_self)
      · exact Or.inr (Or.inl hs)
      · exact Or.inr (Or.inr (List.mem_cons_of_mem _ hs))
  | @addAgain x todo hx hphase =>
      have hadding : w.adding = x :: todo := by
        unfold adding
        rw [hphase]
      rw [hadding]
      rcases hs with hs | hs | hs
      · exact Or.inl hs
      · exact Or.inr (Or.inl hs)
      · exact Or.inr (Or.inr (List.mem_cons_of_mem _ hs))
  | walk horder hphase =>
      rcases hs with hs | hs | hs
      · exact Or.inl hs
      · cases hs
      · cases hs
  | close hphase =>
      rcases hs with hs | hs | hs
      · exact Or.inl (List.mem_of_mem_erase hs)
      · exact Or.inr (Or.inl hs)
      · cases hs
  | kick hx hphase =>
      rcases hs with hs | hs | hs
      · exact Or.inl (List.mem_of_mem_erase hs)
      · exact Or.inr (Or.inl hs)
      · cases hs
  | _ =>
      rcases hs with hs | hs | hs
      · exact Or.inl hs
      · exact Or.inr (Or.inl hs)
      · cases hs

theorem known_append {opened sockets newSockets adding : List Nat} {x s : Nat}
    (hs : s ∈ sockets ∨ s ∈ newSockets ++ [x] ∨ s ∈ adding) :
    s ∈ x :: opened ∨ s ∈ sockets ∨ s ∈ newSockets ∨ s ∈ adding := by
  rcases hs with hs | hs | hs
  · exact Or.inr (Or.inl hs)
  · rcases List.mem_append.mp hs with hs | hs
    · exact Or.inr (Or.inr (Or.inl hs))
    · rw [List.mem_singleton.mp hs]
      exact Or.inl List.mem_cons_self
  · exact Or.inr (Or.inr (Or.inr hs))

/-- Only the open callbacks bring wrappers to `m_new_sockets`. -/
theorem known_wsStep (hstep : wsStep w l = some w') {s : Nat}
    (hs : s ∈ w'.manager.sockets ∨ s ∈ w'.manager.newSockets ∨ s ∈ w'.adding) :
    s ∈ w'.opened ∨ s ∈ w.manager.sockets ∨ s ∈ w.manager.newSockets ∨ s ∈ w.adding := by
  cases l with
  | onAccept =>
      obtain ⟨_, rfl⟩ := Option.ite_some_none_eq_some.mp hstep
      exact known_append hs
  | startConnect =>
      cases hstep
      exact Or.inr hs
  | onClientOpen x =>
      obtain ⟨_, rfl⟩ := Option.ite_some_none_eq_some.mp hstep
      exact known_append hs
  | onClientFail x =>
      obtain ⟨_, rfl⟩ := Option.ite_some_none_eq_some.mp hstep
      exact Or.inr hs
  | onMessage x =>
      obtain ⟨_, rfl⟩ := Option.ite_some_none_eq_some.mp hstep
      exact Or.inr hs
  | onClientClose x =>
      obtain ⟨_, rfl⟩ := Option.ite_some_none_eq_some.mp hstep
      rcases hs with hs | hs
      · exact Or.inr (Or.inl (List.mem_of_mem_erase hs))
      · exact Or.inr (Or.inr hs)
  | act a =>
      obtain ⟨m, hm, rfl⟩ := Option.map_eq_some_iff.mp hstep
      cases a with
      | update c => exact Or.inr (known_update (World.update_cases hm) hs)
      | doLoop =>
          cases hm
          have hloop := World.doLoop_cases w.manager
          generalize w.manager.doLoop = m at hloop hs
          cases hloop <;> exact Or.inr hs
      | pushWritePackets i =>
          cases hm
          exact Or.inr hs
      | kickSocket i =>
          cases hm
          exact Or.inr hs

theorem Opened.step (h : Opened w) (hstep : wsStep w l = some w') : Opened w' := by
  intro s hs
  rcases known_wsStep hstep hs with hopen | hknown
  · exact Nat.le_add_right_of_le (List.count_pos_iff.mpr hopen)
  · exact Nat.le_trans (h s hknown) (ending_mono hstep s)

/-- A live kick queues a wrapper whose close callback is still to come, or has already queued it. -/
theorem Opened.live_kick (h : Opened w) (hP : ¬ NoLiveKick w l) (hstep : wsStep w l = some w') :
    ∃ s, 2 ≤ w'.ending s := by
  unfold NoLiveKick at hP
  push Not at hP
  obtain ⟨hupdate, s, hkick, hs⟩ := hP
  cases l with
  | act a =>
      cases a with
      | update c =>
          obtain ⟨m, hm, rfl⟩ := Option.map_eq_some_iff.mp hstep
          have hdeleting : w.manager.deleting = [s] := by
            unfold UpdatePhase.kicking at hkick
            unfold World.deleting
            split at hkick
            · rename_i hphase
              rw [hphase, ← List.mem_singleton.mp hkick]
              exact if_pos hs
            · cases hkick
          have hle := h s (Or.inl hs)
          refine ⟨s, ?_⟩
          rw [ending_update (World.update_cases hm), hdeleting, List.count_singleton_self]
          exact Nat.succ_le_succ hle
      | _ => cases hupdate
  | _ => cases hupdate

end Exactness

end WsWorld

/-- **The life cycle of web socket wrappers.** It holds in every state of every run in which
    `handle_kick_socket` deletes no wrapper; and once every close callback has run, it holds in no other
    run. -/
theorem ws_life_cycle_iff (processType processId : Nat) {labels : List WsLabel} {w : WsWorld}
    (hrun : run wsStep (WsWorld.init processType processId) labels = some w) :
    (Along wsStep NoLiveKick (WsWorld.init processType processId) labels → WrapperLifeCycle w.manager.trace) ∧
    (w.opened = [] → WrapperLifeCycle w.manager.trace →
      Along wsStep NoLiveKick (WsWorld.init processType processId) labels) := by
  constructor
  · intro hP
    have hinv : WsWorld.Inv w :=
      run_invariant_along (fun hI hPl hl => hI.step hPl hl) (WsWorld.inv_init processType processId) hP hrun
    exact hinv.wrapperLifeCycle
  · intro hclosed hlife
    have hopened : WsWorld.Opened (WsWorld.init processType processId) := by
      rintro s (hs | hs | hs) <;> cases hs
    apply along_of_not_bad (I := WsWorld.Opened) (B := fun w => ∃ s, 2 ≤ w.ending s) _ _ _ hopened hrun
    · rintro ⟨s, hs⟩
      have hle := hlife.queued_once s
      simp only [WsWorld.ending, hclosed, List.count_nil] at hs
      omega
    · intro w l w' hI _ hl
      exact hI.step hl
    · intro w l w' hI hP hl
      exact hI.live_kick hP hl
    · rintro w l w' ⟨s, hs⟩ hl
      exact ⟨s, Nat.le_trans hs (WsWorld.ending_mono hl s)⟩

/-- A connection is accepted, sends a message and is closed by its peer; a kick comes too late. -/
def peerClosedRun : List WsLabel :=
  let net (c : World.Choice) : WsLabel := .act (.update c)
  let logic : WsLabel := .act .doLoop
  [.onAccept, net {}, net {}, net { order := [1] }] ++ List.replicate 8 (net {}) ++
    [.onMessage 1, .onClientClose 1, .act (.kickSocket 1)] ++ List.replicate 4 logic ++ List.replicate 11 (net {})

/-- A connection is accepted and kicked; then its close callback runs, and both entries are released. -/
def kickedRun : List WsLabel :=
  let net (c : World.Choice) : WsLabel := .act (.update c)
  let logic : WsLabel := .act .doLoop
  [.onAccept, net {}, net {}, net { order := [1] }] ++ List.replicate 8 (net {}) ++ [.act (.kickSocket 1)] ++
    List.replicate 3 logic ++ [net {}, net { order := [1] }] ++ List.replicate 9 (net {}) ++
    [.onClientClose 1] ++ List.replicate 4 logic ++ List.replicate 11 (net {})

theorem ws_life_cycle_peer_closed :
    WrapperLifeCycle
      [release 1, handleClose 1, handleInit 1, delSocket 1, callback 1, callback 1, unpack []] := by
  have hrun : (run wsStep (WsWorld.init 0 0) peerClosedRun).map (fun w => w.manager.trace) =
      some [release 1, handleClose 1, handleInit 1, delSocket 1, callback 1, callback 1, unpack []] := by decide
  have hP : Along wsStep NoLiveKick (WsWorld.init 0 0) peerClosedRun := by decide
  obtain ⟨w, hw, htrace⟩ := Option.map_eq_some_iff.mp hrun
  rw [← htrace]
  exact (ws_life_cycle_iff 0 0 hw).1 hP

theorem ws_life_cycle_kicked :
    ¬ ∀ labels w, run wsStep (WsWorld.init 0 0) labels = some w → WrapperLifeCycle w.manager.trace := by
  intro h
  have hrun : (run wsStep (WsWorld.init 0 0) kickedRun).map
      (fun w => (w.manager.trace.count (delSocket 1), w.manager.trace.count (release 1))) = some (2, 2) := by decide
  obtain ⟨w, hw, hcounts⟩ := Option.map_eq_some_iff.mp hrun
  have hfreed := (h kickedRun w hw).freed_once 1
  rw [(Prod.mk.inj hcounts).2] at hfreed
  exact absurd hfreed (by decide)

end Mowang
