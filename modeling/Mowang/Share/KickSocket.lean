import Mowang.Share.TcpLifeCycle

/-!
# `Share.KickSocket` — what is still written to a socket that is kicked

`do_loop` hands the packets and the kicks of its iteration to the net thread in one swap. The net thread takes the kicks
first: `handle_kick_socket` deletes the sockets, and `handle_write_msg` then finds no socket for the packets that came
with the kick. Only if the swap falls between these two phases of one `update` are the packets a round ahead.

## Contents
- `Kicking`, `Kicking.step`.
- `Flushed` — a socket that goes on to be deleted got its packets; `InTime` — the condition.
- `flushed_iff`, and `kicked_unwritten`.
-/

namespace Mowang

open SocketEvent

namespace UpdatePhase

/-- The sockets that `handle_kick_socket` goes on to delete. -/
def kicks : UpdatePhase → List Nat
  | .kickSocket kicks => kicks
  | _                 => []

end UpdatePhase

/-- The two loops, with what they were asked for. -/
structure Kicking where
  world : World
  -- the rest is read by the theorems only
  kicked : List Nat := []
  /-- The blocks that were pushed for a socket before it was kicked. -/
  owed : List SendInfo := []

namespace Kicking

/-- A step of the two loops. What is kicked is a socket that the net thread has, or had. -/
def step (k : Kicking) : TcpLabel → Option Kicking
  | .act (.pushWritePackets i) => some
      { k with
        world := k.world.pushWritePackets i
        owed := if i ∈ k.kicked then k.owed else ⟨i, k.world.nextBuffer⟩ :: k.owed }
  | .act (.kickSocket i)       =>
      if i ∈ k.world.sockets ∨ delSocket i ∈ k.world.trace then
        some { k with world := k.world.kickSocket i, kicked := i :: k.kicked }
      else none
  | label                      => (tcpStep k.world label).map fun world => { k with world := world }

/-- Each socket that `handle_kick_socket` goes on to delete has been written what was pushed for it before it was
    kicked. -/
def Flushed (k : Kicking) : Prop :=
  ∀ i ∈ k.world.phase.kicks, i ∈ k.world.sockets → ∀ q ∈ k.owed, q.socketIndex = i → write q ∈ k.world.trace

/-- When the net thread takes the kicks, no packet that was pushed before one of them still waits in `m_write_packets`,
    and none was refused because a stream of its socket had overflowed. -/
def InTime (k : Kicking) (label : TcpLabel) : Prop :=
  ∀ c, label = .act (.update c) → k.world.phase = .closeSocket [] →
    ∀ i ∈ k.world.waitKickSockets, i ∈ k.world.sockets → ∀ q ∈ k.owed, q.socketIndex = i →
      q ∉ k.world.writePackets ∧ drop q ∉ k.world.trace

end Kicking

/-! ## Where a pushed block is -/

namespace World

/-- It waits in a queue, or it went through `send_packet`. -/
structure OnTheWay (w : World) (q : SendInfo) : Prop where
  place : q ∈ w.serviceWritePackets ∨ q ∈ w.writePackets ∨ q ∈ w.phase.writing ∨ write q ∈ w.trace ∨ drop q ∈ w.trace

variable {c : Choice} {w w' : World} {q : SendInfo}

theorem OnTheWay.update (h : OnTheWay w q) (hstep : Updated c w w') : OnTheWay w' q := by
  obtain ⟨h⟩ := h
  constructor
  cases hstep <;> rename_i hphase <;> simp only [hphase, UpdatePhase.writing] at h <;>
    simp only [UpdatePhase.writing, delSocket, List.mem_cons, reduceCtorEq, false_or, List.not_mem_nil,
      SocketEvent.write.injEq, SocketEvent.drop.injEq] at h ⊢ <;>
    tauto

theorem OnTheWay.doLoop (h : OnTheWay w q) (hstep : Looped w w') : OnTheWay w' q := by
  obtain ⟨h⟩ := h
  constructor
  cases hstep <;>
    simp only [swapNet2Logic, swapLogin2Net, List.mem_cons, List.mem_append, reduceCtorEq, false_or,
      List.not_mem_nil] at h ⊢ <;>
    tauto

/-- What is in no queue yet is not on the way. -/
theorem OnTheWay.old (h : OnTheWay w q) (hw : SendLaw w q) : q.buffer < w.nextBuffer := by
  obtain ⟨h⟩ := h
  by_contra hle
  have hnone := hw.pushed_fresh (Nat.le_of_not_lt hle)
  have hsent := hw.sent_eq
  simp only [pushed] at hnone
  simp only [← List.count_pos_iff] at h
  omega

/-! ## Where a kick is -/

/-- The kick waits at the service, or at the net thread. -/
def KickAsked (w : World) (i : Nat) : Prop := i ∈ w.serviceKickSockets ∨ i ∈ w.waitKickSockets ∨ i ∈ w.phase.kicks

def KickHandedOver (w : World) (i : Nat) : Prop := i ∈ w.waitKickSockets ∨ i ∈ w.phase.kicks

/-- The net thread has the socket, or had it. -/
def Known (w : World) (i : Nat) : Prop := i ∈ w.sockets ∨ SocketEvent.delSocket i ∈ w.trace

variable {i : Nat}

theorem KickHandedOver.of_update (h : KickHandedOver w' i) (hstep : Updated c w w') : KickHandedOver w i := by
  unfold KickHandedOver at h ⊢
  cases hstep <;> rename_i hphase <;> simp only [hphase, UpdatePhase.kicks] <;>
    simp only [UpdatePhase.kicks, World.delSocket, List.mem_cons, List.not_mem_nil] at h ⊢ <;> tauto

theorem KickAsked.of_update (h : KickAsked w' i) (hstep : Updated c w w') : KickAsked w i := by
  have hservice : w'.serviceKickSockets = w.serviceKickSockets := by cases hstep <;> rfl
  rcases h with h | h
  · exact Or.inl (hservice ▸ h)
  · exact Or.inr (KickHandedOver.of_update h hstep)

theorem Known.delSocket (h : Known w i) (s : Nat) : Known (w.delSocket s) i := by
  rcases h with h | h
  · by_cases hi : i = s
    · rw [hi]
      exact Or.inr List.mem_cons_self
    · exact Or.inl ((List.mem_erase_of_ne hi).mpr h)
  · exact Or.inr (List.mem_cons_of_mem _ h)

theorem Known.update (h : Known w i) (hstep : Updated c w w') : Known w' i := by
  cases hstep with
  | close => exact h.delSocket _
  | kick => exact h.delSocket _
  | add => exact h.imp (List.mem_append_left _) id
  | visit | freeRecv | write | drop | release => exact h.imp id (List.mem_cons_of_mem _)
  | _ => exact h

theorem KickAsked.of_doLoop (h : KickAsked w' i) (hstep : Looped w w') : KickAsked w i := by
  unfold KickAsked at h ⊢
  cases hstep <;> simp only [swapNet2Logic, swapLogin2Net, List.mem_append, List.not_mem_nil] at h ⊢ <;> tauto

theorem Known.doLoop (h : Known w i) (hstep : Looped w w') : Known w' i := by
  cases hstep with
  | swapNet2Logic | swapLogin2Net => exact h
  | freeSend | handleInit | handle | handleClose => exact h.imp id (List.mem_cons_of_mem _)

/-! ## The event loop -/

/-- A step that leaves the queues of the two loops alone. -/
structure Aside (w w' : World) : Prop where
  service : w'.serviceWritePackets = w.serviceWritePackets
  writePackets : w'.writePackets = w.writePackets
  serviceKicks : w'.serviceKickSockets = w.serviceKickSockets
  waitKicks : w'.waitKickSockets = w.waitKickSockets
  phase : w'.phase = w.phase
  trace : w.trace <:+ w'.trace
  known : ∀ {i}, Known w i → Known w' i
  sockets : ∀ {i}, i ∈ w'.sockets → Known w i → i ∈ w.sockets

theorem Aside.trans {w'' : World} (h : Aside w w') (h' : Aside w' w'') : Aside w w'' where
  service := h'.service.trans h.service
  writePackets := h'.writePackets.trans h.writePackets
  serviceKicks := h'.serviceKicks.trans h.serviceKicks
  waitKicks := h'.waitKicks.trans h.waitKicks
  phase := h'.phase.trans h.phase
  trace := h.trace.trans h'.trace
  known hi := h'.known (h.known hi)
  sockets hi hk := h.sockets (h'.sockets hi (h.known hk)) hk

theorem aside_callback (w : World) (s s' : Nat) (flag : Bool) : Aside w ((w.log (.callback s)).deactivate s' flag) :=
  ⟨rfl, rfl, rfl, rfl, rfl, List.suffix_cons .., fun h => h.imp id (List.mem_cons_of_mem _), fun h _ => h⟩

theorem aside_delSocket (w : World) (s : Nat) : Aside w (w.delSocket s) :=
  ⟨rfl, rfl, rfl, rfl, rfl, List.suffix_cons .., fun h => h.delSocket s, fun h _ => List.mem_of_mem_erase h⟩

/-- The index of a new socket is not known. -/
theorem Inv.not_known (h : Inv w) : ¬ Known w (w.sequenceIndex + 1) := by
  have hnew := (h.socket (w.sequenceIndex + 1)).placed_fresh (Nat.lt_succ_self _)
  have hdeleted := (h.conserved.socket (w.sequenceIndex + 1)).deleted_eq
  rw [placed] at hnew
  rintro (hk | hk)
  · have := List.count_pos_iff.mpr hk
    omega
  · have := List.count_pos_iff.mpr hk
    omega

theorem aside_startConnect (h : Inv w) : Aside w w.startConnect := by
  have hnew : w.sequenceIndex + 1 ∉ w.sockets := fun hs => h.not_known (Or.inl hs)
  have hadd : w.startConnect = { w.genSocketIndex with
      sockets := w.sockets ++ [w.sequenceIndex + 1]
      waitInitSockets := w.waitInitSockets ++ [w.sequenceIndex + 1] } := by
    unfold World.startConnect addSocket
    exact if_neg hnew
  rw [hadd]
  refine ⟨rfl, rfl, rfl, rfl, rfl, List.suffix_refl _, fun hk => hk.imp (List.mem_append_left _) id, fun hi hk => ?_⟩
  rcases List.mem_append.mp hi with hi | hi
  · exact hi
  · rw [List.mem_singleton] at hi
    exact absurd (hi ▸ hk) h.not_known

/-- The callbacks and `start_connect`. -/
theorem aside_of_tcpStep (h : Inv w) {label : TcpLabel} (hact : ∀ a, label ≠ .act a)
    (hstep : tcpStep w label = some w') : Aside w w' := by
  cases label with
  | act a => exact absurd rfl (hact a)
  | onAccept =>
      obtain ⟨_, rfl⟩ := Option.ite_some_none_eq_some.mp hstep
      exact ⟨rfl, rfl, rfl, rfl, rfl, List.suffix_refl _, id, fun h _ => h⟩
  | onRead s ok overflow =>
      obtain ⟨_, rfl⟩ := Option.ite_some_none_eq_some.mp hstep
      unfold World.onRead
      split
      · exact aside_callback w s s false
      · split
        · exact aside_callback w s s overflow
        · exact (aside_callback w s s overflow).trans (aside_delSocket _ s)
  | onWrite s ok overflow =>
      obtain ⟨_, rfl⟩ := Option.ite_some_none_eq_some.mp hstep
      unfold World.onWrite
      split
      · exact aside_callback w s s overflow
      · exact (aside_callback w s s overflow).trans (aside_delSocket _ s)
  | startConnect =>
      cases hstep
      exact aside_startConnect h

theorem OnTheWay.aside (h : OnTheWay w q) (hstep : Aside w w') : OnTheWay w' q := by
  obtain ⟨h⟩ := h
  constructor
  rw [hstep.service, hstep.writePackets, hstep.phase]
  exact h.imp_right (Or.imp_right (Or.imp_right (Or.imp (hstep.trace.mem ·) (hstep.trace.mem ·))))

end World

namespace Kicking

open World

/-! ## One step -/

/-- The blocks that are owed are on the way, the kicks are of sockets that were kicked, and a kick that is handed over
    has no owed block behind it. -/
structure Inv (k : Kicking) : Prop where
  world : World.Inv k.world
  onTheWay : ∀ q ∈ k.owed, OnTheWay k.world q
  asked : ∀ i, KickAsked k.world i → i ∈ k.kicked
  known : ∀ i ∈ k.kicked, Known k.world i
  handedOver : ∀ i, KickHandedOver k.world i → ∀ q ∈ k.owed, q.socketIndex = i → q ∉ k.world.serviceWritePackets

variable {k k' : Kicking}

theorem KickHandedOver.asked {w : World} {i : Nat} (h : KickHandedOver w i) : KickAsked w i := Or.inr h

/-- A block that is owed is not one that waits, if it was written or refused. -/
theorem Inv.write_iff (hk : Inv k) {q : SendInfo} (hq : q ∈ k.owed) (hservice : q ∉ k.world.serviceWritePackets)
    (hphase : k.world.phase.writing = []) :
    write q ∈ k.world.trace ↔ q ∉ k.world.writePackets ∧ drop q ∉ k.world.trace := by
  constructor
  · intro hw
    have hsend := hk.world.conserved.send q
    have hsent := hsend.sent_eq
    have hle := hsend.pushed_le
    have hpos := List.count_pos_iff.mpr hw
    simp only [World.pushed] at hle
    constructor
    · intro hmem
      have := List.count_pos_iff.mpr hmem
      omega
    · intro hmem
      have := List.count_pos_iff.mpr hmem
      omega
  · rintro ⟨hwait, hdrop⟩
    rcases (hk.onTheWay q hq).place with h | h | h | h | h
    · exact absurd h hservice
    · exact absurd h hwait
    · rw [hphase] at h
      cases h
    · exact h
    · exact absurd h hdrop

/-- What one step can do. -/
inductive Stepped (k : Kicking) : TcpLabel → Kicking → Prop where
  | push (i : Nat) : Stepped k (.act (.pushWritePackets i))
      { k with
        world := k.world.pushWritePackets i
        owed := if i ∈ k.kicked then k.owed else ⟨i, k.world.nextBuffer⟩ :: k.owed }
  | kick {i : Nat} (hi : Known k.world i) :
      Stepped k (.act (.kickSocket i)) { k with world := k.world.kickSocket i, kicked := i :: k.kicked }
  | update {c : Choice} {w : World} (h : Updated c k.world w) : Stepped k (.act (.update c)) { k with world := w }
  | doLoop {w : World} (h : Looped k.world w) : Stepped k (.act .doLoop) { k with world := w }
  | aside {label : TcpLabel} {w : World} (hact : ∀ a, label ≠ .act a) (h : Aside k.world w) :
      Stepped k label { k with world := w }

theorem step_cases (hk : World.Inv k.world) {label : TcpLabel} (h : step k label = some k') : Stepped k label k' := by
  have haside : (∀ a, label ≠ .act a) → (tcpStep k.world label).map (fun world => { k with world := world }) = some k' →
      Stepped k label k' := by
    intro hact h
    obtain ⟨w, hw, rfl⟩ := Option.map_eq_some_iff.mp h
    exact .aside hact (aside_of_tcpStep hk hact hw)
  cases label with
  | act a =>
      cases a with
      | pushWritePackets i =>
          cases h
          exact .push i
      | kickSocket i =>
          obtain ⟨hi, rfl⟩ := Option.ite_some_none_eq_some.mp h
          exact .kick hi
      | update c =>
          obtain ⟨w, hw, rfl⟩ := Option.map_eq_some_iff.mp h
          exact .update (update_cases hw)
      | doLoop =>
          cases h
          exact .doLoop (doLoop_cases k.world)
  | onAccept => exact haside (fun _ h => nomatch h) h
  | onRead s ok overflow => exact haside (fun _ h => nomatch h) h
  | onWrite s ok overflow => exact haside (fun _ h => nomatch h) h
  | startConnect => exact haside (fun _ h => nomatch h) h

theorem step_world {label : TcpLabel} (h : step k label = some k') : tcpStep k.world label = some k'.world := by
  have hother : (tcpStep k.world label).map (fun world => { k with world := world }) = some k' →
      tcpStep k.world label = some k'.world := by
    intro h
    obtain ⟨w, hw, rfl⟩ := Option.map_eq_some_iff.mp h
    exact hw
  cases label with
  | act a =>
      cases a with
      | pushWritePackets i =>
          cases h
          rfl
      | kickSocket i =>
          obtain ⟨_, rfl⟩ := Option.ite_some_none_eq_some.mp h
          rfl
      | update c => exact hother h
      | doLoop => exact hother h
  | onAccept | onRead | onWrite | startConnect => exact hother h

theorem Inv.step (hk : Inv k) {label : TcpLabel} (h : step k label = some k') : Inv k' := by
  have hworld : World.Inv k'.world := hk.world.step (step_world h)
  cases step_cases hk.world h with
  | push i =>
      have hnew : ∀ q ∈ k.owed, q ≠ ⟨i, k.world.nextBuffer⟩ := by
        rintro q hq rfl
        exact Nat.lt_irrefl _ ((hk.onTheWay _ hq).old (hk.world.conserved.send _))
      have hold : ∀ q ∈ k.owed, OnTheWay (k.world.pushWritePackets i) q := by
        intro q hq
        exact ⟨(hk.onTheWay q hq).place.imp_left (List.mem_append_left _)⟩
      refine ⟨hworld, ?_, hk.asked, hk.known, ?_⟩
      · intro q hq
        by_cases hi : i ∈ k.kicked
        · rw [if_pos hi] at hq
          exact hold q hq
        · rw [if_neg hi] at hq
          rcases List.mem_cons.mp hq with rfl | hq
          · exact ⟨Or.inl (List.mem_append_right _ (List.mem_singleton_self _))⟩
          · exact hold q hq
      · -- a kick that is handed over is of a socket for which nothing more is owed
        intro i' hi' q hq heq hmem
        have hkicked := hk.asked i' (KickHandedOver.asked hi')
        have hq' : q ∈ k.owed := by
          by_cases hi : i ∈ k.kicked
          · rwa [if_pos hi] at hq
          · rw [if_neg hi] at hq
            rcases List.mem_cons.mp hq with rfl | hq
            · have hi' : i = i' := heq
              exact absurd (hi' ▸ hkicked) hi
            · exact hq
        rcases List.mem_append.mp hmem with hmem | hmem
        · exact hk.handedOver i' hi' q hq' heq hmem
        · exact hnew q hq' (List.mem_singleton.mp hmem)
  | @kick i hi =>
      refine ⟨hworld, fun q hq => ⟨(hk.onTheWay q hq).place⟩, ?_, ?_, hk.handedOver⟩
      · rintro i' (hi' | hi')
        · rcases List.mem_append.mp hi' with hi' | hi'
          · exact List.mem_cons_of_mem _ (hk.asked i' (Or.inl hi'))
          · exact List.mem_cons.mpr (Or.inl (List.mem_singleton.mp hi'))
        · exact List.mem_cons_of_mem _ (hk.asked i' (Or.inr hi'))
      · intro i' hi'
        rcases List.mem_cons.mp hi' with rfl | hi'
        · exact hi
        · exact hk.known i' hi'
  | @update c w hstep =>
      have hservice : w.serviceWritePackets = k.world.serviceWritePackets := by cases hstep <;> rfl
      refine ⟨hworld, fun q hq => (hk.onTheWay q hq).update hstep, ?_, ?_, ?_⟩
      · exact fun i hi => hk.asked i (KickAsked.of_update hi hstep)
      · exact fun i hi => (hk.known i hi).update hstep
      · intro i hi q hq heq
        show q ∉ World.serviceWritePackets _
        rw [hservice]
        exact hk.handedOver i (KickHandedOver.of_update hi hstep) q hq heq
  | doLoop hstep =>
      refine ⟨hworld, fun q hq => (hk.onTheWay q hq).doLoop hstep, ?_, ?_, ?_⟩
      · exact fun i hi => hk.asked i (KickAsked.of_doLoop hi hstep)
      · exact fun i hi => (hk.known i hi).doLoop hstep
      · cases hstep with
        | swapLogin2Net => exact fun _ _ _ _ _ => List.not_mem_nil
        | _ => exact hk.handedOver
  | aside hact hstep =>
      refine ⟨hworld, fun q hq => (hk.onTheWay q hq).aside hstep, ?_, fun i hi => hstep.known (hk.known i hi), ?_⟩
      · intro i hi
        refine hk.asked i ?_
        unfold KickAsked at hi ⊢
        rwa [hstep.serviceKicks, hstep.waitKicks, hstep.phase] at hi
      · intro i hi q hq heq
        show q ∉ World.serviceWritePackets _
        rw [hstep.service]
        refine hk.handedOver i ?_ q hq heq
        unfold KickHandedOver at hi ⊢
        rwa [hstep.waitKicks, hstep.phase] at hi

/-- **When a step takes the kicks in time.** -/
theorem step_flushed_iff (hk : Inv k) (hflushed : Flushed k) {label : TcpLabel} (h : step k label = some k') :
    Flushed k' ↔ InTime k label := by
  cases step_cases hk.world h with
  | push i =>
      refine iff_of_true ?_ fun c hc => nomatch hc
      intro i' hi' hs q hq heq
      by_cases hi : i ∈ k.kicked
      · rw [if_pos hi] at hq
        exact hflushed i' hi' hs q hq heq
      · rw [if_neg hi] at hq
        rcases List.mem_cons.mp hq with rfl | hq
        -- a socket whose kick is handed over was kicked, and nothing that is pushed later is owed to it
        · have hkicked := hk.asked i' (Or.inr (Or.inr hi'))
          have heq' : i = i' := heq
          exact absurd (heq' ▸ hkicked) hi
        · exact hflushed i' hi' hs q hq heq
  | kick hi => exact iff_of_true hflushed fun c hc => nomatch hc
  | doLoop hstep =>
      refine iff_of_true ?_ fun c hc => nomatch hc
      cases hstep with
      | swapNet2Logic | swapLogin2Net => exact hflushed
      | _ => exact fun i hi hs q hq heq => List.mem_cons_of_mem _ (hflushed i hi hs q hq heq)
  | aside hact hstep =>
      refine iff_of_true ?_ fun c hc => absurd hc (hact _)
      intro i hi hs q hq heq
      have hi' : i ∈ k.world.phase.kicks := hstep.phase ▸ hi
      have hknown := hk.known i (hk.asked i (Or.inr (Or.inr hi')))
      exact hstep.trace.mem (hflushed i hi' (hstep.sockets hs hknown) q hq heq)
  | @update c w hstep =>
      cases hstep with
      -- only here does the net loop begin to close: what is not written by now is lost
      | takeKicks hphase =>
          have hwriting : k.world.phase.writing = [] := by
            rw [hphase]
            rfl
          constructor
          · intro hall _ _ _ i hi hs q hq heq
            exact (hk.write_iff hq (hk.handedOver i (Or.inl hi) q hq heq) hwriting).mp (hall i hi hs q hq heq)
          · intro htime i hi hs q hq heq
            exact (hk.write_iff hq (hk.handedOver i (Or.inl hi) q hq heq) hwriting).mpr
              (htime c rfl hphase i hi hs q hq heq)
      | @kick s kicks hs hphase =>
          have hkicks : ∀ i ∈ kicks, i ∈ k.world.phase.kicks := by
            rw [hphase]
            exact fun _ => List.mem_cons_of_mem _
          refine iff_of_true ?_ ?_
          · intro i hi hs' q hq heq
            exact List.mem_cons_of_mem _ (hflushed i (hkicks i hi) (List.mem_of_mem_erase hs') q hq heq)
          · intro _ _ hclose
            rw [hphase] at hclose
            cases hclose
      | @kickUnknown s kicks hs hphase =>
          have hkicks : ∀ i ∈ kicks, i ∈ k.world.phase.kicks := by
            rw [hphase]
            exact fun _ => List.mem_cons_of_mem _
          refine iff_of_true (fun i hi hs' q hq heq => hflushed i (hkicks i hi) hs' q hq heq) ?_
          · intro _ _ hclose
            rw [hphase] at hclose
            cases hclose
      | _ =>
          rename_i hphase
          refine iff_of_true (fun i hi => absurd hi List.not_mem_nil) ?_
          intro _ _ hclose
          rw [hphase] at hclose
          cases hclose

/-- **When a kicked socket got its packets.** Over any interleaving of the two loops, each socket that
    `handle_kick_socket` goes on to delete has been written what was pushed for it before its kick, in every state, if
    and only if the net thread takes the kicks only when none of those packets still waits for it or was refused. -/
theorem flushed_iff (processType processId : Nat) {labels : List TcpLabel} {k : Kicking}
    (hrun : run step { world := World.init processType processId } labels = some k) :
    (∀ pre, pre <+: labels → ∀ k₁, run step { world := World.init processType processId } pre = some k₁ → Flushed k₁) ↔
      Along step InTime { world := World.init processType processId } labels := by
  have hinit : Inv { world := World.init processType processId } := by
    refine ⟨World.inv_init processType processId, fun q hq => absurd hq List.not_mem_nil, ?_,
      fun i hi => absurd hi List.not_mem_nil, fun i hi q hq => absurd hq List.not_mem_nil⟩
    rintro i (hi | hi | hi)
    · cases hi
    · cases hi
    · cases hi
  exact good_iff_along (fun hk h => hk.step h) (fun hk hflushed h => step_flushed_iff hk hflushed h) hinit
    (fun i hi => absurd hi List.not_mem_nil) hrun

/-- A socket is accepted and initialised; then a packet is pushed for it and it is kicked. -/
def kickRun : List TcpLabel :=
  let net (c : World.Choice) : TcpLabel := .act (.update c)
  [.onAccept] ++ List.replicate 2 (net {}) ++ [net { order := [1] }] ++ List.replicate 8 (net {}) ++
    List.replicate 2 (.act .doLoop) ++ [.act (.pushWritePackets 1), .act (.kickSocket 1)]

/-- Both are handed over behind `handle_kick_socket`, so the packet is a round ahead of the kick. -/
def inTimeRun : List TcpLabel :=
  let net (c : World.Choice) : TcpLabel := .act (.update c)
  kickRun ++ [net {}, net { order := [1] }] ++ List.replicate 3 (net {}) ++ [.act .doLoop] ++
    List.replicate 7 (net {}) ++ [net { order := [1] }] ++ List.replicate 3 (net {})

theorem flushed_inTime : ∃ k, run step { world := World.init 0 0 } inTimeRun = some k ∧ k.world.phase.kicks = [1] ∧
    ((∀ pre, pre <+: inTimeRun → ∀ k₁, run step { world := World.init 0 0 } pre = some k₁ → Flushed k₁) ↔
      Along step InTime { world := World.init 0 0 } inTimeRun) := by
  have hrun : (run step { world := World.init 0 0 } inTimeRun).map (fun k => k.world.phase.kicks) = some [1] := by decide
  obtain ⟨k, hk, hkicks⟩ := Option.map_eq_some_iff.mp hrun
  exact ⟨k, hk, hkicks, flushed_iff 0 0 hk⟩

/-- Both are handed over while the net thread is in its event loop. -/
def kickedRun : List TcpLabel :=
  let net (c : World.Choice) : TcpLabel := .act (.update c)
  kickRun ++ [.act .doLoop, net {}, net { order := [1] }] ++ List.replicate 3 (net {})

/-- The net thread goes on to delete the socket, and the packet was not written. -/
theorem kicked_unwritten : ∃ k, run step { world := World.init 0 0 } kickedRun = some k ∧
    k.world.phase.kicks = [1] ∧ k.world.sockets = [1] ∧ k.owed = [⟨1, 0⟩] ∧ k.world.writePackets = [⟨1, 0⟩] ∧
    ¬ Flushed k := by
  have hrun : (run step { world := World.init 0 0 } kickedRun).map (fun k =>
        (k.world.phase.kicks, k.world.sockets, k.owed, k.world.writePackets, k.world.trace)) =
      some ([1], [1], [⟨1, 0⟩], [⟨1, 0⟩], [unpack [], handleInit 1, unpack []]) := by decide
  obtain ⟨k, hk, hview⟩ := Option.map_eq_some_iff.mp hrun
  simp only [Prod.mk.injEq] at hview
  obtain ⟨hkicks, hsockets, howed, hwrite, htrace⟩ := hview
  refine ⟨k, hk, hkicks, hsockets, howed, hwrite, fun h => ?_⟩
  have hwritten := h 1 (hkicks ▸ List.mem_singleton_self 1) (hsockets ▸ List.mem_singleton_self 1) ⟨1, 0⟩
    (howed ▸ List.mem_singleton_self _) rfl
  rw [htrace] at hwritten
  exact absurd hwritten (by decide)

end Kicking

end Mowang
