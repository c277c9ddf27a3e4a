import Mowang.Base.CString
import Mowang.Base.Run
import Mowang.Share.RpcImage
import Mowang.Share.TcpLink

/-!
# `Share.RpcChannel` — calls from one process to another

A call by name goes from the thread that makes it to the function of another process through eight queues: those of the
service and of its socket manager, the stream of the socket, the network, the stream of the other socket, its handler,
and the queue of packets that have been read. The loops of both processes move the packets on, in any order.

## Contents
- `RpcChannel`, `RpcChannelLabel`, `RpcChannel.step`.
- `Callable`, `Image`, `Runs`; `handle_image`, `sendPackets_spec`.
- `Inv`, `step_inv`: where the calls are.
- `rpc_delivered` — calls run in their order, once, with their arguments.
-/

namespace Mowang

open LittleEndian Block Framing

/-- A connection, with the packets of both processes that are for it. -/
structure RpcChannel (R : Type) where
  /-- `m_write_packets` of the service that calls, and of its socket manager. -/
  servicePackets : List (List UInt8) := []
  writePackets : List (List UInt8) := []
  link : TcpLink
  /-- `m_read_packets` of the socket manager that is called. -/
  readPackets : List (List UInt8) := []
  /-- What the functions answered. -/
  handled : List R := []
  /-- The calls that were made. Read by the theorems only. -/
  calls : List (FuncName × List Param) := []

inductive RpcChannelLabel
  /-- `call_remote_func`. -/
  | call (funcName : FuncName) (args : List Param)
  | swapLogin2Net
  | handleWriteMsg
  | onWrite (answers last : List Answer)
  | closeSender (answers : List Answer)
  | deactivateSender
  | onRead (answers : List Received) (available : Int)
  | handleUnpacket
  | closeReceiver
  | deactivateReceiver
  /-- The part of `do_loop` that handles packets. -/
  | doLoop

namespace RpcChannel

variable {R : Type}

theorem packet_size (packet : List UInt8) : packet.length = packet.length := rfl

section Step

variable (memory : (n : Nat) → Block UInt8 n) (client : RpcClient) (stub : RpcProxy R) (entity : RpcEntity R)
  (socketIndex : SocketIndex)

/-- The loop of `handle_write_msg`. -/
def sendPackets (link : TcpLink) : List (List UInt8) → Option TcpLink
  | []                => some link
  | packet :: packets => (link.sendPacket memory packet).bind fun link => sendPackets link packets

/-- A packet as it was read. -/
def packetBlock (packet : List UInt8) : Block UInt8 packet.length := ⟨packet, packet_size packet⟩

/-- `handle`. -/
def handlePacket (packet : List UInt8) : Option (Option R) :=
  handle (setupHandlers stub entity socketIndex) (packetBlock packet)

/-- The loop of `do_loop`; a packet that finds no function answers nothing. -/
def handlePackets : List (List UInt8) → Option (List R)
  | []                => some []
  | packet :: packets =>
    (handlePacket stub entity socketIndex packet).bind fun r => (handlePackets packets).map fun rs => r.toList ++ rs

def init (block : Block UInt8 maxPacketBufferSize) : RpcChannel R := { link := .init block }

def step (s : RpcChannel R) : RpcChannelLabel → Option (RpcChannel R)
  | .call funcName args       =>
    (client.callRemoteFunc funcName args).map fun sent =>
      { s with
        servicePackets := s.servicePackets ++ sent.map (·.buffer)
        calls := s.calls ++ [(funcName, args)] }
  | .swapLogin2Net            => some { s with servicePackets := [], writePackets := s.writePackets ++ s.servicePackets }
  | .handleWriteMsg           =>
    (sendPackets memory s.link s.writePackets).map fun link => { s with writePackets := [], link := link }
  | .onWrite answers last     => (s.link.onWrite answers last).map fun link => { s with link := link }
  | .closeSender answers      => (s.link.closeSender answers).map fun link => { s with link := link }
  | .deactivateSender         => some { s with link := s.link.deactivateSender }
  | .onRead answers available => (s.link.onRead memory answers available).map fun link => { s with link := link }
  | .handleUnpacket           =>
    s.link.handleUnpacket.map fun (link, packets) => { s with link := link, readPackets := s.readPackets ++ packets }
  | .closeReceiver            => some { s with link := s.link.closeReceiver }
  | .deactivateReceiver       => some { s with link := s.link.deactivateReceiver }
  | .doLoop                   =>
    (handlePackets stub entity socketIndex s.readPackets).map fun rs =>
      { s with readPackets := [], handled := s.handled ++ rs }

end Step

/-! ## Calls and their packets -/

/-- A call that the other process has a function for: the types are those it was registered with, and the arguments fit
    a packet and the objects that they are decoded into. -/
structure CallableAs (stub : RpcProxy R) (c : FuncName × List Param) (f : RpcFuncWithIndex R) (vs : List Value) :
    Prop where
  free : 0 ∉ c.1
  short : c.1.length < sizeofRpcName
  registered : stub.name2FuncWithIndex.lookup c.1 = some f
  holds : List.Forall₂ Param.Holds c.2 vs
  types : f.argsType = .pod 8 :: vs.map Value.type
  pushable : ∀ v ∈ vs, v.Pushable
  fits : (vs.flatMap Value.encode).length ≤ sizeofBuffer

def Callable (stub : RpcProxy R) (c : FuncName × List Param) : Prop := ∃ f vs, CallableAs stub c f vs

/-- The packet is that of the call. -/
def Image (stub : RpcProxy R) (c : FuncName × List Param) (packet : List UInt8) : Prop :=
  ∃ f vs, CallableAs stub c f vs ∧ packet = rpcImage c.1 vs

/-- The function of the call has answered this, on the index of the connection and arguments with the values of those
    that the call was made with. -/
def Runs (stub : RpcProxy R) (socketIndex : SocketIndex) (c : FuncName × List Param) (r : R) : Prop :=
  ∃ f vs args, stub.name2FuncWithIndex.lookup c.1 = some f ∧ List.Forall₂ Param.Holds c.2 vs ∧
    List.Forall₂ Param.Holds args vs ∧ r = f.func2 (.pod (Pod.ofNat 8 socketIndex) :: args)

variable {memory : (n : Nat) → Block UInt8 n} {client : RpcClient} {stub : RpcProxy R} {entity : RpcEntity R}
  {socketIndex handler : SocketIndex} {c : FuncName × List Param} {packet : List UInt8}

theorem isFrame_image (h : Image stub c packet) : IsFrame TcpManager.packetFormat packet := by
  obtain ⟨f, vs, h, rfl⟩ := h
  have hlen : (rpcImage c.1 vs).length = _ := RpcClient.rpcImage_length (Nat.le_of_lt h.short)
  have hfits := h.fits
  have hsize : sizeofPacketBase ≤ RpcByNamePacket.offsetBuffer ∧
      RpcByNamePacket.offsetBuffer + sizeofBuffer < 256 ^ 2 := by decide
  refine ⟨?_, ?_⟩
  · show sizeofPacketBase ≤ _
    omega
  · show ofLe ((rpcImage c.1 vs).take 2) = _
    rw [hlen]
    exact ofLe_leBytes_of_lt (Nat.lt_of_le_of_lt (Nat.add_le_add_left hfits _) hsize.2)

theorem isFrame_of_mem {cs : List (FuncName × List Param)} {packets : List (List UInt8)}
    (h : List.Forall₂ (Image stub) cs packets) : ∀ p ∈ packets, IsFrame TcpManager.packetFormat p := by
  induction h with
  | nil => exact nofun
  | cons himage _ ih => exact List.forall_mem_cons.mpr ⟨isFrame_image himage, ih⟩

/-- The calls of two queues in a row are those of the first and then those of the second. -/
theorem images_split {cs : List (FuncName × List Param)} {ps qs : List (List UInt8)}
    (h : List.Forall₂ (Image stub) cs (ps ++ qs)) :
    ∃ now later, cs = now ++ later ∧ List.Forall₂ (Image stub) now ps ∧ List.Forall₂ (Image stub) later qs :=
  ⟨_, _, (List.take_append_drop ps.length cs).symm, List.forall₂_take_append cs ps qs h,
    List.forall₂_drop_append cs ps qs h⟩

variable (entity socketIndex) in
/-- The packet of a call runs the function of the call. -/
theorem handle_image (h : Image stub c packet) :
    ∃ r, handlePacket stub entity socketIndex packet = some (some r) ∧ Runs stub socketIndex c r := by
  obtain ⟨f, vs, h, rfl⟩ := h
  have hcells : (packetBlock (rpcImage c.1 vs)).Has 0 (rpcImage c.1 vs) := has_cells _
  obtain ⟨hid, hname, hargs⟩ := has_rpcImage h.free h.short hcells
  rw [Nat.zero_add] at hid hname hargs
  obtain ⟨args, hholds, hrun⟩ := RpcFuncWithIndex.run_complete h.types ⟨rfl, h.pushable, hargs⟩ socketIndex
  refine ⟨_, ?_, f, vs, args, h.registered, h.holds, hholds, rfl⟩
  rw [handlePacket, handle, readCell_eq_some.mpr ⟨hid, rfl⟩, Option.bind_some]
  show handleRpcByName stub socketIndex _ = _
  rw [handleRpcByName, readCStr_eq_some.mpr hname, Option.bind_some, RpcProxy.callWithIndex, cStr_eq h.free, h.registered]
  dsimp only
  rw [hrun, Option.map_some]

variable (entity socketIndex) in
theorem handlePackets_images {cs : List (FuncName × List Param)} {packets : List (List UInt8)}
    (h : List.Forall₂ (Image stub) cs packets) :
    ∃ rs, handlePackets stub entity socketIndex packets = some rs ∧ List.Forall₂ (Runs stub socketIndex) cs rs := by
  induction h with
  | nil => exact ⟨[], rfl, .nil⟩
  | cons himage _ ih =>
      obtain ⟨r, hhandle, hruns⟩ := handle_image entity socketIndex himage
      obtain ⟨rs, hpackets, hall⟩ := ih
      exact ⟨r :: rs, by rw [handlePackets, hhandle, Option.bind_some, hpackets]; rfl, .cons hruns hall⟩

/-- All packets that are written are on their way, behind the others. -/
theorem sendPackets_spec {ps : List (List UInt8)} (hframes : ∀ p ∈ ps, IsFrame TcpManager.packetFormat p) :
    ∀ {link : TcpLink} {packets : List (List UInt8)}, link.Carries packets → link.Alive →
      link.output.queued.length + ps.flatten.length < 2 ^ 30 →
      ∃ link', sendPackets memory link ps = some link' ∧ link'.Carries (packets ++ ps) := by
  induction ps with
  | nil => exact fun hs _ _ => ⟨_, rfl, by rwa [List.append_nil]⟩
  | cons p ps ih =>
      intro link packets hs halive hroom
      rw [List.flatten_cons, List.length_append] at hroom
      obtain ⟨output, hsend, hqueued, hs₁⟩ :=
        (TcpLink.sendPacket_spec hs (hframes p List.mem_cons_self) (by omega)).1 halive
      obtain ⟨link', hrest, hs'⟩ := ih (fun q hq => hframes q (List.mem_cons_of_mem p hq)) hs₁ halive (by
        show output.queued.length + _ < _
        rw [hqueued, List.length_append]
        omega)
      refine ⟨link', by rw [sendPackets, hsend, Option.bind_some, hrest], ?_⟩
      rwa [List.append_assoc, List.singleton_append] at hs'

theorem sendPackets_dead {link : TcpLink} (hdead : ¬ link.Alive) (ps : List (List UInt8)) :
    sendPackets memory link ps = some link := by
  induction ps with
  | nil => rfl
  | cons p ps ih =>
      have hsend : link.sendPacket memory p = some link := if_neg hdead
      rw [sendPackets, hsend, Option.bind_some, ih]

/-! ## Runs -/

/-- What the callers and the kernels are held to: calls have functions, fewer than `2 ^ 30` bytes are queued at a socket,
    and what is read was written. -/
def Allowed (memory : (n : Nat) → Block UInt8 n) (stub : RpcProxy R) (s : RpcChannel R) : RpcChannelLabel → Prop
  | .call funcName args       => Callable stub (funcName, args)
  | .handleWriteMsg           => s.link.output.queued.length + s.writePackets.flatten.length < 2 ^ 30
  | .onRead answers available => TcpLink.Gives memory s.link answers available
  | _                         => True

/-- Where the calls are: done, read, on their way, and not written yet. What is not written any more is lost. -/
def Inv (stub : RpcProxy R) (socketIndex : SocketIndex) (s : RpcChannel R) : Prop :=
  ∃ done read carried late packets, s.calls = done ++ (read ++ (carried ++ late)) ∧
    List.Forall₂ (Runs stub socketIndex) done s.handled ∧ List.Forall₂ (Image stub) read s.readPackets ∧
    List.Forall₂ (Image stub) carried packets ∧ s.link.Carries packets ∧
    (s.link.Alive → List.Forall₂ (Image stub) late (s.writePackets ++ s.servicePackets))

/-- A call puts its packet into the queue of the service. -/
theorem step_call (hh : client.handler = some handler) (hvalid : handler ≠ invalidSocketIndex) {funcName : FuncName}
    {args : List Param} {f : RpcFuncWithIndex R} {vs : List Value} (hcall : CallableAs stub (funcName, args) f vs)
    (s : RpcChannel R) : step memory client stub entity socketIndex s (.call funcName args) =
      some { s with
        servicePackets := s.servicePackets ++ [rpcImage funcName vs]
        calls := s.calls ++ [(funcName, args)] } :=
  congrArg (Option.map _) (RpcClient.callRemoteFunc_eq hh hvalid hcall.holds (Nat.le_of_lt hcall.short) hcall.fits)

theorem step_inv (hh : client.handler = some handler) (hvalid : handler ≠ invalidSocketIndex) {s : RpcChannel R}
    {label : RpcChannelLabel} (hs : Inv stub socketIndex s) (hallowed : Allowed memory stub s label) :
    ∃ s', step memory client stub entity socketIndex s label = some s' ∧ Inv stub socketIndex s' := by
  obtain ⟨done, read, carried, late, packets, hcalls, hdone, hread, hcarried, hlink, hlate⟩ := hs
  -- a step of the sockets alone keeps every call where it is
  have hkeep : ∀ {link : TcpLink}, link.Carries packets → (link.Alive → s.link.Alive) →
      Inv stub socketIndex { s with link := link } := fun hlink' halive =>
    ⟨done, read, carried, late, packets, hcalls, hdone, hread, hcarried, hlink', fun h => hlate (halive h)⟩
  cases label with
  | call funcName args =>
      obtain ⟨f, vs, hcall⟩ := hallowed
      refine ⟨_, step_call hh hvalid hcall s, done, read, carried, late ++ [(funcName, args)], packets, ?_, hdone,
        hread, hcarried, hlink, fun h => ?_⟩
      · show s.calls ++ _ = _
        rw [hcalls]
        simp only [List.append_assoc]
      · show List.Forall₂ _ _ (s.writePackets ++ (s.servicePackets ++ [rpcImage funcName vs]))
        rw [← List.append_assoc]
        exact List.rel_append (hlate h) (.cons ⟨f, vs, hcall, rfl⟩ .nil)
  | swapLogin2Net =>
      refine ⟨_, rfl, done, read, carried, late, packets, hcalls, hdone, hread, hcarried, hlink, fun h => ?_⟩
      show List.Forall₂ _ _ ((s.writePackets ++ s.servicePackets) ++ [])
      rw [List.append_nil]
      exact hlate h
  | handleWriteMsg =>
      by_cases halive : s.link.Alive
      · -- the calls whose packets are written join those on their way
        obtain ⟨now, later, rfl, hnow, hlater⟩ := images_split (hlate halive)
        obtain ⟨link', hsend, hlink'⟩ := sendPackets_spec (isFrame_of_mem hnow) hlink halive hallowed
        refine ⟨_, congrArg (Option.map _) hsend, done, read, carried ++ now, later, packets ++ s.writePackets, ?_,
          hdone, hread, List.rel_append hcarried hnow, hlink', fun _ => hlater⟩
        show s.calls = _
        rw [hcalls]
        simp only [List.append_assoc]
      · exact ⟨_, congrArg (Option.map _) (sendPackets_dead halive s.writePackets), done, read, carried, late, packets,
          hcalls, hdone, hread, hcarried, hlink, fun h => absurd h halive⟩
  | onWrite answers last =>
      obtain ⟨link, hstep, hlink', halive⟩ := TcpLink.onWrite_spec hlink answers last
      exact ⟨_, congrArg (Option.map _) hstep, hkeep hlink' halive⟩
  | closeSender answers =>
      obtain ⟨link, hstep, hlink', hdead⟩ := TcpLink.closeSender_spec hlink answers
      exact ⟨_, congrArg (Option.map _) hstep, hkeep hlink' fun h => absurd h hdead⟩
  | deactivateSender => exact ⟨_, rfl, hkeep hlink.deactivateSender fun h => absurd h.2 Bool.false_ne_true⟩
  | onRead answers available =>
      obtain ⟨link, hstep, hlink', halive⟩ := TcpLink.onRead_spec hlink hallowed
      exact ⟨_, congrArg (Option.map _) hstep, hkeep hlink' halive⟩
  | handleUnpacket =>
      obtain ⟨link, ps, qs, rfl, hstep, hlink', halive⟩ := TcpLink.handleUnpacket_spec hlink
      obtain ⟨now, later, rfl, hnow, hlater⟩ := images_split hcarried
      refine ⟨_, congrArg (Option.map _) hstep, done, read ++ now, later, late, qs, ?_, hdone,
        List.rel_append hread hnow, hlater, hlink', fun h => hlate (halive h)⟩
      show s.calls = _
      rw [hcalls]
      simp only [List.append_assoc]
  | closeReceiver => exact ⟨_, rfl, hkeep hlink.closeReceiver id⟩
  | deactivateReceiver => exact ⟨_, rfl, hkeep hlink.deactivateReceiver id⟩
  | doLoop =>
      obtain ⟨rs, hstep, hruns⟩ := handlePackets_images entity socketIndex hread
      refine ⟨_, congrArg (Option.map _) hstep, done ++ read, [], carried, late, packets, ?_,
        List.rel_append hdone hruns, .nil, hcarried, hlink, hlate⟩
      show s.calls = _
      rw [hcalls, List.append_assoc, List.nil_append]

/-- Nothing waits anywhere, and both sockets are open. -/
def Idle (s : RpcChannel R) : Prop :=
  s.link.Idle ∧ s.servicePackets = [] ∧ s.writePackets = [] ∧ s.readPackets = []

/-- **Calls run in their order, once, with their arguments.** However the loops of the two processes, the sockets and the
    network interleave, and whether or not sockets are closed, the functions that have run are those of the calls that
    were made first, each on the arguments it was called with; once nothing waits on a connection that is open, they are
    those of all calls. -/
theorem rpc_delivered (hh : client.handler = some handler) (hvalid : handler ≠ invalidSocketIndex)
    (block : Block UInt8 maxPacketBufferSize) {labels : List RpcChannelLabel}
    (hallowed : Along (step memory client stub entity socketIndex) (Allowed memory stub) (init block) labels) :
    ∃ s, run (step memory client stub entity socketIndex) (init block) labels = some s ∧
      ∃ done later, s.calls = done ++ later ∧ List.Forall₂ (Runs stub socketIndex) done s.handled ∧
        (s.Idle → later = []) := by
  have hinit : Inv stub socketIndex (init block : RpcChannel R) :=
    ⟨[], [], [], [], [], rfl, .nil, .nil, .nil, TcpLink.carries_init block, fun _ => .nil⟩
  obtain ⟨s, hrun, done, read, carried, late, packets, hcalls, hdone, hread, hcarried, hlink, hlate⟩ :=
    runs_along (fun hs hP => step_inv hh hvalid hs hP) hinit hallowed
  refine ⟨s, hrun, done, _, hcalls, hdone, fun ⟨hidle, hservice, hwrite, hreadPackets⟩ => ?_⟩
  -- every queue that is empty has the calls of none
  rw [hreadPackets, List.forall₂_nil_right_iff] at hread
  rw [hlink.eq_nil hidle, List.forall₂_nil_right_iff] at hcarried
  have hlate' := hlate hidle.alive
  rw [hwrite, hservice, List.append_nil, List.forall₂_nil_right_iff] at hlate'
  rw [hread, hcarried, hlate']
  rfl

/-- The answer of a database to its game, and the function for it. -/
def onOptDbWithStatus : RpcFuncWithIndex (List Param) := ⟨⟨3, [.pod 8, .pod 8, .pod 1], id, rfl⟩, rfl⟩

def statusStub : RpcProxy (List Param) :=
  RpcProxy.init.registerFuncWithIndex (ascii "on_opt_db_with_status") onOptDbWithStatus

def statusArgs (optId status : Nat) : List Param := [.pod (Pod.ofNat 8 optId), .pod (Pod.ofNat 1 status)]

def statusImage (optId status : Nat) : List UInt8 :=
  rpcImage (ascii "on_opt_db_with_status") [.pod (Pod.ofNat 8 optId), .pod (Pod.ofNat 1 status)]

theorem statusArgs_callable (optId status : Nat) :
    CallableAs statusStub (ascii "on_opt_db_with_status", statusArgs optId status) onOptDbWithStatus
      [.pod (Pod.ofNat 8 optId), .pod (Pod.ofNat 1 status)] := by
  have hfree : 0 ∉ ascii "on_opt_db_with_status" := by decide
  have hshort : (ascii "on_opt_db_with_status").length < sizeofRpcName := by decide
  exact ⟨hfree, hshort, rfl, .cons (.pod _) (.cons (.pod _) .nil), rfl, by simp [Value.Pushable],
    by simp [Value.encode, Pod.ofNat, sizeofBuffer]⟩

/-- Two answers, that the socket sends in two parts and the other one reads in three. -/
def statusLoops : List RpcChannelLabel :=
  let bytes := statusImage 7 1 ++ statusImage 8 0
  [.swapLogin2Net, .handleWriteMsg, .onWrite [.room 150, .wouldBlock] [], .onRead [.bytes (bytes.take 60)] 0,
    .handleUnpacket, .onRead [.bytes ((bytes.take 150).drop 60)] 0, .handleUnpacket, .doLoop, .onWrite [.room 1000] [],
    .onRead [.bytes (bytes.drop 150)] 0, .handleUnpacket, .doLoop]

def statusRun : List RpcChannelLabel :=
  .call (ascii "on_opt_db_with_status") (statusArgs 7 1) :: .call (ascii "on_opt_db_with_status") (statusArgs 8 0) ::
    statusLoops

/-- What `Allowed` asks of the steps that are not calls. -/
def Transports (memory : (n : Nat) → Block UInt8 n) (s : RpcChannel R) : RpcChannelLabel → Prop
  | .call _ _                 => False
  | .handleWriteMsg           => s.link.output.queued.length + s.writePackets.flatten.length < 2 ^ 30
  | .onRead answers available =>
    available < 2 ^ 30 ∧ ∀ r ∈ Filling.fill memory available s.link.input answers, r.1.received <+: s.link.wire
  | _                         => True

instance (memory : (n : Nat) → Block UInt8 n) (s : RpcChannel R) : ∀ label, Decidable (Transports memory s label)
  | .call _ _                 => isFalse id
  | .handleWriteMsg           => inferInstanceAs (Decidable (_ < _))
  | .onRead answers available =>
    inferInstanceAs (Decidable (available < 2 ^ 30 ∧
      ∀ r ∈ Filling.fill memory available s.link.input answers, r.1.received <+: s.link.wire))
  | .swapLogin2Net            => isTrue trivial
  | .onWrite _ _              => isTrue trivial
  | .closeSender _            => isTrue trivial
  | .deactivateSender         => isTrue trivial
  | .handleUnpacket           => isTrue trivial
  | .closeReceiver            => isTrue trivial
  | .deactivateReceiver       => isTrue trivial
  | .doLoop                   => isTrue trivial

theorem allowed_of_transports {s : RpcChannel R} {label : RpcChannelLabel} (h : Transports memory s label) :
    Allowed memory stub s label := by
  cases label with
  | call funcName args => exact h.elim
  | handleWriteMsg => exact h
  | onRead answers available => exact ⟨h.1, fun f ret hfill => h.2 (f, ret) hfill⟩
  | _ => trivial

/-- The channel with the two calls made. -/
def statusCalled : RpcChannel (List Param) :=
  { (init (Block.fill _ 0) : RpcChannel (List Param)) with
    servicePackets := [statusImage 7 1, statusImage 8 0]
    calls := [(ascii "on_opt_db_with_status", statusArgs 7 1), (ascii "on_opt_db_with_status", statusArgs 8 0)] }

theorem rpc_delivered_status :
    ∃ s, run (step (fun n => Block.fill n 0) ⟨some 3, []⟩ statusStub [] 4) (init (Block.fill _ 0)) statusRun = some s ∧
      ∃ done later, s.calls = done ++ later ∧ List.Forall₂ (Runs statusStub 4) done s.handled ∧
        (s.Idle → later = []) ∧ s.handled.length = 2 := by
  have hcalls : ∀ labels, run (step (fun n => Block.fill n 0) ⟨some 3, []⟩ statusStub [] 4) (init (Block.fill _ 0))
      (.call (ascii "on_opt_db_with_status") (statusArgs 7 1) ::
        .call (ascii "on_opt_db_with_status") (statusArgs 8 0) :: labels) =
      run (step (fun n => Block.fill n 0) ⟨some 3, []⟩ statusStub [] 4) statusCalled labels := by
    intro labels
    rw [run, step_call rfl (by decide) (statusArgs_callable 7 1), Option.bind_some, run,
      step_call rfl (by decide) (statusArgs_callable 8 0), Option.bind_some]
    rfl
  have hloops : Along (step (fun n => Block.fill n 0) ⟨some 3, []⟩ statusStub [] 4) (Transports fun n => Block.fill n 0)
      statusCalled statusLoops := by decide +kernel
  have hhandled : (run (step (fun n => Block.fill n 0) ⟨some 3, []⟩ statusStub [] 4) statusCalled statusLoops).map
      (·.handled.length) = some 2 := by decide +kernel
  obtain ⟨s, hrun, done, later, hcalls', hdone, hidle⟩ :=
    @rpc_delivered _ (fun n => Block.fill n 0) ⟨some 3, []⟩ statusStub [] 4 3 rfl (by decide) (Block.fill _ 0) statusRun
      ((along_cons (step_call rfl (by decide) (statusArgs_callable 7 1) _)).mpr ⟨⟨_, _, statusArgs_callable 7 1⟩,
        (along_cons (step_call rfl (by decide) (statusArgs_callable 8 0) _)).mpr ⟨⟨_, _, statusArgs_callable 8 0⟩,
          Along.mono (I := fun _ => True) (fun _ _ => trivial) (fun _ => allowed_of_transports) trivial hloops⟩⟩)
  refine ⟨s, hrun, done, later, hcalls', hdone, hidle, ?_⟩
  rw [statusRun, hcalls] at hrun
  rw [hrun] at hhandled
  exact Option.some.inj hhandled

end RpcChannel

end Mowang
