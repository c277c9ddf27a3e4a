import Mowang.Share.SocketInputStream
import Mowang.Share.SocketOutputStream
import Mowang.Share.TcpManager

/-!
# `Share.TcpLink` — one direction of a connection

Packets that one process writes to a socket come out of the socket of the other: through the output stream of the
sender, the kernels and the network, the input stream of the receiver, and its handler. The kernels take and give bytes
in parts of any size, and either socket can be closed at any time; `wire` has the bytes that were taken and not yet
given.

## Contents
- `TcpLink`, `sendPacket`, `onWrite`, `closeSender`, `onRead`, `handleUnpacket`.
- `Carries` and what each operation does to it; `Carries.eq_nil`.
-/

namespace Mowang

open LittleEndian Framing Block

/-- `DEFAULT_SOCKET_INPUT_BUFFER_SIZE` and `DEFAULT_SOCKET_OUTPUT_BUFFER_SIZE`. -/
def defaultSocketInputBufferSize : Nat := 64 * 1024
def defaultSocketOutputBufferSize : Nat := 64 * 1024

/-- `DISCONNECT_SOCKET_INPUT_SIZE` and `DISCONNECT_SOCKET_OUTPUT_SIZE`. -/
def disconnectSocketInputSize : Nat := 10 * 1024 * 1024
def disconnectSocketOutputSize : Nat := 10 * 1024 * 1024

/-- The two sockets of a connection, as far as the packets of one direction go. -/
structure TcpLink where
  /-- The sender's socket is in `m_sockets`, and its active flag is set. -/
  senderOpen : Bool := true
  senderActive : Bool := true
  output : OutputStream
  wire : List UInt8 := []
  receiverOpen : Bool := true
  input : InputStream
  handler : SocketHandler

namespace TcpLink

/-- Two new sockets. -/
def init (block : Block UInt8 maxPacketBufferSize) : TcpLink where
  output := .initsize defaultSocketOutputBufferSize disconnectSocketOutputSize
  input := .initsize defaultSocketInputBufferSize disconnectSocketInputSize
  handler := .init block

/-- `SOCKET_ERROR`. -/
def socketError : Int := -1

section Operations

variable (memory : (n : Nat) → Block UInt8 n)

/-- `send_packet`. -/
def sendPacket (s : TcpLink) (packet : List UInt8) : Option TcpLink :=
  if s.senderOpen ∧ s.senderActive then (s.output.write memory packet).map fun (output, _) => { s with output := output }
  else some s

/-- `socket_base::on_write`, and what `flush` returned. -/
def flush (s : TcpLink) (answers : List Answer) : Option (TcpLink × Int) :=
  (s.output.flush answers).map fun r =>
    ({ s with output := r.stream, wire := s.wire ++ r.sent, senderActive := s.senderActive && r.stream.active },
      r.returned.getD r.nFlushed)

/-- `del_socket`: what is queued is flushed before the socket is closed. -/
def closeSender (s : TcpLink) (answers : List Answer) : Option TcpLink :=
  if s.senderOpen then (s.flush answers).map fun (s, _) => { s with senderOpen := false } else some s

/-- `tcp_manager::on_write`; `last` answers the flush of a socket that is closed for an error. -/
def onWrite (s : TcpLink) (answers last : List Answer) : Option TcpLink :=
  if s.senderOpen then
    (s.flush answers).bind fun (s, ret) => if ret > socketError then some s else s.closeSender last
  else some s

/-- `tcp_manager::on_read`. -/
def onRead (s : TcpLink) (answers : List Received) (available : Int) : Option TcpLink :=
  if s.receiverOpen ∧ s.input.active then
    (Filling.fill memory available s.input answers).map fun (f, ret) =>
      { s with input := f.stream, wire := s.wire.drop f.received.length, receiverOpen := decide (ret > socketError) }
  else some s

/-- `handle_unpacket` and `unpack_packets`; a read of fewer bytes than were asked for is not modelled. -/
def handleUnpacket (s : TcpLink) : Option (TcpLink × List (List UInt8)) :=
  if s.receiverOpen ∧ s.input.active ∧ 0 < s.input.inputLen then
    let len := min s.input.inputLen maxPacketReadSize
    (s.input.read len).bind fun (input, _, bytes) =>
    if bytes.length = len then
      (TcpManager.unpackPackets maxPacketBufferSize s.handler bytes).map fun (packets, _, handler) =>
        ({ s with input := input, handler := handler }, packets)
    else none
  else some (s, [])

/-- The other direction has reset its stream: the socket is not active any more, and is not closed yet. -/
def deactivateSender (s : TcpLink) : TcpLink := { s with senderActive := false }
def deactivateReceiver (s : TcpLink) : TcpLink := { s with input := { s.input with active := false } }

/-- The receiver's socket is closed. -/
def closeReceiver (s : TcpLink) : TcpLink := { s with receiverOpen := false }

end Operations

/-! ## What a link carries -/

/-- Packets that are on their way: from the bytes that the handler has left over to those that the output stream has
    queued, as long as neither end is closed. The queue of a sender that is closed is of no use any more. -/
structure Carries (s : TcpLink) (packets : List (List UInt8)) : Prop where
  frames : ∀ p ∈ packets, IsFrame TcpManager.packetFormat p
  output : s.senderOpen = true → s.output.Valid
  input : s.input.Valid
  current : Filling.Current s.input
  bytes : s.receiverOpen = true → s.input.active = true → ∃ unread r rest, TcpManager.Holds s.handler r unread ∧
    next TcpManager.packetFormat unread = none ∧ (s.senderOpen = true → rest = s.output.queued) ∧
    unread ++ (s.input.queued ++ (s.wire ++ rest)) = packets.flatten

variable {memory : (n : Nat) → Block UInt8 n} {s s' : TcpLink} {packets : List (List UInt8)}

theorem carries_init (block : Block UInt8 maxPacketBufferSize) : Carries (init block) [] := by
  have hout : 0 < defaultSocketOutputBufferSize ∧ defaultSocketOutputBufferSize < 2 ^ 31 ∧
      disconnectSocketOutputSize ≤ 2 ^ 30 := by decide
  have hin : 0 < defaultSocketInputBufferSize ∧ defaultSocketInputBufferSize < 2 ^ 30 ∧
      disconnectSocketInputSize ≤ 2 ^ 29 := by decide
  refine ⟨nofun, fun _ => ⟨hout.1, hout.1, hout.2.1, hout.2.2, Or.inr rfl⟩, ⟨hin.1, hin.1, hin.2.1, hin.2.2⟩,
    fun _ => rfl, fun _ _ => ⟨[], 0, [], TcpManager.holds_init block, rfl, fun _ => ?_, ?_⟩⟩
  · exact (ring_self (Block.fill defaultSocketOutputBufferSize (0 : UInt8)) 0).symm
  · exact List.append_eq_nil_iff.mpr ⟨ring_self (Block.fill defaultSocketInputBufferSize (0 : UInt8)) 0, rfl⟩

/-- The sender's socket takes packets. -/
def Alive (s : TcpLink) : Prop := s.senderOpen = true ∧ s.senderActive = true

/-- What is on its way may arrive after the sender has closed. -/
theorem Carries.close (hs : Carries s packets) : Carries { s with senderOpen := false } packets where
  frames := hs.frames
  output := nofun
  input := hs.input
  current := hs.current
  bytes hopen hactive := by
    obtain ⟨unread, r, rest, hholds, hnext, _, hbytes⟩ := hs.bytes hopen hactive
    exact ⟨unread, r, rest, hholds, hnext, nofun, hbytes⟩

theorem Carries.deactivateSender (hs : Carries s packets) : Carries s.deactivateSender packets :=
  ⟨hs.frames, hs.output, hs.input, hs.current, hs.bytes⟩

theorem Carries.deactivateReceiver (hs : Carries s packets) : Carries s.deactivateReceiver packets :=
  ⟨hs.frames, hs.output, ⟨hs.input.head, hs.input.tail, hs.input.size, hs.input.max⟩, nofun, fun _ => nofun⟩

theorem Carries.closeReceiver (hs : Carries s packets) : Carries s.closeReceiver packets :=
  ⟨hs.frames, hs.output, hs.input, hs.current, nofun⟩

/-- A packet that is sent comes behind the others. -/
theorem sendPacket_spec (hs : Carries s packets) {packet : List UInt8} (hp : IsFrame TcpManager.packetFormat packet)
    (hroom : s.output.queued.length + packet.length < 2 ^ 30) :
    (Alive s → ∃ output, s.sendPacket memory packet = some { s with output := output } ∧
      output.queued = s.output.queued ++ packet ∧ Carries { s with output := output } (packets ++ [packet])) ∧
    (¬ Alive s → s.sendPacket memory packet = some s) := by
  refine ⟨fun halive => ?_, fun hdead => if_neg hdead⟩
  obtain ⟨output, hwrite, hvalid, hqueued⟩ := OutputStream.write_spec (hs.output halive.1) memory hroom
  refine ⟨output, (if_pos halive).trans (congrArg (Option.map _) hwrite), hqueued, ?_, fun _ => hvalid, hs.input,
    hs.current, fun hopen hactive => ?_⟩
  · intro p hmem
    rcases List.mem_append.mp hmem with hmem | hmem
    · exact hs.frames p hmem
    · obtain rfl := List.mem_singleton.mp hmem
      exact hp
  · obtain ⟨unread, r, rest, hholds, hnext, hrest, hbytes⟩ := hs.bytes hopen hactive
    refine ⟨unread, r, output.queued, hholds, hnext, fun _ => rfl, ?_⟩
    rw [List.flatten_append, List.flatten_singleton, ← hbytes, hqueued, ← hrest halive.1]
    simp only [List.append_assoc]

/-- A flush moves bytes on, or resets the stream and says so. -/
theorem flush_spec (hs : Carries s packets) (hopen : s.senderOpen = true) (answers : List Answer) :
    ∃ s' ret, s.flush answers = some (s', ret) ∧ s'.senderOpen = true ∧ (s'.senderActive = true → s.senderActive = true) ∧
      (Carries s' packets ∨
        ret = -2 ∧ s'.output.bufferLen > s'.output.maxBufferLen ∧ Carries { s' with senderOpen := false } packets) := by
  have hdown : ∀ {b : Bool}, (s.senderActive && b) = true → s.senderActive = true := fun h => (Bool.and_eq_true _ _ ▸ h).1
  by_cases hmax : s.output.bufferLen ≤ s.output.maxBufferLen
  · obtain ⟨r, hflush, hvalid, hqueued⟩ := OutputStream.flush_spec (hs.output hopen) hmax answers
    refine ⟨_, _, congrArg (Option.map _) hflush, hopen, hdown, .inl ⟨hs.frames, fun _ => hvalid, hs.input,
      hs.current, fun hopen' hactive => ?_⟩⟩
    obtain ⟨unread, u, rest, hholds, hnext, hrest, hbytes⟩ := hs.bytes hopen' hactive
    refine ⟨unread, u, r.stream.queued, hholds, hnext, fun _ => rfl, ?_⟩
    rw [← hbytes, hrest hopen, ← hqueued]
    simp only [List.append_assoc]
  · have hreset : s.output.flush answers = some _ := if_pos (Nat.lt_of_not_le hmax)
    refine ⟨_, _, congrArg (Option.map _) hreset, hopen, hdown, .inr ⟨rfl, Nat.lt_of_not_le hmax, hs.frames, nofun,
      hs.input, hs.current, fun hopen' hactive => ?_⟩⟩
    obtain ⟨unread, r, rest, hholds, hnext, _, hbytes⟩ := hs.bytes hopen' hactive
    exact ⟨unread, r, rest, hholds, hnext, nofun, by rw [← hbytes, List.append_nil]⟩

theorem closeSender_spec (hs : Carries s packets) (answers : List Answer) :
    ∃ s', s.closeSender answers = some s' ∧ Carries s' packets ∧ ¬ Alive s' := by
  by_cases hopen : s.senderOpen = true
  · obtain ⟨s', ret, hflush, _, _, hcases⟩ := flush_spec hs hopen answers
    refine ⟨{ s' with senderOpen := false }, by rw [closeSender, if_pos hopen, hflush, Option.map_some], ?_, nofun⟩
    exact hcases.elim Carries.close fun h => h.2.2
  · exact ⟨s, if_neg hopen, hs, fun h => hopen h.1⟩

theorem onWrite_spec (hs : Carries s packets) (answers last : List Answer) :
    ∃ s', s.onWrite answers last = some s' ∧ Carries s' packets ∧ (Alive s' → Alive s) := by
  by_cases hopen : s.senderOpen = true
  · obtain ⟨s₁, ret, hflush, hopen₁, hactive₁, hcases⟩ := flush_spec hs hopen answers
    rw [onWrite, if_pos hopen, hflush, Option.bind_some]
    dsimp only
    rcases hcases with hs₁ | ⟨rfl, hmax, hs₁⟩
    · by_cases hret : ret > socketError
      · exact ⟨s₁, if_pos hret, hs₁, fun h => ⟨hopen, hactive₁ h.2⟩⟩
      · obtain ⟨s', hclose, hs', hdead⟩ := closeSender_spec hs₁ last
        exact ⟨s', (if_neg hret).trans hclose, hs', fun h => absurd h hdead⟩
    · -- the second flush resets the stream again
      rw [if_neg (by decide), closeSender, if_pos hopen₁, flush, OutputStream.flush, if_pos hmax]
      refine ⟨_, rfl,
        ⟨hs₁.frames, fun h => absurd h Bool.false_ne_true, hs₁.input, hs₁.current, fun hopen' hactive => ?_⟩,
        fun h => absurd h.1 Bool.false_ne_true⟩
      obtain ⟨unread, r, rest, hholds, hnext, _, hbytes⟩ := hs₁.bytes hopen' hactive
      exact ⟨unread, r, rest, hholds, hnext, fun h => absurd h Bool.false_ne_true, by simpa using hbytes⟩
  · exact ⟨s, if_neg hopen, hs, id⟩

/-- What the kernel gives comes from the wire. -/
def Gives (memory : (n : Nat) → Block UInt8 n) (s : TcpLink) (answers : List Received) (available : Int) : Prop :=
  available < 2 ^ 30 ∧ ∀ f ret, Filling.fill memory available s.input answers = some (f, ret) → f.received <+: s.wire

theorem onRead_spec (hs : Carries s packets) {answers : List Received} {available : Int}
    (hgives : Gives memory s answers available) :
    ∃ s', s.onRead memory answers available = some s' ∧ Carries s' packets ∧ (Alive s' → Alive s) := by
  by_cases hin : s.receiverOpen ∧ s.input.active
  · obtain ⟨⟨f, ret⟩, hfill, hprogress, hcurrent⟩ := Filling.fill_spec hs.input memory hgives.1 answers
    obtain ⟨later, hlater⟩ := hgives.2 f ret hfill
    refine ⟨_, (if_pos hin).trans (congrArg (Option.map _) hfill), ⟨hs.frames, hs.output, hprogress.valid, hcurrent,
      fun _ hactive => ?_⟩, id⟩
    obtain ⟨unread, r, rest, hholds, hnext, hrest, hbytes⟩ := hs.bytes hin.1 hin.2
    refine ⟨unread, r, rest, hholds, hnext, hrest, ?_⟩
    rw [← hbytes, hprogress.queued hactive, ← hlater]
    dsimp only
    rw [List.drop_left]
    simp only [List.append_assoc]
  · exact ⟨s, if_neg hin, hs, id⟩

/-- Packets come out in front, whole. -/
theorem handleUnpacket_spec (hs : Carries s packets) :
    ∃ s' ps qs, packets = ps ++ qs ∧ s.handleUnpacket = some (s', ps) ∧ Carries s' qs ∧ (Alive s' → Alive s) := by
  by_cases hin : s.receiverOpen ∧ s.input.active ∧ 0 < s.input.inputLen
  · obtain ⟨unread, r, rest, hholds, hnext, hrest, hbytes⟩ := hs.bytes hin.1 hin.2.1
    have hlen := hs.current hin.2.1
    obtain ⟨input, buf, hread, hvalid, hqueued, hbuf, hactive, hcurrent⟩ :=
      InputStream.read_spec hs.input (min s.input.inputLen maxPacketReadSize)
    rw [if_pos (hlen ▸ Nat.min_le_left _ _)] at hbuf
    have hbytes' : (unread ++ buf) ++ (input.queued ++ (s.wire ++ rest)) = packets.flatten := by
      rw [← hbytes, hqueued]
      simp only [List.append_assoc]
    obtain ⟨ps, qs, unread', hsplit, hdrains, htail⟩ := drains_of_frames (by decide) hs.frames hbytes'
    have hread' : buf.length ≤ maxPacketReadSize := hbuf ▸ Nat.min_le_right _ _
    have hcount : ps.length < maxPacketBufferSize := by
      have hmin : ps.length ≤ ps.flatten.length :=
        length_le_flatten (by decide) fun p hp => hs.frames p (hsplit ▸ List.mem_append_left qs hp)
      have hall := congrArg List.length hdrains.flatten
      have hshort := TcpManager.length_lt_of_next_none hnext
      simp only [List.length_append, maxPacketReadSize, maxPacketBufferSize] at hall hread' ⊢
      omega
    obtain ⟨touches, handler, r', hunpack, hholds', _⟩ :=
      TcpManager.unpackPackets_drains hholds hnext hread' hdrains hcount
    refine ⟨{ s with input := input, handler := handler }, ps, qs, hsplit, ?_, ⟨fun p hp => ?_, hs.output, hvalid,
      fun _ => hcurrent hlen, fun _ _ => ?_⟩, id⟩
    · rw [handleUnpacket, if_pos hin]
      dsimp only
      rw [hread, Option.bind_some]
      dsimp only
      rw [if_pos hbuf, hunpack, Option.map_some]
    · exact hs.frames p (hsplit ▸ List.mem_append_right ps hp)
    · exact ⟨unread', r', rest, hholds', hdrains.rest_none, hrest, htail⟩
  · exact ⟨s, [], packets, rfl, if_neg hin, hs, id⟩

/-- Nothing waits anywhere between two sockets that are open. -/
structure Idle (s : TcpLink) : Prop where
  alive : Alive s
  open_ : s.receiverOpen = true
  active : s.input.active = true
  output : s.output.queued = []
  wire : s.wire = []
  input : s.input.queued = []

/-- Then there are no packets on their way, and no part of one. -/
theorem Carries.eq_nil (hs : Carries s packets) (hidle : Idle s) : packets = [] := by
  obtain ⟨unread, r, rest, _, hnext, hrest, hbytes⟩ := hs.bytes hidle.open_ hidle.active
  rw [hrest hidle.alive.1, hidle.output, hidle.wire, hidle.input] at hbytes
  cases packets with
  | nil => rfl
  | cons p packets =>
      -- a first packet would be complete among the bytes that are left over
      rw [List.append_nil, List.append_nil, List.append_nil, List.flatten_cons] at hbytes
      rw [hbytes, next_frame (hs.frames p List.mem_cons_self)] at hnext
      cases hnext

end TcpLink

end Mowang
