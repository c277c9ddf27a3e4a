import Mowang.Base.Markers
import Mowang.Base.Run
import Mowang.Gate.WsTransfer
import Mowang.Share.TcpManager

/-!
# `Gate.WsManager` — what the messages of a WebSocket client deliver

`on_message` stores a message through `buffer(len)`, and `unpack_ws_packet` looks for a frame among the unread bytes.
A frame is a `START_CHARACTER` and an `END_CHARACTER` with neither between them (`Base.Markers`).

The unread bytes are in one piece (`Holds`), or the writer has gone back to the start of the buffer (`Wrapped`). Nothing
in `buffer` keeps a message from leaving the buffer or from covering unread bytes. `WsInput.sound_along` says when it
does not, and `WsClient.marker_framing` that it never does while little is unread and the messages are short.

## Contents
- `findFrame`, `unpackWsPacket`, `onMessage`, `unpackWsLoop`.
- `findFrame_eq`, `unpackWsPacket_none`, `unpackWsPacket_some`.
- `WsClient.marker_framing`, `WsInput.sound_along`.
-/

namespace Mowang

open Markers Block TcpManager

/-- `packet_buffer_info`: a payload in the buffer. -/
structure PacketBufferInfo where
  buffer : Int
  len : Int

namespace SocketHandler

/-- The `for` of `unpack_ws_packet` from the index `i` on, with `n` bytes to go: `start_index` and `end_index` at its
    end. -/
def findFrame (h : SocketHandler) : Nat → Int → Int → Option (Option (Int × Int))
  | 0, _, _              => some none
  | n + 1, i, startIndex =>
    (h.load? i 1).bind fun c =>
    if c = [startCharacter] then findFrame h n (i + 1) (i + 1)
    else if startIndex ≥ 0 ∧ c = [endCharacter] then some (some (startIndex, i))
    else findFrame h n (i + 1) startIndex

/-- `unpack_ws_packet`; the inner `none` is the source's `false`. -/
def unpackWsPacket (h : SocketHandler) : Option (Option PacketBufferInfo × SocketHandler) :=
  let h := h.rewind
  (h.findFrame (h.maxIndex - h.readIndex).toNat h.readIndex (-1)).bind fun
  | none                        => some (none, h)
  | some (startIndex, endIndex) =>
    let packet : PacketBufferInfo := ⟨startIndex, endIndex - startIndex⟩
    let h : SocketHandler := { h with readIndex := endIndex + 1 }
    if h.readIndex > maxPacketBufferMoveForwardSize then h.moveForward?.map fun h => (some packet, h)
    else some (some packet, h)

/-- `on_message`: the data go to where `buffer` says. Its argument is `(int)data.length()`. -/
def onMessage (h : SocketHandler) (data : List UInt8) : Option (Int × SocketHandler) :=
  let (buffer, h) := h.buffer ((data.length : Int).bmod (2 ^ 32))
  (h.store? buffer data).map fun h => (buffer, h)

/-- The `memcpy` of `web_socket_manager::unpack_packets`, after the call that returned the packet. -/
def copyPacket (h : SocketHandler) (packet : PacketBufferInfo) : Option (List UInt8) :=
  h.load? packet.buffer packet.len.toNat

/-- The `while` of `web_socket_manager::unpack_packets`. -/
def unpackWsLoop : Nat → SocketHandler → Option (List (List UInt8) × SocketHandler)
  | 0, _        => none
  | fuel + 1, h =>
    h.unpackWsPacket.bind fun
    | (none, h)        => some ([], h)
    | (some packet, h) =>
      (h.copyPacket packet).bind fun payload =>
      (unpackWsLoop fuel h).map fun (payloads, h) => (payload :: payloads, h)

/-- `web_socket_manager::unpack_packets`. A frame takes a byte at least, so the loop ends. -/
def unpackWsPackets (h : SocketHandler) : Option (List (List UInt8) × SocketHandler) :=
  h.unpackWsLoop (h.getUnpackLen.toNat + 1)

end SocketHandler

/-! ## One frame -/

open SocketHandler

theorem start_ne_end : startCharacter ≠ endCharacter := by decide

/-- **The loop is the scan of the bytes in front of it.** -/
theorem findFrame_eq {h : SocketHandler} {r i : Nat} {s : List UInt8} (hfit : r + i + s.length ≤ maxPacketBufferSize)
    (hs : h.block.slice (r + i) s.length = s) (begun : Option Nat) :
    h.findFrame s.length (r + i : Nat) ((begun.map fun b => ((r + b : Nat) : Int)).getD (-1)) =
      some ((scan startCharacter endCharacter i begun s).map fun (b, e) =>
        (((r + b : Nat) : Int), ((r + e : Nat) : Int))) := by
  induction s generalizing i begun with
  | nil => rfl
  | cons c s ih =>
      rw [List.length_cons] at hfit
      have hone : h.block.slice (r + i) 1 = [c] := by
        have htake := @slice_take _ _ h.block (r + i) (c :: s).length 1 (Nat.succ_pos _)
        rw [hs] at htake
        exact htake.symm
      have hrest : h.block.slice (r + (i + 1)) s.length = s := by
        have hdrop := @slice_drop _ _ h.block (r + i) (c :: s).length 1
        rw [hs] at hdrop
        exact hdrop.symm
      have hnext : ((r + i : Nat) : Int) + 1 = ((r + (i + 1) : Nat) : Int) := by omega
      rw [List.length_cons, findFrame, load?_eq (by omega), Option.bind_some, hone, scan, hnext]
      simp only [List.cons.injEq, and_true]
      by_cases hstart : c = startCharacter
      · rw [if_pos hstart, if_pos hstart]
        exact ih (by omega) hrest (some (i + 1))
      rw [if_neg hstart, if_neg hstart]
      cases begun with
      | none =>
          rw [if_neg (fun h => absurd h.1 (show ¬ (-1 : Int) ≥ 0 by decide)), if_neg (fun h => by cases h.1)]
          exact ih (by omega) hrest none
      | some b =>
          have hbegun : ((some b).map fun b => ((r + b : Nat) : Int)).getD (-1) ≥ 0 := Int.natCast_nonneg _
          simp only [hbegun, Option.isSome_some, true_and]
          by_cases hend : c = endCharacter
          · rw [if_pos hend, if_pos hend]
            rfl
          · rw [if_neg hend, if_neg hend]
            exact ih (by omega) hrest (some b)

/-- The first frame of the unread bytes: `q` before it, the payload `x`, and `rest` behind it. -/
def FirstFrame (s q x rest : List UInt8) : Prop :=
  s = q ++ startCharacter :: (x ++ endCharacter :: rest) ∧ Unmarked startCharacter endCharacter x ∧
    frames startCharacter endCharacter q = []

theorem FirstFrame.length_eq {s q x rest : List UInt8} (h : FirstFrame s q x rest) :
    s.length = q.length + x.length + 2 + rest.length := by
  rw [h.1, List.length_append, List.length_cons, List.length_append, List.length_cons]
  omega

/-- What a receiver has taken, and what it has still to take. -/
theorem FirstFrame.frames_append {s q x rest : List UInt8} (h : FirstFrame s q x rest) (t : List UInt8) :
    frames startCharacter endCharacter (s ++ t) = x :: frames startCharacter endCharacter (rest ++ t) := by
  rw [h.1, List.append_assoc, List.cons_append, List.append_assoc, List.cons_append, frames_append_start, h.2.2,
    frames_frame start_ne_end h.2.1]
  rfl

/-- Either there is no frame and none is found, or the first one is found. -/
theorem scan_cases (s : List UInt8) :
    (frames startCharacter endCharacter s = [] ∧ scan startCharacter endCharacter 0 none s = none) ∨
      ∃ q x rest, FirstFrame s q x rest ∧
        scan startCharacter endCharacter 0 none s = some (q.length + 1, q.length + 1 + x.length) := by
  cases hscan : scan startCharacter endCharacter 0 none s with
  | none => exact Or.inl ⟨scan_eq_none seen_nil hscan, rfl⟩
  | some found =>
      obtain ⟨b, e⟩ := found
      obtain ⟨q, x, rest, heq, rfl, rfl, hx, hq⟩ := scan_eq_some seen_nil hscan
      exact Or.inr ⟨q, x, rest, ⟨heq, hx, hq⟩, rfl⟩

/-- The bytes `s` lie between the read index `r` and the max index, and the call does not begin with a rewind. -/
structure Ahead (h : SocketHandler) (r : Nat) (s : List UInt8) : Prop where
  rewound : h.rewind = h
  read : h.readIndex = r
  max : h.maxIndex = ((r + s.length : Nat) : Int)
  fits : r + s.length ≤ maxPacketBufferSize
  bytes : h.block.slice r s.length = s

theorem ahead_holds {h : SocketHandler} {r : Nat} {s : List UInt8} (hh : Holds h r s) : Ahead h r s :=
  ⟨rewind_eq hh, hh.read, hh.max, hh.fits, hh.bytes⟩

theorem findFrame_ahead {h : SocketHandler} {r : Nat} {s : List UInt8} (hh : Ahead h r s) :
    h.findFrame (h.maxIndex - h.readIndex).toNat h.readIndex (-1) =
      some ((scan startCharacter endCharacter 0 none s).map fun (b, e) =>
        (((r + b : Nat) : Int), ((r + e : Nat) : Int))) := by
  have hlen : (((r + s.length : Nat) : Int) - r).toNat = s.length := by omega
  rw [hh.read, hh.max, hlen]
  exact findFrame_eq (i := 0) hh.fits hh.bytes none

/-- No frame ahead: nothing is returned, and nothing changes. -/
theorem unpackWsPacket_none {h : SocketHandler} {r : Nat} {s : List UInt8} (hh : Ahead h r s)
    (hs : scan startCharacter endCharacter 0 none s = none) : h.unpackWsPacket = some (none, h) := by
  unfold unpackWsPacket
  dsimp only
  rw [hh.rewound, findFrame_ahead hh, hs]
  rfl

/-- A frame ahead: its payload is returned, and the read index goes behind it. -/
theorem unpackWsPacket_found {h : SocketHandler} {r : Nat} {s q x : List UInt8} (hh : Ahead h r s)
    (hscan : scan startCharacter endCharacter 0 none s = some (q.length + 1, q.length + 1 + x.length)) :
    h.unpackWsPacket =
      if ((r + (q.length + x.length + 2) : Nat) : Int) > maxPacketBufferMoveForwardSize then
        ({ h with readIndex := ((r + (q.length + x.length + 2) : Nat) : Int) } : SocketHandler).moveForward?.map
          fun h' => (some ⟨((r + (q.length + 1) : Nat) : Int), x.length⟩, h')
      else some (some ⟨((r + (q.length + 1) : Nat) : Int), x.length⟩,
        { h with readIndex := ((r + (q.length + x.length + 2) : Nat) : Int) }) := by
  have hpacket : ((r + (q.length + 1 + x.length) : Nat) : Int) - ((r + (q.length + 1) : Nat) : Int) = x.length := by
    omega
  have hnext : ((r + (q.length + 1 + x.length) : Nat) : Int) + 1 = ((r + (q.length + x.length + 2) : Nat) : Int) := by
    omega
  unfold unpackWsPacket
  dsimp only
  rw [hh.rewound, findFrame_ahead hh, hscan, Option.map_some, Option.bind_some]
  dsimp only
  rw [hpacket, hnext]

/-- The payload of the first frame, and the bytes behind it, in the buffer. -/
theorem FirstFrame.slices {s q x rest : List UInt8} (hf : FirstFrame s q x rest)
    {block : Block UInt8 maxPacketBufferSize}
    {r : Nat} (hfit : r + s.length ≤ maxPacketBufferSize) (hs : block.slice r s.length = s) :
    block.slice (r + (q.length + 1)) x.length = x ∧ block.slice (r + (q.length + x.length + 2)) rest.length = rest := by
  rw [hf.1] at hfit hs
  have hbegun := (slice_append_inj hfit hs).2
  simp only [List.length_append, List.length_cons] at hfit
  have hrest := @slice_append_inj _ _ block (r + q.length) [startCharacter] (x ++ endCharacter :: rest)
    (show r + q.length + (startCharacter :: (x ++ endCharacter :: rest)).length ≤ maxPacketBufferSize by
      simp only [List.length_append, List.length_cons]
      omega) hbegun
  have hpayload := slice_append_inj (by simp only [List.length_append, List.length_cons, List.length_nil]; omega) hrest.2
  have hbehind := @slice_append_inj _ _ block (r + q.length + 1 + x.length) [endCharacter] rest
    (show r + q.length + 1 + x.length + (endCharacter :: rest).length ≤ maxPacketBufferSize by
      simp only [List.length_cons]
      omega) hpayload.2
  rw [show r + (q.length + 1) = r + q.length + 1 by omega,
    show r + (q.length + x.length + 2) = r + q.length + 1 + x.length + 1 by omega]
  exact ⟨hpayload.1, hbehind.2⟩

theorem copyPacket_eq {h : SocketHandler} {o : Nat} {x : List UInt8} (hfit : o + x.length ≤ maxPacketBufferSize)
    (hs : h.block.slice o x.length = x) : h.copyPacket ⟨(o : Int), x.length⟩ = some x := by
  rw [copyPacket, Int.toNat_natCast, load?_eq hfit, hs]

/-- The unread bytes behind a frame that is taken from the offset `r` on do not cover its payload when they move. -/
def Clear (r : Nat) (q x rest : List UInt8) : Prop :=
  r + (q.length + x.length + 2) ≤ maxPacketBufferMoveForwardSize ∨ x = [] ∨ rest.length ≤ r + q.length + 1

/-- Where the unread bytes begin when a frame that ends before `e` has been taken. -/
def nextRead (e : Nat) : Nat := if e ≤ maxPacketBufferMoveForwardSize then e else 0

/-- **A frame among the unread bytes.** It is returned, and what follows it stays unread; its payload can be copied if
    nothing was moved over it. -/
theorem unpackWsPacket_some {h : SocketHandler} {r : Nat} {s q x rest : List UInt8} (hh : Holds h r s)
    (hf : FirstFrame s q x rest)
    (hscan : scan startCharacter endCharacter 0 none s = some (q.length + 1, q.length + 1 + x.length)) :
    ∃ packet h', h.unpackWsPacket = some (some packet, h') ∧
      Holds h' (nextRead (r + (q.length + x.length + 2))) rest ∧
      (Clear r q x rest → h'.copyPacket packet = some x) := by
  have hlen := hf.length_eq
  have hfits := hh.fits
  have hlow := hh.low
  have hsize : maxPacketBufferSize = 196608 := rfl
  have hmove : maxPacketBufferMoveForwardSize = 100000 := rfl
  obtain ⟨hpayload, hbehind⟩ := hf.slices hfits hh.bytes
  have hunpack := unpackWsPacket_found (ahead_holds hh) hscan
  by_cases hfar : ((r + (q.length + x.length + 2) : Nat) : Int) > maxPacketBufferMoveForwardSize
  · -- the bytes behind the frame move to the front, and the payload stays where it is
    rw [if_pos hfar] at hunpack
    rw [nextRead, if_neg (by omega)]
    obtain ⟨h', hmoved, hholds, hkeep⟩ :=
      @moveForward_holds { h with readIndex := ((r + (q.length + x.length + 2) : Nat) : Int) }
        (r + (q.length + x.length + 2)) rest rfl
        (by rw [hh.write, hlen]; omega) (by rw [hh.max, hlen]; omega) (by omega) hbehind (by omega)
    rw [hmoved, Option.map_some] at hunpack
    refine ⟨_, h', hunpack, hholds, fun hclear => copyPacket_eq (by omega) ?_⟩
    rcases hclear with hnear | hempty | hclear
    · omega
    · rw [hempty]
      exact slice_zero _ _
    · rw [hkeep _ _ (by omega)]
      exact hpayload
  · rw [if_neg hfar] at hunpack
    rw [nextRead, if_pos (by omega)]
    refine ⟨_, _, hunpack, ⟨rfl, ?_, ?_, by omega, by omega, hbehind⟩,
      fun _ => copyPacket_eq (by omega) hpayload⟩
    · rw [hh.write, hlen]
      omega
    · rw [hh.max, hlen]
      omega

/-! ## The loop -/

/-- While little is unread nothing that moves covers a payload. -/
theorem clear_of_few {r : Nat} {s q x rest : List UInt8} (hf : FirstFrame s q x rest)
    (hs : s.length < maxPacketBufferMoveForwardSize) :
    Clear r q x rest := by
  have hlen := hf.length_eq
  unfold Clear
  omega

/-- **The loop takes off all frames**, and leaves what no frame can come of but with what is still to arrive. -/
theorem unpackWsLoop_spec {h : SocketHandler} {r : Nat} {s : List UInt8} (hh : Holds h r s)
    (hs : s.length < maxPacketBufferMoveForwardSize) {fuel : Nat} (hfuel : s.length < fuel) :
    ∃ h' r' rest, h.unpackWsLoop fuel = some (frames startCharacter endCharacter s, h') ∧ Holds h' r' rest ∧
      rest.length ≤ s.length ∧ ∀ t, frames startCharacter endCharacter (s ++ t) =
        frames startCharacter endCharacter s ++ frames startCharacter endCharacter (rest ++ t) := by
  induction fuel generalizing h r s with
  | zero => omega
  | succ fuel ih =>
      rw [unpackWsLoop]
      rcases scan_cases s with ⟨hframes, hscan⟩ | ⟨q, x, rest, hf, hscan⟩
      · rw [unpackWsPacket_none (ahead_holds hh) hscan, hframes]
        exact ⟨h, r, s, rfl, hh, Nat.le_refl _, fun t => rfl⟩
      · have hlen := hf.length_eq
        obtain ⟨packet, h', hunpack, hh', hcopy⟩ := unpackWsPacket_some hh hf hscan
        have hcopy := hcopy (clear_of_few hf hs)
        obtain ⟨h'', r'', rest', hloop, hh'', hle, hrest⟩ := ih hh' (by omega) (by omega)
        have hfirst := hf.frames_append []
        rw [List.append_nil, List.append_nil] at hfirst
        rw [hunpack, Option.bind_some]
        dsimp only
        rw [hcopy, Option.bind_some, hloop, Option.map_some, hfirst]
        refine ⟨h'', r'', rest', rfl, hh'', by omega, fun t => ?_⟩
        rw [hf.frames_append, hrest t]
        rfl

/-! ## Short messages -/

theorem toInt_length {n : Nat} (hn : n < 2 ^ 31) : (n : Int).bmod (2 ^ 32) = n := by
  apply Int.bmod_eq_of_le <;> omega

/-- A message that fits behind the unread bytes. -/
theorem onMessage_holds {h : SocketHandler} {r : Nat} {s data : List UInt8} (hh : Holds h r s)
    (hfit : r + s.length + data.length < maxPacketBufferSize) :
    ∃ h', h.onMessage data = some (((r + s.length : Nat) : Int), h') ∧ Holds h' r (s ++ data) := by
  have hsize : maxPacketBufferSize = 196608 := rfl
  obtain ⟨_, hptr, h', hstore, hh'⟩ := holds_buffer_of_fits hh hfit
  refine ⟨h', ?_, hh'⟩
  unfold onMessage
  rw [toInt_length (by omega)]
  dsimp only
  rw [hptr, hstore, Option.map_some]

theorem getUnpackLen_holds {h : SocketHandler} {r : Nat} {s : List UInt8} (hh : Holds h r s) :
    h.getUnpackLen = s.length := by
  rw [getUnpackLen, hh.write, hh.read, if_pos (by omega)]
  omega

/-- The handler of a client, with all that it sent and the payloads copied. -/
structure WsClient where
  handler : SocketHandler
  received : List UInt8 := []
  packets : List (List UInt8) := []

namespace WsClient

def init (block : Block UInt8 maxPacketBufferSize) : WsClient := { handler := .init block }

/-- A message arrives, and `unpack_ws_packet` runs until it returns `false`. -/
def step (s : WsClient) (data : List UInt8) : Option WsClient :=
  (s.handler.onMessage data).bind fun (_, h) =>
  h.unpackWsPackets.map fun (packets, h) =>
  { handler := h, received := s.received ++ data, packets := s.packets ++ packets }

/-- The message has at most 30000 bytes, and at most 65537 are unconsumed when it arrives. -/
def Light (s : WsClient) (data : List UInt8) : Prop := data.length ≤ maxPacketReadSize ∧ s.handler.getUnpackLen ≤ 65537

instance (s : WsClient) (data : List UInt8) : Decidable (s.Light data) :=
  inferInstanceAs (Decidable (data.length ≤ maxPacketReadSize ∧ s.handler.getUnpackLen ≤ 65537))

/-- All frames of what arrived are copied, and what is unread is all that frames to come can begin with. -/
def Taken (s : WsClient) : Prop :=
  s.packets = frames startCharacter endCharacter s.received ∧ ∃ r unread, Holds s.handler r unread ∧
    unread.length ≤ s.received.length ∧ ∀ t, frames startCharacter endCharacter (s.received ++ t) =
      s.packets ++ frames startCharacter endCharacter (unread ++ t)

theorem step_taken {s : WsClient} (hs : Taken s) {data : List UInt8} (hlight : s.Light data) :
    ∃ s', s.step data = some s' ∧ Taken s' := by
  obtain ⟨hpackets, r, unread, hh, hshort, hrest⟩ := hs
  obtain ⟨hdata, hunread⟩ := hlight
  rw [getUnpackLen_holds hh] at hunread
  have hlow := hh.low
  have hsize : maxPacketBufferSize = 196608 := rfl
  have hmove : maxPacketBufferMoveForwardSize = 100000 := rfl
  have hread : maxPacketReadSize = 30000 := rfl
  have hlen : (unread ++ data).length = unread.length + data.length := List.length_append
  obtain ⟨h₁, hmessage, hh₁⟩ := @onMessage_holds s.handler r unread data hh (by omega)
  obtain ⟨h', r', rest, hloop, hh', hle, hleft⟩ := unpackWsLoop_spec hh₁ (by omega) (Nat.lt_succ_self _)
  have hunpack : h₁.unpackWsPackets = some (frames startCharacter endCharacter (unread ++ data), h') := by
    rw [unpackWsPackets, getUnpackLen_holds hh₁, Int.toNat_natCast]
    exact hloop
  refine ⟨⟨h', s.received ++ data, s.packets ++ frames startCharacter endCharacter (unread ++ data)⟩, ?_, ?_, r', rest,
    hh', ?_, fun t => ?_⟩
  · rw [step, hmessage, Option.bind_some]
    dsimp only
    rw [hunpack, Option.map_some]
  · exact (hrest data).symm
  · show rest.length ≤ (s.received ++ data).length
    rw [List.length_append]
    omega
  · show frames startCharacter endCharacter ((s.received ++ data) ++ t) = (s.packets ++ _) ++ _
    rw [List.append_assoc, hrest, ← List.append_assoc, hleft, List.append_assoc]

theorem run_received {s s' : WsClient} {messages : List (List UInt8)} (h : run step s messages = some s') :
    s'.received = s.received ++ messages.flatten := by
  induction messages generalizing s with
  | nil =>
      cases h
      exact (List.append_nil _).symm
  | cons data messages ih =>
      obtain ⟨s₁, hstep, h⟩ := Option.bind_eq_some_iff.mp h
      obtain ⟨⟨_, h₁⟩, _, hstep⟩ := Option.bind_eq_some_iff.mp hstep
      obtain ⟨_, _, rfl⟩ := Option.map_eq_some_iff.mp hstep
      rw [ih h, List.flatten_cons, List.append_assoc]

/-- Payloads in frames, each with garbage before it, and garbage at the end. -/
theorem frames_pushed (socketIndex : SocketIndex) {pushed : List (List UInt8 × List UInt8)}
    (hpushed : ∀ p ∈ pushed, Unmarked startCharacter endCharacter p.2) (last : List UInt8) :
    frames startCharacter endCharacter
        ((pushed.flatMap fun p => p.1 ++ (pushWsWritePackets socketIndex p.2).buffer) ++ last) =
      (pushed.flatMap fun p => frames startCharacter endCharacter p.1 ++ [p.2]) ++
        frames startCharacter endCharacter last := by
  induction pushed with
  | nil => rfl
  | cons p pushed ih =>
      obtain ⟨hp, hpushed⟩ := List.forall_mem_cons.mp hpushed
      have hcut : ∀ t : List UInt8, (p.1 ++ (pushWsWritePackets socketIndex p.2).buffer) ++ t =
          p.1 ++ startCharacter :: (p.2 ++ endCharacter :: t) := by
        intro t
        simp only [pushWsWritePackets, List.append_assoc, List.cons_append, List.nil_append]
      rw [List.flatMap_cons, List.flatMap_cons, List.append_assoc, hcut, frames_append_start,
        frames_frame start_ne_end hp,
        ih hpushed, List.append_assoc, List.append_assoc]
      rfl

theorem sublist_flatMap {α β : Type} (f : α → List β) (pushed : List (α × β)) :
    List.Sublist (pushed.map (·.2)) (pushed.flatMap fun p => f p.1 ++ [p.2]) := by
  induction pushed with
  | nil => exact .slnil
  | cons p pushed ih =>
      rw [List.map_cons, List.flatMap_cons, List.append_assoc]
      exact (ih.cons_cons p.2).trans (List.sublist_append_right _ _)

/-- What was copied of a conversation: the payloads of the frames in it, in order. Hence payloads without markers that
    `push_ws_write_packets` framed come back in order between whatever garbage, and nothing else does if the garbage
    has no frame of its own. -/
structure Delivers (messages : List (List UInt8)) (s : WsClient) : Prop where
  framed : ∃ ps : List (Nat × List UInt8), s.packets = ps.map (·.2) ∧ ps.Pairwise (·.1 < ·.1) ∧
    ∀ i x, (i, x) ∈ ps ↔ FramedAt startCharacter endCharacter messages.flatten i x
  pushed : ∀ (socketIndex : SocketIndex) (pushed : List (List UInt8 × List UInt8)) (last : List UInt8),
    (∀ p ∈ pushed, Unmarked startCharacter endCharacter p.2) →
    messages.flatten = (pushed.flatMap fun p => p.1 ++ (pushWsWritePackets socketIndex p.2).buffer) ++ last →
    List.Sublist (pushed.map (·.2)) s.packets ∧
      ((∀ p ∈ pushed, ∀ i x, ¬ FramedAt startCharacter endCharacter p.1 i x) →
        (∀ i x, ¬ FramedAt startCharacter endCharacter last i x) → s.packets = pushed.map (·.2))

theorem delivers_of_taken {messages : List (List UInt8)} {s : WsClient}
    (hpackets : s.packets = frames startCharacter endCharacter messages.flatten) : s.Delivers messages := by
  refine ⟨?_, fun socketIndex pushed last hpushed hflatten => ?_⟩
  · rw [hpackets]
    exact exists_framedAt start_ne_end _
  · rw [hpackets, hflatten, frames_pushed socketIndex hpushed]
    constructor
    · exact (sublist_flatMap _ pushed).trans (List.sublist_append_left _ _)
    · intro hgarbage hlast
      rw [frames_eq_nil start_ne_end hlast, List.append_nil]
      refine (List.flatMap_congr fun p hp => ?_).trans (List.flatMap_pure_eq_map (·.2) pushed)
      rw [frames_eq_nil start_ne_end (hgarbage p hp)]
      rfl

theorem init_taken (block : Block UInt8 maxPacketBufferSize) : Taken (init block) :=
  ⟨rfl, 0, [], holds_init block, Nat.le_refl _, fun _ => rfl⟩

/-- **Marker framing.** Over any run of messages of at most 30000 bytes, each of which finds at most 65537 bytes unread,
    what is copied are the payloads of the frames in all that arrived, whatever the messages it came in. -/
theorem marker_framing (block : Block UInt8 maxPacketBufferSize) {messages : List (List UInt8)}
    (h : Along step Light (init block) messages) :
    ∃ s, run step (init block) messages = some s ∧ s.Delivers messages := by
  obtain ⟨s, hrun, hpackets, _⟩ := runs_along (fun hs hP => step_taken hs hP) (init_taken block) h
  rw [run_received hrun, show (init block).received = [] from rfl, List.nil_append] at hpackets
  exact ⟨s, hrun, delivers_of_taken hpackets⟩

/-- Messages that are short, also taken together. -/
theorem along_light {s : WsClient} (hs : Taken s) {messages : List (List UInt8)}
    (hshort : ∀ data ∈ messages, data.length ≤ maxPacketReadSize)
    (hall : (s.received ++ messages.flatten).length ≤ 65537) :
    Along step Light s messages := by
  induction messages generalizing s with
  | nil => trivial
  | cons data messages ih =>
      obtain ⟨hdata, hshort⟩ := List.forall_mem_cons.mp hshort
      rw [List.flatten_cons, ← List.append_assoc] at hall
      have hlight : s.Light data := by
        obtain ⟨_, r, unread, hh, hle, _⟩ := hs
        refine ⟨hdata, ?_⟩
        rw [getUnpackLen_holds hh]
        simp only [List.length_append] at hall
        omega
      refine ⟨hlight, fun s' hstep => ?_⟩
      obtain ⟨s₁, hstep₁, hs₁⟩ := step_taken hs hlight
      rw [hstep₁] at hstep
      cases hstep
      have hreceived : s'.received = s.received ++ [data].flatten := run_received (show run step s [data] = some s' by
        rw [run, hstep₁]
        rfl)
      rw [List.flatten_singleton] at hreceived
      exact ih hs₁ hshort (by rw [hreceived]; exact hall)

/-- Two frames in two messages, one of them in both, between garbage. -/
theorem marker_framing_split : ∃ s, run step (init (Block.fill _ 0)) [[65, 2, 72], [105, 3, 3, 2, 33, 3, 66]] = some s ∧
    s.Delivers [[65, 2, 72], [105, 3, 3, 2, 33, 3, 66]] :=
  marker_framing _ (along_light (init_taken _) (by decide) (by decide))

end WsClient

/-! ## Messages of any length -/

namespace SocketHandler

/-- The bytes that are received and not consumed: those from the read index on, and, when the writer has gone back to
    the start of the buffer, those before the write index. -/
def unread (h : SocketHandler) : List UInt8 :=
  h.block.slice h.readIndex.toNat (h.maxIndex - h.readIndex).toNat ++
    if h.writeIndex < h.maxIndex then h.block.slice 0 h.writeIndex.toNat else []

/-- The positions of these bytes. -/
def UnreadAt (h : SocketHandler) (i : Int) : Prop :=
  (h.readIndex ≤ i ∧ i < h.maxIndex) ∨ (h.writeIndex < h.maxIndex ∧ 0 ≤ i ∧ i < h.writeIndex)

end SocketHandler

/-- The handler holds the unread bytes `tail` at offset `r`, with complete frames only, and `front` at the start of the
    buffer, and nothing has to move before `tail` is read. -/
structure Wrapped (h : SocketHandler) (r : Nat) (tail front : List UInt8) : Prop where
  read : h.readIndex = r
  write : h.writeIndex = front.length
  max : h.maxIndex = ((r + tail.length : Nat) : Int)
  apart : front.length ≤ r
  below : front.length < r + tail.length
  low : r + tail.length ≤ maxPacketBufferMoveForwardSize
  tailBytes : h.block.slice r tail.length = tail
  frontBytes : h.block.slice 0 front.length = front
  complete : Complete startCharacter endCharacter tail

/-- The handler holds the unread bytes, in one piece or in two. -/
inductive Stores (h : SocketHandler) : List UInt8 → Prop
  | linear {r : Nat} {s : List UInt8} : Holds h r s → Stores h s
  | wrapped {r : Nat} {tail front : List UInt8} : Wrapped h r tail front → Stores h (tail ++ front)

/-- A region that `buffer` returned, with the handler before the call. -/
structure Reservation where
  before : SocketHandler
  offset : Int
  len : Nat

/-- The region lies in the buffer, and none of it is unread. -/
def Reservation.Safe (v : Reservation) : Prop :=
  0 ≤ v.offset ∧ v.offset + v.len ≤ maxPacketBufferSize ∧
    ∀ i, v.offset ≤ i → i < v.offset + v.len → ¬ v.before.UnreadAt i

/-- `on_message` in a handler with room for the data: behind the unread bytes in one piece; at the start of the buffer,
    in front of unread bytes that are complete frames and need not move; or behind those that are there already. -/
def HasRoom (h : SocketHandler) (len : Nat) : Prop :=
  if h.writeIndex = h.maxIndex then
    h.writeIndex + len < maxPacketBufferSize ∨
      (len ≤ h.readIndex ∧ len < h.writeIndex ∧ h.writeIndex ≤ maxPacketBufferMoveForwardSize ∧
        Complete startCharacter endCharacter h.unread)
  else h.writeIndex + len ≤ h.readIndex ∧ h.writeIndex + len < h.maxIndex

theorem unread_holds {h : SocketHandler} {r : Nat} {s : List UInt8} (hh : Holds h r s) : h.unread = s := by
  have hlen : (((r + s.length : Nat) : Int) - r).toNat = s.length := by omega
  rw [unread, hh.read, hh.max, hh.write, if_neg (Int.lt_irrefl _), Int.toNat_natCast, hlen, hh.bytes, List.append_nil]

theorem unread_wrapped {h : SocketHandler} {r : Nat} {tail front : List UInt8} (hh : Wrapped h r tail front) :
    h.unread = tail ++ front := by
  have hbelow := hh.below
  have hlen : (((r + tail.length : Nat) : Int) - r).toNat = tail.length := by omega
  rw [unread, hh.read, hh.max, hh.write, if_pos (by omega), Int.toNat_natCast, Int.toNat_natCast, hlen, hh.tailBytes,
    hh.frontBytes]

theorem Stores.unread_eq {h : SocketHandler} {s : List UInt8} (hs : Stores h s) : h.unread = s := by
  cases hs with
  | linear hh => exact unread_holds hh
  | wrapped hh => exact unread_wrapped hh

/-- A message that does not fit behind the unread bytes goes to the start of the buffer, whatever is there. -/
theorem onMessage_over {h : SocketHandler} {r : Nat} {s data : List UInt8} (hh : Holds h r s)
    (hover : maxPacketBufferSize ≤ r + s.length + data.length) (hfit : 0 + data.length ≤ maxPacketBufferSize) :
    h.onMessage data = some (0, ⟨r, data.length, ((r + s.length : Nat) : Int), h.block.write 0 data hfit⟩) := by
  have hsize : maxPacketBufferSize = 196608 := rfl
  have hwraps : h.wraps data.length = true := by
    rw [wraps, hh.write, decide_eq_true_iff]
    omega
  rw [onMessage, toInt_length (by omega), SocketHandler.buffer, if_pos hwraps]
  simp only [store?, Int.le_refl, if_true, Int.toNat_zero, write?_eq hfit, Option.map_some, hh.read, hh.write]

/-- It keeps clear of them if they are complete frames and begin behind it. -/
theorem onMessage_wraps {h : SocketHandler} {r : Nat} {s data : List UInt8} (hh : Holds h r s)
    (hover : maxPacketBufferSize ≤ r + s.length + data.length) (hread : data.length ≤ r)
    (hwrite : data.length < r + s.length)
    (hlow : r + s.length ≤ maxPacketBufferMoveForwardSize) (hcomplete : Complete startCharacter endCharacter s) :
    ∃ h', h.onMessage data = some (0, h') ∧ Wrapped h' r s data := by
  have hsize : maxPacketBufferSize = 196608 := rfl
  have hmove : maxPacketBufferMoveForwardSize = 100000 := rfl
  have hfit : 0 + data.length ≤ maxPacketBufferSize := by omega
  refine ⟨_, onMessage_over hh hover hfit, rfl, rfl, rfl, hread, hwrite, hlow, ?_, slice_write_self hfit, hcomplete⟩
  show (h.block.write 0 data hfit).slice r s.length = s
  rw [slice_write_after hfit (by omega), hh.bytes]

/-- The message goes behind those at the start of the buffer. -/
theorem onMessage_wrapped {h : SocketHandler} {r : Nat} {tail front data : List UInt8} (hh : Wrapped h r tail front)
    (hread : front.length + data.length ≤ r) (hmax : front.length + data.length < r + tail.length) :
    ∃ h', h.onMessage data = some ((front.length : Int), h') ∧ Wrapped h' r tail (front ++ data) := by
  have hlow := hh.low
  have hsize : maxPacketBufferSize = 196608 := rfl
  have hmove : maxPacketBufferMoveForwardSize = 100000 := rfl
  have hlen : (front ++ data).length = front.length + data.length := List.length_append
  have hnowrap : h.wraps data.length = false := by
    rw [wraps, hh.write, decide_eq_false_iff_not]
    omega
  have hfit : front.length + data.length ≤ maxPacketBufferSize := by omega
  have hbuf : h.buffer data.length =
      ((front.length : Int), { h with writeIndex := ((front ++ data).length : Int) }) := by
    unfold SocketHandler.buffer
    rw [hnowrap, hlen]
    simp only [Bool.false_eq_true, if_false, hh.write, hh.max, hh.read]
    rw [if_neg (by omega), if_neg (by omega), ← hh.read, ← hh.max, Int.natCast_add]
  refine ⟨{ h with writeIndex := ((front ++ data).length : Int), block := h.block.write front.length data hfit }, ?_,
    ⟨hh.read, rfl, hh.max, ?_, ?_, hlow, ?_, ?_, hh.complete⟩⟩
  · rw [onMessage, toInt_length (by omega), hbuf]
    dsimp only
    rw [store?, if_pos (Int.natCast_nonneg _), Int.toNat_natCast, write?_eq hfit]
    rfl
  · rw [hlen]
    exact hread
  · rw [hlen]
    exact hmax
  · show (h.block.write front.length data hfit).slice r tail.length = tail
    rw [slice_write_after hfit hread, hh.tailBytes]
  · show (h.block.write front.length data hfit).slice 0 (front ++ data).length = front ++ data
    have hsnoc := @slice_write_snoc _ _ h.block 0 front.length data (by omega)
    simp only [Nat.zero_add] at hsnoc
    rw [hlen, hsnoc, hh.frontBytes]

theorem hasRoom_holds {h : SocketHandler} {r len : Nat} {s : List UInt8} (hh : Holds h r s)
    (hfit : r + s.length + len < maxPacketBufferSize) : HasRoom h len := by
  rw [HasRoom, if_pos (hh.write.trans hh.max.symm), hh.write]
  exact Or.inl (by omega)

/-- **A message that has room** is stored behind the unread bytes, clear of them. -/
theorem onMessage_stores {h : SocketHandler} {s data : List UInt8} (hs : Stores h s) (hroom : HasRoom h data.length) :
    ∃ offset h', h.onMessage data = some (offset, h') ∧ Stores h' (s ++ data) ∧
      Reservation.Safe ⟨h, offset, data.length⟩ := by
  have hsize : maxPacketBufferSize = 196608 := rfl
  have hmove : maxPacketBufferMoveForwardSize = 100000 := rfl
  unfold HasRoom at hroom
  cases hs with
  | @linear r s hh =>
      rw [if_pos (hh.write.trans hh.max.symm), hh.write, hh.read, unread_holds hh] at hroom
      -- the unread bytes are those from `r` to the write index
      have hunread : ∀ i : Int, h.UnreadAt i → (r : Int) ≤ i ∧ i < ((r + s.length : Nat) : Int) := by
        intro i hi
        unfold UnreadAt at hi
        rw [hh.read, hh.write, hh.max] at hi
        omega
      by_cases hfit : r + s.length + data.length < maxPacketBufferSize
      · obtain ⟨h', hmessage, hh'⟩ := onMessage_holds hh hfit
        refine ⟨_, h', hmessage, .linear hh', Int.natCast_nonneg _, ?_, fun i hlow hhigh hi => ?_⟩
        · show ((r + s.length : Nat) : Int) + data.length ≤ maxPacketBufferSize
          omega
        · have hlow : ((r + s.length : Nat) : Int) ≤ i := hlow
          have := hunread i hi
          omega
      · rcases hroom with hfit' | ⟨hread, hwrite, hlow, hcomplete⟩
        · omega
        obtain ⟨h', hmessage, hh'⟩ := @onMessage_wraps h r s data hh (by omega) (by omega) (by omega) (by omega) hcomplete
        refine ⟨_, h', hmessage, .wrapped hh', Int.le_refl _, ?_, fun i _ hhigh hi => ?_⟩
        · show (0 : Int) + data.length ≤ maxPacketBufferSize
          omega
        · have hhigh : i < (0 : Int) + data.length := hhigh
          have := hunread i hi
          omega
  | @wrapped r tail front hh =>
      have hbelow := hh.below
      have hlow := hh.low
      rw [if_neg (by rw [hh.write, hh.max]; omega), hh.write, hh.read, hh.max] at hroom
      obtain ⟨h', hmessage, hh'⟩ := @onMessage_wrapped h r tail front data hh (by omega) (by omega)
      refine ⟨_, h', hmessage, ?_, Int.natCast_nonneg _, ?_, fun i hlow' hhigh hi => ?_⟩
      · rw [List.append_assoc]
        exact .wrapped hh'
      · show (front.length : Int) + data.length ≤ maxPacketBufferSize
        omega
      · have hlow' : (front.length : Int) ≤ i := hlow'
        have hhigh : i < (front.length : Int) + data.length := hhigh
        unfold UnreadAt at hi
        rw [hh.read, hh.write, hh.max] at hi
        omega

/-- The call goes on with the bytes at the start of the buffer when all before them is read. -/
theorem rewind_wrapped {h : SocketHandler} {r : Nat} {front : List UInt8} (hh : Wrapped h r [] front) :
    Holds h.rewind 0 front ∧ h.unpackWsPacket = h.rewind.unpackWsPacket := by
  have hlow := hh.low
  have hbelow := hh.below
  have happart := hh.apart
  have hsize : maxPacketBufferSize = 196608 := rfl
  have hmove : maxPacketBufferMoveForwardSize = 100000 := rfl
  have hrewind : h.rewind = { h with readIndex := 0, maxIndex := h.writeIndex } := by
    rw [rewind, if_pos]
    rw [hh.read, hh.max, hh.write]
    simp only [List.length_nil] at hbelow ⊢
    omega
  have hholds : Holds h.rewind 0 front := by
    rw [hrewind]
    refine ⟨rfl, ?_, ?_, Nat.zero_le _, by omega, hh.frontBytes⟩
    · rw [Nat.zero_add]
      exact hh.write
    · rw [Nat.zero_add]
      exact hh.write
  refine ⟨hholds, ?_⟩
  unfold unpackWsPacket
  rw [rewind_eq hholds]

/-- **Frames before the end of the buffer** are taken first, and none of them moves anything. -/
theorem unpackWsPacket_wrapped {h : SocketHandler} {r : Nat} {tail front : List UInt8} (hh : Wrapped h r tail front)
    (htail : tail ≠ []) :
    ∃ q x rest packet h' r', FirstFrame tail q x rest ∧ h.unpackWsPacket = some (some packet, h') ∧
      Wrapped h' r' rest front ∧ h'.copyPacket packet = some x := by
  have hlow := hh.low
  have hbelow := hh.below
  have happart := hh.apart
  have hsize : maxPacketBufferSize = 196608 := rfl
  have hmove : maxPacketBufferMoveForwardSize = 100000 := rfl
  have hpos : 0 < tail.length := List.length_pos_iff.mpr htail
  have hahead : Ahead h r tail := by
    refine ⟨?_, hh.read, hh.max, by omega, hh.tailBytes⟩
    rw [rewind, if_neg]
    rw [hh.read, hh.max]
    omega
  rcases scan_cases tail with ⟨hframes, _⟩ | ⟨q, x, rest, hf, hscan⟩
  · exact absurd hframes (hh.complete.frames_ne_nil start_ne_end htail)
  have hlen := hf.length_eq
  obtain ⟨hpayload, hbehind⟩ := hf.slices hahead.fits hahead.bytes
  have hunpack := unpackWsPacket_found hahead hscan
  rw [if_neg (by omega)] at hunpack
  have hcomplete : Complete startCharacter endCharacter rest := by
    have hwhole := hh.complete
    rw [hf.1, ← List.cons_append, ← List.append_assoc] at hwhole
    exact Complete.rest start_ne_end hwhole
  refine ⟨q, x, rest, _, _, r + (q.length + x.length + 2), hf, hunpack,
    ⟨rfl, hh.write, ?_, by omega, by omega, by omega, hbehind, hh.frontBytes, hcomplete⟩,
    copyPacket_eq (by omega) hpayload⟩
  rw [hh.max, hlen]
  omega

/-- **A call of `unpack_ws_packet`.** There is no frame among the unread bytes, and none is returned; or the first one
    is. -/
theorem unpackWsPacket_stores {h : SocketHandler} {s : List UInt8} (hs : Stores h s) :
    (frames startCharacter endCharacter s = [] ∧ ∃ h', h.unpackWsPacket = some (none, h') ∧ Stores h' s) ∨
      ∃ q x rest packet h', FirstFrame s q x rest ∧ h.unpackWsPacket = some (some packet, h') ∧ Stores h' rest ∧
        (Clear h.readIndex.toNat q x rest → h'.copyPacket packet = some x) := by
  -- the bytes in one piece
  have hlinear : ∀ {h : SocketHandler} {r : Nat} {s : List UInt8}, Holds h r s →
      (frames startCharacter endCharacter s = [] ∧ ∃ h', h.unpackWsPacket = some (none, h') ∧ Stores h' s) ∨
        ∃ q x rest packet h', FirstFrame s q x rest ∧ h.unpackWsPacket = some (some packet, h') ∧ Stores h' rest ∧
          (Clear r q x rest → h'.copyPacket packet = some x) := by
    intro h r s hh
    rcases scan_cases s with ⟨hframes, hscan⟩ | ⟨q, x, rest, hf, hscan⟩
    · exact Or.inl ⟨hframes, h, unpackWsPacket_none (ahead_holds hh) hscan, .linear hh⟩
    · obtain ⟨packet, h', hunpack, hh', hcopy⟩ := unpackWsPacket_some hh hf hscan
      exact Or.inr ⟨q, x, rest, packet, h', hf, hunpack, .linear hh', hcopy⟩
  cases hs with
  | linear hh =>
      rw [hh.read, Int.toNat_natCast]
      exact hlinear hh
  | @wrapped r tail front hh =>
      by_cases htail : tail = []
      · subst htail
        have hlow := hh.low
        have happart := hh.apart
        obtain ⟨hholds, hunpack⟩ := rewind_wrapped hh
        rw [hunpack, List.nil_append]
        rcases hlinear hholds with hnone | ⟨q, x, rest, packet, h', hf, hunpack', hh', hcopy⟩
        · exact Or.inl hnone
        · refine Or.inr ⟨q, x, rest, packet, h', hf, hunpack', hh', fun _ => hcopy (Or.inl ?_)⟩
          have hlen := hf.length_eq
          simp only [List.length_nil] at hlow
          omega
      · obtain ⟨q, x, rest, packet, h', r', hf, hunpack, hh', hcopy⟩ := unpackWsPacket_wrapped hh htail
        refine Or.inr ⟨q, x, rest ++ front, packet, h', ⟨?_, hf.2⟩, hunpack, .wrapped hh', fun _ => hcopy⟩
        rw [hf.1]
        simp only [List.append_assoc, List.cons_append]

/-! ## Every run -/

/-- The handler of a client, with all that it sent, the payloads copied, and the regions that `buffer` returned. -/
structure WsInput where
  handler : SocketHandler
  received : List UInt8 := []
  packets : List (List UInt8) := []
  reserved : List Reservation := []

inductive WsInputLabel
  | message (data : List UInt8)
  | unpack

namespace WsInput

def init (block : Block UInt8 maxPacketBufferSize) : WsInput := { handler := .init block }

/-- A message of the client, or a call of `unpack_ws_packet` whose payload the caller copies. -/
def step (s : WsInput) : WsInputLabel → Option WsInput
  | .message data => (s.handler.onMessage data).map fun (offset, h) =>
    { s with handler := h, received := s.received ++ data
             reserved := s.reserved ++ [⟨s.handler, offset, data.length⟩] }
  | .unpack       => s.handler.unpackWsPacket.bind fun
    | (none, h)        => some { s with handler := h }
    | (some packet, h) => (h.copyPacket packet).map fun payload =>
      { s with handler := h, packets := s.packets ++ [payload] }

/-- A step that keeps the buffer: a message that has room, or a call that, if it moves the unread bytes behind a frame
    to the front, does not cover the frame's payload. -/
def Keeps (s : WsInput) : WsInputLabel → Prop
  | .message data => HasRoom s.handler data.length
  | .unpack       => ∀ q x rest, FirstFrame s.handler.unread q x rest → Clear s.handler.readIndex.toNat q x rest

/-- **The receive buffer is sound.** Every region that `buffer` returned lay in the buffer and was clear of the unread
    bytes. What arrived was consumed up to the unread bytes, which are as they came, and the payloads of the frames in
    it were copied. If there is a frame among the unread bytes, the next call finds one. -/
structure Sound (s : WsInput) : Prop where
  reserved : ∀ v ∈ s.reserved, v.Safe
  whole : ∃ consumed, s.received = consumed ++ s.handler.unread
  packets : frames startCharacter endCharacter s.received =
    s.packets ++ frames startCharacter endCharacter s.handler.unread
  found : frames startCharacter endCharacter s.handler.unread ≠ [] →
    ∃ packet h, s.handler.unpackWsPacket = some (some packet, h)

/-- What a step keeps. -/
structure Inv (s : WsInput) : Prop where
  stores : Stores s.handler s.handler.unread
  reserved : ∀ v ∈ s.reserved, v.Safe
  whole : ∃ consumed, s.received = consumed ++ s.handler.unread
  packets : ∀ t, frames startCharacter endCharacter (s.received ++ t) =
    s.packets ++ frames startCharacter endCharacter (s.handler.unread ++ t)

theorem inv_init (block : Block UInt8 maxPacketBufferSize) : Inv (init block) := by
  have hstores : Stores (init block).handler [] := .linear (holds_init block)
  have hunread := hstores.unread_eq
  refine ⟨hunread ▸ hstores, List.forall_mem_nil _, ⟨[], ?_⟩, fun t => ?_⟩
  · exact hunread.symm
  · rw [hunread]
    rfl

theorem step_inv {s : WsInput} (hs : Inv s) {label : WsInputLabel} (h : s.Keeps label) :
    ∃ s', s.step label = some s' ∧ Inv s' := by
  obtain ⟨hstores, hreserved, ⟨consumed, hwhole⟩, hpackets⟩ := hs
  cases label with
  | message data =>
      obtain ⟨offset, h', hmessage, hstores', hsafe⟩ := onMessage_stores hstores h
      have hunread := hstores'.unread_eq
      refine ⟨_, congrArg (Option.map _) hmessage, hunread ▸ hstores', ?_, ⟨consumed, ?_⟩, fun t => ?_⟩
      · exact List.forall_mem_append.mpr ⟨hreserved, List.forall_mem_singleton.mpr hsafe⟩
      · show s.received ++ data = consumed ++ h'.unread
        rw [hunread, ← List.append_assoc, ← hwhole]
      · show frames startCharacter endCharacter ((s.received ++ data) ++ t) =
          s.packets ++ frames startCharacter endCharacter (h'.unread ++ t)
        rw [hunread, List.append_assoc, List.append_assoc, hpackets]
  | unpack =>
      rcases unpackWsPacket_stores hstores with ⟨_, h', hunpack, hstores'⟩ |
        ⟨q, x, rest, packet, h', hf, hunpack, hstores', hcopy⟩
      · have hunread := hstores'.unread_eq
        refine ⟨{ s with handler := h' }, ?_, hunread.symm ▸ hstores', hreserved, ⟨consumed, ?_⟩, fun t => ?_⟩
        · rw [step, hunpack, Option.bind_some]
        · rw [hwhole, ← hunread]
        · rw [hpackets, ← hunread]
      · have hunread := hstores'.unread_eq
        refine ⟨{ s with handler := h', packets := s.packets ++ [x] }, ?_, hunread.symm ▸ hstores', hreserved,
          ⟨consumed ++ q ++ startCharacter :: (x ++ [endCharacter]), ?_⟩, fun t => ?_⟩
        · rw [step, hunpack, Option.bind_some]
          dsimp only
          rw [hcopy (h q x rest hf), Option.map_some]
        · show s.received = _ ++ h'.unread
          rw [hwhole, hunread]
          conv_lhs => rw [hf.1]
          simp only [List.append_assoc, List.cons_append, List.nil_append]
        · show frames startCharacter endCharacter (s.received ++ t) =
            (s.packets ++ [x]) ++ frames startCharacter endCharacter (h'.unread ++ t)
          rw [hpackets, hunread, hf.frames_append, List.append_assoc]
          rfl

theorem Inv.sound {s : WsInput} (hs : Inv s) : Sound s := by
  refine ⟨hs.reserved, hs.whole, ?_, fun hframes => ?_⟩
  · have h := hs.packets []
    rw [List.append_nil, List.append_nil] at h
    exact h
  · rcases unpackWsPacket_stores hs.stores with ⟨hnone, _⟩ | ⟨_, _, _, packet, h', _, hunpack, _⟩
    · exact absurd hnone hframes
    · exact ⟨packet, h', hunpack⟩

/-- **When the receive buffer is sound.** It is, in every state of a run of messages and calls of `unpack_ws_packet`, if
    each message has room and no call moves unread bytes over the payload that it returns. -/
theorem sound_along (block : Block UInt8 maxPacketBufferSize) {labels : List WsInputLabel}
    (h : Along step Keeps (init block) labels) :
    (∃ s, run step (init block) labels = some s) ∧
      ∀ pre, pre <+: labels → ∀ s, run step (init block) pre = some s → Sound s := by
  have hstep : ∀ {s : WsInput} {label}, Inv s → s.Keeps label → ∃ s', s.step label = some s' ∧ Inv s' :=
    fun hs hP => step_inv hs hP
  obtain ⟨s, hrun, _⟩ := runs_along hstep (inv_init block) h
  refine ⟨⟨s, hrun⟩, ?_⟩
  rintro pre ⟨rest, rfl⟩ s₁ hpre
  obtain ⟨s₂, hrun₂, hs₂⟩ := runs_along hstep (inv_init block) ((along_append hpre).mp h).1
  rw [hpre] at hrun₂
  cases hrun₂
  exact hs₂.sound

theorem step_message {s : WsInput} {data : List UInt8} {offset : Int} {h : SocketHandler}
    (hmessage : s.handler.onMessage data = some (offset, h)) :
    s.step (.message data) = some { s with handler := h, received := s.received ++ data
                                           reserved := s.reserved ++ [⟨s.handler, offset, data.length⟩] } :=
  congrArg (Option.map _) hmessage

/-- A message behind unread bytes in one piece. -/
theorem message_linear {s : WsInput} {r : Nat} {u data : List UInt8} (hh : Holds s.handler r u)
    (hfit : r + u.length + data.length < maxPacketBufferSize) :
    s.Keeps (.message data) ∧ ∃ s', s.step (.message data) = some s' ∧ Holds s'.handler r (u ++ data) ∧
      s'.packets = s.packets := by
  obtain ⟨h', hmessage, hh'⟩ := onMessage_holds hh hfit
  exact ⟨hasRoom_holds hh hfit, _, step_message hmessage, hh', rfl⟩

/-- A frame taken out of unread bytes in one piece that do not reach the far end of the buffer, or of which there are
    few behind their offset. -/
theorem unpack_linear {s : WsInput} {r : Nat} {u q x rest : List UInt8} (hh : Holds s.handler r u)
    (hf : FirstFrame u q x rest)
    (hscan : scan startCharacter endCharacter 0 none u = some (q.length + 1, q.length + 1 + x.length))
    (hfew : r + u.length ≤ maxPacketBufferMoveForwardSize ∨ u.length ≤ r) :
    s.Keeps .unpack ∧ ∃ s', s.step .unpack = some s' ∧
      Holds s'.handler (nextRead (r + (q.length + x.length + 2))) rest ∧ s'.packets = s.packets ++ [x] := by
  have hclear : ∀ {q x rest}, FirstFrame u q x rest → Clear r q x rest := by
    intro q x rest hf
    have hlen := hf.length_eq
    unfold Clear
    omega
  obtain ⟨packet, h', hunpack, hh', hcopy⟩ := unpackWsPacket_some hh hf hscan
  constructor
  · intro q x rest hf
    rw [unread_holds hh] at hf
    rw [hh.read, Int.toNat_natCast]
    exact hclear hf
  · refine ⟨{ s with handler := h', packets := s.packets ++ [x] }, ?_, hh', rfl⟩
    rw [step, hunpack, Option.bind_some]
    dsimp only
    rw [hcopy (hclear hf), Option.map_some]

/-- Garbage up to near the offset from which on the unread bytes move, and a frame. -/
def garbageFrame : List UInt8 := List.replicate 99990 65 ++ [2, 72, 3]

/-- The second frame arrives in two messages, and the bytes behind it move when it is taken; the third one is completed
    behind them. -/
def movedRun : List WsInputLabel :=
  [.message garbageFrame, .unpack, .message [2, 105, 106, 107], .message [108, 109, 110, 111, 3, 2, 33], .unpack,
    .message [3], .unpack]

theorem sound_along_moved :
    (∃ s, run step (init (Block.fill _ 0)) movedRun = some s ∧
      s.packets = [[72], [105, 106, 107, 108, 109, 110, 111], [33]]) ∧
    ∀ pre, pre <+: movedRun → ∀ s, run step (init (Block.fill _ 0)) pre = some s → Sound s := by
  have hgarbage : ∀ s : List UInt8, scan startCharacter endCharacter 0 none (List.replicate 99990 65 ++ s) =
      scan startCharacter endCharacter 99990 none s := by
    intro s
    rw [scan_append_of_not_mem (fun h => absurd (List.eq_of_mem_replicate h) (by decide)), List.length_replicate]
  have hlen : garbageFrame.length = 99993 := by
    rw [garbageFrame, List.length_append, List.length_replicate]
    rfl
  have hfirst : FirstFrame garbageFrame (List.replicate 99990 65) [72] [] := by
    refine ⟨rfl, ⟨by decide, by decide⟩, ?_⟩
    have hstart : startCharacter ∉ List.replicate 99990 (65 : UInt8) := fun h =>
      absurd (List.eq_of_mem_replicate h) (by decide)
    have h := @frames_append_of_not_mem _ startCharacter endCharacter _ _ hstart []
    rw [List.append_nil] at h
    exact h
  -- the first frame is taken, and nothing moves
  obtain ⟨hP₁, s₁, h₁, hh₁, hp₁⟩ := @message_linear (init (Block.fill _ 0)) 0 [] garbageFrame (holds_init _) (by
    rw [hlen]
    decide)
  obtain ⟨hP₂, s₂, h₂, hh₂, hp₂⟩ := unpack_linear hh₁ hfirst (by
    rw [List.nil_append, garbageFrame, hgarbage, List.length_replicate]
    decide) (Or.inl (by
      rw [List.nil_append, hlen]
      decide))
  have hread₂ : nextRead (0 + ((List.replicate 99990 (65 : UInt8)).length + [(72 : UInt8)].length + 2)) = 99993 := by
    rw [List.length_replicate]
    rfl
  rw [hread₂] at hh₂
  -- the second one arrives in two parts
  obtain ⟨hP₃, s₃, h₃, hh₃, hp₃⟩ := @message_linear s₂ _ _ [2, 105, 106, 107] hh₂ (by decide)
  obtain ⟨hP₄, s₄, h₄, hh₄, hp₄⟩ := @message_linear s₃ _ _ [108, 109, 110, 111, 3, 2, 33] hh₃ (by decide)
  obtain ⟨hP₅, s₅, h₅, hh₅, hp₅⟩ := @unpack_linear s₄ _ _ [] [105, 106, 107, 108, 109, 110, 111] [2, 33] hh₄
    ⟨rfl, ⟨by decide, by decide⟩, rfl⟩ rfl (Or.inr (by decide))
  -- and the bytes behind it are at the front now
  obtain ⟨hP₆, s₆, h₆, hh₆, hp₆⟩ := @message_linear s₅ _ _ [3] hh₅ (by decide)
  obtain ⟨hP₇, s₇, h₇, _, hp₇⟩ :=
    @unpack_linear s₆ _ _ [] [33] [] hh₆ ⟨rfl, ⟨by decide, by decide⟩, rfl⟩ rfl (Or.inl (by decide))
  constructor
  · refine ⟨s₇, ?_, ?_⟩
    · simp only [movedRun, run, h₁, h₂, h₃, h₄, h₅, h₆, h₇, Option.bind_some]
    · rw [hp₇, hp₆, hp₅, hp₄, hp₃, hp₂, hp₁]
      rfl
  · refine (sound_along _ ?_).2
    rw [movedRun, along_cons h₁, along_cons h₂, along_cons h₃, along_cons h₄, along_cons h₅, along_cons h₆,
      along_cons h₇]
    exact ⟨hP₁, hP₂, hP₃, hP₄, hP₅, hP₆, hP₇, trivial⟩

/-- A message larger than the buffer leaves it; and one that does not fit behind unread bytes is put over them. -/
theorem buffer_overrun :
    step (init (Block.fill _ 0)) (.message (List.replicate 196609 65)) = none ∧
    ∃ s, run step (init (Block.fill _ 0))
        [.message (List.replicate 100 65), .message (List.replicate 196600 66)] = some s ∧
      ¬ Sound s := by
  have hsize : maxPacketBufferSize = 196608 := rfl
  have hholds : Holds (init (Block.fill _ 0)).handler 0 [] := holds_init _
  have hlen : ∀ (n : Nat) (c : UInt8), (List.replicate n c).length = n := fun _ _ => List.length_replicate
  constructor
  · have hwraps : wraps (init (Block.fill _ 0)).handler ((196609 : Nat) : Int) = true := by decide
    rw [step, onMessage, toInt_length (by rw [hlen]; omega), hlen, SocketHandler.buffer, if_pos hwraps]
    simp only [store?, Int.le_refl, if_true, Int.toNat_zero]
    rw [write?_eq_none (by rw [hlen]; omega)]
    rfl
  · obtain ⟨h₁, hfirst, hh₁⟩ := @onMessage_holds _ 0 [] (List.replicate 100 65) hholds (by rw [hlen]; decide)
    obtain ⟨s₁, hs₁, rfl⟩ : ∃ s₁, step (init (Block.fill _ 0)) (.message (List.replicate 100 65)) = some s₁ ∧
        s₁.handler = h₁ := ⟨_, step_message hfirst, rfl⟩
    rw [List.nil_append] at hh₁
    have hsecond := @onMessage_over s₁.handler 0 _ (List.replicate 196600 66) hh₁ (by rw [hlen, hlen]; omega)
      (by rw [hlen]; omega)
    refine ⟨_, Option.bind_eq_some_iff.mpr ⟨s₁, hs₁, Option.bind_eq_some_iff.mpr ⟨_, step_message hsecond, rfl⟩⟩, ?_⟩
    intro hsound
    -- the first of the unread bytes is in the region
    have hsafe := hsound.reserved ⟨s₁.handler, 0, (List.replicate 196600 66).length⟩
      (List.mem_append_right _ (List.mem_singleton.mpr rfl))
    have hinside : (0 : Int) < 0 + ((List.replicate 196600 (66 : UInt8)).length : Int) := by
      rw [hlen]
      omega
    refine hsafe.2.2 0 (Int.le_refl _) hinside (Or.inl ⟨?_, ?_⟩)
    · rw [hh₁.read]
      omega
    · rw [hh₁.max, hlen]
      omega

end WsInput

end Mowang
