import Mowang.Base.Framing
import Mowang.Share.SocketHandler

/-!
# `Share.TcpManager` — `tcp_manager::unpack_packets` and what a socket's reads deliver

`receive` is the life of one TCP socket's input: for each read, `buffer(len)`, the bytes stored there,
then `unpack_packet` until it returns `NULL`, every returned packet copied out before the next call.
Besides the packets it returns a log of the regions the calls handed out (`Touch`).

The handler refines the generic receiver of `Base.Framing`: `Holds h r s` says that `h` holds the
unread bytes `s` at offset `r`, and one call of `unpack_packet` is one `Framing.next` on `s`
(`unpackPacket_none`, `unpackPacket_some`). The bound that makes compaction safe is `Slack`: once the
packet in front is taken, less than one read (and a header) is left to move.
-/

namespace Mowang

open LittleEndian Framing

/-- One region handed out: by `buffer(len)` (and whether that call took the wrap branch), or by
    `unpack_packet` (and the `memcpy` it made). -/
inductive Touch where
  | reserved (off : Int) (len : Nat) (wrapped : Bool)
  | returned (off : Int) (len : Nat) (moved : Option (Int × Int))
  deriving DecidableEq

/-- The region lies inside the buffer and was not reached by wrapping; the `memcpy` that preceded the
    copy-out overlapped neither its own source nor the packet returned. -/
def Touch.Safe : Touch → Prop
  | .reserved off len wrapped => wrapped = false ∧ 0 ≤ off ∧ off + len ≤ maxPacketBufferSize
  | .returned off len moved =>
      0 ≤ off ∧ off + len ≤ maxPacketBufferSize ∧
      ∀ src n, moved = some (src, n) → 0 ≤ n ∧ n ≤ src ∧ n ≤ off

namespace TcpManager

/-- The `while` of `unpack_packets`: each packet's length and bytes are read through the returned
    pointer, after the compaction the call may have made. -/
def unpackLoop : Nat → SocketHandler → Option (List (List UInt8) × List Touch × SocketHandler)
  | 0, _ => none
  | fuel + 1, h =>
    match h.unpackPacket with
    | none => none
    | some (none, h') => some ([], [], h')
    | some (some u, h') =>
      (h'.packetLen? u.packet).bind fun len =>
      (h'.load? u.packet len).bind fun packet =>
      (unpackLoop fuel h').map fun (packets, touches, h'') =>
        (packet :: packets, .returned u.packet len u.moved :: touches, h'')

/-- `unpack_packets` on a read that yields `bytes` (at most `MAX_PACKET_READ_SIZE` of them). -/
def unpackPackets (fuel : Nat) (h : SocketHandler) (bytes : List UInt8) :
    Option (List (List UInt8) × List Touch × SocketHandler) :=
  let (ptr, h') := h.buffer bytes.length
  (h'.store? ptr bytes).bind fun h'' =>
  (unpackLoop fuel h'').map fun (packets, touches, h''') =>
    (packets, .reserved ptr bytes.length (h.wraps bytes.length) :: touches, h''')

/-- The reads of one socket, in order. -/
def receive (fuel : Nat) (h : SocketHandler) :
    List (List UInt8) → Option (List (List UInt8) × List Touch × SocketHandler)
  | [] => some ([], [], h)
  | bytes :: rest =>
    (unpackPackets fuel h bytes).bind fun (packets, touches, h') =>
    (receive fuel h' rest).map fun (packets', touches', h'') =>
      (packets ++ packets', touches ++ touches', h'')

/-- A stream of packets: seven header bytes, the first two of which are `m_len`. -/
def packetFormat : Format UInt8 where
  header := sizeofPacketBase
  lenOf s := ofLe (s.take 2)
  lenOf_append s t h := by
    rw [List.take_append_of_le_length]
    simp only [sizeofPacketBase] at h
    omega

theorem packetLen_lt (s : List UInt8) : packetFormat.lenOf s ≤ 65535 := by
  have h := ofLe_lt (s.take 2)
  have hlen : (s.take 2).length ≤ 2 := by simp
  have hpow : 256 ^ (s.take 2).length ≤ 256 ^ 2 := Nat.pow_le_pow_right (by omega) hlen
  show ofLe (s.take 2) ≤ 65535
  omega

/-! ## What the handler holds -/

/-- The handler holds the unread bytes `s` at offset `r`; it has never wrapped. -/
structure Holds (h : SocketHandler) (r : Nat) (s : List UInt8) : Prop where
  read : h.readIndex = r
  write : h.writeIndex = ((r + s.length : Nat) : Int)
  max : h.maxIndex = ((r + s.length : Nat) : Int)
  low : r ≤ maxPacketBufferMoveForwardSize
  fits : r + s.length ≤ maxPacketBufferSize
  bytes : h.block.slice r s.length = s

/-- Taking the packet in front leaves less than one read and one header. -/
def Slack (s : List UInt8) : Prop :=
  s.length < packetFormat.lenOf s + (maxPacketReadSize + sizeofPacketBase)

theorem holds_init (block : Block UInt8 maxPacketBufferSize) : Holds (.init block) 0 [] :=
  ⟨rfl, rfl, rfl, by decide, by decide, by simp⟩

/-- Bytes no complete packet starts with are fewer than the largest packet. -/
theorem length_lt_of_next_none {s : List UInt8} (h : next packetFormat s = none) : s.length < 65535 := by
  have hle := packetLen_lt s
  rcases next_none h with hh | hl
  · simp only [packetFormat, sizeofPacketBase] at hh
    omega
  · omega

/-- One read behind an incomplete packet leaves `Slack`. -/
theorem slack_append {s c : List UInt8} (h : next packetFormat s = none)
    (hc : c.length ≤ maxPacketReadSize) : Slack (s ++ c) := by
  unfold Slack
  rw [List.length_append]
  by_cases hs : s.length < sizeofPacketBase
  · omega
  · have hlen : packetFormat.lenOf (s ++ c) = packetFormat.lenOf s :=
      packetFormat.lenOf_append s c (Nat.le_of_not_lt hs)
    rcases next_none h with hh | hl
    · exact absurd hh hs
    · omega

/-- What is left behind a packet taken under `Slack` is short. -/
theorem slack_rest {s p s' : List UInt8} (h : next packetFormat s = some (p, s')) (hs : Slack s) :
    s'.length < maxPacketReadSize + sizeofPacketBase ∧ Slack s' := by
  obtain ⟨_, hle, _, rfl⟩ := next_some h
  unfold Slack at hs ⊢
  rw [List.length_drop]
  omega

/-! ## One read -/

theorem load?_eq {h : SocketHandler} {o n : Nat} (hn : o + n ≤ maxPacketBufferSize) :
    h.load? o n = some (h.block.slice o n) := by
  rw [SocketHandler.load?, if_pos (Int.natCast_nonneg o), Int.toNat_natCast, Block.read?_eq hn]

/-- `buffer(len)` reserves the bytes right behind the unread ones while they fit, and storing there appends. -/
theorem holds_buffer_of_fits {h : SocketHandler} {r : Nat} {s c : List UInt8} (hh : Holds h r s)
    (hfit : r + s.length + c.length < maxPacketBufferSize) :
    h.wraps c.length = false ∧ (h.buffer c.length).1 = ((r + s.length : Nat) : Int) ∧
    ∃ h', (h.buffer c.length).2.store? ((r + s.length : Nat) : Int) c = some h' ∧ Holds h' r (s ++ c) := by
  have hnowrap : h.wraps c.length = false := by
    rw [SocketHandler.wraps, hh.write, decide_eq_false_iff_not]
    omega
  have hbuf : h.buffer c.length = (((r + s.length : Nat) : Int),
      { h with writeIndex := ((r + (s ++ c).length : Nat) : Int)
               maxIndex := ((r + (s ++ c).length : Nat) : Int) }) := by
    unfold SocketHandler.buffer
    rw [hnowrap, List.length_append]
    simp only [Bool.false_eq_true, if_false, hh.write, hh.max, hh.read]
    have hnew : ((r + s.length : Nat) : Int) + c.length = ((r + (s.length + c.length) : Nat) : Int) := by
      push_cast
      omega
    rw [hnew, if_neg (by omega)]
    congr 2
    split <;> omega
  have hle : r + s.length + c.length ≤ maxPacketBufferSize := Nat.le_of_lt hfit
  refine ⟨hnowrap, by rw [hbuf], { h with
    writeIndex := ((r + (s ++ c).length : Nat) : Int)
    maxIndex := ((r + (s ++ c).length : Nat) : Int)
    block := h.block.write (r + s.length) c hle }, ?_, ?_⟩
  · rw [hbuf, SocketHandler.store?, if_pos (Int.natCast_nonneg _), Int.toNat_natCast, Block.write?_eq hle]
    rfl
  · refine ⟨hh.read, rfl, rfl, hh.low, by rw [List.length_append]; omega, ?_⟩
    show (h.block.write (r + s.length) c hle).slice r (s ++ c).length = s ++ c
    rw [List.length_append, Block.slice_write_snoc hle, hh.bytes]

/-- `buffer(len)` behind an incomplete packet has room, without wrapping. -/
theorem holds_buffer {h : SocketHandler} {r : Nat} {s c : List UInt8} (hh : Holds h r s)
    (hs : s.length < 65535) (hc : c.length ≤ maxPacketReadSize) :
    h.wraps c.length = false ∧ (h.buffer c.length).1 = ((r + s.length : Nat) : Int) ∧
    r + s.length + c.length ≤ maxPacketBufferSize ∧
    ∃ h', (h.buffer c.length).2.store? ((r + s.length : Nat) : Int) c = some h' ∧ Holds h' r (s ++ c) := by
  have hlow := hh.low
  simp only [maxPacketBufferMoveForwardSize] at hlow
  simp only [maxPacketReadSize] at hc
  have hfit : r + s.length + c.length < maxPacketBufferSize := by
    simp only [maxPacketBufferSize]
    omega
  obtain ⟨hnowrap, hptr, hstore⟩ := holds_buffer_of_fits hh hfit
  exact ⟨hnowrap, hptr, Nat.le_of_lt hfit, hstore⟩

/-! ## One call of `unpack_packet` -/

/-- A handler that never wrapped has nothing to rewind. -/
theorem rewind_eq {h : SocketHandler} {r : Nat} {s : List UInt8} (hh : Holds h r s) : h.rewind = h := by
  rw [SocketHandler.rewind, if_neg]
  rw [hh.read, hh.write, hh.max]
  omega

theorem packetLen?_eq {h : SocketHandler} {r : Nat} {s : List UInt8} (hh : Holds h r s)
    (hs : sizeofPacketBase ≤ s.length) : h.packetLen? r = some (packetFormat.lenOf s) := by
  have hfit := hh.fits
  simp only [sizeofPacketBase] at hs
  rw [SocketHandler.packetLen?, load?_eq (by omega), Option.map_some]
  show some (ofLe (h.block.slice r 2)) = some (ofLe (s.take 2))
  rw [← Block.slice_take (by omega : 2 ≤ s.length), hh.bytes]

/-- The length read through a pointer depends on the two bytes there only. -/
theorem packetLen?_congr {h h' : SocketHandler} {o : Nat} (hin : o + 2 ≤ maxPacketBufferSize)
    (heq : h'.block.slice o 2 = h.block.slice o 2) : h'.packetLen? o = h.packetLen? o := by
  rw [SocketHandler.packetLen?, SocketHandler.packetLen?, load?_eq hin, load?_eq hin, heq]

/-- No complete packet in front: `unpack_packet` returns `NULL` and changes nothing. -/
theorem unpackPacket_none {h : SocketHandler} {r : Nat} {s : List UInt8} (hh : Holds h r s)
    (hn : next packetFormat s = none) : h.unpackPacket = some (none, h) := by
  unfold SocketHandler.unpackPacket
  simp only [rewind_eq hh, hh.read, hh.max]
  split
  · rfl
  · rename_i hlt
    have hs : sizeofPacketBase ≤ s.length := by omega
    rw [packetLen?_eq hh hs, Option.bind_some, if_pos]
    rcases next_none hn with hl | hl
    · exact absurd hs (Nat.not_le.mpr hl)
    · omega

/-- Compaction at offset `r`, clear of its own destination: the unread bytes are at the front
    afterwards, and what lies past them is as it was. -/
theorem moveForward_holds {h : SocketHandler} {r : Nat} {s : List UInt8} (hr : h.readIndex = r)
    (hw : h.writeIndex = ((r + s.length : Nat) : Int)) (hm : h.maxIndex = ((r + s.length : Nat) : Int))
    (hfit : r + s.length ≤ maxPacketBufferSize) (hs : h.block.slice r s.length = s)
    (hclear : s.length ≤ r) :
    ∃ h', h.moveForward? = some h' ∧ Holds h' 0 s ∧
      ∀ o l, s.length ≤ o → h'.block.slice o l = h.block.slice o l := by
  have hmax : maxPacketBufferSize = 196608 := rfl
  have hcopies : ∃ b, h.block.copy? 0 r s.length = some b ∧ b.slice 0 s.length = h.block.slice r s.length ∧
      ∀ o l, o + l ≤ 0 ∨ 0 + s.length ≤ o → b.slice o l = h.block.slice o l :=
    Block.copy?_spec hfit (by omega) (Or.inl (by omega))
  obtain ⟨b, hcopy, hfront, hrest⟩ := hcopies
  have hleft : ((r + s.length : Nat) : Int) - (r : Int) = (s.length : Int) := by omega
  have hcount : ((s.length : Int) % 2 ^ 64).toNat = s.length := by
    rw [Int.emod_eq_of_lt (by omega) (by omega), Int.toNat_natCast]
  refine ⟨⟨0, s.length, s.length, b⟩, ?_, ⟨rfl, by simp, by simp, by decide, by omega, ?_⟩, ?_⟩
  · unfold SocketHandler.moveForward?
    simp only [hr, hw, hm, hleft, hcount]
    rw [if_pos (Int.natCast_nonneg r), Int.toNat_natCast, hcopy, Option.map_some]
  · rw [hfront, hs]
  · intro o l ho
    exact hrest o l (Or.inr (by omega))

/-- Under `Holds`, `unpack_packet` on a complete packet moves the read index behind it and compacts
    when that passes the threshold. -/
theorem unpackPacket_step {h : SocketHandler} {r : Nat} {s p s' : List UInt8} (hh : Holds h r s)
    (hn : next packetFormat s = some (p, s')) :
    h.unpackPacket =
      if ((r + p.length : Nat) : Int) > maxPacketBufferMoveForwardSize then
        ({ h with readIndex := ((r + p.length : Nat) : Int) }).moveForward?.map fun h' =>
          (some ⟨r, some (((r + p.length : Nat) : Int), (s'.length : Int))⟩, h')
      else some (some ⟨r, none⟩, { h with readIndex := ((r + p.length : Nat) : Int) }) := by
  obtain ⟨hhead, hle, hp, hs'⟩ := next_some hn
  have hplen : p.length = packetFormat.lenOf s := by rw [hp, List.length_take]; omega
  have hslen : s.length = p.length + s'.length := by rw [hs', List.length_drop]; omega
  have hnew : (r : Int) + (packetFormat.lenOf s : Int) = ((r + p.length : Nat) : Int) := by
    rw [← hplen]
    push_cast
    rfl
  have hleft : ((r + s.length : Nat) : Int) - ((r + p.length : Nat) : Int) = (s'.length : Int) := by
    omega
  have hhead' : sizeofPacketBase ≤ s.length := hhead
  unfold SocketHandler.unpackPacket
  simp only [rewind_eq hh, hh.read, hh.max]
  rw [if_neg (by omega), packetLen?_eq hh hhead', Option.bind_some, if_neg (by omega)]
  simp only [hnew, hleft]

/-- **A complete packet in front**: `unpack_packet` returns a pointer to it and keeps what follows; if
    it moves the unread bytes to the front, they stay clear of the packet. -/
theorem unpackPacket_some {h : SocketHandler} {r : Nat} {s p s' : List UInt8} (hh : Holds h r s)
    (hn : next packetFormat s = some (p, s')) (hs : Slack s) :
    ∃ moved h' r', h.unpackPacket = some (some ⟨r, moved⟩, h') ∧ Holds h' r' s' ∧
      h'.packetLen? r = some p.length ∧ h'.load? r p.length = some p ∧
      (Touch.returned r p.length moved).Safe := by
  have hstep := unpackPacket_step hh hn
  have hrest := (slack_rest hn hs).1
  obtain ⟨hhead, hle, hp, hs'⟩ := next_some hn
  have hlt := packetLen_lt s
  have hfit := hh.fits
  have hplen : p.length = packetFormat.lenOf s := by rw [hp, List.length_take]; omega
  have hslen : s.length = p.length + s'.length := by rw [hs', List.length_drop]; omega
  have hcat : h.block.slice r (p.length + s'.length) = p ++ s' := by
    rw [← hslen, hh.bytes, hp, hs', List.take_append_drop]
  rw [Block.slice_append] at hcat
  obtain ⟨hfront, hback⟩ := List.append_inj hcat (Block.slice_length (by omega))
  have hin : r + p.length ≤ maxPacketBufferSize := by omega
  have hlen : h.packetLen? r = some p.length := by rw [packetLen?_eq hh hhead, hplen]
  simp only [packetFormat, maxPacketReadSize, sizeofPacketBase] at hhead hrest
  by_cases hmove : ((r + p.length : Nat) : Int) > maxPacketBufferMoveForwardSize
  · -- compaction: the packet lies past 34465, the bytes moved are fewer than 30007
    rw [if_pos hmove] at hstep
    simp only [maxPacketBufferMoveForwardSize] at hmove
    obtain ⟨h', hmf, hholds, hkeep⟩ :=
      moveForward_holds (h := { h with readIndex := ((r + p.length : Nat) : Int) }) (r := r + p.length)
        (s := s') rfl (by rw [hh.write]; omega) (by rw [hh.max]; omega) (by omega) hback (by omega)
    rw [hmf, Option.map_some] at hstep
    refine ⟨_, h', 0, hstep, hholds, ?_, ?_, Int.natCast_nonneg r, by exact_mod_cast hin, ?_⟩
    · rw [packetLen?_congr (h := h) (by omega) (hkeep r 2 (by omega)), hlen]
    · rw [load?_eq hin, hkeep r p.length (by omega)]
      exact congrArg some hfront
    · intro src n hm
      simp only [Option.some.injEq, Prod.mk.injEq] at hm
      obtain ⟨rfl, rfl⟩ := hm
      omega
  · rw [if_neg hmove] at hstep
    refine ⟨_, _, r + p.length, hstep, ⟨rfl, ?_, ?_, by omega, by omega, hback⟩, hlen, ?_,
      Int.natCast_nonneg r, by exact_mod_cast hin, ?_⟩
    · show h.writeIndex = _
      rw [hh.write]
      omega
    · show h.maxIndex = _
      rw [hh.max]
      omega
    · rw [load?_eq hin]
      exact congrArg some hfront
    · intro src n hm
      exact absurd hm (by simp)

/-! ## The unpack loop and a whole run -/

/-- **The loop refines a drain.** From unread bytes `s` that drain to `ps` and `rest`, the `while` of
    `unpack_packets` copies out exactly `ps` and leaves `rest` unread. -/
theorem unpackLoop_drains {s rest : List UInt8} {ps : List (List UInt8)}
    (hd : Drains packetFormat s ps rest) :
    ∀ {h : SocketHandler} {r fuel : Nat}, Holds h r s → Slack s → ps.length < fuel →
      ∃ touches h' r', unpackLoop fuel h = some (ps, touches, h') ∧ Holds h' r' rest ∧
        ∀ t ∈ touches, t.Safe := by
  induction hd with
  | stop hn =>
      intro h r fuel hh _ hf
      obtain ⟨fuel, rfl⟩ : ∃ k, fuel = k + 1 := ⟨fuel - 1, by simp only [List.length_nil] at hf; omega⟩
      refine ⟨[], h, r, ?_, hh, by simp⟩
      simp only [unpackLoop, unpackPacket_none hh hn]
  | @take s p s' ps rest hn _ ih =>
      intro h r fuel hh hs hf
      obtain ⟨fuel, rfl⟩ : ∃ k, fuel = k + 1 := ⟨fuel - 1, by simp only [List.length_cons] at hf; omega⟩
      obtain ⟨moved, h', r', hstep, hh', hlen, hload, hsafe⟩ := unpackPacket_some hh hn hs
      obtain ⟨touches, h'', r'', hloop, hh'', htouch⟩ := ih hh' (slack_rest hn hs).2 (by simpa using hf)
      refine ⟨.returned r p.length moved :: touches, h'', r'', ?_, hh'', ?_⟩
      · simp only [unpackLoop, hstep, hlen, hload, Option.bind_some, hloop, Option.map_some]
      · intro t ht
        rcases List.mem_cons.mp ht with rfl | ht
        · exact hsafe
        · exact htouch t ht

/-- One read behind an incomplete packet, when the bytes then unread drain to `ps` and `rest`. -/
theorem unpackPackets_drains {h : SocketHandler} {r : Nat} {s c rest : List UInt8}
    {ps : List (List UInt8)} {fuel : Nat} (hh : Holds h r s) (hn : next packetFormat s = none)
    (hc : c.length ≤ maxPacketReadSize) (hd : Drains packetFormat (s ++ c) ps rest)
    (hf : ps.length < fuel) :
    ∃ touches h' r', unpackPackets fuel h c = some (ps, touches, h') ∧ Holds h' r' rest ∧
      ∀ t ∈ touches, t.Safe := by
  obtain ⟨hnowrap, hptr, hfit, h₁, hstore, hh₁⟩ := holds_buffer hh (length_lt_of_next_none hn) hc
  obtain ⟨touches, h₂, r₂, hloop, hh₂, htouch⟩ := unpackLoop_drains hd hh₁ (slack_append hn hc) hf
  refine ⟨.reserved ((r + s.length : Nat) : Int) c.length false :: touches, h₂, r₂, ?_, hh₂, ?_⟩
  · unfold unpackPackets
    simp only [hptr, hstore, Option.bind_some, hloop, Option.map_some, hnowrap]
  · intro t ht
    rcases List.mem_cons.mp ht with rfl | ht
    · exact ⟨rfl, Int.natCast_nonneg _, by exact_mod_cast hfit⟩
    · exact htouch t ht

/-- A run of reads from any point between two reads: the bytes unread there and the bytes still to
    come are the concatenation of the packets still to be delivered. -/
theorem receive_holds {fuel : Nat} (hf : maxPacketBufferSize ≤ fuel) {chunks : List (List UInt8)}
    (hc : ∀ c ∈ chunks, c.length ≤ maxPacketReadSize) :
    ∀ {h : SocketHandler} {r : Nat} {s : List UInt8} {fs : List (List UInt8)}, Holds h r s →
      next packetFormat s = none → (∀ p ∈ fs, IsFrame packetFormat p) →
      s ++ chunks.flatten = fs.flatten →
      ∃ touches h', receive fuel h chunks = some (fs, touches, h') ∧ ∀ t ∈ touches, t.Safe := by
  induction chunks with
  | nil =>
      intro h r s fs _ hn hfs hcat
      have hnil : fs = [] := by
        cases fs with
        | nil => rfl
        | cons p fs =>
            -- a first packet would be complete in `s`
            rw [List.flatten_nil, List.append_nil, List.flatten_cons] at hcat
            rw [hcat, next_frame (hfs p List.mem_cons_self)] at hn
            exact absurd hn (by simp)
      exact ⟨[], h, by rw [hnil]; rfl, by simp⟩
  | cons c chunks ih =>
      intro h r s fs hh hn hfs hcat
      rw [List.flatten_cons, ← List.append_assoc] at hcat
      obtain ⟨ps, qs, rest, rfl, hd, hrest⟩ := drains_of_frames (by decide) hfs hcat
      have hcl : c.length ≤ maxPacketReadSize := hc c List.mem_cons_self
      have hcount : ps.length < fuel := by
        have hmin : ps.length ≤ ps.flatten.length :=
          length_le_flatten (by decide) (fun p hp => hfs p (List.mem_append_left qs hp))
        have hlen := congrArg List.length hd.flatten
        have hshort := length_lt_of_next_none hn
        simp only [List.length_append] at hlen
        simp only [maxPacketReadSize] at hcl
        simp only [maxPacketBufferSize] at hf
        omega
      obtain ⟨touches, h₁, r₁, hone, hh₁, hsafe⟩ := unpackPackets_drains hh hn hcl hd hcount
      obtain ⟨touches', h₂, hrun, hsafe'⟩ :=
        ih (fun c' hc' => hc c' (List.mem_cons_of_mem c hc')) hh₁ hd.rest_none
          (fun p hp => hfs p (List.mem_append_right ps hp)) hrest
      refine ⟨touches ++ touches', h₂, ?_, ?_⟩
      · simp only [receive, hone, Option.bind_some, hrun, Option.map_some]
      · intro t ht
        rcases List.mem_append.mp ht with ht | ht
        · exact hsafe t ht
        · exact hsafe' t ht

/-- **TCP framing is lossless and chunk-independent.** Packets whose `m_len` is their real size (at
    least a header, at most 65535 as a `uint16` is), cut anyhow into reads of at most 30000 bytes, come
    out of a clean handler exactly as they went in; every region handed out is inside the buffer, no
    call wraps, and no compaction touches its own source or the packet being returned. -/
theorem receive_packets (block : Block UInt8 maxPacketBufferSize) (packets chunks : List (List UInt8))
    (hp : ∀ p ∈ packets, sizeofPacketBase ≤ p.length ∧ p.length ≤ 65535 ∧ ofLe (p.take 2) = p.length)
    (hc : ∀ c ∈ chunks, 1 ≤ c.length ∧ c.length ≤ maxPacketReadSize)
    (hcat : chunks.flatten = packets.flatten) (fuel : Nat) (hf : maxPacketBufferSize ≤ fuel) :
    ∃ touches h, receive fuel (.init block) chunks = some (packets, touches, h) ∧
      ∀ t ∈ touches, t.Safe :=
  receive_holds hf (fun c h => (hc c h).2) (holds_init block) rfl
    (fun p h => ⟨(hp p h).1, (hp p h).2.2⟩) hcat

/-- A header-only packet arriving in two reads. -/
theorem receive_packets_split :
    ∃ touches h, receive maxPacketBufferSize (.init (.fill _ 0)) [[7, 0, 0x66], [0, 0, 0, 0]] =
        some ([[7, 0, 0x66, 0, 0, 0, 0]], touches, h) ∧ ∀ t ∈ touches, t.Safe :=
  receive_packets (.fill _ 0) [[7, 0, 0x66, 0, 0, 0, 0]] [[7, 0, 0x66], [0, 0, 0, 0]]
    (by decide) (by decide) rfl _ (Nat.le_refl _)

/-! ## Streams of a hostile peer

`m_len` is whatever the peer writes. A declared length of 0 leaves the read index where it is, so the
loop gets the same packet again without end; a declared length of 1 to 6 is handed on although the
packet does not hold its own header. Nothing else goes wrong: compaction stays safe (`Slack` needs no
lower bound on a length).
-/

/-- What the loop has copied out when it ends is a drain of the bytes unread before it. -/
theorem unpackLoop_inv {fuel : Nat} :
    ∀ {h h' : SocketHandler} {r : Nat} {s : List UInt8} {ps : List (List UInt8)} {touches : List Touch},
      Holds h r s → Slack s → unpackLoop fuel h = some (ps, touches, h') →
      ∃ rest r', Drains packetFormat s ps rest ∧ Holds h' r' rest := by
  induction fuel with
  | zero =>
      intro h h' r s ps touches _ _ hloop
      exact absurd hloop (by simp [unpackLoop])
  | succ fuel ih =>
      intro h h' r s ps touches hh hs hloop
      cases hn : next packetFormat s with
      | none =>
          simp only [unpackLoop, unpackPacket_none hh hn, Option.some.injEq, Prod.mk.injEq] at hloop
          obtain ⟨rfl, _, rfl⟩ := hloop
          exact ⟨s, r, .stop hn, hh⟩
      | some cut =>
          obtain ⟨p, s'⟩ := cut
          obtain ⟨moved, h₁, r₁, hstep, hh₁, hlen, hload, _⟩ := unpackPacket_some hh hn hs
          simp only [unpackLoop, hstep, hlen, hload, Option.bind_some, Option.map_eq_some_iff] at hloop
          obtain ⟨⟨ps', touches', h₂⟩, hrest, heq⟩ := hloop
          simp only [Prod.mk.injEq] at heq
          obtain ⟨rfl, _, rfl⟩ := heq
          obtain ⟨rest, r', hd, hh'⟩ := ih hh₁ (slack_rest hn hs).2 hrest
          exact ⟨rest, r', .take hn hd, hh'⟩

/-- One read behind an incomplete packet: what the loop has copied out when it ends is a drain. -/
theorem unpackPackets_inv {h h' : SocketHandler} {r fuel : Nat} {s c : List UInt8}
    {ps : List (List UInt8)} {touches : List Touch} (hh : Holds h r s) (hn : next packetFormat s = none)
    (hc : c.length ≤ maxPacketReadSize) (hone : unpackPackets fuel h c = some (ps, touches, h')) :
    ∃ rest r', Drains packetFormat (s ++ c) ps rest ∧ Holds h' r' rest := by
  obtain ⟨_, hptr, _, h₁, hstore, hh₁⟩ := holds_buffer hh (length_lt_of_next_none hn) hc
  unfold unpackPackets at hone
  simp only [hptr, hstore, Option.bind_some, Option.map_eq_some_iff] at hone
  obtain ⟨⟨ps', touches', h₂⟩, hloop, heq⟩ := hone
  simp only [Prod.mk.injEq] at heq
  obtain ⟨rfl, _, rfl⟩ := heq
  exact unpackLoop_inv hh₁ (slack_append hn hc) hloop

/-- The reads of a well framed stream, from any point between two reads: every loop ends, and no packet
    handed on is shorter than a header. -/
theorem receive_wellFramed {fuel : Nat} (hf : maxPacketBufferSize ≤ fuel) {chunks : List (List UInt8)}
    (hc : ∀ c ∈ chunks, c.length ≤ maxPacketReadSize) :
    ∀ {h : SocketHandler} {r : Nat} {s : List UInt8}, Holds h r s → next packetFormat s = none →
      WellFramed packetFormat (s ++ chunks.flatten) →
      ∃ packets touches h', receive fuel h chunks = some (packets, touches, h') ∧
        ∀ p ∈ packets, sizeofPacketBase ≤ p.length := by
  induction chunks with
  | nil =>
      intro h r s _ _ _
      exact ⟨[], [], h, rfl, by simp⟩
  | cons c chunks ih =>
      intro h r s hh hn hwf
      rw [List.flatten_cons, ← List.append_assoc] at hwf
      have hcl : c.length ≤ maxPacketReadSize := hc c List.mem_cons_self
      obtain ⟨ps, rest, hd⟩ := hwf.drains (by decide)
      obtain ⟨hps, hwf'⟩ := (hd.wellFramed_append chunks.flatten).mp hwf
      have hcount : ps.length < fuel := by
        have hle := hd.length_le (by decide) hps
        have hshort := length_lt_of_next_none hn
        simp only [List.length_append] at hle
        simp only [maxPacketReadSize] at hcl
        simp only [maxPacketBufferSize] at hf
        omega
      obtain ⟨touches, h₁, r₁, hone, hh₁, _⟩ := unpackPackets_drains hh hn hcl hd hcount
      obtain ⟨packets, touches', h₂, hrun, hlong⟩ :=
        ih (fun c' hc' => hc c' (List.mem_cons_of_mem c hc')) hh₁ hd.rest_none hwf'
      refine ⟨ps ++ packets, touches ++ touches', h₂, ?_, ?_⟩
      · simp only [receive, hone, Option.bind_some, hrun, Option.map_some]
      · intro p hp
        rcases List.mem_append.mp hp with hp | hp
        · exact hps p hp
        · exact hlong p hp

/-- Conversely: if every loop of the reads ended and no packet handed on is shorter than a header, the
    stream is well framed. -/
theorem wellFramed_of_receive {fuel : Nat} {chunks : List (List UInt8)}
    (hc : ∀ c ∈ chunks, c.length ≤ maxPacketReadSize) :
    ∀ {h h' : SocketHandler} {r : Nat} {s : List UInt8} {packets : List (List UInt8)} {touches : List Touch},
      Holds h r s → next packetFormat s = none →
      receive fuel h chunks = some (packets, touches, h') →
      (∀ p ∈ packets, sizeofPacketBase ≤ p.length) → WellFramed packetFormat (s ++ chunks.flatten) := by
  induction chunks with
  | nil =>
      intro h h' r s packets touches _ hn _ _
      rw [List.flatten_nil, List.append_nil]
      by_cases hs : s.length < packetFormat.header
      · exact .short hs
      · -- a declared length below a header's would make the packet in front complete
        have hopen : s.length < packetFormat.lenOf s := (next_none hn).resolve_left hs
        exact .incomplete (by omega) hopen
  | cons c chunks ih =>
      intro h h' r s packets touches hh hn hrun hlong
      simp only [receive, Option.bind_eq_some_iff, Option.map_eq_some_iff] at hrun
      obtain ⟨⟨ps, touches₁, h₁⟩, hone, ⟨packets', touches', h₂⟩, hrest, heq⟩ := hrun
      simp only [Prod.mk.injEq] at heq
      obtain ⟨rfl, _, rfl⟩ := heq
      obtain ⟨rest, r₁, hd, hh₁⟩ := unpackPackets_inv hh hn (hc c List.mem_cons_self) hone
      have hwf := ih (fun c' hc' => hc c' (List.mem_cons_of_mem c hc')) hh₁ hd.rest_none hrest
        (fun p hp => hlong p (List.mem_append_right ps hp))
      rw [List.flatten_cons, ← List.append_assoc]
      exact (hd.wellFramed_append chunks.flatten).mpr
        ⟨fun p hp => hlong p (List.mem_append_left packets' hp), hwf⟩

/-- **When framing survives a hostile peer.** For any bytes in any reads of at most 30000, every unpack
    loop ends and every packet handed on is as long as a header at least, if and only if the stream,
    walked by declared lengths, never shows a complete header that declares less than 7. A packet is
    copied out with the length it declares, so its length is the declared one. -/
theorem receive_survives_iff (block : Block UInt8 maxPacketBufferSize) (chunks : List (List UInt8))
    (hc : ∀ c ∈ chunks, c.length ≤ maxPacketReadSize) :
    (∃ fuel packets touches h, receive fuel (.init block) chunks = some (packets, touches, h) ∧
      ∀ p ∈ packets, sizeofPacketBase ≤ p.length) ↔ WellFramed packetFormat chunks.flatten := by
  constructor
  · rintro ⟨fuel, packets, touches, h, hrun, hlong⟩
    exact wellFramed_of_receive hc (holds_init block) rfl hrun hlong
  · intro hwf
    exact ⟨maxPacketBufferSize, receive_wellFramed (Nat.le_refl _) hc (holds_init block) rfl hwf⟩

/-- A header-only packet and the first byte of the next, in two reads. -/
theorem receive_survives_iff_split :
    (∃ fuel packets touches h,
      receive fuel (.init (.fill _ 0)) [[7, 0, 0x66], [0, 0, 0, 0, 9]] = some (packets, touches, h) ∧
        ∀ p ∈ packets, sizeofPacketBase ≤ p.length) ↔
      WellFramed packetFormat [7, 0, 0x66, 0, 0, 0, 0, 9] :=
  receive_survives_iff (.fill _ 0) [[7, 0, 0x66], [0, 0, 0, 0, 9]] (by decide)

/-- A complete header that declares length 0: `unpack_packet` returns it and leaves the handler as it
    was, so it never returns `NULL`. -/
theorem unpackPacket_zero {h : SocketHandler} {r : Nat} {s : List UInt8} (hh : Holds h r s)
    (hs : sizeofPacketBase ≤ s.length) (hzero : packetFormat.lenOf s = 0) :
    h.unpackPacket = some (some ⟨r, none⟩, h) := by
  have hn : next packetFormat s = some ([], s) := by
    unfold next
    rw [if_neg (show ¬ s.length < packetFormat.header from Nat.not_lt.mpr hs), hzero,
      if_neg (Nat.not_lt_zero _), List.take_zero, List.drop_zero]
  have hlow := hh.low
  rw [unpackPacket_step hh hn, if_neg (by simp only [List.length_nil]; omega), List.length_nil, Nat.add_zero,
    ← hh.read]

/-- A loop in front of a header that declares length 0 does not end. -/
theorem unpackLoop_zero {h : SocketHandler} {r : Nat} {s : List UInt8} (hh : Holds h r s)
    (hs : sizeofPacketBase ≤ s.length) (hzero : packetFormat.lenOf s = 0) (fuel : Nat) :
    unpackLoop fuel h = none := by
  induction fuel with
  | zero => rfl
  | succ fuel ih =>
      -- the call leaves the handler unchanged, so the loop is where it was
      simp only [unpackLoop, unpackPacket_zero hh hs hzero, ih, Option.map_none, Option.bind_fun_none]

/-- The header that declares length 0. -/
def zeroHeader : List UInt8 := [0, 0, 0x66, 0, 0, 0, 0]

/-- Seven bytes with declared length 0 in one read: afterwards `unpack_packet` returns a packet and
    leaves the handler as it is, for ever; the read is never done. -/
theorem receive_zeroHeader :
    (∃ h r, Holds h r zeroHeader ∧ h.unpackPacket = some (some ⟨r, none⟩, h)) ∧
    ¬ ∃ fuel packets touches h, receive fuel (.init (.fill _ 0)) [zeroHeader] = some (packets, touches, h) ∧
      ∀ p ∈ packets, sizeofPacketBase ≤ p.length := by
  obtain ⟨_, hptr, _, h₁, hstore, hh₁⟩ := holds_buffer (holds_init (.fill _ 0)) (by decide)
    (by decide : zeroHeader.length ≤ maxPacketReadSize)
  refine ⟨⟨h₁, 0, hh₁, unpackPacket_zero hh₁ (by decide) rfl⟩, ?_⟩
  rintro ⟨fuel, packets, touches, h, hrun, _⟩
  have hloop : unpackLoop fuel h₁ = none := unpackLoop_zero hh₁ (by decide) rfl fuel
  simp only [receive, unpackPackets, hptr, hstore, hloop, Option.bind_some, Option.map_none,
    Option.bind_none] at hrun
  exact absurd hrun (by simp)

end TcpManager

end Mowang
