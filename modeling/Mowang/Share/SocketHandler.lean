import Mowang.Base.Block
import Mowang.Base.LittleEndian
import Mowang.Share.BaseUtil
import Mathlib.Algebra.Order.Ring.Int

/-!
# `Share.SocketHandler` — `socket_handler`, the receive buffer of one socket

Indices are `Int`, as the source's `int`s: the wrap branch of `buffer` and the compaction of
`unpack_packet` subtract from them. A pointer into the buffer is its offset. Every access of the
buffer goes through the checked `Block` operations, so `none` stands for undefined behaviour: an
access outside the 196608 bytes or a `memcpy` between overlapping regions.
-/

namespace Mowang

/-- `sizeof(packet_base)`: `m_len` (2), `m_id` (1), `m_check` (4), packed. -/
def sizeofPacketBase : Nat := 7

/-- `socket_handler`. -/
structure SocketHandler where
  readIndex : Int
  writeIndex : Int
  maxIndex : Int
  /-- What `m_buffer` points to. -/
  block : Block UInt8 maxPacketBufferSize

/-- What a successful `unpack_packet` hands to its caller, and the `memcpy(m_buffer, m_buffer + src, n)`
    it made on the way, if any. -/
structure Unpacked where
  packet : Int
  moved : Option (Int × Int)

namespace SocketHandler

/-- The constructor (`clean_up`) followed by `set_buffer`. -/
def init (block : Block UInt8 maxPacketBufferSize) : SocketHandler := ⟨0, 0, 0, block⟩

/-- `get_unpack_len`. -/
def getUnpackLen (h : SocketHandler) : Int :=
  if h.writeIndex ≥ h.readIndex then h.writeIndex - h.readIndex
  else h.maxIndex - h.readIndex + h.writeIndex

/-- The branch condition of `buffer(len)`: the region would reach the end of the buffer. -/
def wraps (h : SocketHandler) (len : Int) : Bool := decide (h.writeIndex + len ≥ maxPacketBufferSize)

/-- `buffer(len)`: reserve `len` bytes and return where they go. -/
def buffer (h : SocketHandler) (len : Int) : Int × SocketHandler :=
  if h.wraps len then
    (0, { h with maxIndex := h.writeIndex, writeIndex := len })
  else
    let newWrite := h.writeIndex + len
    if newWrite > h.readIndex ∧ newWrite < h.maxIndex then
      -- `log_error("socket handler! write error! …")`; the write index stays advanced
      (0, { h with writeIndex := newWrite })
    else
      (h.writeIndex,
        { h with writeIndex := newWrite, maxIndex := if h.maxIndex < newWrite then newWrite else h.maxIndex })

/-- Read `len` bytes through a pointer. -/
def load? (h : SocketHandler) (ptr : Int) (len : Nat) : Option (List UInt8) :=
  if 0 ≤ ptr then h.block.read? ptr.toNat len else none

/-- Write `bytes` through a pointer. -/
def store? (h : SocketHandler) (ptr : Int) (bytes : List UInt8) : Option SocketHandler :=
  if 0 ≤ ptr then (h.block.write? ptr.toNat bytes).map fun b => { h with block := b } else none

/-- `((packet_base*)ptr)->get_packet_len()`. -/
def packetLen? (h : SocketHandler) (ptr : Int) : Option Nat := (h.load? ptr 2).map LittleEndian.ofLe

/-- The first statement of `unpack_packet`: everything up to `m_max_index` is read and the writer has
    wrapped, so continue at the front. -/
def rewind (h : SocketHandler) : SocketHandler :=
  if h.readIndex = h.maxIndex ∧ h.readIndex > h.writeIndex then
    { h with readIndex := 0, maxIndex := h.writeIndex }
  else h

/-- The `memcpy` of `unpack_packet` that moves the unread bytes to the front; its count is a `size_t`. -/
def moveForward? (h : SocketHandler) : Option SocketHandler :=
  let n := h.maxIndex - h.readIndex
  if 0 ≤ h.readIndex then
    (h.block.copy? 0 h.readIndex.toNat (n % 2 ^ 64).toNat).map fun b =>
      { readIndex := 0, writeIndex := h.writeIndex - h.readIndex, maxIndex := n, block := b }
  else none

/-- `unpack_packet`; the inner `none` is the source's `NULL`. -/
def unpackPacket (h₀ : SocketHandler) : Option (Option Unpacked × SocketHandler) :=
  let h := h₀.rewind
  let len := h.maxIndex - h.readIndex
  if len < sizeofPacketBase then some (none, h)
  else
    (h.packetLen? h.readIndex).bind fun packetLen =>
      if len < packetLen then some (none, h)
      else
        let packet := h.readIndex
        let h' : SocketHandler := { h with readIndex := h.readIndex + packetLen }
        if h'.readIndex > maxPacketBufferMoveForwardSize then
          h'.moveForward?.map fun h'' =>
            (some ⟨packet, some (h'.readIndex, h'.maxIndex - h'.readIndex)⟩, h'')
        else some (some ⟨packet, none⟩, h')

end SocketHandler

end Mowang
