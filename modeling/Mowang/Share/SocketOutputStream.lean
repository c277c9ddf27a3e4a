import Mathlib.Algebra.Order.Ring.Int
import Mowang.Base.Ring
import Mowang.Base.Run

/-!
# `Share.SocketOutputStream` — the queue of bytes that a socket has still to send

The stream is a ring buffer: `write` puts bytes in at `m_tail`, `flush` sends from `m_head`. A write that would fill the
ring moves the queue to the start of a larger one. What the kernel does with a call of `send` is a label of the run:
it would block, it fails, or it has room for some bytes.

`none` is an access outside the buffer, or a sum outside `sint32`. `memory` is what `new` finds in the memory it
returns.

## Contents
- `OutputStream`, `resize`, `write`, `flush`.
- `Valid`, `resize_spec`, `write_spec`, `flush_spec`.
- `Channel.fifo` — the bytes sent and those in the queue are the bytes written.
- `PublishLabel`, `current_iff` — when `length()` is the length of the queue in every state of a run.
-/

namespace Mowang

open Block

/-- A sum that is stored in a `sint32`. -/
def sint32 (x : Int) : Option Int := if -2 ^ 31 ≤ x ∧ x < 2 ^ 31 then some x else none

/-- `socket_output_stream`, with the active flag of its socket. -/
structure OutputStream where
  bufferLen : Nat
  buffer : Block UInt8 bufferLen
  maxBufferLen : Nat
  head : Nat := 0
  tail : Nat := 0
  outputLen : Nat := 0
  active : Bool := true

/-- What the kernel answers to `send`: `SOCKET_ERROR_WOULDBLOCK`, `SOCKET_ERROR`, or the number of bytes that it takes
    of those offered, with room for `n`. -/
inductive Answer
  | wouldBlock
  | error
  | room (n : Nat)

/-- A loop of `flush`: the answers that are left, the bytes sent so far, and what `flush` returned in the loop. -/
structure Sending where
  stream : OutputStream
  answers : List Answer
  nFlushed : Nat := 0
  sent : List UInt8 := []
  returned : Option Int := none

namespace OutputStream

/-- `initsize`. -/
def initsize (bufferLen maxBufferLen : Nat) : OutputStream :=
  { bufferLen := bufferLen, buffer := Block.fill bufferLen 0, maxBufferLen := maxBufferLen }

/-- `_length`. -/
def length (s : OutputStream) : Nat :=
  if s.head < s.tail then s.tail - s.head
  else if s.head > s.tail then s.bufferLen - s.head + s.tail
  else 0

/-- The bytes that wait to be sent. -/
def queued (s : OutputStream) : List UInt8 := s.buffer.ring s.head s.tail

section Write

variable (memory : (n : Nat) → Block UInt8 n)

/-- `resize`. -/
def resize (s : OutputStream) (size : Int) : Option (OutputStream × Bool) :=
  let half : Int := (s.bufferLen / 2 : Nat)
  let size := if half > size then half else size
  (sint32 (s.bufferLen + size)).bind fun newBufferLen =>
  if size < 0 ∧ (newBufferLen < 0 ∨ newBufferLen < s.length) then some (s, false)
  else if newBufferLen < 0 then none
  else
    (s.buffer.moveRing? s.head s.tail (memory newBufferLen.toNat)).map fun newBuffer =>
    ({ s with bufferLen := newBufferLen.toNat, buffer := newBuffer, head := 0, tail := s.length }, true)

/-- The part of `write` that copies. -/
def place (s : OutputStream) (buf : List UInt8) : Option (Block UInt8 s.bufferLen) :=
  if s.head ≤ s.tail then
    if s.head = 0 then s.buffer.write? s.tail buf
    else
      let nFree := s.bufferLen - s.tail
      if buf.length ≤ nFree then s.buffer.write? s.tail buf
      else (s.buffer.write? s.tail (buf.take nFree)).bind fun buffer => buffer.write? 0 (buf.drop nFree)
  else s.buffer.write? s.tail buf

/-- `write`, and what it returns. -/
def write (s : OutputStream) (buf : List UInt8) : Option (OutputStream × Nat) :=
  let nFree : Int := if s.head ≤ s.tail then s.bufferLen - s.tail + s.head - 1 else s.head - s.tail - 1
  (if buf.length ≥ nFree then (sint32 (buf.length - nFree + 1)).bind (s.resize memory) else some (s, true)).bind
    fun (s, resized) =>
  if resized then
    (s.place buf).bind fun buffer =>
    (sint32 (s.tail + buf.length)).map fun tail =>
    let s := { s with buffer := buffer, tail := tail.toNat % s.bufferLen }
    ({ s with outputLen := s.length }, buf.length)
  else some (s, 0)

end Write

/-- A loop of `flush`: send `nLeft` bytes from the head on, where an error returns `code`. -/
def sendLoop (code : Int) (s : OutputStream) (nLeft nFlushed : Nat) (sent : List UInt8) : List Answer → Option Sending
  | answers =>
    if nLeft = 0 then some ⟨s, answers, nFlushed, sent, none⟩
    else
      (s.buffer.read? s.head nLeft).bind fun offered =>
      match answers with
      | []                => some ⟨s, [], nFlushed, sent, some 0⟩
      | .wouldBlock :: as => some ⟨s, as, nFlushed, sent, some 0⟩
      | .error :: as      => some ⟨s, as, nFlushed, sent, some code⟩
      | .room n :: as     =>
        let nSent := min n nLeft
        if nSent = 0 then some ⟨s, as, nFlushed, sent, some 0⟩
        else sendLoop code { s with head := s.head + nSent } (nLeft - nSent) (nFlushed + nSent)
          (sent ++ offered.take nSent) as

/-- The end of `flush`, behind the loops. -/
def finish (r : Sending) : Sending :=
  match r.returned with
  | some _ => r
  | none   => { r with stream := { r.stream with head := 0, tail := 0, outputLen := 0 }, returned := some r.nFlushed }

/-- `flush`. After `answers` the kernel would block. -/
def flush (s : OutputStream) (answers : List Answer) : Option Sending :=
  if s.bufferLen > s.maxBufferLen then
    some { stream := { initsize s.bufferLen s.maxBufferLen with outputLen := s.outputLen, active := false }
           answers := answers
           returned := some (-2) }
  else if s.head < s.tail then (sendLoop (-3) s (s.tail - s.head) 0 [] answers).map finish
  else if s.head > s.tail then
    (sendLoop (-4) s (s.bufferLen - s.head) 0 [] answers).bind fun r =>
    match r.returned with
    | some _ => some r
    | none   => (sendLoop (-5) { r.stream with head := 0 } r.stream.tail r.nFlushed r.sent r.answers).map finish
  else some (finish ⟨s, answers, 0, [], none⟩)

/-! ## The ring -/

/-- The positions lie in the buffer, and no sum of a position and a length leaves `sint32`: a buffer is either small or
    not flushed. -/
structure Valid (s : OutputStream) : Prop where
  head : s.head < s.bufferLen
  tail : s.tail < s.bufferLen
  size : s.bufferLen < 2 ^ 31
  max : s.maxBufferLen ≤ 2 ^ 30
  anchored : s.bufferLen ≤ s.maxBufferLen ∨ s.head = 0

variable {s : OutputStream}

theorem length_of_le (h : s.head ≤ s.tail) : s.length = s.tail - s.head := ringLength_of_le h

theorem length_of_gt (h : s.head > s.tail) : s.length = s.bufferLen - s.head + s.tail := ringLength_of_gt h

theorem queued_length (hs : Valid s) : s.queued.length = s.length :=
  ring_length (Nat.le_of_lt hs.head) (Nat.le_of_lt hs.tail)

theorem length_lt (hs : Valid s) : s.length < s.bufferLen := ringLength_lt hs.head hs.tail

theorem sint32_eq {x : Int} (h : -2 ^ 31 ≤ x) (h' : x < 2 ^ 31) : sint32 x = some x := if_pos ⟨h, h'⟩

/-! ## `resize` -/

/-- `resize` enlarges a buffer of `n` cells by half of it at least. -/
theorem growth_eq (n size : Nat) :
    (if ((n / 2 : Nat) : Int) > (size : Int) then ((n / 2 : Nat) : Int) else size) =
      ((max (n / 2) size : Nat) : Int) := by
  split <;> omega

/-- **`resize`.** The queue is the same, in a larger buffer. -/
theorem resize_spec (hs : Valid s) (memory : (n : Nat) → Block UInt8 n) {size : Nat}
    (hsize : s.bufferLen + max (s.bufferLen / 2) size < 2 ^ 31) :
    ∃ s', s.resize memory size = some (s', true) ∧ Valid s' ∧ s'.queued = s.queued ∧ s'.length = s.length ∧
      s'.bufferLen = s.bufferLen + max (s.bufferLen / 2) size := by
  have hlen := length_lt hs
  have hqueued : s.queued.length = s.length := queued_length hs
  obtain ⟨b, hmove, hslice⟩ := moveRing?_spec hs.head hs.tail (memory (s.bufferLen + max (s.bufferLen / 2) size))
    (hqueued.trans_le (by omega))
  change b.slice 0 s.queued.length = s.queued at hslice
  rw [hqueued] at hslice
  refine ⟨{ s with bufferLen := _, buffer := b, head := 0, tail := s.length }, ?_, ?_, ?_, ?_, rfl⟩
  · simp only [resize, growth_eq, ← Int.natCast_add]
    rw [sint32_eq (by omega) (by omega), Option.bind_some, if_neg (by omega), if_neg (by omega)]
    simp only [Int.toNat_natCast, hmove, Option.map_some]
  · refine ⟨?_, ?_, hsize, hs.max, Or.inr rfl⟩
    · exact Nat.lt_of_lt_of_le (Nat.zero_lt_of_lt hlen) (Nat.le_add_right _ _)
    · exact Nat.lt_of_lt_of_le hlen (Nat.le_add_right _ _)
  · exact (ring_of_le (Nat.zero_le _)).trans hslice
  · exact length_of_le (Nat.zero_le _)

/-! ## `write` -/

/-- What the free part takes is put behind the queue, in one piece or around the end of the buffer. -/
theorem place_spec {buf : List UInt8} (hhead : s.head < s.bufferLen) (htail : s.tail < s.bufferLen)
    (hfree : s.length + buf.length + 1 < s.bufferLen) :
    ∃ b, s.place buf = some b ∧ b.ring s.head ((s.tail + buf.length) % s.bufferLen) = s.queued ++ buf := by
  by_cases hle : s.head ≤ s.tail
  · rw [length_of_le hle] at hfree
    by_cases hzero : s.head = 0
    · have hfit : s.tail + buf.length ≤ s.bufferLen := by omega
      refine ⟨s.buffer.write s.tail buf hfit, by rw [place, if_pos hle, if_pos hzero, write?_eq hfit], ?_⟩
      rw [Nat.mod_eq_of_lt (by omega), ring_write hle, queued]
    by_cases hend : buf.length ≤ s.bufferLen - s.tail
    · have hfit : s.tail + buf.length ≤ s.bufferLen := by omega
      refine ⟨s.buffer.write s.tail buf hfit, ?_, ?_⟩
      · simp only [place, if_pos hle, if_neg hzero, if_pos hend]
        exact write?_eq hfit
      · rcases Nat.eq_or_lt_of_le hfit with heq | hlt
        · rw [heq, Nat.mod_self, ring_write_end (by omega) hle hfit heq, queued]
        · rw [Nat.mod_eq_of_lt hlt, ring_write hle, queued]
    · -- the write goes around the end
      have htake : (buf.take (s.bufferLen - s.tail)).length = s.bufferLen - s.tail := by
        rw [List.length_take]
        omega
      have hdrop : (buf.drop (s.bufferLen - s.tail)).length = s.tail + buf.length - s.bufferLen := by
        rw [List.length_drop]
        omega
      have hfit : s.tail + (buf.take (s.bufferLen - s.tail)).length ≤ s.bufferLen := by omega
      have hfit' : 0 + (buf.drop (s.bufferLen - s.tail)).length ≤ s.bufferLen := by omega
      have hmod : (s.tail + buf.length) % s.bufferLen = (buf.drop (s.bufferLen - s.tail)).length := by
        rw [hdrop, Nat.mod_eq_sub_mod (by omega), Nat.mod_eq_of_lt (by omega)]
      refine ⟨(s.buffer.write s.tail _ hfit).write 0 _ hfit', ?_, ?_⟩
      · simp only [place, if_pos hle, if_neg hzero, if_neg hend]
        rw [write?_eq hfit, Option.bind_some, write?_eq hfit']
      · rw [hmod, ring_write_split hle hfit (by omega) hfit' (by omega), List.take_append_drop, queued]
  · rw [length_of_gt (by omega)] at hfree
    have hfit : s.tail + buf.length ≤ s.bufferLen := by omega
    refine ⟨s.buffer.write s.tail buf hfit, by rw [place, if_neg hle, write?_eq hfit], ?_⟩
    rw [Nat.mod_eq_of_lt (by omega), ring_write_behind (by omega) hfit (by omega), queued]

/-- The second half of `write`. -/
theorem put_spec (hs : Valid s) {buf : List UInt8} (hfree : s.length + buf.length + 1 < s.bufferLen)
    (hbuf : s.length + buf.length < 2 ^ 30) :
    ∃ s', ((s.place buf).bind fun buffer => (sint32 (s.tail + buf.length)).map fun tail =>
        let s := { s with buffer := buffer, tail := tail.toNat % s.bufferLen }
        ({ s with outputLen := s.length }, buf.length)) = some (s', buf.length) ∧
      Valid s' ∧ s'.queued = s.queued ++ buf := by
  have htail := hs.tail
  have hmax := hs.max
  obtain ⟨b, hplace, hring⟩ := place_spec hs.head hs.tail hfree
  have hsum : s.tail + buf.length < 2 ^ 31 := by
    rcases hs.anchored with hsmall | hzero
    · omega
    · rw [length_of_le (by omega), hzero] at hbuf
      omega
  rw [hplace, Option.bind_some, sint32_eq (by omega) (by omega), Option.map_some]
  have htoNat : ((s.tail : Int) + buf.length).toNat = s.tail + buf.length := by omega
  refine ⟨_, rfl, ⟨hs.head, Nat.mod_lt _ (by omega), hs.size, hs.max, hs.anchored⟩, ?_⟩
  show b.ring s.head (((s.tail : Int) + buf.length).toNat % s.bufferLen) = _
  rw [htoNat, hring]

/-- **`write`.** -/
theorem write_spec (hs : Valid s) (memory : (n : Nat) → Block UInt8 n) {buf : List UInt8}
    (hbuf : s.queued.length + buf.length < 2 ^ 30) :
    ∃ s', s.write memory buf = some (s', buf.length) ∧ Valid s' ∧ s'.queued = s.queued ++ buf := by
  have hhead := hs.head
  have htail := hs.tail
  have hsize := hs.size
  have hlen := length_lt hs
  rw [queued_length hs] at hbuf
  have hfree : (if s.head ≤ s.tail then (s.bufferLen : Int) - s.tail + s.head - 1 else s.head - s.tail - 1) =
      s.bufferLen - s.length - 1 := by
    by_cases hle : s.head ≤ s.tail
    · rw [if_pos hle, length_of_le hle]
      omega
    · rw [if_neg hle, length_of_gt (by omega)]
      omega
  simp only [write, hfree]
  by_cases hfull : (buf.length : Int) ≥ s.bufferLen - s.length - 1
  · -- the buffer was at most as large as what is in it afterwards, and one byte
    have hsmall : s.bufferLen ≤ s.length + buf.length + 1 := by omega
    obtain ⟨size, hneeded⟩ : ∃ size : Nat, (buf.length : Int) - (s.bufferLen - s.length - 1) + 1 = size :=
      ⟨s.length + buf.length + 2 - s.bufferLen, by omega⟩
    obtain ⟨s₁, hresize, hs₁, hqueued₁, hlen₁, hbufferLen⟩ := @resize_spec s hs memory size (by omega)
    rw [if_pos hfull, hneeded, sint32_eq (by omega) (by omega), Option.bind_some, hresize, Option.bind_some, if_pos rfl]
    rw [← hqueued₁]
    exact put_spec hs₁ (by omega) (by omega)
  · rw [if_neg hfull, Option.bind_some, if_pos rfl]
    exact put_spec hs (by omega) hbuf

/-! ## `flush` -/

/-- A loop of `flush` sent some of the `nLeft` bytes from the head on, in order, and it returned if there are more. -/
def Sends (s : OutputStream) (nLeft nFlushed : Nat) (sent : List UInt8) (r : Option Sending) : Prop :=
  ∃ k as returned, k ≤ nLeft ∧
    r = some ⟨{ s with head := s.head + k }, as, nFlushed + k, sent ++ s.buffer.slice s.head k, returned⟩ ∧
    (returned = none ↔ k = nLeft)

theorem sends_nothing {nLeft nFlushed : Nat} {sent : List UInt8} {r : Option Sending} {as : List Answer}
    {returned : Option Int} (hr : r = some ⟨s, as, nFlushed, sent, returned⟩) (h : returned = none ↔ nLeft = 0) :
    Sends s nLeft nFlushed sent r := by
  refine ⟨0, as, returned, Nat.zero_le _, ?_, h.trans eq_comm⟩
  rw [hr, slice_zero, List.append_nil]
  rfl

/-- The loops, answer by answer. -/
theorem sendLoop_sends (code : Int) {nLeft : Nat} (hleft : s.head + nLeft ≤ s.bufferLen) (nFlushed : Nat)
    (sent : List UInt8) (answers : List Answer) :
    Sends s nLeft nFlushed sent (sendLoop code s nLeft nFlushed sent answers) := by
  -- one answer of `send` for each turn; only room for at least one byte goes on
  induction answers generalizing s nLeft nFlushed sent with
  | nil =>
      by_cases hzero : nLeft = 0
      · exact sends_nothing (by rw [sendLoop, if_pos hzero]) (iff_of_true rfl hzero)
      · have hblock : sendLoop code s nLeft nFlushed sent [] = some ⟨s, [], nFlushed, sent, some 0⟩ := by
          rw [sendLoop, if_neg hzero, read?_eq hleft]
          rfl
        exact sends_nothing hblock (iff_of_false (Option.some_ne_none _) hzero)
  | cons answer answers ih =>
      by_cases hzero : nLeft = 0
      · exact sends_nothing (by rw [sendLoop, if_pos hzero]) (iff_of_true rfl hzero)
      cases answer with
      | wouldBlock =>
          have hblock : sendLoop code s nLeft nFlushed sent (.wouldBlock :: answers) =
              some ⟨s, answers, nFlushed, sent, some 0⟩ := by
            rw [sendLoop, if_neg hzero, read?_eq hleft]
            rfl
          exact sends_nothing hblock (iff_of_false (Option.some_ne_none _) hzero)
      | error =>
          have hfail : sendLoop code s nLeft nFlushed sent (.error :: answers) =
              some ⟨s, answers, nFlushed, sent, some code⟩ := by
            rw [sendLoop, if_neg hzero, read?_eq hleft]
            rfl
          exact sends_nothing hfail (iff_of_false (Option.some_ne_none _) hzero)
      | room n =>
          by_cases hn : min n nLeft = 0
          · have hnone : sendLoop code s nLeft nFlushed sent (.room n :: answers) =
                some ⟨s, answers, nFlushed, sent, some 0⟩ := by
              rw [sendLoop, if_neg hzero, read?_eq hleft, Option.bind_some]
              exact if_pos hn
            exact sends_nothing hnone (iff_of_false (Option.some_ne_none _) hzero)
          · have hle : min n nLeft ≤ nLeft := Nat.min_le_right _ _
            obtain ⟨k, as, returned, hk, hrest, hiff⟩ := @ih { s with head := s.head + min n nLeft }
              (nLeft - min n nLeft) (show s.head + min n nLeft + (nLeft - min n nLeft) ≤ s.bufferLen by omega)
              (nFlushed + min n nLeft) (sent ++ s.buffer.slice s.head (min n nLeft))
            refine ⟨min n nLeft + k, as, returned, by omega, ?_, by rw [hiff]; omega⟩
            rw [sendLoop, if_neg hzero, read?_eq hleft, Option.bind_some]
            dsimp only
            rw [if_neg hn, slice_take hle, hrest, slice_append, ← List.append_assoc]
            simp only [Nat.add_assoc]

/-- **`flush`.** What was sent is the front of the queue, and the rest stays there. -/
theorem flush_spec (hs : Valid s) (hmax : s.bufferLen ≤ s.maxBufferLen) (answers : List Answer) :
    ∃ r, s.flush answers = some r ∧ Valid r.stream ∧ r.sent ++ r.stream.queued = s.queued := by
  have hhead := hs.head
  have htail := hs.tail
  have hempty : ∀ {s' : OutputStream}, s'.bufferLen = s.bufferLen → s'.maxBufferLen = s.maxBufferLen →
      Valid { s' with head := 0, tail := 0, outputLen := 0 } := by
    intro s' hlen hmax'
    refine ⟨?_, ?_, ?_, ?_, Or.inr rfl⟩
    · exact (congrArg (0 < ·) hlen).mpr (Nat.zero_lt_of_lt hhead)
    · exact (congrArg (0 < ·) hlen).mpr (Nat.zero_lt_of_lt hhead)
    · exact (congrArg (· < 2 ^ 31) hlen).mpr hs.size
    · exact (congrArg (· ≤ 2 ^ 30) hmax').mpr hs.max
  rw [flush, if_neg (by omega)]
  rcases Nat.lt_trichotomy s.head s.tail with hlt | heq | hgt
  · obtain ⟨k, as, returned, hk, hloop, hiff⟩ :=
      @sendLoop_sends s (-3) (s.tail - s.head) (by omega) 0 [] answers
    rw [if_pos hlt, hloop, Option.map_some]
    cases returned with
    | none =>
        refine ⟨_, rfl, hempty rfl rfl, ?_⟩
        show ([] ++ s.buffer.slice s.head k) ++ s.buffer.ring 0 0 = s.buffer.ring s.head s.tail
        rw [ring_self, List.append_nil, List.nil_append, ring_of_le (by omega), hiff.mp rfl]
    | some code =>
        have hlt' : k ≠ s.tail - s.head := fun h => nomatch hiff.mpr h
        refine ⟨_, rfl, ⟨?_, htail, hs.size, hs.max, Or.inl hmax⟩, ?_⟩
        · show s.head + k < s.bufferLen
          omega
        · show ([] ++ s.buffer.slice s.head k) ++ s.buffer.ring (s.head + k) s.tail = s.buffer.ring s.head s.tail
          rw [List.nil_append, ← ring_drop_of_le (by omega)]
  · rw [if_neg (by omega), if_neg (by omega)]
    refine ⟨_, rfl, hempty rfl rfl, ?_⟩
    show [] ++ s.buffer.ring 0 0 = s.buffer.ring s.head s.tail
    rw [heq, ring_self, ring_self]
    rfl
  · obtain ⟨k, as, returned, hk, hloop, hiff⟩ :=
      @sendLoop_sends s (-4) (s.bufferLen - s.head) (by omega) 0 [] answers
    rw [if_neg (by omega), if_pos hgt, hloop, Option.bind_some]
    have hfirst : s.buffer.slice s.head k ++ s.buffer.ring (s.head + k) s.tail = s.buffer.ring s.head s.tail :=
      (ring_drop_of_lt hgt (by omega)).symm
    cases returned with
    | some code =>
        have hlt' : k ≠ s.bufferLen - s.head := fun h => nomatch hiff.mpr h
        refine ⟨_, rfl, ⟨?_, htail, hs.size, hs.max, Or.inl hmax⟩, ?_⟩
        · show s.head + k < s.bufferLen
          omega
        · exact hfirst
    | none =>
        -- the end of the buffer is reached, and the second part starts at its beginning
        have hturn : s.head + k = s.bufferLen := by
          have hk := hiff.mp rfl
          omega
        rw [hturn, ring_turn htail] at hfirst
        dsimp only
        obtain ⟨k', as', returned', hk', hloop', hiff'⟩ :=
          @sendLoop_sends { s with head := 0 } (-5) s.tail (show 0 + s.tail ≤ s.bufferLen by omega) (0 + k)
            ([] ++ s.buffer.slice s.head k) as
        rw [hloop', Option.map_some]
        cases returned' with
        | none =>
            refine ⟨_, rfl, hempty rfl rfl, ?_⟩
            show (([] ++ s.buffer.slice s.head k) ++ s.buffer.slice 0 k') ++ s.buffer.ring 0 0 =
              s.buffer.ring s.head s.tail
            rw [ring_self, List.append_nil, List.nil_append, ← hfirst, ring_of_le (Nat.zero_le _), hiff'.mp rfl,
              Nat.sub_zero]
        | some code =>
            refine ⟨_, rfl, ⟨?_, htail, hs.size, hs.max, Or.inl hmax⟩, ?_⟩
            · show 0 + k' < s.bufferLen
              omega
            · show (([] ++ s.buffer.slice s.head k) ++ s.buffer.slice 0 k') ++ s.buffer.ring (0 + k') s.tail = _
              rw [List.nil_append, List.append_assoc, ← ring_drop_of_le (by omega), hfirst]
              rfl

end OutputStream

/-! ## Every run -/

/-- A stream, with all that was written into it and all that the kernel took. -/
structure Channel where
  stream : OutputStream
  written : List UInt8 := []
  sent : List UInt8 := []

inductive ChannelLabel
  | write (buf : List UInt8)
  | flush (answers : List Answer)

namespace Channel

def init (bufferLen maxBufferLen : Nat) : Channel := { stream := .initsize bufferLen maxBufferLen }

def step (memory : (n : Nat) → Block UInt8 n) (s : Channel) : ChannelLabel → Option Channel
  | .write buf     => (s.stream.write memory buf).map fun (stream, _) =>
    { s with stream := stream, written := s.written ++ buf }
  | .flush answers => (s.stream.flush answers).map fun r => { s with stream := r.stream, sent := s.sent ++ r.sent }

/-- A write that keeps fewer than `2 ^ 30` bytes queued, or a flush that does not reset the stream. -/
def Allowed (s : Channel) : ChannelLabel → Prop
  | .write buf => s.stream.queued.length + buf.length < 2 ^ 30
  | .flush _   => s.stream.bufferLen ≤ s.stream.maxBufferLen

instance (s : Channel) : ∀ label, Decidable (s.Allowed label)
  | .write buf => inferInstanceAs (Decidable (s.stream.queued.length + buf.length < 2 ^ 30))
  | .flush _   => inferInstanceAs (Decidable (s.stream.bufferLen ≤ s.stream.maxBufferLen))

/-- The stream is sound, and what it was given is what was sent and what it has. -/
structure Fifo (s : Channel) : Prop where
  valid : s.stream.Valid
  order : s.sent ++ s.stream.queued = s.written

variable {memory : (n : Nat) → Block UInt8 n} {s : Channel}

theorem step_fifo (hs : Fifo s) {label : ChannelLabel} (h : s.Allowed label) :
    ∃ s', step memory s label = some s' ∧ Fifo s' := by
  cases label with
  | write buf =>
      obtain ⟨stream, hwrite, hvalid, hqueued⟩ := OutputStream.write_spec hs.valid memory h
      refine ⟨_, by rw [step, hwrite, Option.map_some], hvalid, ?_⟩
      show s.sent ++ stream.queued = s.written ++ buf
      rw [hqueued, ← List.append_assoc, hs.order]
  | flush answers =>
      obtain ⟨r, hflush, hvalid, horder⟩ := OutputStream.flush_spec hs.valid h answers
      refine ⟨_, by rw [step, hflush, Option.map_some], hvalid, ?_⟩
      show (s.sent ++ r.sent) ++ r.stream.queued = s.written
      rw [List.append_assoc, horder, hs.order]

/-- **The output stream is a queue.** Over any run that keeps fewer than `2 ^ 30` bytes queued and does not reset the
    stream, nothing outside the buffer is touched, the positions stay in it, and what the kernel took, with what is
    queued behind it, is what was written. -/
theorem fifo (memory : (n : Nat) → Block UInt8 n) {bufferLen maxBufferLen : Nat} (hpos : 0 < bufferLen)
    (hsize : bufferLen < 2 ^ 31) (hmax : maxBufferLen ≤ 2 ^ 30) {labels : List ChannelLabel}
    (h : Along (step memory) Allowed (init bufferLen maxBufferLen) labels) :
    ∃ s, run (step memory) (init bufferLen maxBufferLen) labels = some s ∧
      s.sent ++ s.stream.queued = s.written ∧ s.stream.head < s.stream.bufferLen ∧
      s.stream.tail < s.stream.bufferLen := by
  have hinit : Fifo (init bufferLen maxBufferLen) :=
    ⟨⟨hpos, hpos, hsize, hmax, Or.inr rfl⟩, ring_self (Block.fill bufferLen 0) 0⟩
  obtain ⟨s, hrun, hs⟩ := runs_along (fun hs hP => step_fifo hs hP) hinit h
  exact ⟨s, hrun, hs.order, hs.valid.head, hs.valid.tail⟩

/-- A run that sends a part, writes around the end, and sends again until it would block. -/
theorem fifo_around : ∃ s, run (step fun n => Block.fill n 0) (init 8 64)
      [.write [1, 2, 3, 4, 5], .flush [.room 4], .write [6, 7, 8, 9, 10], .flush [.room 3, .wouldBlock]] = some s ∧
    s.sent ++ s.stream.queued = s.written ∧ s.stream.head < s.stream.bufferLen ∧
    s.stream.tail < s.stream.bufferLen :=
  fifo _ (by decide) (by decide) (by decide) (by decide +kernel)

end Channel

/-! ## The published length -/

/-- The operations that move the positions of the stream. -/
inductive PublishLabel
  | write (buf : List UInt8)
  | flush (answers : List Answer)
  | cleanUp
  | initsize (bufferLen maxBufferLen : Nat)

namespace OutputStream

/-- `clean_up`. -/
def cleanUp (s : OutputStream) : OutputStream := { s with head := 0, tail := 0 }

/-- `initsize` of a stream that is in use, which leaves `m_output_len` as it is. -/
def reinit (s : OutputStream) (bufferLen maxBufferLen : Nat) : OutputStream :=
  { initsize bufferLen maxBufferLen with outputLen := s.outputLen, active := s.active }

def publish (memory : (n : Nat) → Block UInt8 n) (s : OutputStream) : PublishLabel → Option OutputStream
  | .write buf                       => (s.write memory buf).map (·.1)
  | .flush answers                   => (s.flush answers).map (·.stream)
  | .cleanUp                         => some s.cleanUp
  | .initsize bufferLen maxBufferLen => some (s.reinit bufferLen maxBufferLen)

/-- The positions do not lie behind the end of the buffer. -/
structure InBounds (s : OutputStream) : Prop where
  head : s.head ≤ s.bufferLen
  tail : s.tail ≤ s.bufferLen

/-- What `length()` returns is the number of the bytes between head and tail. -/
def Current (s : OutputStream) : Prop := s.outputLen = s.queued.length

/-- What is left of the answers when the kernel has taken `nLeft` bytes, if it takes so many. -/
def takesAll (nLeft : Nat) : List Answer → Option (List Answer)
  | answers =>
    if nLeft = 0 then some answers
    else
      match answers with
      | .room n :: as => if min n nLeft = 0 then none else takesAll (nLeft - min n nLeft) as
      | _             => none

/-- The kernel takes no byte at first. -/
def TakesNone : List Answer → Prop
  | .room n :: _ => n = 0
  | _            => True

instance : DecidablePred TakesNone
  | []               => isTrue trivial
  | .room n :: _     => inferInstanceAs (Decidable (n = 0))
  | .wouldBlock :: _ => isTrue trivial
  | .error :: _      => isTrue trivial

/-- The parts in which `flush` offers the queue: up to the end of the buffer, and from its start. -/
def parts (s : OutputStream) : Nat × Nat :=
  if s.head < s.tail then (s.tail - s.head, 0)
  else if s.head > s.tail then (s.bufferLen - s.head, s.tail)
  else (0, 0)

/-- A step that keeps the published length: any `write`; a `flush` of which the kernel takes all that is queued or
    nothing, in a buffer that is not too large; and, when nothing is queued, a reset of the stream. -/
def Publishes (s : OutputStream) : PublishLabel → Prop
  | .write _       => True
  | .flush answers => s.queued = [] ∨ s.bufferLen ≤ s.maxBufferLen ∧
      (TakesNone answers ∨ ((takesAll s.parts.1 answers).bind (takesAll s.parts.2)).isSome)
  | .cleanUp       => s.queued = []
  | .initsize _ _  => s.queued = []

instance (s : OutputStream) : DecidablePred s.Publishes
  | .write _       => isTrue trivial
  | .flush answers => inferInstanceAs (Decidable (s.queued = [] ∨ s.bufferLen ≤ s.maxBufferLen ∧
      (TakesNone answers ∨ ((takesAll s.parts.1 answers).bind (takesAll s.parts.2)).isSome)))
  | .cleanUp       => inferInstanceAs (Decidable (s.queued = []))
  | .initsize _ _  => inferInstanceAs (Decidable (s.queued = []))

variable {memory : (n : Nat) → Block UInt8 n} {s s' : OutputStream}

theorem inBounds_length (hs : InBounds s) : s.queued.length = s.length := ring_length hs.head hs.tail

theorem current_iff_length (hs : InBounds s) : Current s ↔ s.outputLen = s.length := by
  rw [Current, inBounds_length hs]

theorem queued_eq_nil_iff (hs : InBounds s) : s.queued = [] ↔ s.length = 0 := by
  rw [← inBounds_length hs, List.length_eq_zero_iff]

theorem eq_of_sint32 {x y : Int} (h : sint32 x = some y) : y = x := by
  unfold sint32 at h
  split at h
  · exact (Option.some.inj h).symm
  · cases h

/-- A `resize` by a positive size moves the queue to the start of a larger buffer. -/
theorem resize_some {size : Int} (hpos : 0 < size) {resized : Bool}
    (h : s.resize memory size = some (s', resized)) :
    resized = true ∧ s'.head = 0 ∧ s'.tail = s.length ∧ s.bufferLen < s'.bufferLen := by
  unfold resize at h
  obtain ⟨newBufferLen, hsum, h⟩ := Option.bind_eq_some_iff.mp h
  have hsum := eq_of_sint32 hsum
  have hsize : 0 < if ((s.bufferLen / 2 : Nat) : Int) > size then ((s.bufferLen / 2 : Nat) : Int) else size := by
    split <;> omega
  rw [if_neg (by omega), if_neg (by omega)] at h
  obtain ⟨_, _, h⟩ := Option.map_eq_some_iff.mp h
  cases h
  refine ⟨rfl, rfl, rfl, ?_⟩
  show s.bufferLen < newBufferLen.toNat
  omega

/-- `write` leaves with the published length, and the positions in the buffer. -/
theorem write_publishes (hs : InBounds s) {buf : List UInt8} {n : Nat} (h : s.write memory buf = some (s', n)) :
    InBounds s' ∧ s'.outputLen = s'.length := by
  have hhead := hs.head
  have htail := hs.tail
  unfold write at h
  obtain ⟨⟨s₁, resized⟩, hroom, h⟩ := Option.bind_eq_some_iff.mp h
  have hs₁ : resized = true ∧ s₁.head ≤ s₁.bufferLen ∧ 0 < s₁.bufferLen := by
    by_cases hfull : (buf.length : Int) ≥ if s.head ≤ s.tail then (s.bufferLen : Int) - s.tail + s.head - 1
        else s.head - s.tail - 1
    · rw [if_pos hfull] at hroom
      obtain ⟨size, hsize, hresize⟩ := Option.bind_eq_some_iff.mp hroom
      have hsize := eq_of_sint32 hsize
      obtain ⟨htrue, hhead₁, htail₁, hlarger⟩ := resize_some (by omega) hresize
      exact ⟨htrue, by omega, by omega⟩
    · rw [if_neg hfull] at hroom
      cases hroom
      refine ⟨rfl, hhead, ?_⟩
      split at hfull <;> omega
  obtain ⟨rfl, hhead₁, hpos⟩ := hs₁
  dsimp only at h
  rw [if_pos rfl] at h
  obtain ⟨buffer, _, h⟩ := Option.bind_eq_some_iff.mp h
  obtain ⟨tail, _, h⟩ := Option.map_eq_some_iff.mp h
  cases h
  exact ⟨⟨hhead₁, Nat.le_of_lt (Nat.mod_lt _ hpos)⟩, rfl⟩

/-! ### What `flush` takes -/

theorem takesAll_zero (answers : List Answer) : takesAll 0 answers = some answers := by
  unfold takesAll
  exact if_pos rfl

/-- A loop returns nothing exactly when the kernel takes all, and then the answers behind are left. -/
theorem sendLoop_takesAll (code : Int) {nLeft nFlushed : Nat} {sent : List UInt8} {answers : List Answer} {r : Sending}
    (h : sendLoop code s nLeft nFlushed sent answers = some r) :
    takesAll nLeft answers = if r.returned = none then some r.answers else none := by
  induction answers generalizing s nLeft nFlushed sent with
  | nil =>
      unfold takesAll
      rw [sendLoop] at h
      split at h
      next hzero =>
          cases h
          rw [if_pos hzero, if_pos rfl]
      next hleft =>
          obtain ⟨_, _, h⟩ := Option.bind_eq_some_iff.mp h
          cases h
          rw [if_neg hleft, if_neg (Option.some_ne_none _)]
  | cons answer answers ih =>
      unfold takesAll
      rw [sendLoop] at h
      split at h
      next hzero =>
          cases h
          rw [if_pos hzero, if_pos rfl]
      next hleft =>
          rw [if_neg hleft]
          obtain ⟨_, _, h⟩ := Option.bind_eq_some_iff.mp h
          cases answer with
          | wouldBlock | error =>
              cases h
              rw [if_neg (Option.some_ne_none _)]
          | room n =>
              dsimp only at h ⊢
              split at h
              next hnone =>
                  cases h
                  rw [if_pos hnone, if_neg (Option.some_ne_none _)]
              next hsome =>
                  rw [if_neg hsome]
                  exact ih h

/-- The bytes that a loop sends are none exactly when the kernel takes none at first. -/
theorem sendLoop_takesNone (code : Int) {nLeft k : Nat} (hleft : s.head + nLeft ≤ s.bufferLen) (hpos : 0 < nLeft)
    {nFlushed : Nat} {sent : List UInt8} {answers : List Answer} {r : Sending}
    (h : sendLoop code s nLeft nFlushed sent answers = some r) (hk : r.stream.head = s.head + k) :
    k = 0 ↔ TakesNone answers := by
  cases answers with
  | nil =>
      rw [sendLoop, if_neg (by omega), read?_eq hleft] at h
      cases h
      exact iff_of_true (Nat.left_eq_add.mp hk) trivial
  | cons answer answers =>
      rw [sendLoop, if_neg (by omega), read?_eq hleft, Option.bind_some] at h
      cases answer with
      | wouldBlock | error =>
          cases h
          exact iff_of_true (Nat.left_eq_add.mp hk) trivial
      | room n =>
          dsimp only at h
          show _ ↔ n = 0
          split at h
          next hnone =>
              cases h
              have hzero : k = 0 := Nat.left_eq_add.mp hk
              omega
          next hsome =>
              obtain ⟨k', _, _, hk', hrest, _⟩ := @sendLoop_sends { s with head := s.head + min n nLeft } code
                (nLeft - min n nLeft) (show s.head + min n nLeft + (nLeft - min n nLeft) ≤ s.bufferLen by omega)
                (nFlushed + min n nLeft) _ answers
              rw [hrest] at h
              cases h
              have hmoved : s.head + min n nLeft + k' = s.head + k := hk
              omega

/-- **What `flush` publishes.** If the kernel takes the queue the published length is right; otherwise it stays, while
    the queue loses what was sent. -/
theorem flush_publishes (hs : InBounds s) (hmax : s.bufferLen ≤ s.maxBufferLen) (answers : List Answer) :
    ∃ r, s.flush answers = some r ∧ InBounds r.stream ∧
      ((((takesAll s.parts.1 answers).bind (takesAll s.parts.2)).isSome ∧ r.stream.outputLen = r.stream.length) ∨
        ∃ k, (takesAll s.parts.1 answers).bind (takesAll s.parts.2) = none ∧ 0 < s.length ∧
          r.stream.outputLen = s.outputLen ∧ r.stream.length + k = s.length ∧ (k = 0 ↔ TakesNone answers)) := by
  have hhead := hs.head
  have htail := hs.tail
  rw [flush, if_neg (by omega)]
  rcases Nat.lt_trichotomy s.head s.tail with hlt | heq | hgt
  · obtain ⟨k, as, returned, hk, hloop, hiff⟩ :=
      @sendLoop_sends s (-3) (s.tail - s.head) (by omega) 0 [] answers
    have htakes := sendLoop_takesAll _ hloop
    have hnone := sendLoop_takesNone _ (by omega) (by omega) hloop rfl
    have hparts : s.parts = (s.tail - s.head, 0) := if_pos hlt
    rw [if_pos hlt, hloop, Option.map_some, hparts, htakes, length_of_le (Nat.le_of_lt hlt)]
    refine ⟨_, rfl, ?_⟩
    cases returned with
    | none => exact ⟨⟨Nat.zero_le _, Nat.zero_le _⟩, Or.inl ⟨congrArg Option.isSome (takesAll_zero as), rfl⟩⟩
    | some code =>
        have hpart : k ≠ s.tail - s.head := fun h => absurd (hiff.mpr h) (Option.some_ne_none _)
        have hlen : length { s with head := s.head + k } = s.tail - (s.head + k) :=
          length_of_le (show s.head + k ≤ s.tail by omega)
        refine ⟨⟨show s.head + k ≤ s.bufferLen by omega, htail⟩, Or.inr ⟨k, rfl, by omega, rfl, ?_, hnone⟩⟩
        show length { s with head := s.head + k } + k = s.tail - s.head
        omega
  · have hparts : s.parts = (0, 0) := (if_neg (by omega)).trans (if_neg (by omega))
    rw [if_neg (by omega), if_neg (by omega), hparts, takesAll_zero, Option.bind_some, takesAll_zero]
    exact ⟨_, rfl, ⟨Nat.zero_le _, Nat.zero_le _⟩, Or.inl ⟨rfl, rfl⟩⟩
  · obtain ⟨k, as, returned, hk, hloop, hiff⟩ :=
      @sendLoop_sends s (-4) (s.bufferLen - s.head) (by omega) 0 [] answers
    have htakes := sendLoop_takesAll _ hloop
    have hparts : s.parts = (s.bufferLen - s.head, s.tail) := (if_neg (by omega)).trans (if_pos hgt)
    have hlength := length_of_gt hgt
    rw [if_neg (by omega), if_pos hgt, hloop, Option.bind_some, hparts, htakes]
    cases returned with
    | some code =>
        have hpart : k ≠ s.bufferLen - s.head := fun h => absurd (hiff.mpr h) (Option.some_ne_none _)
        have hnone := sendLoop_takesNone _ (by omega) (by omega) hloop rfl
        have hlen : length { s with head := s.head + k } = s.bufferLen - (s.head + k) + s.tail :=
          length_of_gt (show s.head + k > s.tail by omega)
        refine ⟨_, rfl, ⟨show s.head + k ≤ s.bufferLen by omega, htail⟩, Or.inr ⟨k, rfl, by omega, rfl, ?_, hnone⟩⟩
        show length { s with head := s.head + k } + k = s.length
        omega
    | none =>
        have hall := hiff.mp rfl
        -- the end of the buffer is reached, and the second part starts at its beginning
        obtain ⟨k', as', returned', hk', hloop', hiff'⟩ :=
          @sendLoop_sends { s with head := 0 } (-5) s.tail (show 0 + s.tail ≤ s.bufferLen by omega) (0 + k)
            ([] ++ s.buffer.slice s.head k) as
        have htakes' := sendLoop_takesAll _ hloop'
        dsimp only
        rw [hloop', Option.map_some, if_pos rfl, Option.bind_some, htakes']
        refine ⟨_, rfl, ?_⟩
        cases returned' with
        | none => exact ⟨⟨Nat.zero_le _, Nat.zero_le _⟩, Or.inl ⟨rfl, rfl⟩⟩
        | some code =>
            have hpart : k' ≠ s.tail := fun h => absurd (hiff'.mpr h) (Option.some_ne_none _)
            have hlen : length { s with head := 0 + k' } = s.tail - (0 + k') :=
              length_of_le (show 0 + k' ≤ s.tail by omega)
            refine ⟨⟨show 0 + k' ≤ s.bufferLen by omega, htail⟩, Or.inr ⟨k + k', rfl, by omega, rfl, ?_, ?_⟩⟩
            · show length { s with head := 0 + k' } + (k + k') = s.length
              omega
            · by_cases hend : s.bufferLen - s.head = 0
              · -- nothing was offered in the first part
                have hanswers : as = answers := by
                  rw [hend, takesAll_zero, if_pos rfl] at htakes
                  exact (Option.some.inj htakes).symm
                have hnone := @sendLoop_takesNone { s with head := 0 } (-5) s.tail k'
                  (show 0 + s.tail ≤ s.bufferLen by omega) (by omega) _ _ _ _ hloop' rfl
                rw [← hanswers, ← hnone]
                omega
              · have hnone := sendLoop_takesNone (-4) (by omega) (by omega) hloop rfl
                rw [← hnone]
                omega

/-! ### Every state -/

/-- A step keeps the positions in the buffer, and keeps the published length right exactly when it meets the condition.
    -/
theorem publish_step (hs : InBounds s) {label : PublishLabel} (h : publish memory s label = some s') :
    InBounds s' ∧ (Current s → (Current s' ↔ Publishes s label)) := by
  -- a reset goes on publishing the length that the queue had
  have hreset : ∀ {s' : OutputStream}, s'.head = 0 → s'.tail = 0 → s'.outputLen = s.outputLen →
      InBounds s' ∧ (Current s → (Current s' ↔ s.queued = [])) := by
    intro s' hhead' htail' houtput
    have hs' : InBounds s' := ⟨by omega, by omega⟩
    refine ⟨hs', fun hcurrent => ?_⟩
    have hlength : s.outputLen = s.length := (current_iff_length hs).mp hcurrent
    rw [current_iff_length hs', queued_eq_nil_iff hs, houtput, hlength,
      length_of_le (show s'.head ≤ s'.tail by omega)]
    omega
  cases label with
  | write buf =>
      obtain ⟨⟨s₁, n⟩, hwrite, h⟩ := Option.map_eq_some_iff.mp h
      cases h
      obtain ⟨hs₁, hcurrent₁⟩ := write_publishes hs hwrite
      exact ⟨hs₁, fun _ => iff_of_true ((current_iff_length hs₁).mpr hcurrent₁) trivial⟩
  | cleanUp =>
      cases h
      exact hreset rfl rfl rfl
  | initsize bufferLen maxBufferLen =>
      cases h
      exact hreset rfl rfl rfl
  | flush answers =>
      obtain ⟨r, hflush, rfl⟩ := Option.map_eq_some_iff.mp h
      by_cases hmax : s.bufferLen ≤ s.maxBufferLen
      · obtain ⟨r', hflush', hr, hcase⟩ := flush_publishes hs hmax answers
        rw [hflush'] at hflush
        cases hflush
        refine ⟨hr, fun hcurrent => ?_⟩
        have hlength : s.outputLen = s.length := (current_iff_length hs).mp hcurrent
        rw [current_iff_length hr, Publishes, queued_eq_nil_iff hs]
        rcases hcase with ⟨hall, hcurrent'⟩ | ⟨k, hpart, hpos, houtput, hk, hnone⟩
        · exact iff_of_true hcurrent' (Or.inr ⟨hmax, Or.inr hall⟩)
        · rw [hpart, ← hnone, houtput]
          simp only [Option.isSome_none, Bool.false_eq_true, or_false, hmax, true_and]
          omega
      · rw [flush, if_pos (by omega)] at hflush
        cases hflush
        obtain ⟨hr, hiff⟩ :=
          @hreset { initsize s.bufferLen s.maxBufferLen with outputLen := s.outputLen, active := false } rfl rfl rfl
        refine ⟨hr, fun hcurrent => (hiff hcurrent).trans ?_⟩
        rw [Publishes]
        simp only [hmax, false_and, or_false]

/-- **When the published length is current.** In every state of a run, what `length()` returns is the number of the
    bytes between head and tail if and only if each `flush` with bytes in the queue has them all taken by the kernel or
    none of them, and finds the buffer within its maximum, and `clean_up` and `initsize` find no byte in the queue. -/
theorem current_iff {bufferLen maxBufferLen : Nat} {labels : List PublishLabel}
    (hrun : run (publish memory) (initsize bufferLen maxBufferLen) labels = some s') :
    (∀ pre, pre <+: labels → ∀ s, run (publish memory) (initsize bufferLen maxBufferLen) pre = some s → Current s) ↔
      Along (publish memory) Publishes (initsize bufferLen maxBufferLen) labels := by
  have hinit : InBounds (initsize bufferLen maxBufferLen) := ⟨Nat.zero_le _, Nat.zero_le _⟩
  have hcurrent : Current (initsize bufferLen maxBufferLen) := (current_iff_length hinit).mpr rfl
  exact good_iff_along (fun hs h => (publish_step hs h).1) (fun hs hcurrent h => (publish_step hs h).2 hcurrent) hinit
    hcurrent hrun

/-- A run in which each `flush` has everything taken. -/
def takenRun : List PublishLabel :=
  [.write [1, 2, 3, 4, 5], .flush [.room 2, .room 3], .write [6, 7], .flush [.wouldBlock], .flush [.room 9]]

theorem current_iff_taken : (∃ s', run (publish fun n => Block.fill n 0) (initsize 8 64) takenRun = some s') ∧
    ∀ pre, pre <+: takenRun →
      ∀ s, run (publish fun n => Block.fill n 0) (initsize 8 64) pre = some s → Current s := by
  have hrun : (run (publish fun n => Block.fill n 0) (initsize 8 64) takenRun).isSome := by decide +kernel
  obtain ⟨s', hrun⟩ := Option.isSome_iff_exists.mp hrun
  exact ⟨⟨s', hrun⟩, (current_iff hrun).mpr (by decide +kernel)⟩

/-- Five bytes are written, the kernel takes two of them and then would block; or `clean_up` drops them. -/
theorem length_not_current :
    (run (publish fun n => Block.fill n 0) (initsize 8 64) [.write [1, 2, 3, 4, 5], .flush [.room 2, .wouldBlock]]).map
        (fun s => (s.outputLen, s.queued.length)) = some (5, 3) ∧
      (run (publish fun n => Block.fill n 0) (initsize 8 64) [.write [1, 2, 3, 4, 5], .cleanUp]).map
        (fun s => (s.outputLen, s.queued.length)) = some (5, 0) := by
  decide +kernel

end OutputStream

end Mowang
