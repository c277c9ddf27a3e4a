import Mowang.Share.SocketOutputStream

/-!
# `Share.SocketInputStream` — the queue of bytes that a socket has received

The stream is a ring buffer: `fill` receives behind `m_tail`, `read` takes bytes out at `m_head`. A `fill` that leaves
no room asks the kernel how much more there is, and moves the queue to a larger ring. What the kernel answers to `recv`
and `available` is a label of the run.

`none` is an access outside the buffer, or a sum outside `sint32`. `memory` is what `new` finds in the memory it
returns.

## Contents
- `InputStream`, `read`, `peek`, `Filling`, `fillStream`, `checkStreamAvailable`, `fill`.
- `Valid`, `read_spec`, `resize_spec`, `Progress`, `checkStreamAvailable_spec`, `fill_spec`.
- `Inflow.received_in_order` — the bytes read and those in the queue are the bytes received.
-/

namespace Mowang

open Block

/-- `socket_input_stream`, with the active flag of its socket. -/
structure InputStream where
  bufferLen : Nat
  buffer : Block UInt8 bufferLen
  maxBufferLen : Nat
  head : Nat := 0
  tail : Nat := 0
  inputLen : Nat := 0
  active : Bool := true

/-- What the kernel answers to `recv`: `SOCKET_ERROR_WOULDBLOCK`, `SOCKET_ERROR`, or the bytes that have arrived, of
    which it hands over what there is room for. No byte at all is the end of the stream. -/
inductive Received
  | wouldBlock
  | error
  | bytes (data : List UInt8)

/-- A call of `recv`: the room that it offers at the tail, and where the queue was. -/
structure Offer where
  bufferLen : Nat
  head : Nat
  tail : Nat
  room : Nat

/-- A call of `fill`: the answers that are left, `nFilled`, the bytes received so far, and the calls of `recv`. -/
structure Filling where
  stream : InputStream
  answers : List Received
  nFilled : Nat := 0
  received : List UInt8 := []
  offers : List Offer := []

namespace InputStream

/-- `initsize`. -/
def initsize (bufferLen maxBufferLen : Nat) : InputStream :=
  { bufferLen := bufferLen, buffer := Block.fill bufferLen 0, maxBufferLen := maxBufferLen }

/-- `_length`. -/
def length (s : InputStream) : Nat :=
  if s.head < s.tail then s.tail - s.head
  else if s.head > s.tail then s.bufferLen - s.head + s.tail
  else 0

/-- The bytes that wait to be read. -/
def queued (s : InputStream) : List UInt8 := s.buffer.ring s.head s.tail

/-- The part of `read` and `peek` that copies. -/
def copyOut (s : InputStream) (len : Nat) : Option (List UInt8) :=
  if s.head < s.tail then s.buffer.read? s.head len
  else
    let rightLen := s.bufferLen - s.head
    if len ≤ rightLen then s.buffer.read? s.head len
    else
      (s.buffer.read? s.head rightLen).bind fun right =>
      (s.buffer.read? 0 (len - rightLen)).map fun left => right ++ left

/-- `read`, with what it returns and the bytes that it copies to `buf`. -/
def read (s : InputStream) (len : Nat) : Option (InputStream × Nat × List UInt8) :=
  if len = 0 then some (s, 0, [])
  else if len > s.length then some (s, 0, [])
  else
    (s.copyOut len).bind fun buf =>
    (sint32 (s.head + len)).map fun head =>
    let s := { s with head := head.toNat % s.bufferLen }
    ({ s with inputLen := s.length }, len, buf)

/-- `peek`, with what it returns and the bytes that it copies to `buf`. -/
def peek (s : InputStream) (len : Nat) : Option (Bool × List UInt8) :=
  if len = 0 then some (false, [])
  else if len > s.length then some (false, [])
  else (s.copyOut len).map fun buf => (true, buf)

/-- `resize`. -/
def resize (memory : (n : Nat) → Block UInt8 n) (s : InputStream) (size : Int) : Option (InputStream × Bool) :=
  let len : Int := (s.bufferLen / 2 : Nat)
  let size := if len > size then len else size
  (sint32 (s.bufferLen + size)).bind fun newBufferLen =>
  if size < 0 ∧ (newBufferLen < 0 ∨ newBufferLen < s.length) then some (s, false)
  else if newBufferLen < 0 then none
  else
    (s.buffer.moveRing? s.head s.tail (memory newBufferLen.toNat)).map fun newBuffer =>
    ({ s with bufferLen := newBufferLen.toNat, buffer := newBuffer, head := 0, tail := s.length }, true)

end InputStream

namespace Filling

open InputStream

/-- `fill_stream`, and what it returns. After the answers the kernel would block. -/
def fillStream (f : Filling) (available errorSequenceId : Nat) : Option (Filling × Int) :=
  let s := { f.stream with inputLen := f.stream.length }
  let offers := f.offers ++ [⟨s.bufferLen, s.head, s.tail, available⟩]
  match f.answers with
  | []                => some ({ f with stream := s, offers := offers }, 0)
  | .wouldBlock :: as => some ({ f with stream := s, offers := offers, answers := as }, 0)
  | .error :: as      => some ({ f with stream := s, offers := offers, answers := as }, -1 - errorSequenceId)
  | .bytes data :: as =>
    let data := data.take available
    if data.length = 0 then
      some ({ f with stream := s, offers := offers, answers := as }, -1 - errorSequenceId - 1)
    else
      (s.buffer.write? s.tail data).map fun buffer =>
      ({ stream := { s with buffer := buffer }
         answers := as
         nFilled := f.nFilled + data.length
         received := f.received ++ data
         offers := offers }, data.length)

/-- `m_tail` is set. -/
def setTail (f : Filling) (tail : Nat) : Filling := { f with stream := { f.stream with tail := tail } }

section Available

variable (memory : (n : Nat) → Block UInt8 n) (available : Int)

/-- `check_stream_available`, and what it returns. `nFilled` is passed to it by value. -/
def checkStreamAvailable (f : Filling) (errorSequenceId : Nat) : Option (Filling × Int) :=
  let s := { f.stream with inputLen := f.stream.length }
  if available > 0 then
    (sint32 (s.bufferLen + available + 1)).bind fun needed =>
    if needed > s.maxBufferLen then
      -- the over-maximum reset leaves `m_input_len` as it is
      some ({ f with stream := { initsize s.bufferLen s.maxBufferLen with inputLen := s.inputLen, active := false } },
        -1 - errorSequenceId)
    else
      (s.resize memory (available + 1)).bind fun (s, resized) =>
      if resized then
        (fillStream { f with stream := s } available.toNat (errorSequenceId + 1)).map fun (g, receiveLen) =>
        let g := { g with nFilled := f.nFilled }
        if receiveLen < 1 then (g, receiveLen) else (g.setTail (g.stream.tail + receiveLen.toNat), 1)
      else some ({ f with stream := s }, 0)
  else some ({ f with stream := s }, 1)

/-- The end of `fill`. -/
def finish (f : Filling) : Filling × Int :=
  ({ f with stream := { f.stream with inputLen := f.stream.length } }, f.nFilled)

/-- The last part of each layout of `fill`: receive into the `nFree` bytes that are left at the tail, if any, and when
    they are full look for more. -/
def fillLast (f : Filling) (nFree receiveId availableId : Nat) : Option (Filling × Int) :=
  (if nFree ≠ 0 then f.fillStream nFree receiveId else some (f, 0)).bind fun (f, nReceived) =>
  if nFree ≠ 0 ∧ nReceived < 1 then some (f, nReceived)
  else
    let f := f.setTail (f.stream.tail + nReceived.toNat)
    if nReceived = nFree then
      (f.checkStreamAvailable memory available availableId).map fun (f, ret) =>
      if ret < 1 then (f, ret) else f.finish
    else some f.finish

/-- `fill`, and what it returns. -/
def fill (s : InputStream) (answers : List Received) : Option (Filling × Int) :=
  let f : Filling := { stream := s, answers := answers }
  if s.head ≤ s.tail then
    if s.head = 0 then f.fillLast memory available (s.bufferLen - s.tail - 1) 1 3
    else
      let nFree := s.bufferLen - s.tail
      (f.fillStream nFree 6).bind fun (f, nReceived) =>
      if nReceived < 1 then some (f, nReceived)
      else
        let f := f.setTail ((s.tail + nReceived.toNat) % s.bufferLen)
        if nReceived = nFree then f.fillLast memory available (s.head - 1) 8 10
        else some f.finish
  else f.fillLast memory available (s.head - s.tail - 1) 13 15

end Available

end Filling

namespace InputStream

/-! ## The ring -/

/-- The positions lie in the buffer, and no sum leaves `sint32`. -/
structure Valid (s : InputStream) : Prop where
  head : s.head < s.bufferLen
  tail : s.tail < s.bufferLen
  size : s.bufferLen < 2 ^ 30
  max : s.maxBufferLen ≤ 2 ^ 29

variable {s : InputStream}

theorem length_of_le (h : s.head ≤ s.tail) : s.length = s.tail - s.head := ringLength_of_le h

theorem length_of_gt (h : s.head > s.tail) : s.length = s.bufferLen - s.head + s.tail := ringLength_of_gt h

theorem queued_length (hs : Valid s) : s.queued.length = s.length :=
  ring_length (Nat.le_of_lt hs.head) (Nat.le_of_lt hs.tail)

theorem length_lt (hs : Valid s) : s.length < s.bufferLen := ringLength_lt hs.head hs.tail

/-! ## `read` -/

/-- What is copied is the front of the queue, and the rest lies behind the new head. -/
theorem copyOut_spec (hs : Valid s) {len : Nat} (hlen : len ≤ s.length) :
    ∃ buf, s.copyOut len = some buf ∧ buf.length = len ∧
      s.queued = buf ++ s.buffer.ring ((s.head + len) % s.bufferLen) s.tail := by
  have hhead := hs.head
  have htail := hs.tail
  unfold copyOut
  by_cases hlt : s.head < s.tail
  · rw [length_of_le (Nat.le_of_lt hlt)] at hlen
    refine ⟨s.buffer.slice s.head len, ?_, slice_length (by omega), ?_⟩
    · rw [if_pos hlt, read?_eq (by omega)]
    · rw [queued, Nat.mod_eq_of_lt (by omega), ← ring_drop_of_le (by omega)]
  rw [if_neg hlt]
  by_cases heq : s.head = s.tail
  · rw [length_of_le (Nat.le_of_eq heq)] at hlen
    obtain rfl : len = 0 := by omega
    refine ⟨s.buffer.slice s.head 0, ?_, slice_length (by omega), ?_⟩
    · dsimp only
      rw [if_pos (Nat.zero_le _), read?_eq (by omega)]
    · rw [slice_zero, Nat.add_zero, Nat.mod_eq_of_lt hhead, List.nil_append, queued]
  have hgt : s.tail < s.head := by omega
  rw [length_of_gt hgt] at hlen
  dsimp only
  by_cases hright : len ≤ s.bufferLen - s.head
  · refine ⟨s.buffer.slice s.head len, ?_, slice_length (by omega), ?_⟩
    · rw [if_pos hright, read?_eq (by omega)]
    · rw [queued, ring_drop_of_lt (k := len) hgt (by omega)]
      congr 1
      rcases Nat.eq_or_lt_of_le (show s.head + len ≤ s.bufferLen by omega) with hend | hin
      · rw [hend, Nat.mod_self, ring_turn htail]
      · rw [Nat.mod_eq_of_lt hin]
  · -- the read goes around the end
    have hmod : (s.head + len) % s.bufferLen = len - (s.bufferLen - s.head) := by
      rw [Nat.mod_eq_sub_mod (by omega), Nat.mod_eq_of_lt (by omega)]
      omega
    have hfirst : (s.buffer.slice s.head (s.bufferLen - s.head)).length = s.bufferLen - s.head :=
      slice_length (by omega)
    have hrest : (s.buffer.slice 0 (len - (s.bufferLen - s.head))).length = len - (s.bufferLen - s.head) :=
      slice_length (by omega)
    refine ⟨s.buffer.slice s.head (s.bufferLen - s.head) ++ s.buffer.slice 0 (len - (s.bufferLen - s.head)), ?_, ?_, ?_⟩
    · rw [if_neg hright, read?_eq (by omega), Option.bind_some, read?_eq (by omega), Option.map_some]
    · rw [List.length_append, hfirst, hrest]
      omega
    · have hend : s.head + (s.bufferLen - s.head) = s.bufferLen := by omega
      have hsplit : s.buffer.ring 0 s.tail = s.buffer.slice 0 (len - (s.bufferLen - s.head)) ++
          s.buffer.ring (0 + (len - (s.bufferLen - s.head))) s.tail := ring_drop_of_le (by omega)
      rw [Nat.zero_add] at hsplit
      rw [queued, ring_drop_of_lt hgt (Nat.le_of_eq hend), hend, ring_turn htail, hmod, hsplit, List.append_assoc]

/-- **`read`.** What it copies was the front of the queue; it copies all that it is asked for if there is so much, and
    nothing otherwise. -/
theorem read_spec (hs : Valid s) (len : Nat) :
    ∃ s' buf, s.read len = some (s', buf.length, buf) ∧ Valid s' ∧ s.queued = buf ++ s'.queued ∧
      buf.length = (if len ≤ s.length then len else 0) ∧ s'.active = s.active ∧
      (s.inputLen = s.length → s'.inputLen = s'.length) := by
  have hhead := hs.head
  have hsize := hs.size
  have hlt := length_lt hs
  unfold read
  by_cases hzero : len = 0
  · exact ⟨s, [], if_pos hzero, hs, rfl, by rw [hzero, if_pos (Nat.zero_le _), List.length_nil], rfl, id⟩
  rw [if_neg hzero]
  by_cases hmore : len > s.length
  · exact ⟨s, [], if_pos hmore, hs, rfl, by rw [if_neg (by omega), List.length_nil], rfl, id⟩
  obtain ⟨buf, hcopy, rfl, hqueued⟩ := copyOut_spec hs (Nat.le_of_not_lt hmore)
  have htoNat : ((s.head : Int) + buf.length).toNat = s.head + buf.length := by omega
  rw [if_neg hmore, hcopy, Option.bind_some, OutputStream.sint32_eq (by omega) (by omega), Option.map_some, htoNat]
  refine ⟨_, buf, rfl, ⟨Nat.mod_lt _ (by omega), hs.tail, hs.size, hs.max⟩, hqueued, ?_, rfl, fun _ => rfl⟩
  rw [if_pos (by omega)]

/-- **`peek`.** It copies what `read` would, and says whether it does. -/
theorem peek_read (hs : Valid s) (len : Nat) :
    ∃ s' buf, s.read len = some (s', buf.length, buf) ∧ s.peek len = some (decide (0 < buf.length), buf) := by
  have hhead := hs.head
  have hsize := hs.size
  have hlt := length_lt hs
  unfold read peek
  by_cases hzero : len = 0
  · exact ⟨s, [], if_pos hzero, if_pos hzero⟩
  simp only [if_neg hzero]
  by_cases hmore : len > s.length
  · exact ⟨s, [], if_pos hmore, if_pos hmore⟩
  obtain ⟨buf, hcopy, rfl, _⟩ := copyOut_spec hs (Nat.le_of_not_lt hmore)
  rw [if_neg hmore, if_neg hmore, hcopy, Option.bind_some, OutputStream.sint32_eq (by omega) (by omega),
    Option.map_some, Option.map_some]
  refine ⟨_, buf, rfl, ?_⟩
  rw [decide_eq_true (Nat.pos_of_ne_zero hzero)]

/-! ## `resize` -/

/-- The queue arrives at the start of a buffer that is larger by `size` bytes at least. -/
theorem resize_spec (hs : Valid s) (memory : (n : Nat) → Block UInt8 n) {size : Nat}
    (hsize : s.bufferLen + max (s.bufferLen / 2) size < 2 ^ 30) :
    ∃ s', s.resize memory size = some (s', true) ∧ Valid s' ∧ s'.queued = s.queued ∧ s'.head = 0 ∧
      s'.tail = s.length ∧ s.bufferLen + size ≤ s'.bufferLen ∧ s'.active = s.active := by
  have hlt := length_lt hs
  have hlen := queued_length hs
  obtain ⟨b, hmove, hslice⟩ := moveRing?_spec (b := s.buffer) hs.head hs.tail
    (memory (s.bufferLen + max (s.bufferLen / 2) size)) (show s.queued.length ≤ _ by omega)
  refine ⟨{ s with bufferLen := _, buffer := b, head := 0, tail := s.length }, ?_, ?_, ?_, rfl, rfl, ?_, rfl⟩
  · simp only [resize, OutputStream.growth_eq, ← Int.natCast_add]
    rw [OutputStream.sint32_eq (by omega) (by omega), Option.bind_some, if_neg (by omega), if_neg (by omega)]
    simp only [Int.toNat_natCast, hmove, Option.map_some]
  · refine ⟨?_, ?_, hsize, hs.max⟩
    · exact Nat.lt_of_lt_of_le (Nat.zero_lt_of_lt hlt) (Nat.le_add_right _ _)
    · exact Nat.lt_of_lt_of_le hlt (Nat.le_add_right _ _)
  · have hqueued : b.slice 0 s.length = s.queued := by
      rw [← hlen]
      exact hslice
    exact (ring_of_le (Nat.zero_le _)).trans hqueued
  · exact Nat.add_le_add_left (Nat.le_max_right _ _) _

end InputStream

namespace Filling

open InputStream

/-! ## `fill` -/

variable {s : InputStream} {f : Filling}

/-- **`fill_stream`.** It returns less than 1 and has received nothing, or it returns the number of the bytes that are
    now behind the queue. -/
theorem fillStream_spec {room : Nat} (hroom : f.stream.tail + room ≤ f.stream.bufferLen) (id : Nat) :
    ∃ g ret, f.fillStream room id = some (g, ret) ∧
      g.offers = f.offers ++ [⟨f.stream.bufferLen, f.stream.head, f.stream.tail, room⟩] ∧
      ((ret < 1 ∧ g.stream = { f.stream with inputLen := f.stream.length } ∧ g.received = f.received) ∨
        ∃ (data : List UInt8) (hfit : f.stream.tail + data.length ≤ f.stream.bufferLen),
          ret = data.length ∧ 0 < data.length ∧ data.length ≤ room ∧ g.received = f.received ++ data ∧
          g.stream = { f.stream with inputLen := f.stream.length
                                     buffer := f.stream.buffer.write f.stream.tail data hfit }) := by
  unfold fillStream
  cases f.answers with
  | nil => exact ⟨_, _, rfl, rfl, Or.inl ⟨by decide, rfl, rfl⟩⟩
  | cons answer answers =>
      cases answer with
      | wouldBlock => exact ⟨_, _, rfl, rfl, Or.inl ⟨by decide, rfl, rfl⟩⟩
      | error => exact ⟨_, _, rfl, rfl, Or.inl ⟨by omega, rfl, rfl⟩⟩
      | bytes data =>
          by_cases hend : (data.take room).length = 0
          · exact ⟨_, _, if_pos hend, rfl, Or.inl ⟨by omega, rfl, rfl⟩⟩
          have hle : (data.take room).length ≤ room := List.length_take_le _ _
          have hfit : f.stream.tail + (data.take room).length ≤ f.stream.bufferLen := by omega
          exact ⟨_, _, (if_neg hend).trans (congrArg (Option.map _) (write?_eq hfit)), rfl,
            Or.inr ⟨data.take room, hfit, rfl, Nat.pos_of_ne_zero hend, hle, rfl, rfl⟩⟩

/-- A `fill` of `s` on its way: as long as the stream was not reset, its queue is that of `s` and the bytes received. -/
structure Progress (s : InputStream) (f : Filling) : Prop where
  valid : f.stream.Valid
  active : f.stream.active = true → s.active = true
  queued : f.stream.active = true → f.stream.queued = s.queued ++ f.received
  behind : ∀ o ∈ f.offers, Behind o.bufferLen o.head o.tail o.room

/-- The cached length is that of the queue, as long as the stream was not reset. -/
def Current (s : InputStream) : Prop := s.active = true → s.inputLen = s.length

/-- A `recv` into room behind the queue, and then the tail that the caller computes from what it returned. -/
theorem fillStream_progress (hf : Progress s f) {room : Nat}
    (hbehind : Behind f.stream.bufferLen f.stream.head f.stream.tail room) (id : Nat) :
    ∃ g ret, f.fillStream room id = some (g, ret) ∧
      ((ret < 1 ∧ Progress s g ∧ Current g.stream) ∨
        ∃ n, 0 < n ∧ n ≤ room ∧ ret = n ∧ g.stream.bufferLen = f.stream.bufferLen ∧ g.stream.head = f.stream.head ∧
          g.stream.tail = f.stream.tail ∧
          ∀ tail, tail < f.stream.bufferLen →
            (∀ (data : List UInt8) (hfit : f.stream.tail + data.length ≤ f.stream.bufferLen), data.length = n →
              (f.stream.buffer.write f.stream.tail data hfit).ring f.stream.head tail = f.stream.queued ++ data) →
            Progress s (g.setTail tail)) := by
  obtain ⟨g, ret, hfill, hoffers, hcase⟩ := fillStream_spec hbehind.1 id
  have hall : ∀ o ∈ g.offers, Behind o.bufferLen o.head o.tail o.room := by
    rw [hoffers]
    exact List.forall_mem_append.mpr ⟨hf.behind, List.forall_mem_singleton.mpr hbehind⟩
  refine ⟨g, ret, hfill, ?_⟩
  rcases hcase with ⟨hret, hstream, hreceived⟩ | ⟨data, hfit, hret, hpos, hle, hreceived, hstream⟩
  · refine Or.inl ⟨hret, ⟨?_, ?_, ?_, hall⟩, ?_⟩
    all_goals rw [hstream]
    · exact ⟨hf.valid.head, hf.valid.tail, hf.valid.size, hf.valid.max⟩
    · exact hf.active
    · rw [hreceived]
      exact hf.queued
    · exact fun _ => rfl
  · refine Or.inr ⟨data.length, hpos, hle, hret, ?_⟩
    have hset : ∀ tail, (g.setTail tail).stream =
        { f.stream with inputLen := f.stream.length, buffer := f.stream.buffer.write f.stream.tail data hfit,
                        tail := tail } := by
      intro tail
      show ({ g.stream with tail := tail } : InputStream) = _
      rw [hstream]
    refine ⟨?_, ?_, ?_, fun tail htail hring => ⟨?_, ?_, ?_, hall⟩⟩
    · rw [hstream]
    · rw [hstream]
    · rw [hstream]
    · rw [hset]
      exact ⟨hf.valid.head, htail, hf.valid.size, hf.valid.max⟩
    · rw [hset]
      exact hf.active
    · rw [hset]
      intro hactive
      show (f.stream.buffer.write f.stream.tail data hfit).ring f.stream.head tail = s.queued ++ g.received
      rw [hreceived, ← List.append_assoc, ← hf.queued hactive]
      exact hring data hfit rfl

/-- **`check_stream_available`.** It makes room for all that is there, or resets the stream. -/
theorem checkStreamAvailable_spec (hf : Progress s f) (memory : (n : Nat) → Block UInt8 n) {available : Int}
    (havailable : available < 2 ^ 30) (id : Nat) :
    ∃ g ret, f.checkStreamAvailable memory available id = some (g, ret) ∧ Progress s g ∧
      (ret < 1 → Current g.stream) := by
  have hsize := hf.valid.size
  have hmax := hf.valid.max
  unfold checkStreamAvailable
  by_cases hnone : available > 0
  swap
  · exact ⟨_, _, if_neg hnone, ⟨⟨hf.valid.head, hf.valid.tail, hsize, hmax⟩, hf.active, hf.queued, hf.behind⟩,
      fun _ _ => rfl⟩
  obtain ⟨k, rfl⟩ : ∃ k : Nat, available = k := ⟨available.toNat, by omega⟩
  dsimp only
  rw [if_pos hnone, OutputStream.sint32_eq (by omega) (by omega), Option.bind_some]
  by_cases hover : (f.stream.bufferLen : Int) + k + 1 > f.stream.maxBufferLen
  · have hpos : 0 < f.stream.bufferLen := Nat.zero_lt_of_lt hf.valid.head
    exact ⟨_, _, if_pos hover, ⟨⟨hpos, hpos, hsize, hmax⟩, fun h => absurd h Bool.false_ne_true,
      fun h => absurd h Bool.false_ne_true, hf.behind⟩, fun _ h => absurd h Bool.false_ne_true⟩
  rw [if_neg hover]
  have hlt := length_lt hf.valid
  have hvalid : Valid { f.stream with inputLen := f.stream.length } := ⟨hf.valid.head, hf.valid.tail, hsize, hmax⟩
  obtain ⟨s', hresize, hs', hqueued, hhead, htail, hlen, hactive⟩ :=
    @resize_spec { f.stream with inputLen := f.stream.length } hvalid memory (k + 1)
      (show f.stream.bufferLen + max (f.stream.bufferLen / 2) (k + 1) < 2 ^ 30 by omega)
  have hroom : s'.tail + k + 1 < s'.bufferLen := by
    rw [htail]
    exact Nat.lt_of_lt_of_le (show f.stream.length + k + 1 < f.stream.bufferLen + (k + 1) by omega) hlen
  rw [show (k : Int) + 1 = (k + 1 : Nat) by omega, hresize, Option.bind_some, if_pos rfl, Int.toNat_natCast]
  -- the queue is at the start of the larger buffer, with room for `k` bytes behind it
  have hmoved : Progress s { f with stream := s' } := by
    refine ⟨hs', fun h => hf.active (hactive ▸ h), fun h => ?_, hf.behind⟩
    exact hqueued.trans (hf.queued (hactive ▸ h))
  have hfirst : s'.head ≤ s'.tail := by omega
  obtain ⟨g, ret, hfill, hcase⟩ := @fillStream_progress s _ hmoved k
    (behind_of_fits (show s'.tail + k ≤ s'.bufferLen by omega) (Or.inl hfirst)) (id + 1)
  rw [hfill, Option.map_some]
  rcases hcase with ⟨hret, hg, hcurrent⟩ | ⟨n, hpos, hle, rfl, hbuf, hhead', htail', hg⟩
  · refine ⟨_, _, congrArg some (if_pos hret), ⟨hg.valid, hg.active, hg.queued, hg.behind⟩, fun _ => hcurrent⟩
  · refine ⟨_, _, congrArg some (if_neg (by omega)), ?_, fun h => absurd h (by decide)⟩
    have hset : Progress s (g.setTail (g.stream.tail + (n : Int).toNat)) := by
      rw [htail', Int.toNat_natCast]
      refine hg _ (show s'.tail + n < s'.bufferLen by omega) fun data hfit hdata => ?_
      subst hdata
      exact ring_write hfirst hfit
    exact ⟨hset.valid, hset.active, hset.queued, hset.behind⟩

/-- A call of `fill` that has returned. -/
def Filled (s : InputStream) (r : Filling × Int) : Prop := Progress s r.1 ∧ Current r.1.stream

theorem finish_filled (hf : Progress s f) : Filled s f.finish :=
  ⟨⟨⟨hf.valid.head, hf.valid.tail, hf.valid.size, hf.valid.max⟩, hf.active, hf.queued, hf.behind⟩, fun _ => rfl⟩

/-- The last part of each layout. The room lies behind the queue, and at least one byte stays free. -/
theorem fillLast_spec (hf : Progress s f) (memory : (n : Nat) → Block UInt8 n) {available : Int}
    (havailable : available < 2 ^ 30) {nFree : Nat}
    (hroom : (f.stream.head ≤ f.stream.tail ∧ f.stream.tail + nFree < f.stream.bufferLen) ∨
      (f.stream.tail + nFree < f.stream.head)) (receiveId availableId : Nat) :
    ∃ r, f.fillLast memory available nFree receiveId availableId = some r ∧ Filled s r := by
  have hhead := hf.valid.head
  -- the tail has moved on, and more is looked for if the room is full
  have hmore : ∀ {g : Filling} (full : Prop) [Decidable full], Progress s g →
      ∃ r, (if full then (g.checkStreamAvailable memory available availableId).map fun (f, ret) =>
          if ret < 1 then (f, ret) else f.finish else some g.finish) = some r ∧ Filled s r := by
    intro g full _ hg
    by_cases hfull : full
    · obtain ⟨g', ret, hcheck, hg', hcurrent⟩ := checkStreamAvailable_spec hg memory havailable availableId
      rw [if_pos hfull, hcheck, Option.map_some]
      by_cases hret : ret < 1
      · exact ⟨_, congrArg some (if_pos hret), hg', hcurrent hret⟩
      · exact ⟨_, congrArg some (if_neg hret), finish_filled hg'⟩
    · exact ⟨_, if_neg hfull, finish_filled hg⟩
  unfold fillLast
  by_cases hzero : nFree = 0
  · rw [if_neg (not_not_intro hzero), Option.bind_some]
    dsimp only
    rw [if_neg (fun h => h.1 hzero)]
    exact hmore _ hf
  · obtain ⟨g, ret, hfill, hcase⟩ := @fillStream_progress s f hf nFree
      (behind_of_fits (by omega) (by omega)) receiveId
    rw [if_pos hzero, hfill, Option.bind_some]
    dsimp only
    rcases hcase with ⟨hret, hg, hcurrent⟩ | ⟨n, hpos, hle, rfl, hbuf, hhead', htail', hg⟩
    · exact ⟨_, if_pos ⟨hzero, hret⟩, hg, hcurrent⟩
    · rw [if_neg (fun h => absurd h.2 (by omega))]
      refine hmore _ ?_
      rw [htail', Int.toNat_natCast]
      refine hg _ (by omega) fun data hfit hdata => ?_
      subst hdata
      rcases hroom with ⟨hle', _⟩ | hlt
      · exact ring_write hle' hfit
      · exact ring_write_behind (by omega) hfit (by omega)

/-- **`fill`.** In each of its layouts it receives behind the queue only, and leaves with the cached length. -/
theorem fill_spec (hs : s.Valid) (memory : (n : Nat) → Block UInt8 n) {available : Int}
    (havailable : available < 2 ^ 30)
    (answers : List Received) : ∃ r, fill memory available s answers = some r ∧ Filled s r := by
  have hhead := hs.head
  have htail := hs.tail
  have hstart : Progress s { stream := s, answers := answers } :=
    ⟨hs, fun h => h, fun _ => (List.append_nil _).symm, List.forall_mem_nil _⟩
  unfold fill
  by_cases hle : s.head ≤ s.tail
  swap
  · dsimp only
    rw [if_neg hle]
    exact fillLast_spec hstart memory havailable (Or.inr (show s.tail + (s.head - s.tail - 1) < s.head by omega)) 13 15
  by_cases hzero : s.head = 0
  · dsimp only
    rw [if_pos hle, if_pos hzero]
    exact fillLast_spec hstart memory havailable
      (Or.inl ⟨hle, show s.tail + (s.bufferLen - s.tail - 1) < s.bufferLen by omega⟩) 1 3
  dsimp only
  rw [if_pos hle, if_neg hzero]
  have hend : s.tail + (s.bufferLen - s.tail) = s.bufferLen := by omega
  obtain ⟨g, ret, hfill, hcase⟩ := fillStream_progress hstart (behind_of_fits (Nat.le_of_eq hend) (Or.inl hle)) 6
  rw [hfill, Option.bind_some]
  rcases hcase with ⟨hret, hg, hcurrent⟩ | ⟨n, hpos, hroom, rfl, hbuf, hhead', htail', hg⟩
  · exact ⟨_, if_pos hret, hg, hcurrent⟩
  dsimp only
  rw [if_neg (by omega), Int.toNat_natCast]
  have hset : Progress s (g.setTail ((s.tail + n) % s.bufferLen)) := by
    refine hg _ (Nat.mod_lt _ (by omega)) fun data hfit hdata => ?_
    subst hdata
    rcases Nat.eq_or_lt_of_le hfit with heq | hlt
    · -- the bytes end with the buffer, and the tail turns to its start
      rw [show (s.tail + data.length) % s.bufferLen = 0 from heq ▸ Nat.mod_self _]
      exact ring_write_end (Nat.pos_of_ne_zero hzero) hle hfit heq
    · rw [show (s.tail + data.length) % s.bufferLen = s.tail + data.length from Nat.mod_eq_of_lt hlt]
      exact ring_write hle hfit
  by_cases hfull : n = s.bufferLen - s.tail
  · rw [if_pos (by omega)]
    have hturn : (s.tail + n) % s.bufferLen = 0 := by rw [hfull, hend, Nat.mod_self]
    rw [hturn] at hset ⊢
    refine fillLast_spec hset memory havailable (Or.inr ?_) 8 10
    show 0 + (s.head - 1) < g.stream.head
    rw [hhead']
    show 0 + (s.head - 1) < s.head
    omega
  · rw [if_neg (by omega)]
    exact ⟨_, rfl, finish_filled hset⟩

end Filling

/-! ## Every run -/

/-- A stream, with all that the kernel handed over, all that was read, and every call of `recv`. -/
structure Inflow where
  stream : InputStream
  received : List UInt8 := []
  returned : List UInt8 := []
  offers : List Offer := []

inductive InflowLabel
  | fill (answers : List Received) (available : Int)
  | read (len : Nat)

namespace Inflow

def init (bufferLen maxBufferLen : Nat) : Inflow := { stream := .initsize bufferLen maxBufferLen }

def step (memory : (n : Nat) → Block UInt8 n) (s : Inflow) : InflowLabel → Option Inflow
  | .fill answers available => (Filling.fill memory available s.stream answers).map fun (f, _) =>
    { s with stream := f.stream, received := s.received ++ f.received, offers := s.offers ++ f.offers }
  | .read len               => (s.stream.read len).map fun (stream, _, buf) =>
    { s with stream := stream, returned := s.returned ++ buf }

/-- No more bytes wait at a socket than the largest window of TCP takes. -/
def InWindow : InflowLabel → Prop
  | .fill _ available => available < 2 ^ 30
  | .read _           => True

instance : DecidablePred InWindow
  | .fill _ available => inferInstanceAs (Decidable (available < 2 ^ 30))
  | .read _           => isTrue trivial

/-- The stream is sound. Until it is reset, what was read and what it has is what it received, and the cached length is
    that of its queue. -/
structure Fifo (s : Inflow) : Prop where
  valid : s.stream.Valid
  behind : ∀ o ∈ s.offers, Behind o.bufferLen o.head o.tail o.room
  order : s.stream.active = true → s.returned ++ s.stream.queued = s.received
  current : s.stream.active = true → s.stream.inputLen = s.stream.length

variable {memory : (n : Nat) → Block UInt8 n} {s : Inflow}

theorem step_fifo (hs : Fifo s) {label : InflowLabel} (h : InWindow label) :
    ∃ s', step memory s label = some s' ∧ Fifo s' := by
  cases label with
  | fill answers available =>
      obtain ⟨r, hfill, hr, hcurrent⟩ := Filling.fill_spec hs.valid memory h answers
      refine ⟨_, congrArg (Option.map _) hfill, hr.valid, ?_, fun hactive => ?_, hcurrent⟩
      · exact List.forall_mem_append.mpr ⟨hs.behind, hr.behind⟩
      · show s.returned ++ r.1.stream.queued = s.received ++ r.1.received
        rw [hr.queued hactive, ← List.append_assoc, hs.order (hr.active hactive)]
  | read len =>
      obtain ⟨stream, buf, hread, hvalid, hqueued, _, hactive, hcurrent⟩ := InputStream.read_spec hs.valid len
      refine ⟨_, congrArg (Option.map _) hread, hvalid, hs.behind, fun h => ?_, fun h => ?_⟩
      · show (s.returned ++ buf) ++ stream.queued = s.received
        rw [List.append_assoc, ← hqueued, hs.order (hactive ▸ h)]
      · exact hcurrent (hs.current (hactive ▸ h))

/-- **The input stream is a queue with an exact length.** Over any run of `fill` and `read`, with any answers of the
    kernel, no access leaves the buffer, and every `recv` is offered room behind the queue only. Until an over-maximum
    reset, what was read, with what is buffered behind it, is what was received, and the cached length is that of the
    buffered bytes: a `read` of as many bytes as that takes them all from the front, and `peek` shows what it takes. -/
theorem received_in_order (memory : (n : Nat) → Block UInt8 n) {bufferLen maxBufferLen : Nat} (hpos : 0 < bufferLen)
    (hsize : bufferLen < 2 ^ 30) (hmax : maxBufferLen ≤ 2 ^ 29) {labels : List InflowLabel}
    (hkernel : ∀ label ∈ labels, InWindow label) :
    ∃ s, run (step memory) (init bufferLen maxBufferLen) labels = some s ∧ s.stream.head < s.stream.bufferLen ∧
      s.stream.tail < s.stream.bufferLen ∧ (∀ o ∈ s.offers, Behind o.bufferLen o.head o.tail o.room) ∧
      (s.stream.active = true → s.returned ++ s.stream.queued = s.received ∧
        s.stream.inputLen = s.stream.queued.length ∧
        ∀ len, ∃ stream n, n = (if len ≤ s.stream.inputLen then len else 0) ∧
          s.stream.read len = some (stream, n, s.stream.queued.take n) ∧
          s.stream.peek len = some (decide (0 < n), s.stream.queued.take n)) := by
  have hinit : Fifo (init bufferLen maxBufferLen) :=
    ⟨⟨hpos, hpos, hsize, hmax⟩, List.forall_mem_nil _, fun _ => ring_self (Block.fill bufferLen 0) 0, fun _ => rfl⟩
  have hstep : ∀ {s : Inflow} {label : InflowLabel}, Fifo s → True ∧ InWindow label →
      ∃ s', step memory s label = some s' ∧ Fifo s' := fun hs hP => step_fifo hs hP.2
  obtain ⟨s, hrun, hs⟩ := runs_along hstep hinit
    ((along_true (step memory) (init bufferLen maxBufferLen) labels).and_labels hkernel)
  refine ⟨s, hrun, hs.valid.head, hs.valid.tail, hs.behind, fun hactive => ⟨hs.order hactive, ?_, fun len => ?_⟩⟩
  · rw [hs.current hactive, InputStream.queued_length hs.valid]
  · obtain ⟨stream, buf, hread, _, hqueued, hlen, _⟩ := InputStream.read_spec hs.valid len
    obtain ⟨_, buf', hread', hpeek⟩ := InputStream.peek_read hs.valid len
    obtain rfl : buf' = buf := by
      rw [hread] at hread'
      exact (Prod.ext_iff.mp (Prod.ext_iff.mp (Option.some.inj hread')).2).2.symm
    have hbuf : s.stream.queued.take buf'.length = buf' := by rw [hqueued, List.take_left]
    refine ⟨stream, buf'.length, ?_, ?_, ?_⟩
    · rw [hlen, hs.current hactive]
    · rw [hbuf, hread]
    · rw [hbuf, hpeek]

/-- A run that receives around the end of the buffer, fills it, and finds more in a larger one. -/
theorem received_in_order_around :
    ∃ s, run (step fun n => Block.fill n 0) (init 8 64) [.fill [.bytes [1, 2, 3, 4, 5]] 0, .read 3,
      .fill [.bytes [6, 7, 8], .bytes [9, 10], .bytes [11, 12]] 4, .read 9, .fill [.wouldBlock] 0] = some s ∧
    s.stream.head < s.stream.bufferLen ∧ s.stream.tail < s.stream.bufferLen ∧
    (∀ o ∈ s.offers, Behind o.bufferLen o.head o.tail o.room) ∧
    (s.stream.active = true → s.returned ++ s.stream.queued = s.received ∧
      s.stream.inputLen = s.stream.queued.length ∧
      ∀ len, ∃ stream n, n = (if len ≤ s.stream.inputLen then len else 0) ∧
        s.stream.read len = some (stream, n, s.stream.queued.take n) ∧
        s.stream.peek len = some (decide (0 < n), s.stream.queued.take n)) :=
  received_in_order _ (by decide) (by decide) (by decide) (by decide)

end Inflow

end Mowang
