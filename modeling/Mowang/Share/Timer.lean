import Mowang.Base.LinkedList
import Mowang.Base.Run
import Mathlib.Data.PNat.Defs

/-!
# `Share.Timer` — the timer wheels

A timer is a node in one of the chains of four wheels: 60 seconds, 60 minutes, 24 hours and 30 days. Each
tick (`proc_second_nodes`) moves the second wheel on by one slot; when a wheel comes round, the next one
moves on, and the chain of the slot it reaches is spread over the wheel below. The nodes of the second
slot that is reached are fired by `proc_node`.

The nodes live in a heap, an access to an address that is not allocated has no result, and neither has an
access past the end of a wheel. `proc_node` calls out in the middle of its loop, so its local `node` is
part of the state and the loop is cut at the call: `procNodeCall` runs to the next callback and
`procNodeReturn` from its return. What a callback does is then any sequence of steps between the two.

`ticks` and `log` are not in the source: they count the ticks and record, timer by timer, what was asked
for and when its callback was invoked.

## Contents
- `Layer`, `Slot`, `TimerNode`, `Timer` and the functions of `timer.cpp`.
- `TimerLabel`, `Timer.step`.
-/

namespace Mowang

open LinkedList (Links)

abbrev Addr := Nat

/-- The four wheels. -/
inductive Layer
  | second | minute | hour | day
  deriving DecidableEq

namespace Layer

/-- The number of slots that `timer::init` gives the wheel. -/
def size : Layer → Nat
  | second => 60
  | minute => 60
  | hour   => 24
  | day    => 30

/-- The ticks that one slot of the wheel stands for. -/
def unit : Layer → Nat
  | second => 1
  | minute => 60
  | hour   => 3600
  | day    => 86400

end Layer

/-- A place in one of the wheels that holds the head of a chain. -/
structure Slot where
  layer : Layer
  index : Nat
  deriving DecidableEq

/-- What a `timer_node` holds besides its links. A callback is named by the number of `add_timer` calls
    before the one that it was given to. -/
structure TimerData where
  delay : Nat
  slotIndex1 : Nat
  slotIndex2 : Nat
  timerId : UInt64
  callback : Nat
  deriving DecidableEq

/-- `timer_node`. -/
structure TimerNode extends Links Addr, TimerData
  deriving DecidableEq

/-- The top bit of `slot_index_2`. -/
def TimerData.repeats (n : TimerData) : Bool := 0 < n.slotIndex2 &&& 0x80

/-- What happened to one timer: the `add_timer` call, and the ticks at which the callback was invoked, the
    last one first. -/
structure TimerRecord where
  id : UInt64
  delay : Nat
  repeats : Bool
  addedAt : Nat
  fires : List Nat
  deriving DecidableEq

/-- `timer`. -/
structure Timer where
  timerId : UInt64
  secondIndex : Nat
  minuteIndex : Nat
  hourIndex : Nat
  dayIndex : Nat
  /-- `m_second_nodes`, `m_minute_nodes`, `m_hour_nodes` and `m_day_nodes`. -/
  nodes : Slot → Option Addr
  timerId2Node : List (UInt64 × Addr)
  /-- The nodes that `m_node_pool` has handed out. -/
  heap : Addr → Option TimerNode
  /-- The local of `proc_node`: the node whose callback is running, none between ticks. -/
  node : Option Addr
  ticks : Nat
  log : List TimerRecord

namespace Timer

/-- `clean_up` and `init`. -/
def init : Timer :=
  { timerId := 0, secondIndex := 0, minuteIndex := 0, hourIndex := 0, dayIndex := 0, nodes := fun _ => none,
    timerId2Node := [], heap := fun _ => none, node := none, ticks := 0, log := [] }

/-- Write through a pointer to a node. -/
def modify (a : Addr) (f : TimerNode → TimerNode) (t : Timer) : Option Timer :=
  (t.heap a).map fun n => { t with heap := Function.update t.heap a (some (f n)) }

def setNodes (slot : Slot) (head : Option Addr) (t : Timer) : Timer :=
  { t with nodes := Function.update t.nodes slot head }

/-- `add_node(cur_node, node)`, where `cur_node` refers to the head in `slot`. -/
def addNode (slot : Slot) (node : Addr) (t : Timer) : Option Timer :=
  if slot.index < slot.layer.size then
    match t.nodes slot with
    | none     => (t.setNodes slot (some node)).modify node fun n => { n with next := none, pre := none }
    | some cur => do
        let c ← t.heap cur
        let t ← t.modify node fun n => { n with next := c.next }
        let t ← t.modify node fun n => { n with pre := some cur }
        let t ← t.modify cur fun n => { n with next := some node }
        let n ← t.heap node
        match n.next with
        | none      => some t
        | some next => t.modify next fun n => { n with pre := some node }
  else none

/-- `slot_index_1`: 5 bits of day, 5 bits of hour, 6 bits of minute. -/
def slotIndex1 (day hour minute : Nat) : Nat := ((day <<< 11) + (hour <<< 6) + minute) % 65536

/-- `slot_index_2`: the repeat bit and the second. -/
def slotIndex2 (rep : Bool) (second : Nat) : Nat := (((if rep then 1 else 0) <<< 7) + second) % 256

/-- `add_timer_core`. -/
def addTimerCore (node : Addr) (delay : Nat) (rep : Bool) (callback : Nat) (t : Timer) : Option Timer := do
  let dayIndex := delay / 86400
  let slotDayIndex := (dayIndex + t.dayIndex) % 30
  let hourIndex := delay / 3600
  let slotHourIndex := (hourIndex + t.hourIndex) % 24
  let minuteIndex := delay / 60
  let slotMinuteIndex := (minuteIndex + t.minuteIndex) % 60
  let secondIndex := delay % 60
  let slotSecondIndex := (secondIndex + t.secondIndex) % 60
  let t ← t.modify node fun n =>
    { n with delay := delay, callback := callback,
             slotIndex1 := slotIndex1 slotDayIndex slotHourIndex slotMinuteIndex,
             slotIndex2 := slotIndex2 rep slotSecondIndex }
  if 0 < dayIndex then t.addNode ⟨.day, slotDayIndex⟩ node
  else if 0 < hourIndex then t.addNode ⟨.hour, slotHourIndex⟩ node
  else if 0 < minuteIndex then t.addNode ⟨.minute, slotMinuteIndex⟩ node
  else t.addNode ⟨.second, slotSecondIndex⟩ node

/-- `gen_timer_id`. -/
def genTimerId (t : Timer) : Timer := { t with timerId := t.timerId + 1 }

/-- `m_node_pool.allocate()`: some node that is not in use, fresh from `timer_node()`. -/
def allocate (node : Addr) (t : Timer) : Option Timer :=
  match t.heap node with
  | some _ => none
  | none   =>
      some { t with heap := Function.update t.heap node (some
        { pre := none, next := none, delay := 0, slotIndex1 := 0, slotIndex2 := 0, timerId := 0, callback := 0 }) }

/-- `add_timer`. -/
def addTimer (delay : Nat) (rep : Bool) (node : Addr) (t : Timer) : Option Timer := do
  let t ← t.allocate node
  let t := t.genTimerId
  let t ← t.modify node fun n => { n with timerId := t.timerId }
  let t ← t.addTimerCore node delay rep t.log.length
  some { t with log := t.log ++ [⟨t.timerId, delay, rep, t.ticks, []⟩] }

/-- `del_timer_core`. -/
def delTimerCore (node : Addr) (t : Timer) : Option Timer := do
  let n ← t.heap node
  let t ← (match n.pre with
    | none     => some t
    | some pre => t.modify pre fun m => { m with next := n.next })
  let n ← t.heap node
  let t ← (match n.next with
    | none      => some t
    | some next => t.modify next fun m => { m with pre := n.pre })
  some { t with heap := Function.update t.heap node none }

/-- `del_timer`. Nothing in `timer.cpp` ever puts an entry into `m_timer_id_2_node`. -/
def delTimer (id : UInt64) (t : Timer) : Option Timer :=
  match t.timerId2Node.lookup id with
  | none      => some t
  | some node => (t.delTimerCore node).map fun t =>
      { t with timerId2Node := t.timerId2Node.filter fun entry => entry.1 ≠ id }

/-- The loop of `proc_up_layer_node`, whose `node` is a reference to the head in `slot`. -/
def procUpLayerNode (lower : Layer) (slot : Slot) (calcIndex : TimerNode → Nat) : Nat → Timer → Option Timer
  | 0, _        => none
  | fuel + 1, t =>
    match t.nodes slot with
    | none   => some t
    | some a => do
        let n ← t.heap a
        let t ← (t.setNodes slot n.next).addNode ⟨lower, calcIndex n⟩ a
        procUpLayerNode lower slot calcIndex fuel t

/-- A chain of distinct nodes is not longer than the number of timers that were ever added. -/
def fuel (t : Timer) : Nat := t.log.length + 1

/-- `proc_day_nodes`. -/
def procDayNodes (t : Timer) : Option Timer :=
  let t := { t with dayIndex := t.dayIndex + t.hourIndex / 24 }
  let t := { t with dayIndex := t.dayIndex % 30 }
  t.procUpLayerNode .hour ⟨.day, t.dayIndex⟩ (fun n => (n.slotIndex1 >>> 6) &&& 0x1F) t.fuel

/-- `proc_hour_nodes`. -/
def procHourNodes (t : Timer) : Option Timer := do
  let t := { t with hourIndex := t.hourIndex + t.minuteIndex / 60 }
  let t ← (if 24 ≤ t.hourIndex then t.procDayNodes else some t)
  let t := { t with hourIndex := t.hourIndex % 24 }
  t.procUpLayerNode .minute ⟨.hour, t.hourIndex⟩ (fun n => n.slotIndex1 &&& 0x3F) t.fuel

/-- `proc_minute_nodes`. -/
def procMinuteNodes (t : Timer) : Option Timer := do
  let t := { t with minuteIndex := t.minuteIndex + t.secondIndex / 60 }
  let t ← (if 60 ≤ t.minuteIndex then t.procHourNodes else some t)
  let t := { t with minuteIndex := t.minuteIndex % 60 }
  t.procUpLayerNode .second ⟨.minute, t.minuteIndex⟩ (fun n => n.slotIndex2 &&& 0x3F) t.fuel

/-- The slot of the second wheel that `proc_second_nodes` works on. -/
def current (t : Timer) : Slot := ⟨.second, t.secondIndex⟩

/-- The head of the loop of `proc_node`: up to the call of the next callback, or, when no node is left, on
    to the end of `proc_second_nodes`. -/
def procNodeCall (t : Timer) : Option Timer :=
  match t.node with
  | none   => some (t.setNodes t.current none)
  | some a => (t.heap a).map fun n =>
      { t with log := t.log.modify n.callback fun r => { r with fires := t.ticks :: r.fires } }

/-- The rest of the body of the loop of `proc_node`, after the callback of `tmp_node` has returned. -/
def procNodeReturn (t : Timer) : Option Timer := do
  let tmpNode ← t.node
  let n ← t.heap tmpNode
  let t := { t with node := n.next }
  let t ← (if n.repeats then t.addTimerCore tmpNode n.delay true n.callback else t.delTimerCore tmpNode)
  t.procNodeCall

/-- The wheels move on: `proc_second_nodes` up to the call of `proc_node`. -/
def advance (t : Timer) : Option Timer := do
  let t := { t with secondIndex := t.secondIndex + 1, ticks := t.ticks + 1 }
  let t ← (if 60 ≤ t.secondIndex then t.procMinuteNodes else some t)
  some { t with secondIndex := t.secondIndex % 60 }

/-- `proc_second_nodes`, up to the first callback. -/
def procSecondNodes (t : Timer) : Option Timer := do
  let t ← t.advance
  procNodeCall { t with node := t.nodes t.current }

end Timer

/-- A step: `add_timer` or `del_timer`, from outside or from the callback that is running, the tick of the
    clock, and the return of the callback. -/
inductive TimerLabel
  | add (delay : ℕ+) (rep : Bool) (node : Addr)
  | del (id : UInt64)
  | tick
  | ret
  deriving DecidableEq

/-- The transition system. A tick begins when no callback is running. -/
def Timer.step (t : Timer) : TimerLabel → Option Timer
  | .add delay rep node => t.addTimer delay rep node
  | .del id             => t.delTimer id
  | .tick               => if t.node = none then t.procSecondNodes else none
  | .ret                => t.procNodeReturn

end Mowang
