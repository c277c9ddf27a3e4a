import Mowang.Base.Memory
import Mowang.Base.Run
import Mathlib.Data.List.Nodup
import Mathlib.Logic.Function.Basic

/-!
# `Share.MemoryPool` — eight free lists in chunks of memory, and a heap for what is larger

`memory_pool::allocate(n)` takes a node of the smallest class with room for a tag and `n` bytes, or `new char[n + 1]`
above 4096 bytes; the tag in front of the block says where it came from. A free node keeps the address of the next one
behind its data. A class whose list is empty gets a chunk of nodes from `new`.

The memory is one of bytes; the model knows what `new` handed out, and a load or a store outside it is `none`. What
`new` answers is a choice of the environment, apart from all that it handed out before.

`Inv` is the invariant: what `new` handed out is apart, each free list is a chain of nodes of its class, and a block in
use is behind a tag of its class in a node that is on no free list, or in memory of its own. Two nodes are apart or the
same (`Inv.piece_apart`), which carries every step.

## Contents
- `MemoryPool`: `addBlockMemory`, `allocateNode`, `deallocateNode`, `allocate`, `deallocate`, `step`.
- `linkNodes_spec`, `addBlockMemory_spec`.
- `MemoryPool.blocks_disjoint_along`.
-/

namespace Mowang

open Memory

/-- What `new` handed out: a `my_pool` of a class, or characters. -/
structure Region where
  base : Nat
  size : Nat
  kind : Option (Fin 8)
  deriving DecidableEq

/-- The pool, with the memory; and, of its users, the blocks in use with the sizes that were asked for. -/
structure MemoryPool where
  bytes : Nat → UInt8
  regions : List Region := []
  pool : Fin 8 → Nat := fun _ => 0
  freeNode : Fin 8 → Nat := fun _ => 0
  live : List (Nat × Nat) := []

namespace MemoryPool

/-- `data_size` of the eight allocators. -/
def dataSize : Fin 8 → Nat
  | 0 => 32
  | 1 => 64
  | 2 => 128
  | 3 => 128 * 2
  | 4 => 128 * 4
  | 5 => 128 * 8
  | 6 => 128 * 16
  | 7 => 128 * 32

/-- `node_num`. -/
def nodeNum : Fin 8 → Nat
  | 0 => 512
  | 1 => 256
  | 2 => 128
  | 3 => 64
  | 4 => 32
  | _ => 16

/-- `sizeof(memory_node)`: the data and a pointer. -/
def nodeSize (c : Fin 8) : Nat := dataSize c + 8

/-- `sizeof(my_pool)`. -/
def poolSize (c : Fin 8) : Nat := nodeNum c * nodeSize c + 8

/-! ### Loads and stores -/

/-- The `n` addresses from `a` on were handed out. -/
def inside (s : MemoryPool) (a n : Nat) : Bool := s.regions.any fun r => Within a n r.base r.size

def load? (s : MemoryPool) (a : Nat) : Option Nat := if s.inside a 8 then some (word s.bytes a) else none

def store? (s : MemoryPool) (a v : Nat) : Option MemoryPool :=
  if s.inside a 8 then some { s with bytes := setWord s.bytes a v } else none

def loadByte? (s : MemoryPool) (a : Nat) : Option UInt8 := if s.inside a 1 then some (s.bytes a) else none

def storeByte? (s : MemoryPool) (a : Nat) (b : UInt8) : Option MemoryPool :=
  if s.inside a 1 then some { s with bytes := write s.bytes a [b] } else none

/-! ### `memory_allocator` -/

/-- The `for` of `add_block_memory` from `i` on, with `n` nodes to go. -/
def linkNodes (c : Fin 8) (pool : Nat) : Nat → Nat → MemoryPool → Option MemoryPool
  | 0, _, s     => some s
  | n + 1, i, s =>
    (s.store? (pool + i * nodeSize c + dataSize c) (if i > 0 then pool + (i - 1) * nodeSize c else 0)).bind
      (linkNodes c pool n (i + 1))

/-- `add_block_memory`, where `new` answers `pool`. What the constructors write is written again before it is read. -/
def addBlockMemory (c : Fin 8) (pool : Nat) (s : MemoryPool) : Option MemoryPool :=
  let s : MemoryPool := { s with regions := ⟨pool, poolSize c, some c⟩ :: s.regions }
  (s.store? (pool + nodeNum c * nodeSize c) (s.pool c)).bind fun s =>
  (linkNodes c pool (nodeNum c) 0 { s with pool := Function.update s.pool c pool }).map fun s =>
  { s with freeNode := Function.update s.freeNode c (pool + (nodeNum c - 1) * nodeSize c) }

/-- `memory_allocator::allocate`. -/
def allocateNode (c : Fin 8) (pool : Nat) (s : MemoryPool) : Option (Nat × MemoryPool) :=
  (if s.freeNode c = 0 then addBlockMemory c pool s else some s).bind fun s =>
  let node := s.freeNode c
  (s.load? (node + dataSize c)).bind fun next =>
  (store? { s with freeNode := Function.update s.freeNode c next } (node + dataSize c) 0).map fun s => (node, s)

/-- `memory_allocator::deallocate`. -/
def deallocateNode (c : Fin 8) (p : Nat) (s : MemoryPool) : Option MemoryPool :=
  (s.store? (p + dataSize c) (s.freeNode c)).map fun s => { s with freeNode := Function.update s.freeNode c p }

/-! ### `memory_pool` -/

/-- The allocator that `allocate` takes for a `buffer_size`. -/
def sizeClass (bufferSize : Int) : Option (Fin 8) :=
  if bufferSize ≤ 32 then some 0
  else if bufferSize ≤ 64 then some 1
  else if bufferSize ≤ 128 then some 2
  else if bufferSize ≤ 128 * 2 then some 3
  else if bufferSize ≤ 128 * 4 then some 4
  else if bufferSize ≤ 128 * 8 then some 5
  else if bufferSize ≤ 128 * 16 then some 6
  else if bufferSize ≤ 128 * 32 then some 7
  else none

/-- The tag of an allocator, or of the heap. -/
def flagOf : Option (Fin 8) → UInt8
  | some c => c.val.toUInt8 + 1
  | none   => 0xFF

/-- The allocator that `deallocate` takes for a tag. -/
def classOf (flag : UInt8) : Option (Fin 8) :=
  if flag = 1 then some 0
  else if flag = 2 then some 1
  else if flag = 3 then some 2
  else if flag = 4 then some 3
  else if flag = 5 then some 4
  else if flag = 6 then some 5
  else if flag = 7 then some 6
  else if flag = 8 then some 7
  else none

/-- `buffer_size`: `n + sizeof(flag)` as an `int`. -/
def bufferSize (n : Int) : Int := (n + 1).bmod (2 ^ 32)

/-- `allocate(n)`, where `new`, if it is called, answers `answer`. -/
def allocate (n : Int) (answer : Nat) (s : MemoryPool) : Option (Nat × MemoryPool) :=
  (match sizeClass (bufferSize n) with
    | some c => allocateNode c answer s
    | none   => some (answer, { s with regions := ⟨answer, (bufferSize n).toNat, none⟩ :: s.regions })).bind fun (p, s) =>
  (s.storeByte? p (flagOf (sizeClass (bufferSize n)))).map fun s => (p + 1, s)

/-- `delete[] p`: `p` is what `new char[]` answered. -/
def deleteChars (p : Nat) (s : MemoryPool) : Option MemoryPool :=
  match s.regions.find? fun r => r.base = p ∧ r.kind = none with
  | some r => some { s with regions := s.regions.erase r }
  | none   => none

/-- `deallocate(p)`. -/
def deallocate (p : Nat) (s : MemoryPool) : Option MemoryPool :=
  (s.loadByte? (p - 1)).bind fun flag =>
  match classOf flag with
  | some c => deallocateNode c (p - 1) s
  | none   => deleteChars (p - 1) s

/-! ### Its users -/

/-- What the users of the pool do: they ask for a block, write a byte of one, and give one back. -/
inductive Label
  | allocate (n : Int) (answer : Nat)
  | write (p i : Nat) (b : UInt8)
  | deallocate (p : Nat)

def step (s : MemoryPool) : Label → Option MemoryPool
  | .allocate n answer => (s.allocate n answer).map fun (p, s) => { s with live := (p, n.toNat) :: s.live }
  | .write p i b       => s.storeByte? (p + i) b
  | .deallocate p      => (s.deallocate p).map fun s => { s with live := s.live.filter fun (q, _) => q ≠ p }

/-- What `allocate(n)` asks `new` for, if it asks. -/
def newSize (s : MemoryPool) (n : Int) : Option Nat :=
  match sizeClass (bufferSize n) with
  | some c => if s.freeNode c = 0 then some (poolSize c) else none
  | none   => some (bufferSize n).toNat

/-- `new` answers with memory that is nobody's. -/
def Fresh (s : MemoryPool) (a n : Nat) : Prop := 0 < a ∧ a + n ≤ 2 ^ 64 ∧ ∀ r ∈ s.regions, Apart a n r.base r.size

/-- A step of the users within their contract: a size from 0 on below 2³¹ - 1, a byte inside a block in use, a block in
    use. -/
def Allowed (s : MemoryPool) : Label → Prop
  | .allocate n answer => 0 ≤ n ∧ n < 2 ^ 31 - 1 ∧ ∀ size, s.newSize n = some size → s.Fresh answer size
  | .write p i _       => ∃ n, (p, n) ∈ s.live ∧ i < n
  | .deallocate p      => ∃ n, (p, n) ∈ s.live

/-- The allocator that a block of `n` bytes comes from. -/
def origin (n : Nat) : Option (Fin 8) := sizeClass (n + 1)

/-! ## Pieces -/

/-- The address of a node of the class `c`. -/
def NodeAt (regions : List Region) (c : Fin 8) (a : Nat) : Prop :=
  ∃ r ∈ regions, r.kind = some c ∧ ∃ i < nodeNum c, a = r.base + i * nodeSize c

/-- What is handed out in one piece: a node, or memory for a large block; where it comes from, its address and its
    size. -/
inductive Piece (regions : List Region) : Option (Fin 8) → Nat → Nat → Prop
  | node {c : Fin 8} {a : Nat} : NodeAt regions c a → Piece regions (some c) a (nodeSize c)
  | chars {a n : Nat} : ⟨a, n, none⟩ ∈ regions → Piece regions none a n

/-- What `new` handed out lies apart, below 2⁶⁴ and not at 0. -/
structure Laid (regions : List Region) : Prop where
  apart : regions.Pairwise fun r t => Apart r.base r.size t.base t.size
  pos : ∀ r ∈ regions, 0 < r.base ∧ 0 < r.size
  below : ∀ r ∈ regions, r.base + r.size ≤ 2 ^ 64
  pool : ∀ r ∈ regions, ∀ c, r.kind = some c → r.size = poolSize c

variable {regions : List Region}

theorem Laid.eq_or_apart (h : Laid regions) {r t : Region} (hr : r ∈ regions) (ht : t ∈ regions) :
    r = t ∨ Apart r.base r.size t.base t.size := by
  have hforth : regions.Pairwise fun r t => r = t ∨ Apart r.base r.size t.base t.size := h.apart.imp Or.inr
  have hback : regions.Pairwise (flip fun r t => r = t ∨ Apart r.base r.size t.base t.size) :=
    h.apart.imp fun hapart => Or.inr hapart.symm
  have hself : ∀ r ∈ regions, r = r ∨ Apart r.base r.size r.base r.size := fun _ _ => Or.inl rfl
  exact @List.Pairwise.forall_of_forall_of_flip _ _ _ hself hforth hback r hr t ht

/-- The nodes of a chunk, one behind the other. -/
theorem node_within {c : Fin 8} {i : Nat} (base : Nat) (hi : i < nodeNum c) :
    Within (base + i * nodeSize c) (nodeSize c) base (poolSize c) := by
  have hmul : (i + 1) * nodeSize c ≤ nodeNum c * nodeSize c := Nat.mul_le_mul_right _ hi
  rw [Nat.succ_mul] at hmul
  unfold Within poolSize
  omega

theorem nodes_apart {c : Fin 8} {i j : Nat} (base : Nat) (hij : i ≠ j) :
    Apart (base + i * nodeSize c) (nodeSize c) (base + j * nodeSize c) (nodeSize c) := by
  unfold Apart
  rcases Nat.lt_or_gt_of_ne hij with hlt | hlt
  · have hmul : (i + 1) * nodeSize c ≤ j * nodeSize c := Nat.mul_le_mul_right _ hlt
    rw [Nat.succ_mul] at hmul
    omega
  · have hmul : (j + 1) * nodeSize c ≤ i * nodeSize c := Nat.mul_le_mul_right _ hlt
    rw [Nat.succ_mul] at hmul
    omega

/-- A piece lies in one region, of its kind. -/
theorem Piece.region {kind : Option (Fin 8)} {a n : Nat} (hp : Piece regions kind a n) (h : Laid regions) :
    ∃ r ∈ regions, r.kind = kind ∧ Within a n r.base r.size ∧ 0 < n := by
  cases hp with
  | @node c _ hnode =>
      obtain ⟨r, hr, hkind, i, hi, rfl⟩ := hnode
      refine ⟨r, hr, hkind, ?_, Nat.succ_pos _⟩
      rw [h.pool r hr c hkind]
      exact node_within r.base hi
  | chars hr => exact ⟨_, hr, rfl, ⟨Nat.le_refl _, Nat.le_refl _⟩, (h.pos _ hr).2⟩

/-- **Two pieces are the same or apart.** -/
theorem Laid.piece_apart (h : Laid regions) {kind kind' : Option (Fin 8)} {a a' n n' : Nat}
    (hp : Piece regions kind a n)
    (hp' : Piece regions kind' a' n') : (kind = kind' ∧ a = a' ∧ n = n') ∨ Apart a n a' n' := by
  cases hp with
  | @node c _ hnode =>
      obtain ⟨r, hr, hkind, i, hi, rfl⟩ := hnode
      have hin : Within (r.base + i * nodeSize c) (nodeSize c) r.base r.size := by
        rw [h.pool r hr c hkind]
        exact node_within r.base hi
      cases hp' with
      | @node c' _ hnode' =>
          obtain ⟨t, ht, hkind', j, hj, rfl⟩ := hnode'
          obtain rfl | hapart := h.eq_or_apart hr ht
          · obtain rfl : c = c' := Option.some.inj (hkind.symm.trans hkind')
            by_cases hij : i = j
            · subst hij
              exact Or.inl ⟨rfl, rfl, rfl⟩
            · exact Or.inr (nodes_apart r.base hij)
          · refine Or.inr (hapart.mono hin ?_)
            rw [h.pool t ht c' hkind']
            exact node_within t.base hj
      | chars ht =>
          obtain rfl | hapart := h.eq_or_apart hr ht
          · cases hkind
          · exact Or.inr (hapart.mono hin ⟨Nat.le_refl _, Nat.le_refl _⟩)
  | chars hr =>
      cases hp' with
      | @node c' _ hnode' =>
          obtain ⟨t, ht, hkind', j, hj, rfl⟩ := hnode'
          obtain rfl | hapart := h.eq_or_apart hr ht
          · cases hkind'
          · refine Or.inr (hapart.mono ⟨Nat.le_refl _, Nat.le_refl _⟩ ?_)
            rw [h.pool t ht c' hkind']
            exact node_within t.base hj
      | chars ht =>
          obtain heq | hapart := h.eq_or_apart hr ht
          · cases heq
            exact Or.inl ⟨rfl, rfl, rfl⟩
          · exact Or.inr hapart

/-- So one address is that of one piece. -/
theorem Laid.piece_eq (h : Laid regions) {kind kind' : Option (Fin 8)} {a n n' : Nat} (hp : Piece regions kind a n)
    (hp' : Piece regions kind' a n') : kind = kind' ∧ n = n' := by
  obtain ⟨hkind, _, hn⟩ | hapart := h.piece_apart hp hp'
  · exact ⟨hkind, hn⟩
  · obtain ⟨_, _, _, _, hpos⟩ := hp.region h
    obtain ⟨_, _, _, _, hpos'⟩ := hp'.region h
    unfold Apart at hapart
    omega

/-- Pieces stay where memory is added. -/
theorem Piece.cons {kind : Option (Fin 8)} {a n : Nat} (hp : Piece regions kind a n) (r : Region) :
    Piece (r :: regions) kind a n := by
  cases hp with
  | node hnode =>
      obtain ⟨t, ht, hrest⟩ := hnode
      exact .node ⟨t, List.mem_cons_of_mem _ ht, hrest⟩
  | chars hr => exact .chars (List.mem_cons_of_mem _ hr)

theorem Laid.cons (h : Laid regions) {r : Region} (hpos : 0 < r.base ∧ 0 < r.size) (hbelow : r.base + r.size ≤ 2 ^ 64)
    (hapart : ∀ t ∈ regions, Apart r.base r.size t.base t.size) (hpool : ∀ c, r.kind = some c → r.size = poolSize c) :
    Laid (r :: regions) where
  apart := List.pairwise_cons.mpr ⟨hapart, h.apart⟩
  pos := List.forall_mem_cons.mpr ⟨hpos, h.pos⟩
  below := List.forall_mem_cons.mpr ⟨hbelow, h.below⟩
  pool := List.forall_mem_cons.mpr ⟨hpool, h.pool⟩

/-! ## The invariant -/

/-- **What every step keeps.** `free c` are the nodes on the free list of the class `c`. -/
structure Inv (s : MemoryPool) (free : Fin 8 → List Nat) : Prop where
  laid : Laid s.regions
  chain : ∀ c, Chain s.bytes (dataSize c) (s.freeNode c) (free c)
  nodup : ∀ c, (free c).Nodup
  node : ∀ c, ∀ a ∈ free c, NodeAt s.regions c a
  idle : ∀ c, ∀ a ∈ free c, ∀ n, (a + 1, n) ∉ s.live
  block : ∀ p n, (p, n) ∈ s.live → 0 < p ∧ ∃ k, Piece s.regions (origin n) (p - 1) k ∧ n + 1 ≤ k
  tag : ∀ p n, (p, n) ∈ s.live → s.bytes (p - 1) = flagOf (origin n)
  once : (s.live.map Prod.fst).Nodup

/-- A block fits the data of its node. -/
theorem origin_fits {n : Nat} {c : Fin 8} (h : origin n = some c) : n + 1 ≤ dataSize c := by
  unfold origin sizeClass at h
  split_ifs at h <;> cases h <;> simp only [dataSize] <;> omega

theorem classOf_flagOf (k : Option (Fin 8)) : classOf (flagOf k) = k := by
  cases k with
  | none => rfl
  | some c =>
      revert c
      decide

variable {s : MemoryPool} {free : Fin 8 → List Nat}

theorem Piece.pos {kind : Option (Fin 8)} {a n : Nat} (hp : Piece regions kind a n) (h : Laid regions) : 0 < a := by
  obtain ⟨r, hr, _, hin, _⟩ := hp.region h
  exact Nat.lt_of_lt_of_le (h.pos r hr).1 hin.1

/-- What lies in a piece may be loaded and stored. -/
theorem inside_piece (h : Laid s.regions) {kind : Option (Fin 8)} {a k x n : Nat} (hp : Piece s.regions kind a k)
    (hin : Within x n a k) : s.inside x n := by
  obtain ⟨r, hr, _, hregion, _⟩ := hp.region h
  exact List.any_eq_true.mpr ⟨r, hr, decide_eq_true (hin.trans hregion)⟩

/-- **A write to a piece that is on no free list** keeps everything, if it is clear of the tag. -/
theorem Inv.write_piece (h : Inv s free) {kind : Option (Fin 8)} {a k x : Nat} (bytes : List UInt8)
    (hp : Piece s.regions kind a k) (hin : Within x bytes.length a k) (hfree : ∀ c, a ∉ free c)
    (htag : ∀ n, (a + 1, n) ∈ s.live → Apart a 1 x bytes.length) :
    Inv { s with bytes := write s.bytes x bytes } free := by
  refine { h with chain := fun c => (h.chain c).congr fun b hb => ?_, tag := fun p n hlive => ?_ }
  · obtain ⟨_, rfl, _⟩ | hapart := h.laid.piece_apart (.node (h.node c b hb)) hp
    · exact absurd hb (hfree c)
    · exact word_write_apart (hapart.mono ⟨Nat.le_add_right _ _, Nat.le_refl _⟩ hin)
  · obtain ⟨hpos, m, hblock, hfit⟩ := h.block p n hlive
    rw [← h.tag p n hlive]
    refine write_apart ?_
    obtain ⟨_, hsame, _⟩ | hapart := h.laid.piece_apart hblock hp
    · rw [hsame]
      refine htag n ?_
      rw [← hsame, Nat.sub_add_cancel hpos]
      exact hlive
    · exact hapart.mono ⟨Nat.le_refl _, by omega⟩ hin

/-- A piece in use is on no free list. -/
theorem Inv.not_free (h : Inv s free) {p n : Nat} (hlive : (p, n) ∈ s.live) (c : Fin 8) : p - 1 ∉ free c := by
  intro hmem
  have hpos := (h.block p n hlive).1
  refine h.idle c (p - 1) hmem n ?_
  rw [Nat.sub_add_cancel hpos]
  exact hlive

/-- **A byte of a block is written.** -/
theorem Inv.write (h : Inv s free) {p n i : Nat} (hlive : (p, n) ∈ s.live) (hi : i < n) (b : UInt8) :
    ∃ s', s.storeByte? (p + i) b = some s' ∧ Inv s' free := by
  obtain ⟨hpos, k, hpiece, hfit⟩ := h.block p n hlive
  have hin : Within (p + i) 1 (p - 1) k := ⟨by omega, by omega⟩
  refine ⟨_, if_pos (inside_piece h.laid hpiece hin), h.write_piece [b] hpiece hin (h.not_free hlive) fun m _ => ?_⟩
  exact Or.inl (by omega)

/-- **A block is given to the user.** -/
theorem Inv.addLive (h : Inv s free) {p n k : Nat} (hp : Piece s.regions (origin n) p k) (hfit : n + 1 ≤ k)
    (hfree : ∀ c, p ∉ free c) (htag : s.bytes p = flagOf (origin n)) (hnew : ∀ m, (p + 1, m) ∉ s.live) :
    Inv { s with live := (p + 1, n) :: s.live } free where
  laid := h.laid
  chain := h.chain
  nodup := h.nodup
  node := h.node
  idle := by
    intro c a ha m hmem
    obtain heq | hmem := List.mem_cons.mp hmem
    · cases heq
      exact hfree c ha
    · exact h.idle c a ha m hmem
  block := by
    intro q m hmem
    obtain heq | hmem := List.mem_cons.mp hmem
    · cases heq
      exact ⟨Nat.succ_pos p, k, hp, hfit⟩
    · exact h.block q m hmem
  tag := by
    intro q m hmem
    obtain heq | hmem := List.mem_cons.mp hmem
    · cases heq
      exact htag
    · exact h.tag q m hmem
  once := by
    refine List.nodup_cons.mpr ⟨fun hmem => ?_, h.once⟩
    obtain ⟨⟨q, m⟩, hq, heq⟩ := List.mem_map.mp hmem
    cases heq
    exact hnew m hq

/-! ## A new chunk -/

/-- The nodes of a chunk in front of the node `i`, the last first. -/
def nodesBelow (c : Fin 8) (pool i : Nat) : List Nat := (List.range i).reverse.map fun j => pool + j * nodeSize c

def headBelow (c : Fin 8) (pool i : Nat) : Nat := if i > 0 then pool + (i - 1) * nodeSize c else 0

theorem nodesBelow_succ (c : Fin 8) (pool i : Nat) :
    nodesBelow c pool (i + 1) = (pool + i * nodeSize c) :: nodesBelow c pool i := by
  rw [nodesBelow, List.range_succ, List.reverse_append, List.reverse_singleton, List.singleton_append, List.map_cons]
  rfl

theorem mem_nodesBelow {c : Fin 8} {pool i a : Nat} : a ∈ nodesBelow c pool i ↔ ∃ j < i, a = pool + j * nodeSize c := by
  simp only [nodesBelow, List.mem_map, List.mem_reverse, List.mem_range]
  constructor
  · rintro ⟨j, hj, rfl⟩
    exact ⟨j, hj, rfl⟩
  · rintro ⟨j, hj, rfl⟩
    exact ⟨j, hj, rfl⟩

theorem nodup_nodesBelow (c : Fin 8) (pool i : Nat) : (nodesBelow c pool i).Nodup := by
  induction i with
  | zero => exact List.nodup_nil
  | succ i ih =>
      rw [nodesBelow_succ]
      refine List.nodup_cons.mpr ⟨fun hmem => ?_, ih⟩
      obtain ⟨j, hj, heq⟩ := mem_nodesBelow.mp hmem
      have hapart := nodes_apart (c := c) pool (Nat.ne_of_gt hj)
      unfold Apart nodeSize at hapart
      unfold nodeSize at heq
      omega

/-- **The loop links the nodes of the chunk,** each to the one in front of it, and writes nothing outside. -/
theorem linkNodes_spec {c : Fin 8} {pool n i : Nat} (hregion : ⟨pool, poolSize c, some c⟩ ∈ s.regions) (hpos : 0 < pool)
    (hbelow : pool + poolSize c ≤ 2 ^ 64) (hn : i + n = nodeNum c)
    (hchain : Chain s.bytes (dataSize c) (headBelow c pool i) (nodesBelow c pool i)) :
    ∃ bytes, linkNodes c pool n i s = some { s with bytes := bytes } ∧
      (∀ x, Apart x 1 pool (poolSize c) → bytes x = s.bytes x) ∧
      Chain bytes (dataSize c) (headBelow c pool (nodeNum c)) (nodesBelow c pool (nodeNum c)) := by
  induction n generalizing i s with
  | zero =>
      cases hn
      exact ⟨s.bytes, rfl, fun _ _ => rfl, hchain⟩
  | succ n ih =>
      have hnode := node_within (c := c) pool (show i < nodeNum c by omega)
      have hsize : nodeSize c = dataSize c + 8 := rfl
      have hlink : Within (pool + i * nodeSize c + dataSize c) 8 pool (poolSize c) := by
        unfold Within at *
        omega
      have hin : s.inside (pool + i * nodeSize c + dataSize c) 8 = true :=
        List.any_eq_true.mpr ⟨_, hregion, decide_eq_true hlink⟩
      have hstore : s.store? (pool + i * nodeSize c + dataSize c) (headBelow c pool i) =
          some { s with bytes := setWord s.bytes (pool + i * nodeSize c + dataSize c) (headBelow c pool i) } := if_pos hin
      have hhead : headBelow c pool i < 2 ^ 64 := by
        unfold headBelow
        split
        · have hprevious := node_within (c := c) pool (show i - 1 < nodeNum c by omega)
          unfold Within at hprevious
          omega
        · omega
      have hpush := hchain.push (a := pool + i * nodeSize c) (by omega) hhead fun b hb => by
        obtain ⟨j, hj, rfl⟩ := mem_nodesBelow.mp hb
        have hapart := nodes_apart (c := c) pool (Nat.ne_of_lt hj)
        unfold Apart at *
        omega
      rw [← nodesBelow_succ] at hpush
      have hnext : headBelow c pool (i + 1) = pool + i * nodeSize c := if_pos (Nat.succ_pos i)
      rw [← hnext] at hpush
      obtain ⟨bytes, hlinked, houtside, hlast⟩ := @ih
        { s with bytes := setWord s.bytes (pool + i * nodeSize c + dataSize c) (headBelow c pool i) } (i + 1) hregion
        (by omega) hpush
      refine ⟨bytes, ?_, fun x hx => ?_, hlast⟩
      · rw [linkNodes]
        show (s.store? _ (headBelow c pool i)).bind _ = _
        rw [hstore, Option.bind_some, hlinked]
      · rw [houtside x hx]
        exact setWord_apart (hx.mono ⟨Nat.le_refl _, Nat.le_refl _⟩ hlink)

/-- Memory that is handed out anew, to nobody yet. -/
theorem Inv.addRegion (h : Inv s free) {r : Region} (hfresh : s.Fresh r.base r.size) (hpos : 0 < r.size)
    (hpool : ∀ c, r.kind = some c → r.size = poolSize c) : Inv { s with regions := r :: s.regions } free where
  laid := h.laid.cons ⟨hfresh.1, hpos⟩ hfresh.2.1 hfresh.2.2 hpool
  chain := h.chain
  nodup := h.nodup
  node := by
    intro c a ha
    obtain ⟨t, ht, hrest⟩ := h.node c a ha
    exact ⟨t, List.mem_cons_of_mem _ ht, hrest⟩
  idle := h.idle
  block := by
    intro p n hlive
    obtain ⟨hp, k, hpiece, hfit⟩ := h.block p n hlive
    exact ⟨hp, k, hpiece.cons r, hfit⟩
  tag := h.tag
  once := h.once

/-- What is in use is apart from what `new` answers. -/
theorem Fresh.apart_piece (hlaid : Laid s.regions) {b size : Nat} (hfresh : s.Fresh b size) {kind : Option (Fin 8)}
    {a k : Nat} (hp : Piece s.regions kind a k) : Apart a k b size ∧ 0 < k := by
  obtain ⟨r, hr, _, hin, hpos⟩ := hp.region hlaid
  exact ⟨(hfresh.2.2 r hr).symm.mono hin ⟨Nat.le_refl _, Nat.le_refl _⟩, hpos⟩

theorem nodeNum_pos (c : Fin 8) : 0 < nodeNum c := by
  revert c
  decide

/-- The list of one class is another one. -/
theorem Inv.setFree (h : Inv s free) {c : Fin 8} {head : Nat} {l : List Nat}
    (hchain : Chain s.bytes (dataSize c) head l)
    (hnodup : l.Nodup) (hnode : ∀ a ∈ l, NodeAt s.regions c a) (hidle : ∀ a ∈ l, ∀ n, (a + 1, n) ∉ s.live) :
    Inv { s with freeNode := Function.update s.freeNode c head } (Function.update free c l) := by
  refine { h with
    chain := fun c' => ?_
    nodup := (Function.forall_update_iff free fun _ l => l.Nodup).mpr ⟨hnodup, fun c' _ => h.nodup c'⟩
    node := (Function.forall_update_iff free fun c' l => ∀ a ∈ l, NodeAt s.regions c' a).mpr
      ⟨hnode, fun c' _ => h.node c'⟩
    idle := (Function.forall_update_iff free fun _ l => ∀ a ∈ l, ∀ n, (a + 1, n) ∉ s.live).mpr
      ⟨hidle, fun c' _ => h.idle c'⟩ }
  dsimp only
  by_cases hc : c' = c
  · subst hc
    rw [Function.update_self, Function.update_self]
    exact hchain
  · rw [Function.update_of_ne hc, Function.update_of_ne hc]
    exact h.chain c'

/-- The state behind `add_block_memory`: a region more, its nodes on the free list. -/
theorem Inv.addChunk (h : Inv s free) {c : Fin 8} {base head : Nat} {bytes : Nat → UInt8} {pool : Fin 8 → Nat}
    (hfresh : s.Fresh base (poolSize c)) (houtside : ∀ x, Apart x 1 base (poolSize c) → bytes x = s.bytes x)
    (hchain : Chain bytes (dataSize c) head (nodesBelow c base (nodeNum c))) :
    Inv { s with bytes := bytes, regions := ⟨base, poolSize c, some c⟩ :: s.regions, pool := pool
                 freeNode := Function.update s.freeNode c head }
      (Function.update free c (nodesBelow c base (nodeNum c))) := by
  have hadded : Inv { s with regions := ⟨base, poolSize c, some c⟩ :: s.regions } free :=
    h.addRegion hfresh (Nat.succ_pos _) fun c' hc' => by
      cases hc'
      rfl
  -- what is in use is apart from the chunk, and keeps its bytes
  have hwritten :
      Inv { s with bytes := bytes, regions := ⟨base, poolSize c, some c⟩ :: s.regions, pool := pool } free := by
    refine { hadded with chain := fun c' => ?_, tag := fun p n hlive => ?_ }
    · refine (h.chain c').congr fun b hb => word_congr fun i hi => houtside _ ?_
      have hapart := (Fresh.apart_piece h.laid hfresh (.node (h.node c' b hb))).1
      unfold Apart nodeSize at *
      omega
    · obtain ⟨_, k, hpiece, _⟩ := h.block p n hlive
      obtain ⟨hapart, hpos⟩ := Fresh.apart_piece h.laid hfresh hpiece
      rw [← h.tag p n hlive]
      refine houtside _ ?_
      unfold Apart at *
      omega
  refine hwritten.setFree hchain (nodup_nodesBelow _ _ _) (fun a ha => ?_) fun a ha n hlive => ?_
  · exact ⟨_, List.mem_cons_self, rfl, mem_nodesBelow.mp ha⟩
  · obtain ⟨j, hj, rfl⟩ := mem_nodesBelow.mp ha
    obtain ⟨_, k, hpiece, _⟩ := h.block _ n hlive
    obtain ⟨hapart, hpos⟩ := Fresh.apart_piece h.laid hfresh hpiece
    have hin := node_within base hj
    unfold Apart Within nodeSize at *
    omega

/-- **A class whose list is empty gets a chunk.** -/
theorem addBlockMemory_spec (h : Inv s free) {c : Fin 8} {base : Nat} (hfresh : s.Fresh base (poolSize c)) :
    ∃ s', addBlockMemory c base s = some s' ∧ Inv s' (Function.update free c (nodesBelow c base (nodeNum c))) ∧
      s'.live = s.live := by
  have hpos := nodeNum_pos c
  have hnext : Within (base + nodeNum c * nodeSize c) 8 base (poolSize c) := ⟨Nat.le_add_right _ _, Nat.le_of_eq rfl⟩
  have hin : inside { s with regions := ⟨base, poolSize c, some c⟩ :: s.regions }
      (base + nodeNum c * nodeSize c) 8 = true :=
    List.any_eq_true.mpr ⟨_, List.mem_cons_self, decide_eq_true hnext⟩
  have hstart : ∀ m, Chain m (dataSize c) (headBelow c base 0) (nodesBelow c base 0) := fun _ => rfl
  obtain ⟨bytes, hlinked, houtside, hchain⟩ := @linkNodes_spec
    { s with bytes := setWord s.bytes (base + nodeNum c * nodeSize c) (s.pool c)
             regions := ⟨base, poolSize c, some c⟩ :: s.regions
             pool := Function.update s.pool c base } c base (nodeNum c) 0
    List.mem_cons_self hfresh.1 hfresh.2.1 (Nat.zero_add _) (hstart _)
  have hhead : headBelow c base (nodeNum c) = base + (nodeNum c - 1) * nodeSize c := if_pos hpos
  rw [hhead] at hchain
  have hold : ∀ x, Apart x 1 base (poolSize c) → bytes x = s.bytes x := fun x hx =>
    (houtside x hx).trans (setWord_apart (hx.mono ⟨Nat.le_refl _, Nat.le_refl _⟩ hnext))
  refine ⟨_, ?_, @Inv.addChunk s free h c base _ bytes (Function.update s.pool c base) hfresh hold hchain, rfl⟩
  rw [addBlockMemory, store?, if_pos hin, Option.bind_some, hlinked]
  rfl

/-! ## Allocation -/

/-- **A node is taken from its list.** -/
theorem Inv.pop (h : Inv s free) {c : Fin 8} {a : Nat} {l : List Nat} (hfree : free c = a :: l) :
    Inv { s with freeNode := Function.update s.freeNode c (word s.bytes (a + dataSize c)) } (Function.update free c l) ∧
      NodeAt s.regions c a ∧ s.freeNode c = a ∧ ∀ c', a ∉ Function.update free c l c' := by
  have hmem : a ∈ free c := hfree ▸ List.mem_cons_self
  have hnode := h.node c a hmem
  have hchain := h.chain c
  have hnodup := h.nodup c
  rw [hfree] at hchain hnodup
  obtain ⟨hhead, _, hrest⟩ := hchain
  obtain ⟨hnot, hnodup⟩ := List.nodup_cons.mp hnodup
  have hsub : ∀ b ∈ l, b ∈ free c := fun b hb => hfree ▸ List.mem_cons_of_mem _ hb
  have hrest : Inv _ _ := h.setFree hrest hnodup (fun b hb => h.node c b (hsub b hb)) fun b hb => h.idle c b (hsub b hb)
  refine ⟨hrest, hnode, hhead, ?_⟩
  refine (Function.forall_update_iff free fun _ l => a ∉ l).mpr ⟨hnot, fun c' hc ha => hc ?_⟩
  -- a node belongs to one class
  exact Option.some.inj (h.laid.piece_eq (.node (h.node c' a ha)) (.node hnode)).1

/-- A node that is taken from a list that is not empty: its link is cleared, and nobody has it. -/
theorem takeNode_spec (h : Inv s free) {c : Fin 8} (hne : s.freeNode c ≠ 0) :
    ∃ s' free' a, ((s.load? (s.freeNode c + dataSize c)).bind fun next =>
        (store? { s with freeNode := Function.update s.freeNode c next } (s.freeNode c + dataSize c) 0).map fun s' =>
          (s.freeNode c, s')) = some (a, s') ∧
      Inv s' free' ∧ NodeAt s'.regions c a ∧ (∀ c', a ∉ free' c') ∧ (∀ m, (a + 1, m) ∉ s'.live) ∧ s'.live = s.live := by
  cases hfree : free c with
  | nil => exact absurd ((h.chain c).head_eq_zero.mpr hfree) hne
  | cons a l =>
      obtain ⟨hpop, hnode, hhead, hnot⟩ := h.pop hfree
      have hlink : Within (a + dataSize c) 8 a (nodeSize c) := ⟨Nat.le_add_right _ _, Nat.le_of_eq rfl⟩
      have hin : s.inside (a + dataSize c) 8 = true := inside_piece h.laid (.node hnode) hlink
      have hidle : ∀ m, (a + 1, m) ∉ s.live := h.idle c a (hfree ▸ List.mem_cons_self)
      have hlen : (LittleEndian.leBytes 8 0).length = 8 := LittleEndian.leBytes_length 8 0
      have hcleared := hpop.write_piece (LittleEndian.leBytes 8 0) (.node hnode) (by rw [hlen]; exact hlink) hnot
        fun n hlive => absurd hlive (hidle n)
      have hload : s.load? (a + dataSize c) = some (word s.bytes (a + dataSize c)) := if_pos hin
      refine ⟨_, _, a, ?_, hcleared, hnode, hnot, hidle, rfl⟩
      rw [hhead, hload, Option.bind_some]
      exact congrArg (Option.map _) (if_pos hin)

/-- **`memory_allocator::allocate`.** -/
theorem allocateNode_spec (h : Inv s free) {c : Fin 8} {answer : Nat}
    (hfresh : s.freeNode c = 0 → s.Fresh answer (poolSize c)) :
    ∃ s' free' a, allocateNode c answer s = some (a, s') ∧
      Inv s' free' ∧ NodeAt s'.regions c a ∧ (∀ c', a ∉ free' c') ∧ (∀ m, (a + 1, m) ∉ s'.live) ∧ s'.live = s.live := by
  by_cases hzero : s.freeNode c = 0
  · obtain ⟨s₁, hadd, h₁, hlive₁⟩ := addBlockMemory_spec h (hfresh hzero)
    have hne : s₁.freeNode c ≠ 0 := by
      intro hzero₁
      have hempty := (h₁.chain c).head_eq_zero.mp hzero₁
      rw [Function.update_self] at hempty
      have hlen := congrArg List.length hempty
      rw [nodesBelow, List.length_map, List.length_reverse, List.length_range, List.length_nil] at hlen
      exact absurd hlen (Nat.ne_of_gt (nodeNum_pos c))
    obtain ⟨s', free', a, htake, h', hnode, hnot, hidle, hlive⟩ := takeNode_spec h₁ hne
    exact ⟨s', free', a, by rw [allocateNode, if_pos hzero, hadd, Option.bind_some]; exact htake, h', hnode, hnot, hidle,
      hlive.trans hlive₁⟩
  · obtain ⟨s', free', a, htake, hrest⟩ := takeNode_spec h hzero
    exact ⟨s', free', a, by rw [allocateNode, if_neg hzero, Option.bind_some]; exact htake, hrest⟩

/-- The tag is written, and the block given to the user. -/
theorem tag_spec (h : Inv s free) {n a k : Nat} (hp : Piece s.regions (origin n) a k) (hfit : n + 1 ≤ k)
    (hnot : ∀ c, a ∉ free c) (hidle : ∀ m, (a + 1, m) ∉ s.live) :
    ∃ s', s.storeByte? a (flagOf (origin n)) = some s' ∧ Inv { s' with live := (a + 1, n) :: s'.live } free := by
  have hin : Within a 1 a k := ⟨Nat.le_refl _, by omega⟩
  have htagged := h.write_piece [flagOf (origin n)] hp hin hnot fun m hlive => absurd hlive (hidle m)
  exact ⟨_, if_pos (inside_piece h.laid hp hin), htagged.addLive hp hfit hnot write_self hidle⟩

/-- **`allocate`.** -/
theorem allocate_inv (h : Inv s free) {n : Int} {answer : Nat} (hallowed : s.Allowed (.allocate n answer)) :
    ∃ s' free', s.step (.allocate n answer) = some s' ∧ Inv s' free' := by
  obtain ⟨hpos, hbound, hnew⟩ := hallowed
  have hsize : bufferSize n = n + 1 := by
    unfold bufferSize
    rw [Int.bmod_eq_of_le (by omega) (by omega)]
  have horigin : sizeClass (bufferSize n) = origin n.toNat := by
    rw [hsize, origin, Int.toNat_of_nonneg hpos]
  cases hclass : origin n.toNat with
  | some c =>
      rw [newSize, horigin, hclass] at hnew
      -- a class of nodes: one is taken from its list, which is filled first if it is empty
      obtain ⟨s₁, free₁, a, hallocate, h₁, hnode, hnot, hidle, _⟩ := @allocateNode_spec s free h c answer fun hzero =>
        hnew _ (if_pos hzero)
      have hfit : n.toNat + 1 ≤ nodeSize c := Nat.le_trans (origin_fits hclass) (Nat.le_add_right _ _)
      obtain ⟨s₂, htag, h₂⟩ := tag_spec h₁ (n := n.toNat) (by rw [hclass]; exact .node hnode) hfit hnot hidle
      refine ⟨_, free₁, ?_, h₂⟩
      rw [step, allocate, horigin, hclass]
      dsimp only
      rw [hallocate, Option.bind_some]
      dsimp only
      rw [← hclass, htag]
      rfl
  | none =>
      rw [newSize, horigin, hclass] at hnew
      -- too long for every class: the block is a region of its own
      have hfresh := hnew _ rfl
      have hchars : (bufferSize n).toNat = n.toNat + 1 := by
        rw [hsize]
        omega
      rw [hchars] at hfresh
      have h₁ := h.addRegion (r := ⟨answer, n.toNat + 1, none⟩) hfresh (Nat.succ_pos _) fun c hc => by cases hc
      have hpiece : Piece (⟨answer, n.toNat + 1, none⟩ :: s.regions) (origin n.toNat) answer (n.toNat + 1) := by
        rw [hclass]
        exact .chars List.mem_cons_self
      have hnot : ∀ c, answer ∉ free c := by
        intro c hmem
        obtain ⟨hapart, _⟩ := Fresh.apart_piece h.laid hfresh (.node (h.node c answer hmem))
        unfold Apart nodeSize at hapart
        omega
      have hidle : ∀ m, (answer + 1, m) ∉ s.live := by
        intro m hlive
        obtain ⟨_, k, hblock, _⟩ := h.block _ m hlive
        obtain ⟨hapart, hpos'⟩ := Fresh.apart_piece h.laid hfresh hblock
        unfold Apart at hapart
        omega
      obtain ⟨s₂, htag, h₂⟩ := tag_spec h₁ hpiece (Nat.le_refl _) hnot hidle
      refine ⟨_, free, ?_, h₂⟩
      rw [step, allocate, horigin, hclass]
      dsimp only
      rw [Option.bind_some, hchars]
      dsimp only
      rw [hclass] at htag
      rw [htag]
      rfl

/-! ## Deallocation -/

/-- **A block leaves the user,** before its memory is used again. -/
theorem Inv.removeLive (h : Inv s free) (p : Nat) :
    Inv { s with live := s.live.filter fun (q, _) => q ≠ p } free where
  laid := h.laid
  chain := h.chain
  nodup := h.nodup
  node := h.node
  idle := fun c a ha n hlive => h.idle c a ha n (List.mem_of_mem_filter hlive)
  block := fun q n hlive => h.block q n (List.mem_of_mem_filter hlive)
  tag := fun q n hlive => h.tag q n (List.mem_of_mem_filter hlive)
  once := h.once.sublist (List.filter_sublist.map _)

/-- **A node is put on the list of its class.** -/
theorem Inv.push (h : Inv s free) {c : Fin 8} {a : Nat} (hnode : NodeAt s.regions c a) (hnot : ∀ c', a ∉ free c')
    (hidle : ∀ n, (a + 1, n) ∉ s.live) :
    Inv { s with bytes := setWord s.bytes (a + dataSize c) (s.freeNode c), freeNode := Function.update s.freeNode c a }
      (Function.update free c (a :: free c)) := by
  have hlink : Within (a + dataSize c) 8 a (nodeSize c) := ⟨Nat.le_add_right _ _, Nat.le_of_eq rfl⟩
  have hlen : (LittleEndian.leBytes 8 (s.freeNode c)).length = 8 := LittleEndian.leBytes_length 8 _
  have hwritten := h.write_piece (LittleEndian.leBytes 8 (s.freeNode c)) (.node hnode) (by rw [hlen]; exact hlink) hnot
    fun n hlive => absurd hlive (hidle n)
  have hpiece : Piece s.regions (some c) a (nodeSize c) := .node hnode
  -- the head of the list is an address of 64 bits
  have hhead : s.freeNode c < 2 ^ 64 := by
    cases hfree : free c with
    | nil =>
        rw [(h.chain c).head_eq_zero.mpr hfree]
        exact Nat.two_pow_pos 64
    | cons b l =>
        have hchain := h.chain c
        rw [hfree] at hchain
        obtain ⟨r, hr, _, hin, hpos⟩ := (Piece.node (h.node c b (hfree ▸ List.mem_cons_self))).region h.laid
        have hbelow := h.laid.below r hr
        rw [hchain.1]
        unfold Within at hin
        omega
  have hpush := (h.chain c).push (Nat.ne_of_gt (hpiece.pos h.laid)) hhead fun b hb => by
    obtain ⟨_, rfl, _⟩ | hapart := h.laid.piece_apart (.node (h.node c b hb)) hpiece
    · exact absurd hb (hnot c)
    · exact hapart.mono ⟨Nat.le_add_right _ _, Nat.le_of_eq rfl⟩ hlink
  exact hwritten.setFree hpush (List.nodup_cons.mpr ⟨hnot c, h.nodup c⟩) (List.forall_mem_cons.mpr ⟨hnode, h.node c⟩)
    (List.forall_mem_cons.mpr ⟨hidle, h.idle c⟩)

/-- **Memory goes back to the heap,** of which no block is left. -/
theorem Inv.eraseRegion (h : Inv s free) {r : Region} (hr : r ∈ s.regions) (hkind : r.kind = none)
    (hidle : ∀ n, (r.base + 1, n) ∉ s.live) : Inv { s with regions := s.regions.erase r } free := by
  have hsub : ∀ t ∈ s.regions.erase r, t ∈ s.regions := fun t ht => List.mem_of_mem_erase ht
  have hnodes : ∀ c a, NodeAt s.regions c a → NodeAt (s.regions.erase r) c a := by
    rintro c a ⟨t, ht, hkind', hrest⟩
    have hne : t ≠ r := by
      rintro rfl
      rw [hkind] at hkind'
      cases hkind'
    exact ⟨t, (List.mem_erase_of_ne hne).mpr ht, hkind', hrest⟩
  refine { h with
    laid := ⟨h.laid.apart.sublist List.erase_sublist, fun t ht => h.laid.pos t (hsub t ht),
      fun t ht => h.laid.below t (hsub t ht), fun t ht => h.laid.pool t (hsub t ht)⟩
    node := fun c a ha => hnodes c a (h.node c a ha)
    block := fun p n hlive => ?_ }
  obtain ⟨hpos, k, hpiece, hfit⟩ := h.block p n hlive
  refine ⟨hpos, k, ?_, hfit⟩
  generalize origin n = kind at hpiece ⊢
  cases hpiece with
  | node hnode => exact .node (hnodes _ _ hnode)
  | chars ht =>
      refine .chars ((List.mem_erase_of_ne ?_).mpr ht)
      rintro rfl
      refine hidle n ?_
      rw [Nat.sub_add_cancel hpos]
      exact hlive

/-- **`deallocate`.** The block goes back to where it came from: to the front of the list of its class, or to the heap.
    -/
theorem deallocate_inv (h : Inv s free) {p n : Nat} (hlive : (p, n) ∈ s.live) :
    ∃ s' free', s.step (.deallocate p) = some s' ∧ Inv s' free' ∧ (∀ c, origin n = some c →
      s'.freeNode = Function.update s.freeNode c (p - 1) ∧ free' = Function.update free c ((p - 1) :: free c)) ∧
      (origin n = none → s'.freeNode = s.freeNode ∧ s'.regions.length + 1 = s.regions.length) := by
  obtain ⟨hpos, k, hpiece, hfit⟩ := h.block p n hlive
  have htag := h.tag p n hlive
  have hload : s.loadByte? (p - 1) = some (flagOf (origin n)) := by
    rw [loadByte?, if_pos (inside_piece h.laid hpiece ⟨Nat.le_refl _, by omega⟩), htag]
  have hleft := h.removeLive p
  have hidle : ∀ m, (p - 1 + 1, m) ∉ s.live.filter fun (q, _) => q ≠ p := by
    intro m hmem
    rw [Nat.sub_add_cancel hpos] at hmem
    simp at hmem
  cases hclass : origin n with
  | some c =>
      rw [hclass] at hpiece hload
      cases hpiece with
      | node hnode =>
        have hpush := hleft.push hnode (h.not_free hlive) hidle
        have hlink : Within (p - 1 + dataSize c) 8 (p - 1) (nodeSize c) := ⟨Nat.le_add_right _ _, Nat.le_of_eq rfl⟩
        have hstore : s.store? (p - 1 + dataSize c) (s.freeNode c) =
            some { s with bytes := setWord s.bytes (p - 1 + dataSize c) (s.freeNode c) } :=
          if_pos (inside_piece h.laid (.node hnode) hlink)
        refine ⟨_, _, ?_, hpush, fun c' hc' => ?_, fun hnone => by cases hnone⟩
        · rw [step, deallocate, hload, Option.bind_some, classOf_flagOf]
          dsimp only
          rw [deallocateNode, hstore]
          rfl
        · cases hc'
          exact ⟨rfl, rfl⟩
  | none =>
      rw [hclass] at hpiece hload
      cases hpiece with
      | chars hr =>
        -- it is the only region of characters with this address
        obtain ⟨r, hfind⟩ : ∃ r, (s.regions.find? fun r => decide (r.base = p - 1 ∧ r.kind = none)) = some r :=
          Option.isSome_iff_exists.mp (List.find?_isSome.mpr ⟨_, hr, decide_eq_true ⟨rfl, rfl⟩⟩)
        have hmem := List.mem_of_find?_eq_some hfind
        have hfound := List.find?_some hfind
        obtain ⟨hbase, hkind⟩ : r.base = p - 1 ∧ r.kind = none := of_decide_eq_true hfound
        have herase := hleft.eraseRegion hmem hkind (by rw [hbase]; exact hidle)
        refine ⟨_, free, ?_, herase, fun c' hc' => (by cases hc'), fun _ => ⟨rfl, ?_⟩⟩
        · rw [step, deallocate, hload, Option.bind_some, classOf_flagOf]
          dsimp only
          rw [deleteChars, hfind]
          rfl
        · show (s.regions.erase r).length + 1 = s.regions.length
          rw [List.length_erase_of_mem hmem]
          exact Nat.sub_add_cancel (List.length_pos_of_mem hmem)

/-! ## Every run -/

/-- **The pool is sound.** A block has its bytes in memory that was handed out; two blocks are apart, also with their
    tags; the tag of a block is that of the allocator it came from. Each free list is a chain of nodes, none of them
    twice or on another list, apart from all blocks. And a block that is given back goes to the front of the list of
    its allocator, or, if it came from the heap, the heap gets it. -/
structure Sound (s : MemoryPool) (free : Fin 8 → List Nat) : Prop where
  usable : ∀ p n, (p, n) ∈ s.live → ∃ r ∈ s.regions, Within p n r.base r.size
  apart : s.live.Pairwise fun x y => Apart (x.1 - 1) (x.2 + 1) (y.1 - 1) (y.2 + 1)
  tag : ∀ p n, (p, n) ∈ s.live → s.bytes (p - 1) = flagOf (origin n)
  chain : ∀ c, Chain s.bytes (dataSize c) (s.freeNode c) (free c)
  nodup : ∀ c, (free c).Nodup
  other : ∀ c c' a, a ∈ free c → a ∈ free c' → c = c'
  clear : ∀ c, ∀ a ∈ free c, ∀ p n, (p, n) ∈ s.live → Apart a (nodeSize c) (p - 1) (n + 1)
  back : ∀ p n, (p, n) ∈ s.live → ∃ s', s.step (.deallocate p) = some s' ∧
    (∀ c, origin n = some c → s'.freeNode = Function.update s.freeNode c (p - 1) ∧
      Chain s'.bytes (dataSize c) (p - 1) ((p - 1) :: free c)) ∧
    (origin n = none → s'.freeNode = s.freeNode ∧ s'.regions.length + 1 = s.regions.length)

theorem Inv.sound (h : Inv s free) : Sound s free where
  usable := by
    intro p n hlive
    obtain ⟨hpos, k, hpiece, hfit⟩ := h.block p n hlive
    obtain ⟨r, hr, _, hin, _⟩ := hpiece.region h.laid
    refine ⟨r, hr, ?_⟩
    unfold Within at *
    omega
  apart := by
    have hnodup : s.live.Pairwise fun x y => x.1 ≠ y.1 := List.pairwise_map.mp h.once
    refine hnodup.imp_of_mem fun {x y} hx hy hne => ?_
    obtain ⟨hposx, k, hpx, hfitx⟩ := h.block x.1 x.2 hx
    obtain ⟨hposy, k', hpy, hfity⟩ := h.block y.1 y.2 hy
    obtain ⟨_, hsame, _⟩ | hapart := h.laid.piece_apart hpx hpy
    · exact absurd (by omega) hne
    · exact hapart.mono ⟨Nat.le_refl _, by omega⟩ ⟨Nat.le_refl _, by omega⟩
  tag := h.tag
  chain := h.chain
  nodup := h.nodup
  other := by
    intro c c' a ha ha'
    exact Option.some.inj (h.laid.piece_eq (.node (h.node c a ha)) (.node (h.node c' a ha'))).1
  clear := by
    intro c a ha p n hlive
    obtain ⟨_, k, hpiece, hfit⟩ := h.block p n hlive
    obtain ⟨_, hsame, _⟩ | hapart := h.laid.piece_apart (.node (h.node c a ha)) hpiece
    · exact absurd (hsame ▸ ha) (h.not_free hlive c)
    · exact hapart.mono ⟨Nat.le_refl _, Nat.le_refl _⟩ ⟨Nat.le_refl _, by omega⟩
  back := by
    intro p n hlive
    obtain ⟨s', free', hstep, h', hnode, hheap⟩ := deallocate_inv h hlive
    refine ⟨s', hstep, fun c hc => ?_, hheap⟩
    obtain ⟨hfirst, rfl⟩ := hnode c hc
    have hchain := h'.chain c
    rw [hfirst, Function.update_self, Function.update_self] at hchain
    exact ⟨hfirst, hchain⟩

/-- A pool that was just made. -/
def init (bytes : Nat → UInt8) : MemoryPool := { bytes := bytes }

theorem inv_init (bytes : Nat → UInt8) : Inv (init bytes) fun _ => [] where
  laid := ⟨.nil, List.forall_mem_nil _, List.forall_mem_nil _, List.forall_mem_nil _⟩
  chain := fun _ => rfl
  nodup := fun _ => List.nodup_nil
  node := fun _ => List.forall_mem_nil _
  idle := fun _ => List.forall_mem_nil _
  block := fun _ _ hlive => by cases hlive
  tag := fun _ _ hlive => by cases hlive
  once := List.nodup_nil

/-- **The memory pool is correct.** No run of its users fails, and the pool is sound in every state of it. -/
theorem blocks_disjoint_along (bytes : Nat → UInt8) {labels : List Label} (h : Along step Allowed (init bytes) labels) :
    (∃ s, run step (init bytes) labels = some s) ∧
      ∀ pre, pre <+: labels → ∀ s, run step (init bytes) pre = some s → ∃ free, Sound s free := by
  have hstep : ∀ {s : MemoryPool} {label : Label}, (∃ free, Inv s free) → Allowed s label →
      ∃ s', step s label = some s' ∧ ∃ free, Inv s' free := by
    rintro s label ⟨free, hinv⟩ hallowed
    cases label with
    | allocate n answer =>
        obtain ⟨s', free', hs', h'⟩ := allocate_inv hinv hallowed
        exact ⟨s', hs', free', h'⟩
    | write p i b =>
        obtain ⟨n, hlive, hi⟩ := hallowed
        obtain ⟨s', hs', h'⟩ := hinv.write hlive hi b
        exact ⟨s', hs', free, h'⟩
    | deallocate p =>
        obtain ⟨n, hlive⟩ := hallowed
        obtain ⟨s', free', hs', h', _⟩ := deallocate_inv hinv hlive
        exact ⟨s', hs', free', h'⟩
  obtain ⟨s, hrun, _⟩ := runs_along hstep ⟨_, inv_init bytes⟩ h
  refine ⟨⟨s, hrun⟩, ?_⟩
  rintro pre ⟨rest, rfl⟩ s₁ hpre
  obtain ⟨s₂, hrun₂, free, hs₂⟩ := runs_along hstep ⟨_, inv_init bytes⟩ ((along_append hpre).mp h).1
  rw [hpre] at hrun₂
  cases hrun₂
  exact ⟨free, hs₂.sound⟩

instance (s : MemoryPool) (a n : Nat) : Decidable (s.Fresh a n) :=
  inferInstanceAs (Decidable (0 < a ∧ a + n ≤ 2 ^ 64 ∧ ∀ r ∈ s.regions, a + n ≤ r.base ∨ r.base + r.size ≤ a))

/-- The contract is one that a user can check. -/
instance (s : MemoryPool) : ∀ label, Decidable (s.Allowed label)
  | .allocate n answer =>
    decidable_of_iff (0 ≤ n ∧ n < 2 ^ 31 - 1 ∧ ∀ size ∈ s.newSize n, s.Fresh answer size) Iff.rfl
  | .write p i _       => decidable_of_iff (∃ block ∈ s.live, block.1 = p ∧ i < block.2) (by
      constructor
      · rintro ⟨⟨_, n⟩, hlive, rfl, hi⟩
        exact ⟨n, hlive, hi⟩
      · rintro ⟨n, hlive, hi⟩
        exact ⟨(p, n), hlive, rfl, hi⟩)
  | .deallocate p      => decidable_of_iff (∃ block ∈ s.live, block.1 = p) (by
      constructor
      · rintro ⟨⟨_, n⟩, hlive, rfl⟩
        exact ⟨n, hlive⟩
      · rintro ⟨n, hlive⟩
        exact ⟨(p, n), hlive, rfl⟩)

/-- A block of the heap beside two nodes of one chunk. One node is given back and handed out again while the other
    blocks are in use. -/
def mixedRun : List Label :=
  [.allocate 5000 4096, .allocate 3000 65536, .allocate 4000 0, .write 4097 4999 7, .write 127097 0 8,
    .write 122993 3999 9, .deallocate 127097, .allocate 2500 0, .write 127097 2499 10, .deallocate 4097,
    .allocate 7000 4096]

theorem blocks_disjoint_along_mixed :
    (∃ s, run step (init fun _ => 0) mixedRun = some s) ∧
    (∀ pre, pre <+: mixedRun → ∀ s, run step (init fun _ => 0) pre = some s → ∃ free, Sound s free) ∧
    (run step (init fun _ => 0) mixedRun).map (·.live) = some [(4097, 7000), (127097, 2500), (122993, 4000)] := by
  have halong : Along step Allowed (init fun _ => 0) mixedRun := by decide +kernel
  obtain ⟨hrun, hsound⟩ := blocks_disjoint_along (fun _ => 0) halong
  refine ⟨hrun, hsound, ?_⟩
  decide +kernel

end MemoryPool

end Mowang
