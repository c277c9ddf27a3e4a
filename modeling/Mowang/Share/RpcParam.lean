import Mowang.Share.DynamicArray

/-!
# `Share.RpcParam` — the argument codec of the rpc layer

`fill_packet` writes an argument list into a packet buffer, `rpc_param<N, M>::convert` decodes one into
the elements of a tuple, and `call_helper<N>` unpacks the tuple into a call. An argument is an object of
one of six shapes, and encoder and decoder are each a family over the shapes. An index `i` into a block
stands for `buffer + buffer_index`.

`Value` is what an argument object holds, `Value.encode` its wire format.

## Contents
- `emits_fillPacket` — `fill_packet` writes exactly the encodings, one behind the other.
- `decodes_convert` — `convert` accepts exactly the encodings of the tuple's types.
- `callHelper_eq` — `call_helper` passes the tuple's elements in order.
-/

namespace Mowang

open LittleEndian Block

/-! ## Argument types and objects -/

/-- The shapes of an argument type; a scalar or packed struct is known by its size. -/
inductive ParamType
  | pod (size : Nat)
  | dynamicString
  | dynamicStringArray
  | dynamicStringArray2
  | dynamicArray (size : Nat)
deriving DecidableEq

/-- An object of a scalar type or packed struct: its bytes. -/
abbrev Pod (size : Nat) := Block UInt8 size

instance (size : Nat) : Inhabited (Pod size) := ⟨Block.fill size 0⟩

/-- A scalar of `size` bytes. -/
def Pod.ofNat (size v : Nat) : Pod size := ⟨leBytes size v, leBytes_length size v⟩

theorem flatMap_cells_length {size : Nat} (data : List (Pod size)) :
    (data.flatMap Block.cells).length = size * data.length := by
  induction data with
  | nil => rfl
  | cons x data ih =>
      rw [List.flatMap_cons, List.length_append, x.size_eq, ih, List.length_cons, Nat.mul_succ]
      omega

/-- An argument object. -/
inductive Param
  | pod {size : Nat} (value : Pod size)
  | dynamicString (value : DynamicString)
  | dynamicStringArray (value : DynamicStringArray)
  | dynamicStringArray2 (value : DynamicStringArray2)
  | dynamicArray {size : Nat} (value : DynamicArray (Pod size))

namespace Param

def type : Param → ParamType
  | @pod size _                    => .pod size
  | .dynamicString _               => .dynamicString
  | .dynamicStringArray _          => .dynamicStringArray
  | .dynamicStringArray2 _         => .dynamicStringArray2
  | @dynamicArray size _           => .dynamicArray size

/-- The default-constructed object of a type. -/
def mk' : ParamType → Param
  | .pod size            => .pod (default : Pod size)
  | .dynamicString       => .dynamicString DynamicString.mk'
  | .dynamicStringArray  => .dynamicStringArray DynamicArray2.mk'
  | .dynamicStringArray2 => .dynamicStringArray2 DynamicArray2.mk'
  | .dynamicArray size   => .dynamicArray (DynamicArray.mk' (T := Pod size))

end Param

/-! ## What an object holds -/

/-- The value of an argument, without its storage. -/
inductive Value
  | pod {size : Nat} (value : Pod size)
  | dynamicString (value : List UInt8)
  | dynamicStringArray (value : List (List UInt8))
  | dynamicStringArray2 (value : List (List (List UInt8)))
  | dynamicArray {size : Nat} (value : List (Pod size))

namespace Value

def type : Value → ParamType
  | @pod size _                    => .pod size
  | .dynamicString _               => .dynamicString
  | .dynamicStringArray _          => .dynamicStringArray
  | .dynamicStringArray2 _         => .dynamicStringArray2
  | @dynamicArray size _           => .dynamicArray size

theorem type_eq_pod {v : Value} {size : Nat} : v.type = .pod size ↔ ∃ x : Pod size, v = .pod x := by
  cases v with
  | pod x =>
      constructor
      · intro h
        cases h
        exact ⟨x, rfl⟩
      · rintro ⟨y, h⟩
        cases h
        rfl
  | _ => simp [type]

theorem type_eq_dynamicString {v : Value} : v.type = .dynamicString ↔ ∃ bs, v = .dynamicString bs := by
  cases v <;> simp [type]

theorem type_eq_dynamicArray {v : Value} {size : Nat} :
    v.type = .dynamicArray size ↔ ∃ vs : List (Pod size), v = .dynamicArray vs := by
  cases v with
  | dynamicArray vs =>
      constructor
      · intro h
        cases h
        exact ⟨vs, rfl⟩
      · rintro ⟨ws, h⟩
        cases h
        rfl
  | _ => simp [type]

/-- The wire format of a string. -/
def encodeString (bs : List UInt8) : List UInt8 := leBytes 2 bs.length ++ bs

/-- The wire format: containers carry their element count in two bytes. -/
def encode : Value → List UInt8
  | .pod value                 => value.cells
  | .dynamicString bs          => encodeString bs
  | .dynamicStringArray vs     => counted encodeString vs
  | .dynamicStringArray2 vss   => counted (counted encodeString) vss
  | .dynamicArray vs           => counted Block.cells vs

/-- Every container is short enough for `push_back` to fill it. -/
def Pushable : Value → Prop
  | .pod _                     => True
  | .dynamicString bs          => bs.length ≤ 32767
  | .dynamicStringArray vs     => vs.length ≤ 32767 ∧ ∀ bs ∈ vs, bs.length ≤ 32767
  | .dynamicStringArray2 vss   =>
      vss.length ≤ 32767 ∧ ∀ vs ∈ vss, vs.length ≤ 32767 ∧ ∀ bs ∈ vs, bs.length ≤ 32767
  | .dynamicArray vs           => vs.length ≤ 32767

/-- The strings and the arrays of one-byte elements are short enough for `push_back` to fill them. -/
def BytesPushable : Value → Prop
  | .pod _                           => True
  | .dynamicString bs                => bs.length ≤ 32767
  | .dynamicStringArray vs           => ∀ bs ∈ vs, bs.length ≤ 32767
  | .dynamicStringArray2 vss         => ∀ vs ∈ vss, ∀ bs ∈ vs, bs.length ≤ 32767
  | @dynamicArray size vs            => size ≤ 1 → vs.length ≤ 32767

end Value

/-- The object holds the value. -/
inductive Param.Holds : Param → Value → Prop
  | pod {size : Nat} (value : Pod size) : Holds (.pod value) (.pod value)
  | dynamicString {s : DynamicString} {bs : List UInt8} :
      DynamicCells.Holds s bs → Holds (.dynamicString s) (.dynamicString bs)
  | dynamicStringArray {a : DynamicStringArray} {vs : List (List UInt8)} :
      DynamicArray2.Holds DynamicCells.Holds a vs → Holds (.dynamicStringArray a) (.dynamicStringArray vs)
  | dynamicStringArray2 {a : DynamicStringArray2} {vss : List (List (List UInt8))} :
      DynamicArray2.Holds (DynamicArray2.Holds DynamicCells.Holds) a vss →
        Holds (.dynamicStringArray2 a) (.dynamicStringArray2 vss)
  | dynamicArray {size : Nat} {a : DynamicArray (Pod size)} {vs : List (Pod size)} :
      DynamicCells.Holds a vs → Holds (.dynamicArray a) (.dynamicArray vs)

theorem Param.Holds.type_eq {p : Param} {v : Value} (h : p.Holds v) : v.type = p.type := by
  cases h <;> rfl

theorem Param.Holds.types_eq {args : List Param} {vs : List Value} (h : List.Forall₂ Param.Holds args vs) :
    vs.map Value.type = args.map Param.type := by
  induction h with
  | nil => rfl
  | cons hp _ ih => rw [List.map_cons, List.map_cons, hp.type_eq, ih]

/-! ## `rpc_param_fill` -/

section Fill

variable {n : Nat}

/-- `rpc_param_fill<dynamic_string, dynamic_string>::fill_param`: the length, then a `memcpy`. -/
def fillString (value : DynamicString) (b : Block UInt8 n) (i : Nat) : Option (Block UInt8 n × Nat) :=
  let len := value.len
  (writeBytes (leBytes 2 len) b i).bind fun (b, i) =>
  if len ≤ value.data.length then writeBytes (value.data.take len) b i else none

/-- `rpc_param_fill<dynamic_string_array, dynamic_string>::fill_param`. -/
def fillStringArray (value : DynamicStringArray) : Block UInt8 n → Nat → Option (Block UInt8 n × Nat) :=
  writeCounted value.len fun k b i => (value.get k).bind fun s => fillString s b i

/-- `rpc_param_fill<dynamic_string_array2, dynamic_string_array>::fill_param`. -/
def fillStringArray2 (value : DynamicStringArray2) : Block UInt8 n → Nat → Option (Block UInt8 n × Nat) :=
  writeCounted value.len fun k b i => (value.get k).bind fun a => fillStringArray a b i

/-- `rpc_param_fill<dynamic_array<T>, T>::fill_param`. -/
def fillArray {size : Nat} (value : DynamicArray (Pod size)) :
    Block UInt8 n → Nat → Option (Block UInt8 n × Nat) :=
  writeCounted value.len fun k b i => (DynamicArray.get? value k).bind fun x => writeBytes x.cells b i

/-- `rpc_param_fill<T1, T2>::fill_param`, by the shape of the argument. -/
def fillParam : Param → Block UInt8 n → Nat → Option (Block UInt8 n × Nat)
  | .pod value                 => writeBytes value.cells
  | .dynamicString value       => fillString value
  | .dynamicStringArray value  => fillStringArray value
  | .dynamicStringArray2 value => fillStringArray2 value
  | .dynamicArray value        => fillArray value

/-- `fill_packet`. -/
def fillPacket : List Param → Block UInt8 n → Nat → Option (Block UInt8 n × Nat)
  | [],        b, i => some (b, i)
  | p :: args, b, i => (fillParam p b i).bind fun (b, i) => fillPacket args b i

theorem emits_fillString {s : DynamicString} {bs : List UInt8} (h : DynamicCells.Holds s bs) :
    Emits (n := n) (fillString s) (Value.encodeString bs) := by
  obtain ⟨htl, hl⟩ := h
  have hfit : s.len ≤ s.data.length := by
    have hlen : (s.data.take s.len).length = bs.length := by rw [← htl]; rfl
    rw [List.length_take] at hlen
    omega
  have hbody : Emits (n := n)
      (fun b i => if s.len ≤ s.data.length then writeBytes (s.data.take s.len) b i else none) bs := by
    intro b i _
    rw [← htl]
    exact if_pos hfit
  have hcat := (emits_writeBytes (n := n) (leBytes 2 s.len)).bind hbody
  rw [Value.encodeString, ← hl]
  exact hcat

/-- A container of pointers is written if the objects behind the pointers are. -/
theorem emits_writeCounted_get {T V : Type} {den : T → V → Prop} {a : DynamicArray2 T} {vs : List V}
    {elem : T → Block UInt8 n → Nat → Option (Block UInt8 n × Nat)} {enc : V → List UInt8}
    (h : DynamicArray2.Holds den a vs) (helem : ∀ {x v}, den x v → Emits (elem x) (enc v)) :
    Emits (writeCounted a.len fun k b i => (a.get k).bind fun x => elem x b i) (counted enc vs) := by
  rw [h.1]
  refine emits_writeCounted fun k hk => ?_
  obtain ⟨x, hx, hd⟩ := h.get hk
  intro b i hi
  rw [hx]
  exact helem hd b i hi

theorem emits_fillArray {size : Nat} {a : DynamicArray (Pod size)} {vs : List (Pod size)}
    (h : DynamicCells.Holds a vs) : Emits (n := n) (fillArray a) (counted Block.cells vs) := by
  obtain ⟨htl, hl⟩ := h
  rw [fillArray, hl]
  refine emits_writeCounted fun k hk => ?_
  have hget : DynamicArray.get? a k = some vs[k] := by
    rw [DynamicArray.get?, if_neg (by omega), ← List.getElem?_eq_getElem hk, ← htl, DynamicCells.toList,
      List.getElem?_take_of_lt (by omega)]
  intro b i hi
  rw [hget]
  rfl

/-- `fill_param` writes the encoding of the value the argument holds. -/
theorem emits_fillParam {p : Param} {v : Value} (h : p.Holds v) : Emits (n := n) (fillParam p) v.encode := by
  cases h with
  | pod value => exact emits_writeBytes _
  | dynamicString hs => exact emits_fillString hs
  | dynamicStringArray ha => exact emits_writeCounted_get ha emits_fillString
  | dynamicStringArray2 ha =>
      exact emits_writeCounted_get ha fun hd => emits_writeCounted_get hd emits_fillString
  | dynamicArray ha => exact emits_fillArray ha

/-- **`fill_packet`** writes the encodings one behind the other, or leaves the buffer. -/
theorem emits_fillPacket {args : List Param} {vs : List Value} (h : List.Forall₂ Param.Holds args vs) :
    Emits (n := n) (fillPacket args) (vs.flatMap Value.encode) := by
  induction h with
  | nil => exact fun b i hi => (writeBytes_nil hi).symm
  | cons hp _ ih => exact (emits_fillParam hp).bind ih

end Fill

/-! ## `rpc_param_parse` -/

section Parse

variable {n : Nat} (b : Block UInt8 n)

/-- `rpc_param_parse<dynamic_string, dynamic_string>::parse_param`. -/
def parseString (value : DynamicString) (i : Nat) : Option (DynamicString × Nat) :=
  readCounted b b.readCell DynamicString.pushBack value i

/-- `rpc_param_parse<dynamic_string_array, dynamic_string>::parse_param`. -/
def parseStringArray (value : DynamicStringArray) (i : Nat) : Option (DynamicStringArray × Nat) :=
  readCounted b (parseString b DynamicString.mk') (DynamicArray2.pushBack DynamicString.copy?) value i

/-- `rpc_param_parse<dynamic_string_array2, dynamic_string_array>::parse_param`. -/
def parseStringArray2 (value : DynamicStringArray2) (i : Nat) : Option (DynamicStringArray2 × Nat) :=
  readCounted b (parseStringArray b DynamicArray2.mk')
    (DynamicArray2.pushBack (DynamicArray2.copy? DynamicString.copy?)) value i

/-- `rpc_param_parse<dynamic_array<T>, T>::parse_param`. -/
def parseArray {size : Nat} (value : DynamicArray (Pod size)) (i : Nat) :
    Option (DynamicArray (Pod size) × Nat) :=
  readCounted b (b.readBlock size) DynamicArray.pushBack value i

/-- `rpc_param_parse<T1, T2>::parse_param`, by the shape of the argument. -/
def parseParam (value : Param) (i : Nat) : Option (Param × Nat) :=
  match value with
  | @Param.pod size _           => (b.readBlock size i).map fun (x, i) => (.pod x, i)
  | .dynamicString value        => (parseString b value i).map fun (x, i) => (.dynamicString x, i)
  | .dynamicStringArray value   => (parseStringArray b value i).map fun (x, i) => (.dynamicStringArray x, i)
  | .dynamicStringArray2 value  => (parseStringArray2 b value i).map fun (x, i) => (.dynamicStringArray2 x, i)
  | .dynamicArray value         => (parseArray b value i).map fun (x, i) => (.dynamicArray x, i)

/-- `rpc_param_wrapper<N>::convert_core`. -/
def convertCore (N : Nat) (params : List Param) (i : Nat) : Option (List Param × Nat) :=
  params[N]?.bind fun p => (parseParam b p i).map fun (p, i) => (params.set N p, i)

/-- `rpc_param<N, M>::convert`: elements `M - N … M - 1` of the tuple. -/
def convert : Nat → Nat → List Param → Nat → Option (List Param × Nat)
  | 0,     _, params, i => some (params, i)
  | N + 1, M, params, i =>
      (convertCore b (M - (N + 1)) params i).bind fun (params, i) => convert N M params i

/-- Short strings, as they come out of `parse_param` and as `push_back` copies them. -/
def ShortString (s : DynamicString) (bs : List UInt8) : Prop := DynamicCells.Holds s bs ∧ bs.length ≤ 32767

theorem ShortString.copy {s : DynamicString} {bs : List UInt8} (h : ShortString s bs) :
    ∃ s', s.copy? = some s' ∧ ShortString s' bs := by
  obtain ⟨s', hs', hh⟩ := DynamicString.copy?_spec h.1 (Nat.lt_of_le_of_lt h.2 (by decide))
  exact ⟨s', hs', hh, h.2⟩

theorem decodes_parseString :
    Decodes b (parseString b DynamicString.mk') Value.encodeString (fun bs => bs.length ≤ 32767)
      ShortString := by
  have henc : Value.encodeString = counted (fun c => [c]) := by
    funext bs
    rw [counted, List.flatMap_singleton', Value.encodeString]
  rw [henc]
  have hread := (decodes_readCell b).counted DynamicString.pushBack_accumulates
    ⟨DynamicString.mk'_grown, DynamicString.mk'_toList⟩ (by decide)
  refine hread.imp (fun bs => by simp) ?_
  rintro s bs ⟨hlen, _⟩ ⟨hg, rfl⟩
  exact ⟨⟨rfl, hg.toList_length.symm⟩, hlen⟩

theorem decodes_parseStringArray :
    Decodes b (parseStringArray b DynamicArray2.mk') (counted Value.encodeString)
      (fun vs => vs.length ≤ 32767 ∧ ∀ bs ∈ vs, bs.length ≤ 32767) (DynamicArray2.Holds ShortString) := by
  have helem := (decodes_parseString b).imp (fun _ => Iff.rfl) fun _ h => ShortString.copy h
  have hread := helem.counted DynamicArray2.pushBack_accumulates
    ⟨DynamicArray2.mk'_grown, DynamicArray2.Holds.mk'_nil⟩ (by decide)
  exact hread.imp (fun _ => Iff.rfl) fun _ h => h.2

theorem decodes_parseStringArray2 :
    Decodes b (parseStringArray2 b DynamicArray2.mk') (counted (counted Value.encodeString))
      (fun vss => vss.length ≤ 32767 ∧ ∀ vs ∈ vss, vs.length ≤ 32767 ∧ ∀ bs ∈ vs, bs.length ≤ 32767)
      (DynamicArray2.Holds (DynamicArray2.Holds ShortString)) := by
  have helem := (decodes_parseStringArray b).imp (fun _ => Iff.rfl)
    fun _ h => DynamicArray2.copy?_spec ShortString.copy h
  have hread := helem.counted DynamicArray2.pushBack_accumulates
    ⟨DynamicArray2.mk'_grown, DynamicArray2.Holds.mk'_nil⟩ (by decide)
  exact hread.imp (fun _ => Iff.rfl) fun _ h => h.2

theorem decodes_parseArray (size : Nat) :
    Decodes b (parseArray b (DynamicArray.mk' (T := Pod size))) (counted Block.cells)
      (fun vs => vs.length ≤ 32767) DynamicCells.Holds := by
  have hread := (decodes_readBlock b size).counted DynamicArray.pushBack_accumulates
    ⟨DynamicArray.mk'_grown, DynamicArray.mk'_toList⟩ (by decide)
  refine hread.imp (fun vs => by simp) ?_
  rintro a vs _ ⟨hg, rfl⟩
  exact ⟨rfl, hg.toList_length.symm⟩

/-- `parse_param` accepts exactly the encodings of the argument's type. -/
theorem decodes_parseParam (t : ParamType) :
    Decodes b (parseParam b (Param.mk' t)) Value.encode (fun v => v.type = t ∧ v.Pushable) Param.Holds := by
  cases t with
  | pod size =>
      refine (decodes_readBlock b size).map Value.pod Param.pod (fun _ => rfl) (fun v => ?_) ?_
      · constructor
        · rintro ⟨ht, _⟩
          obtain ⟨x, rfl⟩ := Value.type_eq_pod.mp ht
          exact ⟨x, rfl, trivial⟩
        · rintro ⟨x, rfl, _⟩
          exact ⟨rfl, trivial⟩
      · rintro x v _ rfl
        exact .pod x
  | dynamicString =>
      refine (decodes_parseString b).map Value.dynamicString Param.dynamicString (fun _ => rfl)
        (fun v => ?_) fun _ h => .dynamicString h.1
      cases v <;> simp [Value.type, Value.Pushable]
  | dynamicStringArray =>
      refine (decodes_parseStringArray b).map Value.dynamicStringArray Param.dynamicStringArray
        (fun _ => rfl) (fun v => ?_) fun _ h => .dynamicStringArray (h.imp And.left)
      cases v <;> simp [Value.type, Value.Pushable]
  | dynamicStringArray2 =>
      refine (decodes_parseStringArray2 b).map Value.dynamicStringArray2 Param.dynamicStringArray2
        (fun _ => rfl) (fun v => ?_) fun _ h => .dynamicStringArray2 (h.imp (·.imp And.left))
      cases v <;> simp [Value.type, Value.Pushable]
  | dynamicArray size =>
      refine (decodes_parseArray b size).map Value.dynamicArray Param.dynamicArray (fun _ => rfl)
        (fun v => ?_) fun _ h => .dynamicArray h
      constructor
      · rintro ⟨ht, hlen⟩
        obtain ⟨vs, rfl⟩ := Value.type_eq_dynamicArray.mp ht
        exact ⟨vs, rfl, hlen⟩
      · rintro ⟨vs, rfl, hlen⟩
        exact ⟨rfl, hlen⟩

/-- The encodings of arguments of these types stand at `i`, short enough to be decoded. -/
def HasArgs (i : Nat) (types : List ParamType) (vs : List Value) : Prop :=
  vs.map Value.type = types ∧ (∀ v ∈ vs, v.Pushable) ∧ b.Has i (vs.flatMap Value.encode)

/-- **`convert`.** Over the elements of a tuple that are still default-constructed, `convert` accepts
    exactly the encodings of values of their types. -/
theorem decodes_convert (types : List ParamType) (done : List Param) {M : Nat}
    (hM : M = done.length + types.length) :
    Decodes b (convert b types.length M (done ++ types.map Param.mk'))
      (fun vs => vs.flatMap Value.encode) (fun vs => vs.map Value.type = types ∧ ∀ v ∈ vs, v.Pushable)
      (fun params vs => ∃ new, params = done ++ new ∧ List.Forall₂ Param.Holds new vs) := by
  -- the induction is on the parameters still to be read; `done` are those before them
  induction types generalizing done with
  | nil =>
      constructor
      · intro i params j hi hr
        cases hr
        exact ⟨[], ⟨[], rfl, .nil⟩, ⟨rfl, by simp⟩, has_nil.mpr hi, rfl⟩
      · rintro i vs _ ⟨ht, _⟩
        obtain rfl := List.map_eq_nil_iff.mp ht
        exact ⟨_, rfl, [], rfl, .nil⟩
  | cons t types ih =>
      rw [List.length_cons] at hM
      have hk : M - (types.length + 1) = done.length := by omega
      have hcore : ∀ i, convertCore b (M - (types.length + 1)) (done ++ Param.mk' t :: types.map Param.mk') i =
          (parseParam b (Param.mk' t) i).map fun (p, i) => (done ++ [p] ++ types.map Param.mk', i) := by
        intro i
        simp [convertCore, hk, List.set_append_right]
      have hrest := fun p => ih (done ++ [p]) (by rw [List.length_append, List.length_singleton]; omega)
      constructor
      · intro i params j hi hr
        rw [List.map_cons, List.length_cons, convert, hcore] at hr
        obtain ⟨⟨ps, i₁⟩, hp, hr⟩ := Option.bind_eq_some_iff.mp hr
        obtain ⟨⟨p, i₂⟩, hparse, heq⟩ := Option.map_eq_some_iff.mp hp
        cases heq
        obtain ⟨v, hhold, ⟨ht, hfit⟩, hhas, rfl⟩ := (decodes_parseParam b t).sound hi hparse
        obtain ⟨vs, ⟨new, rfl, hnew⟩, ⟨hts, hfits⟩, hhas', rfl⟩ := (hrest p).sound hhas.1 hr
        refine ⟨v :: vs, ⟨p :: new, by simp, .cons hhold hnew⟩, ⟨by simp [ht, hts], ?_⟩, ?_, ?_⟩
        · exact List.forall_mem_cons.mpr ⟨hfit, hfits⟩
        · exact has_append.mpr ⟨hhas, hhas'⟩
        · simp [Nat.add_assoc]
      · rintro i vs hhas ⟨ht, hfits⟩
        obtain ⟨v, vs, rfl, rfl, hts⟩ := List.map_eq_cons_iff.mp ht
        obtain ⟨hfit, hfits⟩ := List.forall_mem_cons.mp hfits
        rw [List.flatMap_cons] at hhas ⊢
        obtain ⟨hv, hhas⟩ := has_append.mp hhas
        obtain ⟨p, hparse, hhold⟩ := (decodes_parseParam b _).complete hv ⟨rfl, hfit⟩
        obtain ⟨params, hconv, new, rfl, hnew⟩ := (hrest p).complete hhas ⟨hts, hfits⟩
        refine ⟨done ++ [p] ++ new, ?_, p :: new, by simp, .cons hhold hnew⟩
        rw [List.map_cons, List.length_cons, convert, hcore, hparse, List.length_append, ← Nat.add_assoc]
        exact hconv

end Parse

/-! ## `call_helper` -/

/-- `call_helper<N>::call`: element `N - 1` of the tuple goes in front of the arguments collected so far. -/
def callHelper {R : Type} (f : List Param → R) (tupleArgs : List Param) : Nat → List Param → Option R
  | 0,     args => some (f args)
  | N + 1, args => tupleArgs[N]?.bind fun p => callHelper f tupleArgs N (p :: args)

/-- `call_helper<N>` passes the first `N` elements of the tuple in order. -/
theorem callHelper_eq {R : Type} (f : List Param → R) (tupleArgs : List Param) {N : Nat}
    (hN : N ≤ tupleArgs.length) (args : List Param) :
    callHelper f tupleArgs N args = some (f (tupleArgs.take N ++ args)) := by
  induction N generalizing args with
  | zero => rfl
  | succ N ih =>
      have hlt : N < tupleArgs.length := hN
      have htake : tupleArgs.take (N + 1) = tupleArgs.take N ++ [tupleArgs[N]] := by
        rw [List.take_add_one, List.getElem?_eq_getElem hlt]
        rfl
      rw [callHelper, List.getElem?_eq_getElem hlt, Option.bind_some, ih (Nat.le_of_succ_le hN), htake,
        List.append_assoc, List.singleton_append]

theorem callHelper_all {R : Type} (f : List Param → R) (tupleArgs : List Param) :
    callHelper f tupleArgs tupleArgs.length [] = some (f tupleArgs) := by
  rw [callHelper_eq _ _ (Nat.le_refl _), List.take_length, List.append_nil]

/-! ## Sizes -/

namespace Value

/-- Elements of at least `k` bytes: the size of the encoding bounds their number. -/
theorem length_le_counted {V : Type} {enc : V → List UInt8} {vs : List V} {k : Nat}
    (h : ∀ v ∈ vs, k ≤ (enc v).length) : k * vs.length + 2 ≤ (counted enc vs).length := by
  have hsum : k * vs.length ≤ (vs.flatMap enc).length := by
    induction vs with
    | nil => simp
    | cons v vs ih =>
        have hv := h v List.mem_cons_self
        have hvs := ih fun w hw => h w (List.mem_cons_of_mem _ hw)
        rw [List.flatMap_cons, List.length_append, List.length_cons, Nat.mul_succ]
        omega
  rw [counted, List.length_append, leBytes_length]
  omega

/-- An element's encoding is part of the encoding of its container. -/
theorem length_elem_le {V : Type} {enc : V → List UInt8} {vs : List V} {v : V} (h : v ∈ vs) :
    (enc v).length ≤ (counted enc vs).length := by
  obtain ⟨l, r, rfl⟩ := List.append_of_mem h
  simp only [counted, List.flatMap_append, List.flatMap_cons, List.length_append]
  omega

theorem two_le_counted {V : Type} (enc : V → List UInt8) (vs : List V) : 2 ≤ (counted enc vs).length := by
  rw [counted, List.length_append, leBytes_length]
  omega

theorem two_le_encodeString (bs : List UInt8) : 2 ≤ (encodeString bs).length := by
  rw [encodeString, List.length_append, leBytes_length]
  omega

/-- An encoding of less than 65538 bytes has room for 32767 elements of two bytes or more, so that only
    strings and arrays of one-byte elements can be too long for `push_back`. -/
theorem pushable_of_length {v : Value} (h : v.encode.length < 65538) (hb : v.BytesPushable) :
    v.Pushable := by
  cases v with
  | pod value => trivial
  | dynamicString bs => exact hb
  | dynamicStringArray vs =>
      have hlen : 2 * vs.length + 2 ≤ (counted encodeString vs).length :=
        length_le_counted fun bs _ => two_le_encodeString bs
      exact ⟨by simp only [encode] at h; omega, hb⟩
  | dynamicStringArray2 vss =>
      have hlen : 2 * vss.length + 2 ≤ (counted (counted encodeString) vss).length :=
        length_le_counted fun vs _ => two_le_counted encodeString vs
      refine ⟨by simp only [encode] at h; omega, fun vs hvs => ⟨?_, hb vs hvs⟩⟩
      have helem : (counted encodeString vs).length ≤ (counted (counted encodeString) vss).length :=
        length_elem_le hvs
      have hlen' : 2 * vs.length + 2 ≤ (counted encodeString vs).length :=
        length_le_counted fun bs _ => two_le_encodeString bs
      simp only [encode] at h
      omega
  | @dynamicArray size vs =>
      by_cases hsize : size ≤ 1
      · exact hb hsize
      · have hlen : 2 * vs.length + 2 ≤ (counted Block.cells vs).length :=
          length_le_counted fun x _ => by rw [x.size_eq]; omega
        show vs.length ≤ 32767
        simp only [encode] at h
        omega

theorem Pushable.bytes {v : Value} (h : v.Pushable) : v.BytesPushable := by
  cases v with
  | pod value => trivial
  | dynamicString bs => exact h
  | dynamicStringArray vs => exact h.2
  | dynamicStringArray2 vss => exact fun vs hvs => (h.2 vs hvs).2
  | dynamicArray vs => exact fun _ => h

/-- A list of values whose encoding is less than 65538 bytes long. -/
theorem pushable_of_flatMap {vs : List Value} (h : (vs.flatMap encode).length < 65538)
    (hb : ∀ v ∈ vs, v.BytesPushable) : ∀ v ∈ vs, v.Pushable := by
  intro v hv
  refine pushable_of_length (Nat.lt_of_le_of_lt ?_ h) (hb v hv)
  obtain ⟨l, r, rfl⟩ := List.append_of_mem hv
  simp only [List.flatMap_append, List.flatMap_cons, List.length_append]
  omega

end Value

end Mowang
