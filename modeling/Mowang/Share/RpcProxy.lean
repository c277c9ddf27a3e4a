import Mowang.Share.RpcParam
import Mathlib.Data.List.TakeWhile

/-!
# `Share.RpcProxy` — registered functions and how a packet body reaches them

A `rpc_proxy` maps names to closures. The closure made by `register_func<N>` decodes the body into a
default-constructed tuple and passes its elements on; the one made by `register_func_with_index<N>`
first stores the socket index in element 0 and decodes the other `N - 1`. `rpc_stub` is one proxy for
the process, `rpc_entity` one for each entity id.

## Contents
- `RpcFunc.run_sound`, `RpcFunc.run_complete`, and those of `RpcFuncWithIndex` — a closure reaches its function exactly
  on a body that begins with the encodings of its arguments, and passes on what they hold.
- `fillPacket_convert_call` — the round trip through `fill_packet` and a registered function.
-/

namespace Mowang

open LittleEndian Block

/-- `std::string`. -/
abbrev FuncName := List UInt8

/-- `func_name.c_str()`, as far as a `std::string` made from it goes. -/
def cStr (funcName : FuncName) : FuncName := funcName.takeWhile (· ≠ 0)

/-- What `register_func<N>` captures. The bound function has `N` placeholders, one for each parameter. -/
structure RpcFunc (R : Type) where
  argsCount : Nat
  argsType : List ParamType
  func2 : List Param → R
  argsCount_eq : argsCount = argsType.length

/-- What `register_func_with_index<N>` captures; the first parameter is a `TSocketIndex_t`. -/
structure RpcFuncWithIndex (R : Type) extends RpcFunc R where
  index_first : argsType.head? = some (.pod 8)

section Run

variable {R : Type} {n : Nat}

/-- The closure of `register_func`. -/
def RpcFunc.run (f : RpcFunc R) (b : Block UInt8 n) (buffer : Nat) : Option R :=
  let argsReal := f.argsType.map Param.mk'
  (convert b f.argsCount f.argsCount argsReal buffer).bind fun (argsReal, _) =>
  callHelper f.func2 argsReal f.argsCount []

/-- The closure of `register_func_with_index`. -/
def RpcFuncWithIndex.run (f : RpcFuncWithIndex R) (b : Block UInt8 n) (buffer socketIndex : Nat) :
    Option R :=
  let argsReal := (f.argsType.map Param.mk').set 0 (.pod (Pod.ofNat 8 socketIndex))
  (convert b (f.argsCount - 1) f.argsCount argsReal buffer).bind fun (argsReal, _) =>
  callHelper f.func2 argsReal f.argsCount []

/-- **`register_func`.** Its closure reaches the function only on a body that begins with arguments of
    the registered types, and hands over what they hold. -/
theorem RpcFunc.run_sound {f : RpcFunc R} {b : Block UInt8 n} {buffer : Nat} {r : R} (hi : buffer ≤ n)
    (h : f.run b buffer = some r) :
    ∃ vs args, HasArgs b buffer f.argsType vs ∧ List.Forall₂ Param.Holds args vs ∧ r = f.func2 args := by
  obtain ⟨⟨args, j⟩, hconv, hcall⟩ := Option.bind_eq_some_iff.mp h
  rw [f.argsCount_eq] at hconv hcall
  obtain ⟨vs, ⟨_, rfl, hholds⟩, ⟨htypes, hpush⟩, hhas, rfl⟩ :=
    (decodes_convert b f.argsType [] (Nat.zero_add _).symm).sound hi hconv
  have hlen : f.argsType.length = args.length := by rw [hholds.length_eq, ← htypes, List.length_map]
  simp only [hlen, callHelper_all, Option.some.injEq] at hcall
  exact ⟨vs, args, ⟨htypes, hpush, hhas⟩, hholds, hcall.symm⟩

theorem RpcFunc.run_complete {f : RpcFunc R} {b : Block UInt8 n} {buffer : Nat} {vs : List Value}
    (h : HasArgs b buffer f.argsType vs) :
    ∃ args, List.Forall₂ Param.Holds args vs ∧ f.run b buffer = some (f.func2 args) := by
  obtain ⟨htypes, hpush, hhas⟩ := h
  obtain ⟨args, hconv, _, rfl, hholds⟩ :=
    (decodes_convert b f.argsType [] (Nat.zero_add _).symm).complete hhas ⟨htypes, hpush⟩
  have hlen : f.argsType.length = args.length := by rw [hholds.length_eq, ← htypes, List.length_map]
  refine ⟨args, hholds, ?_⟩
  rw [List.nil_append] at hconv
  rw [RpcFunc.run, f.argsCount_eq, hconv, hlen]
  exact callHelper_all f.func2 args

/-- The socket index goes to element 0, and `rpc_param<N - 1, N>` fills the elements behind it. -/
theorem RpcFuncWithIndex.run_eq {f : RpcFuncWithIndex R} {types : List ParamType}
    (hf : f.argsType = .pod 8 :: types) (b : Block UInt8 n) (buffer socketIndex : Nat) :
    f.run b buffer socketIndex =
      (convert b types.length (types.length + 1)
        ([.pod (Pod.ofNat 8 socketIndex)] ++ types.map Param.mk') buffer).bind fun (argsReal, _) =>
      callHelper f.func2 argsReal (types.length + 1) [] := by
  rw [RpcFuncWithIndex.run, f.argsCount_eq, hf]
  rfl

theorem RpcFuncWithIndex.run_sound {f : RpcFuncWithIndex R} {types : List ParamType}
    (hf : f.argsType = .pod 8 :: types) {b : Block UInt8 n} {buffer socketIndex : Nat} {r : R}
    (hi : buffer ≤ n) (h : f.run b buffer socketIndex = some r) :
    ∃ vs args, HasArgs b buffer types vs ∧ List.Forall₂ Param.Holds args vs ∧
      r = f.func2 (.pod (Pod.ofNat 8 socketIndex) :: args) := by
  rw [RpcFuncWithIndex.run_eq hf] at h
  obtain ⟨⟨args, j⟩, hconv, hcall⟩ := Option.bind_eq_some_iff.mp h
  obtain ⟨vs, ⟨args, rfl, hholds⟩, ⟨htypes, hpush⟩, hhas, rfl⟩ :=
    (decodes_convert b types [.pod (Pod.ofNat 8 socketIndex)] (M := types.length + 1) (Nat.add_comm _ _)).sound hi hconv
  have hlen : types.length + 1 = (Param.pod (Pod.ofNat 8 socketIndex) :: args).length := by
    rw [List.length_cons, hholds.length_eq, ← htypes, List.length_map]
  simp only [List.singleton_append, hlen, callHelper_all, Option.some.injEq] at hcall
  exact ⟨vs, args, ⟨htypes, hpush, hhas⟩, hholds, hcall.symm⟩

/-- **`register_func_with_index`.** On a body that begins with the arguments behind the first, its
    closure calls the function with the socket index in front of what they hold. -/
theorem RpcFuncWithIndex.run_complete {f : RpcFuncWithIndex R} {types : List ParamType}
    (hf : f.argsType = .pod 8 :: types) {b : Block UInt8 n} {buffer : Nat} {vs : List Value}
    (h : HasArgs b buffer types vs) (socketIndex : Nat) :
    ∃ args, List.Forall₂ Param.Holds args vs ∧
      f.run b buffer socketIndex = some (f.func2 (.pod (Pod.ofNat 8 socketIndex) :: args)) := by
  obtain ⟨htypes, hpush, hhas⟩ := h
  obtain ⟨_, hconv, args, rfl, hholds⟩ :=
    (decodes_convert b types [.pod (Pod.ofNat 8 socketIndex)] (M := types.length + 1) (Nat.add_comm _ _)).complete hhas
      ⟨htypes, hpush⟩
  have hlen : types.length + 1 = (Param.pod (Pod.ofNat 8 socketIndex) :: args).length := by
    rw [List.length_cons, hholds.length_eq, ← htypes, List.length_map]
  refine ⟨args, hholds, ?_⟩
  rw [RpcFuncWithIndex.run_eq hf, hconv, hlen]
  exact callHelper_all f.func2 _

end Run

/-! ## `rpc_proxy` -/

/-- `std::map::insert`: a key that is there keeps its value. -/
def insertNew {K V : Type} [BEq K] (m : List (K × V)) (k : K) (v : V) : List (K × V) :=
  if (m.lookup k).isSome then m else (k, v) :: m

structure RpcProxy (R : Type) where
  index2Name : List (UInt8 × FuncName)
  name2Func : List (FuncName × RpcFunc R)
  name2FuncWithIndex : List (FuncName × RpcFuncWithIndex R)

namespace RpcProxy

variable {R : Type} {n : Nat}

/-- `rpc_proxy()`. -/
def init : RpcProxy R := ⟨[], [], []⟩

def registerFunc (proxy : RpcProxy R) (funcName : FuncName) (f : RpcFunc R) : RpcProxy R :=
  { proxy with name2Func := insertNew proxy.name2Func funcName f }

def registerFuncWithIndex (proxy : RpcProxy R) (funcName : FuncName) (f : RpcFuncWithIndex R) :
    RpcProxy R :=
  { proxy with name2FuncWithIndex := insertNew proxy.name2FuncWithIndex funcName f }

/-- `call(func_name, buffer)`: `none` when the closure leaves the block; what the function answered,
    if one is found. -/
def call (proxy : RpcProxy R) (funcName : FuncName) (b : Block UInt8 n) (buffer : Nat) : Option (Option R) :=
  match proxy.name2Func.lookup (cStr funcName) with
  | some f => (f.run b buffer).map some
  | none   => some none

/-- `call_with_index(func_name, buffer, socket_index)`. -/
def callWithIndex (proxy : RpcProxy R) (funcName : FuncName) (b : Block UInt8 n) (buffer socketIndex : Nat) :
    Option (Option R) :=
  match proxy.name2FuncWithIndex.lookup (cStr funcName) with
  | some f => (f.run b buffer socketIndex).map some
  | none   => some none

/-- `call(func_index, buffer)`. -/
def callIndex (proxy : RpcProxy R) (rpcIndex : UInt8) (b : Block UInt8 n) (buffer : Nat) :
    Option (Option R) :=
  match proxy.index2Name.lookup rpcIndex with
  | some funcName => proxy.call funcName b buffer
  | none          => some none

/-- `call_with_index(func_index, buffer, socket_index)`. -/
def callIndexWithIndex (proxy : RpcProxy R) (rpcIndex : UInt8) (b : Block UInt8 n)
    (buffer socketIndex : Nat) : Option (Option R) :=
  match proxy.index2Name.lookup rpcIndex with
  | some funcName => proxy.callWithIndex funcName b buffer socketIndex
  | none          => some none

end RpcProxy

theorem cStr_eq {funcName : FuncName} (h : 0 ∉ funcName) : cStr funcName = funcName := by
  rw [cStr, List.takeWhile_eq_self_iff]
  intro c hc
  simp only [ne_eq, decide_eq_true_eq]
  rintro rfl
  exact h hc

theorem lookup_insertNew {K V : Type} [BEq K] [LawfulBEq K] {m : List (K × V)} {k : K}
    (h : m.lookup k = none) (v : V) : (insertNew m k v).lookup k = some v := by
  simp [insertNew, h]

/-- **The codec round trip.** What `fill_packet` wrote, `rpc_param<N, N>::convert` decodes into objects
    that hold the same values, and it stops where `fill_packet` stopped. A function registered under a
    new name is called with them, one registered with index with the socket index in front. -/
theorem fillPacket_convert_call (args : List Param) (vs : List Value)
    (hargs : List.Forall₂ Param.Holds args vs) (hbytes : ∀ v ∈ vs, v.BytesPushable)
    (hsize : (vs.flatMap Value.encode).length ≤ 65000) (m_buffer : Block UInt8 65000) :
    ∃ buffer bufferIndex, fillPacket args m_buffer 0 = some (buffer, bufferIndex) ∧
      bufferIndex = (vs.flatMap Value.encode).length ∧
      (∃ argsReal, List.Forall₂ Param.Holds argsReal vs ∧
        convert buffer args.length args.length (args.map fun p => Param.mk' p.type) 0 =
          some (argsReal, bufferIndex)) ∧
      (∀ (R : Type) (proxy : RpcProxy R) (funcName : FuncName) (f : RpcFunc R),
        0 ∉ funcName → proxy.name2Func.lookup funcName = none → f.argsType = args.map Param.type →
        ∃ argsReal, List.Forall₂ Param.Holds argsReal vs ∧
          (proxy.registerFunc funcName f).call funcName buffer 0 = some (some (f.func2 argsReal))) ∧
      (∀ (R : Type) (proxy : RpcProxy R) (funcName : FuncName) (f : RpcFuncWithIndex R) (socketIndex : Nat),
        0 ∉ funcName → proxy.name2FuncWithIndex.lookup funcName = none →
        f.argsType = .pod 8 :: args.map Param.type →
        ∃ argsReal, List.Forall₂ Param.Holds argsReal vs ∧
          (proxy.registerFuncWithIndex funcName f).callWithIndex funcName buffer 0 socketIndex =
            some (some (f.func2 (.pod (Pod.ofNat 8 socketIndex) :: argsReal)))) := by
  have hfill := emits_fillPacket hargs m_buffer 0 (Nat.zero_le _)
  obtain ⟨buffer, hwrite, hhas, _⟩ := writeBytes_spec (b := m_buffer) (by rw [Nat.zero_add]; exact hsize)
  have htypes := Param.Holds.types_eq hargs
  have hpush := Value.pushable_of_flatMap (Nat.lt_of_le_of_lt hsize (by decide)) hbytes
  have hhasArgs : HasArgs buffer 0 (args.map Param.type) vs := ⟨htypes, hpush, hhas⟩
  refine ⟨buffer, _, hfill.trans hwrite, Nat.zero_add _, ?_, ?_, ?_⟩
  · obtain ⟨argsReal, hconv, _, rfl, hholds⟩ :=
      (decodes_convert buffer (args.map Param.type) [] (Nat.zero_add _).symm).complete hhas ⟨htypes, hpush⟩
    rw [List.length_map, List.map_map] at hconv
    exact ⟨argsReal, hholds, hconv⟩
  · intro R proxy funcName f hname hnew hf
    obtain ⟨argsReal, hholds, hrun⟩ := RpcFunc.run_complete (hf ▸ hhasArgs)
    refine ⟨argsReal, hholds, ?_⟩
    rw [RpcProxy.call, RpcProxy.registerFunc, cStr_eq hname, lookup_insertNew hnew]
    simp only [hrun, Option.map_some]
  · intro R proxy funcName f socketIndex hname hnew hf
    obtain ⟨argsReal, hholds, hrun⟩ := RpcFuncWithIndex.run_complete hf hhasArgs socketIndex
    refine ⟨argsReal, hholds, ?_⟩
    rw [RpcProxy.callWithIndex, RpcProxy.registerFuncWithIndex, cStr_eq hname, lookup_insertNew hnew]
    simp only [hrun, Option.map_some]

/-- A scalar, a string and an array of 16-bit scalars. -/
theorem fillPacket_convert_call_mixed :
    ∃ buffer, fillPacket [.pod (Pod.ofNat 4 7), .dynamicString ⟨2, 3, [104, 105, 0]⟩,
        .dynamicArray (⟨1, 2, [Pod.ofNat 2 500, Pod.ofNat 2 0]⟩ : DynamicArray (Pod 2))]
      (Block.fill 65000 0) 0 = some (buffer, 12) := by
  obtain ⟨buffer, bufferIndex, hfill, hindex, _⟩ := fillPacket_convert_call
    [.pod (Pod.ofNat 4 7), .dynamicString ⟨2, 3, [104, 105, 0]⟩,
      .dynamicArray (⟨1, 2, [Pod.ofNat 2 500, Pod.ofNat 2 0]⟩ : DynamicArray (Pod 2))]
    [.pod (Pod.ofNat 4 7), .dynamicString [104, 105], .dynamicArray [Pod.ofNat 2 500]]
    (.cons (.pod _) (.cons (.dynamicString ⟨rfl, rfl⟩) (.cons (.dynamicArray ⟨rfl, rfl⟩) .nil)))
    (by simp [Value.BytesPushable]) (by decide) (Block.fill 65000 0)
  exact ⟨buffer, by rw [hfill, hindex]; rfl⟩

/-! ## `rpc_entity` -/

/-- `m_proxys`. -/
abbrev RpcEntity (R : Type) := List (EntityId × RpcProxy R)

namespace RpcEntity

variable {R : Type} {n : Nat}

/-- `call(entity_id, func_index, buffer)`. -/
def callIndex (proxys : RpcEntity R) (entityId : EntityId) (funcIndex : UInt8) (b : Block UInt8 n)
    (buffer : Nat) : Option (Option R) :=
  match proxys.lookup entityId with
  | some proxy => proxy.callIndex funcIndex b buffer
  | none       => some none

/-- `call(entity_id, func_name, buffer)`. -/
def call (proxys : RpcEntity R) (entityId : EntityId) (funcName : FuncName) (b : Block UInt8 n)
    (buffer : Nat) : Option (Option R) :=
  match proxys.lookup entityId with
  | some proxy => proxy.call funcName b buffer
  | none       => some none

end RpcEntity

/-! ## When a call stays inside the block -/

section Contained

variable {R : Type} {n : Nat}

/-- Every access of the call was legal, and a function was invoked only under `P`. -/
def Contained (result : Option (Option R)) (P : Prop) : Prop := ∃ o, result = some o ∧ (o.isSome → P)

/-- Where a function is found, arguments of its types stand at `buffer`. -/
def ArgsAt (b : Block UInt8 n) (buffer : Nat) (argsType : Option (List ParamType)) : Prop :=
  ∀ types, argsType = some types → buffer ≤ n ∧ ∃ vs, HasArgs b buffer types vs

theorem contained_none {P : Prop} : Contained (R := R) (some none) P := ⟨none, rfl, by simp⟩

theorem contained_run {run : Option R} {P : Prop} :
    Contained (run.map some) P ↔ P ∧ ∃ r, run = some r := by
  constructor
  · rintro ⟨o, ho, hP⟩
    obtain ⟨r, hr, rfl⟩ := Option.map_eq_some_iff.mp ho
    exact ⟨hP rfl, r, hr⟩
  · rintro ⟨hP, r, rfl⟩
    exact ⟨some r, rfl, fun _ => hP⟩

/-- The decoded parameter types of a function registered by `register_func`. -/
def RpcProxy.argsType (proxy : RpcProxy R) (funcName : FuncName) : Option (List ParamType) :=
  (proxy.name2Func.lookup (cStr funcName)).map fun f => f.argsType

/-- The same for `register_func_with_index`, whose first parameter is not decoded. -/
def RpcProxy.argsTypeWithIndex (proxy : RpcProxy R) (funcName : FuncName) : Option (List ParamType) :=
  (proxy.name2FuncWithIndex.lookup (cStr funcName)).map fun f => f.argsType.tail

theorem RpcProxy.call_contained {proxy : RpcProxy R} {funcName : FuncName} {b : Block UInt8 n}
    {buffer : Nat} :
    Contained (proxy.call funcName b buffer) (buffer ≤ n) ↔ ArgsAt b buffer (proxy.argsType funcName) := by
  unfold RpcProxy.call RpcProxy.argsType ArgsAt
  cases proxy.name2Func.lookup (cStr funcName) with
  | none => simp [contained_none]
  | some f =>
      rw [contained_run]
      constructor
      · rintro ⟨hle, r, hrun⟩ types htypes
        cases htypes
        obtain ⟨vs, _, hargs, _⟩ := RpcFunc.run_sound hle hrun
        exact ⟨hle, vs, hargs⟩
      · intro h
        obtain ⟨hle, vs, hargs⟩ := h _ rfl
        obtain ⟨args, _, hrun⟩ := RpcFunc.run_complete hargs
        exact ⟨hle, _, hrun⟩

theorem RpcProxy.callWithIndex_contained {proxy : RpcProxy R} {funcName : FuncName} {b : Block UInt8 n}
    {buffer socketIndex : Nat} :
    Contained (proxy.callWithIndex funcName b buffer socketIndex) (buffer ≤ n) ↔
      ArgsAt b buffer (proxy.argsTypeWithIndex funcName) := by
  unfold RpcProxy.callWithIndex RpcProxy.argsTypeWithIndex ArgsAt
  cases proxy.name2FuncWithIndex.lookup (cStr funcName) with
  | none => simp [contained_none]
  | some f =>
      have hf : f.argsType = .pod 8 :: f.argsType.tail := List.eq_cons_of_mem_head? f.index_first
      rw [contained_run]
      constructor
      · rintro ⟨hle, r, hrun⟩ types htypes
        cases htypes
        obtain ⟨vs, _, hargs, _⟩ := RpcFuncWithIndex.run_sound hf hle hrun
        exact ⟨hle, vs, hargs⟩
      · intro h
        obtain ⟨hle, vs, hargs⟩ := h _ rfl
        obtain ⟨args, _, hrun⟩ := RpcFuncWithIndex.run_complete hf hargs socketIndex
        exact ⟨hle, _, hrun⟩

theorem RpcProxy.callIndex_contained {proxy : RpcProxy R} {rpcIndex : UInt8} {b : Block UInt8 n}
    {buffer : Nat} :
    Contained (proxy.callIndex rpcIndex b buffer) (buffer ≤ n) ↔
      ArgsAt b buffer ((proxy.index2Name.lookup rpcIndex).bind proxy.argsType) := by
  unfold RpcProxy.callIndex
  cases proxy.index2Name.lookup rpcIndex with
  | none => simp [contained_none, ArgsAt]
  | some funcName => exact RpcProxy.call_contained

theorem RpcProxy.callIndexWithIndex_contained {proxy : RpcProxy R} {rpcIndex : UInt8} {b : Block UInt8 n}
    {buffer socketIndex : Nat} :
    Contained (proxy.callIndexWithIndex rpcIndex b buffer socketIndex) (buffer ≤ n) ↔
      ArgsAt b buffer ((proxy.index2Name.lookup rpcIndex).bind proxy.argsTypeWithIndex) := by
  unfold RpcProxy.callIndexWithIndex
  cases proxy.index2Name.lookup rpcIndex with
  | none => simp [contained_none, ArgsAt]
  | some funcName => exact RpcProxy.callWithIndex_contained

/-- The decoded parameter types of an entity's function. -/
def RpcEntity.argsType (proxys : RpcEntity R) (entityId : EntityId) (funcName : FuncName) :
    Option (List ParamType) :=
  (proxys.lookup entityId).bind fun proxy => proxy.argsType funcName

/-- The same, by rpc index. -/
def RpcEntity.argsTypeIndex (proxys : RpcEntity R) (entityId : EntityId) (funcIndex : UInt8) :
    Option (List ParamType) :=
  (proxys.lookup entityId).bind fun proxy => (proxy.index2Name.lookup funcIndex).bind proxy.argsType

theorem RpcEntity.call_contained {proxys : RpcEntity R} {entityId : EntityId} {funcName : FuncName}
    {b : Block UInt8 n} {buffer : Nat} :
    Contained (proxys.call entityId funcName b buffer) (buffer ≤ n) ↔
      ArgsAt b buffer (proxys.argsType entityId funcName) := by
  unfold RpcEntity.call RpcEntity.argsType
  cases proxys.lookup entityId with
  | none => simp [contained_none, ArgsAt]
  | some proxy => exact RpcProxy.call_contained

theorem RpcEntity.callIndex_contained {proxys : RpcEntity R} {entityId : EntityId} {funcIndex : UInt8}
    {b : Block UInt8 n} {buffer : Nat} :
    Contained (proxys.callIndex entityId funcIndex b buffer) (buffer ≤ n) ↔
      ArgsAt b buffer (proxys.argsTypeIndex entityId funcIndex) := by
  unfold RpcEntity.callIndex RpcEntity.argsTypeIndex
  cases proxys.lookup entityId with
  | none => simp [contained_none, ArgsAt]
  | some proxy => exact RpcProxy.callIndex_contained

end Contained

end Mowang
