import Mowang.Share.GameRandom
import Mowang.Share.RpcRegistry

/-!
# `Share.ProcessClients` — a process of a type

The rpc wrapper has the client of each process under a key made of the type and the id of the process. Where any process
of a type will do, one of the entries is drawn.

## Contents
- `ofType`, `draw`, `getRandomProcessId`, `getClientByProcessType`.
- `Keyed` — `m_process_id_2_client` is a map, and its keys are those of processes.
- `getRandomProcessId_spec`, `getClientByProcessType_spec` — what is drawn is registered.
-/

namespace Mowang

/-- The id that is read from a key. -/
def processIdOf (keyId : Nat) : UInt16 := UInt16.ofNat (keyId &&& 0xFFFF)

theorem ProcessType.value_lt (processType : ProcessType) : processType.value < 6 := by cases processType <;> decide

theorem ProcessType.value_inj {processType processType' : ProcessType} (h : processType.value = processType'.value) :
    processType = processType' := by
  cases processType <;> cases processType' <;> first | rfl | exact absurd h (by decide)

theorem processIdOf_key (processType : ProcessType) (processId : UInt16) :
    processIdOf (keyIdByProcessId processType processId) = processId := by
  have hid := processId.toNat_lt
  have hmask : (processType.value * 2 ^ 16 + processId.toNat) % 2 ^ 16 = processId.toNat := by omega
  rw [processIdOf, keyIdByProcessId, Nat.and_two_pow_sub_one_eq_mod _ 16, hmask, UInt16.ofNat_toNat]

/-- The type that is read from a key. -/
theorem type_of_key (processType : ProcessType) (processId : UInt16) :
    keyIdByProcessId processType processId / 2 ^ 16 % 2 ^ 8 = processType.value := by
  have hid := processId.toNat_lt
  have hvalue := processType.value_lt
  rw [keyIdByProcessId]
  omega

namespace RpcRegistry

/-- The entries of a type, by their keys. -/
def ofType (x : RpcRegistry) (processType : ProcessType) : List (Nat × Nat) :=
  x.processId2Client.filter fun entry => entry.1 / 2 ^ 16 % 2 ^ 8 = processType.value

/-- One of them, with `rand_range`; an index outside of them is undefined. -/
def draw (g : GameRandom) (entries : List (Nat × Nat)) : Option ((Nat × Nat) × GameRandom) :=
  (g.randRange 0 (Int32.ofNat (entries.length - 1))).bind fun (idx, g) =>
  if 0 ≤ idx then entries[idx.toNat]?.map (·, g) else none

/-- `get_random_process_id`. -/
def getRandomProcessId (x : RpcRegistry) (g : GameRandom) (processType : ProcessType) : Option (UInt16 × GameRandom) :=
  if x.ofType processType = [] then some (0, g)
  else (draw g (x.ofType processType)).map fun (e, g) => (processIdOf e.1, g)

/-- `get_client_by_process_type`. -/
def getClientByProcessType (x : RpcRegistry) (g : GameRandom) (processType : ProcessType) :
    Option (Option Nat × GameRandom) :=
  if x.ofType processType = [] then some (none, g)
  else (draw g (x.ofType processType)).map fun (e, g) => (some e.2, g)

/-! ## The keys -/

/-- The entries stand in the order of their keys, each key once, and a key is that of a process. -/
structure Keyed (x : RpcRegistry) : Prop where
  sorted : x.processId2Client.Pairwise fun e e' => e.1 < e'.1
  keys : ∀ e ∈ x.processId2Client, ∃ processType processId, e.1 = keyIdByProcessId processType processId

variable {x x' : RpcRegistry}

theorem keyed_init (processType : ProcessType) : Keyed (init processType) := ⟨.nil, nofun⟩

theorem keyed_of_eq (hx : Keyed x) (h : x'.processId2Client = x.processId2Client) : Keyed x' := by
  constructor
  · rw [h]
    exact hx.sorted
  · rw [h]
    exact hx.keys

theorem step_keyed {l : RegistryLabel} (hx : Keyed x) (h : x.step l = some x') : Keyed x' := by
  cases l with
  | call host entityId funcName args =>
      obtain ⟨w', _, rfl⟩ := Option.map_eq_some_iff.mp h
      exact keyed_of_eq hx rfl
  | handleInit kind s remote =>
      obtain ⟨w', _, rfl⟩ := Option.map_eq_some_iff.mp h
      exact keyed_of_eq hx rfl
  | registerServer s info =>
      obtain rfl | ⟨_, c, w', _, _, _, _, rfl⟩ := registerServer_cases h
      · exact hx
      · constructor
        · exact setKeyId_eq _ _ _ ▸ OrderedMap.sorted_insertEntry _ c hx.sorted
        · intro e he
          rcases mem_setKeyId he with rfl | he
          · exact ⟨info.processType, info.processId, rfl⟩
          · exact hx.keys e he
  | handleClose s =>
      obtain ⟨kind, x₁, _, hx₁, rfl⟩ := close_cases h
      split at hx₁
      · obtain ⟨pid, hpid, hx₁⟩ := Option.bind_eq_some_iff.mp hx₁
        obtain ⟨w', _, rfl⟩ := Option.map_eq_some_iff.mp hx₁
        have hsub := sublist_of_eraseFound hpid
        exact ⟨hx.sorted.sublist hsub, fun e he => hx.keys e (hsub.subset he)⟩
      · cases hx₁
        exact keyed_of_eq hx rfl

theorem Keyed.mem_iff (hx : Keyed x) {k c : Nat} : (k, c) ∈ x.processId2Client ↔ x.processId2Client.lookup k = some c :=
  @OrderedMap.mem_iff _ _ _ ⟨x.processId2Client, hx.sorted⟩ k c

/-- There are not more entries than keys. -/
theorem Keyed.length_lt (hx : Keyed x) (processType : ProcessType) : (x.ofType processType).length < 2 ^ 31 := by
  have hsub : ∀ k ∈ x.processId2Client.map Prod.fst, k ∈ List.range (2 ^ 19) := by
    intro k hk
    obtain ⟨e, he, rfl⟩ := List.mem_map.mp hk
    obtain ⟨processType, processId, hkey⟩ := hx.keys e he
    have htype := processType.value_lt
    have hid := processId.toNat_lt
    rw [hkey, List.mem_range, keyIdByProcessId]
    omega
  have hnodup : (x.processId2Client.map Prod.fst).Nodup := OrderedMap.nodup_keys ⟨x.processId2Client, hx.sorted⟩
  have hle := (hnodup.subperm hsub).length_le
  have hfilter : (x.ofType processType).length ≤ x.processId2Client.length := List.length_filter_le _ _
  rw [List.length_map, List.length_range] at hle
  omega

/-- The entries of a type are those of its processes. -/
theorem Keyed.mem_ofType (hx : Keyed x) {processType : ProcessType} {e : Nat × Nat} (h : e ∈ x.ofType processType) :
    x.getClientByProcessId processType (processIdOf e.1) = some e.2 := by
  obtain ⟨hmem, htype⟩ := List.mem_filter.mp h
  obtain ⟨processType', processId, hkey⟩ := hx.keys e hmem
  obtain rfl : processType' = processType := by
    rw [hkey, type_of_key] at htype
    exact ProcessType.value_inj (of_decide_eq_true htype)
  rw [getClientByProcessId, hkey, processIdOf_key, ← hkey]
  exact hx.mem_iff.mp hmem

theorem Keyed.ofType_eq_nil_iff (hx : Keyed x) {processType : ProcessType} :
    x.ofType processType = [] ↔ ∀ processId, x.getClientByProcessId processType processId = none := by
  constructor
  · intro h processId
    cases hclient : x.getClientByProcessId processType processId with
    | none => rfl
    | some c =>
        have hmem : (keyIdByProcessId processType processId, c) ∈ x.ofType processType :=
          List.mem_filter.mpr ⟨hx.mem_iff.mpr hclient, decide_eq_true (type_of_key _ _)⟩
        rw [h] at hmem
        cases hmem
  · intro h
    rw [List.eq_nil_iff_forall_not_mem]
    intro e he
    have hnone := h (processIdOf e.1)
    rw [hx.mem_ofType he] at hnone
    cases hnone

/-! ## What is drawn -/

theorem draw_mem (g : GameRandom) {entries : List (Nat × Nat)} (hne : entries ≠ []) (hlen : entries.length < 2 ^ 31) :
    ∃ e ∈ entries, draw g entries = some (e, g.randUint.2) := by
  have hpos := List.length_pos_iff.mpr hne
  have hlast : (Int32.ofNat (entries.length - 1)).toInt = (entries.length - 1 : Nat) :=
    Int32.toInt_ofNat_of_lt (by omega)
  obtain ⟨v, hdraw⟩ : ∃ v, g.randRange 0 (Int32.ofNat (entries.length - 1)) = some (v, g.randUint.2) := by
    have hnot : ¬ (0 : Int32) > Int32.ofNat (entries.length - 1) := by
      intro hgt
      have hlt := Int32.lt_iff_toInt_lt.mp hgt
      rw [hlast, Int32.toInt_zero] at hlt
      omega
    rw [GameRandom.randRange, if_neg hnot]
    simp only [hlast, Int32.toInt_zero]
    rw [if_pos (by omega)]
    exact ⟨_, rfl⟩
  obtain ⟨⟨hlow, hhigh⟩, _⟩ := GameRandom.randRange_mem hdraw
  rw [hlast, Int32.toInt_zero] at hlow hhigh
  have hin : v.toNat < entries.length := by omega
  refine ⟨entries[v.toNat], List.getElem_mem hin, ?_⟩
  rw [draw, hdraw, Option.bind_some]
  dsimp only
  rw [if_pos (by omega), List.getElem?_eq_getElem hin, Option.map_some]

/-- **A process of a type.** Whatever processes are registered and whatever the generator has drawn, the id is that of a
    registered process of the type, or 0 if there is none. -/
theorem getRandomProcessId_spec (hx : Keyed x) (g : GameRandom) (processType : ProcessType) :
    ∃ processId g', x.getRandomProcessId g processType = some (processId, g') ∧
      ((x.getClientByProcessId processType processId).isSome ∨
        processId = 0 ∧ ∀ processId', x.getClientByProcessId processType processId' = none) := by
  by_cases hnil : x.ofType processType = []
  · exact ⟨0, g, if_pos hnil, .inr ⟨rfl, hx.ofType_eq_nil_iff.mp hnil⟩⟩
  · obtain ⟨e, he, hdraw⟩ := draw_mem g hnil (hx.length_lt processType)
    refine ⟨processIdOf e.1, g.randUint.2, ?_, .inl ?_⟩
    · rw [getRandomProcessId, if_neg hnil, hdraw, Option.map_some]
    · rw [hx.mem_ofType he, Option.isSome_some]

/-- The same of a client. -/
theorem getClientByProcessType_spec (hx : Keyed x) (g : GameRandom) (processType : ProcessType) :
    ∃ client g', x.getClientByProcessType g processType = some (client, g') ∧
      ∀ c, client = some c → ∃ processId, x.getClientByProcessId processType processId = some c := by
  by_cases hnil : x.ofType processType = []
  · exact ⟨none, g, if_pos hnil, fun c hc => by cases hc⟩
  · obtain ⟨e, he, hdraw⟩ := draw_mem g hnil (hx.length_lt processType)
    refine ⟨some e.2, g.randUint.2, ?_, fun c hc => ⟨processIdOf e.1, ?_⟩⟩
    · rw [getClientByProcessType, if_neg hnil, hdraw, Option.map_some]
    · cases hc
      exact hx.mem_ofType he

end RpcRegistry

end Mowang
