import Mathlib.Algebra.Group.Nat.Defs
import Mathlib.Data.List.Nodup
import Mathlib.Logic.Function.Basic
import Mowang.Base.Run

/-!
# `Gate.GateServer` — client ids, and the route of a client

A gate runs two socket managers, `tcp_manager` and `web_socket_manager`, and `ws_service::init` seeds both
generators of socket indices with the same process type and id. The index of a client's connection is its
client id: `m_client_2_process` on the gate and `m_client_2_entity` on the games have no other key, and
the games read the gate's process id out of its bits.

## Contents
- `genSocketIndex`; `GateServer`, the functions on `m_client_2_process`.
- `Gate.step`: connections of both managers, and what the gate does for them.
- `client_ids_unique_iff`, and the run that gives one id to two clients.
-/

namespace Mowang

/-- Which of the two managers a connection belongs to. -/
inductive Transport
  | tcp | ws
  deriving DecidableEq

/-- `PROCESS_GATE`. -/
def processGate : UInt8 := 1

/-- `PROCESS_GAME`. -/
def processGame : UInt8 := 2

/-- `INVALID_PROCESS_ID`. -/
def invalidProcessId : UInt16 := 0

/-- `game_process_info`. -/
structure GameProcessInfo where
  serverId : UInt16
  processType : UInt8
  processId : UInt16
  deriving DecidableEq

/-- `socket_manager::init`: the index before the first one. -/
def socketSequenceIndex (processType : UInt8) (processId : UInt16) : UInt64 :=
  ((processType.toUInt64 <<< 16) + processId.toUInt64) <<< 40

/-! ## `gate_server` -/

structure GateServer where
  serverId : UInt16
  client2Process : UInt64 → Option GameProcessInfo := fun _ => none

namespace GateServer

/-- `on_client_connect`; `processId` is what `get_random_process_id(PROCESS_GAME)` picked. -/
def onClientConnect (g : GateServer) (socketIndex : UInt64) (processId : UInt16) : GateServer :=
  { g with
    client2Process := Function.update g.client2Process socketIndex (some ⟨g.serverId, processGame, processId⟩) }

/-- `on_client_disconnect`, after `disconnect_client` has gone to the client's game. -/
def onClientDisconnect (g : GateServer) (socketIndex : UInt64) : GateServer :=
  { g with client2Process := Function.update g.client2Process socketIndex none }

/-- `update_client_process_info`. -/
def updateClientProcessInfo (g : GateServer) (socketIndex : UInt64) (info : GameProcessInfo) : GateServer :=
  if (g.client2Process socketIndex).isSome then
    { g with client2Process := Function.update g.client2Process socketIndex (some info) }
  else g

/-- `get_process_id_by_client_id`. -/
def getProcessIdByClientId (g : GateServer) (clientId : UInt64) : UInt16 :=
  match g.client2Process clientId with
  | some info => info.processId
  | none      => invalidProcessId

end GateServer

/-! ## Connections -/

/-- A connection that is open. Connections other than those of clients go to the games and to the http
    client; they take their indices from `tcp_manager` too. -/
structure Connection where
  transport : Transport
  /-- It has the `ordinal`-th index of its manager. Read by the theorems only. -/
  ordinal : Nat
  socketIndex : UInt64
  client : Bool
  deriving DecidableEq

/-- One generator of socket indices. -/
structure Generator where
  sequenceIndex : UInt64
  /-- The indices it gave out, the newest first. Read by the theorems only. -/
  generated : List UInt64 := []

/-- `gen_socket_index`. -/
def Generator.genSocketIndex (m : Generator) : UInt64 × Generator :=
  let index := m.sequenceIndex + 1
  (index, { sequenceIndex := index, generated := index :: m.generated })

structure Gate where
  managers : Transport → Generator
  live : List Connection := []
  server : GateServer

/-- What the net loops and the logic loop of a gate do. -/
inductive GateLabel
  /-- `on_accept`, for a client, or `start_connect`. -/
  | connect (t : Transport) (client : Bool)
  /-- `handle_init` of a TCP client, or `process_login` of a web socket client. -/
  | clientConnect (x : Connection) (processId : UInt16)
  /-- A game's rpc, with the index of the connection it came over. -/
  | updateClientProcessInfo (x : Connection) (info : GameProcessInfo)
  | close (x : Connection)

namespace Gate

/-- `ws_service::init`: both managers get the same seed. -/
def init (serverId processId : UInt16) : Gate where
  managers _ := { sequenceIndex := socketSequenceIndex processGate processId }
  server := { serverId := serverId }

def step (g : Gate) : GateLabel → Option Gate
  | .connect t client =>
    let (index, manager) := (g.managers t).genSocketIndex
    some { g with
      managers := Function.update g.managers t manager
      live := ⟨t, (g.managers t).generated.length + 1, index, client⟩ :: g.live }
  | .clientConnect x processId =>
    if x ∈ g.live ∧ x.client then
      some { g with server := g.server.onClientConnect x.socketIndex processId }
    else none
  | .updateClientProcessInfo x info =>
    if x ∈ g.live ∧ ¬ x.client then
      some { g with server := g.server.updateClientProcessInfo x.socketIndex info }
    else none
  | .close x =>
    if x ∈ g.live then
      some { g with
        live := g.live.erase x
        server := if x.client then g.server.onClientDisconnect x.socketIndex else g.server }
    else none

/-- The ids of the clients that are connected. -/
def clientIds (g : Gate) : List UInt64 := (g.live.filter (·.client)).map (·.socketIndex)

/-- No two clients that are connected have the same id, and the bits that the games read out of any index
    given out are the gate's process id. -/
def GoodIds (processId : UInt16) (g : Gate) : Prop :=
  g.clientIds.Nodup ∧ ∀ t, ∀ index ∈ (g.managers t).generated, (index >>> 40) &&& 0xFFFF = processId.toUInt64

/-- Neither manager gives out its `2 ^ 40`-th index, and no client gets the `n`-th index of its manager
    while a client has the `n`-th index of the other. -/
def Apart (g : Gate) : GateLabel → Prop
  | .connect t client =>
    (g.managers t).generated.length + 1 < 2 ^ 40 ∧
      (client → ∀ x ∈ g.live, x.client → x.transport ≠ t → x.ordinal ≠ (g.managers t).generated.length + 1)
  | _ => True

/-! ## Indices and their bits -/

/-- The `n`-th index of a manager. -/
def nthIndex (processId : UInt16) (n : Nat) : UInt64 :=
  socketSequenceIndex processGate processId + UInt64.ofNat n

theorem socketSequenceIndex_toNat (processId : UInt16) :
    (socketSequenceIndex processGate processId).toNat = (65536 + processId.toNat) * 2 ^ 40 := by
  have hid : processId.toNat < 65536 := processId.toNat_lt
  have hsum : ((65536 + processId.toNat) % 2 ^ 64) = 65536 + processId.toNat := Nat.mod_eq_of_lt (by omega)
  simp only [socketSequenceIndex, processGate, UInt64.toNat_shiftLeft, UInt64.toNat_add,
    UInt16.toNat_toUInt64]
  show ((65536 + processId.toNat) % 2 ^ 64) <<< 40 % 2 ^ 64 = _
  rw [hsum, Nat.shiftLeft_eq]
  exact Nat.mod_eq_of_lt (by omega)

theorem nthIndex_toNat {processId : UInt16} {n : Nat} (hn : n ≤ 2 ^ 40) :
    (nthIndex processId n).toNat = (65536 + processId.toNat) * 2 ^ 40 + n := by
  have hid : processId.toNat < 65536 := processId.toNat_lt
  rw [nthIndex, UInt64.toNat_add, socketSequenceIndex_toNat, UInt64.toNat_ofNat',
    Nat.mod_eq_of_lt (show n < 2 ^ 64 by omega)]
  exact Nat.mod_eq_of_lt (by omega)

theorem gateBits_toNat (index : UInt64) :
    ((index >>> 40) &&& 0xFFFF).toNat = index.toNat / 2 ^ 40 % 65536 := by
  rw [UInt64.toNat_and, UInt64.toNat_shiftRight]
  show index.toNat >>> 40 &&& 2 ^ 16 - 1 = _
  rw [Nat.and_two_pow_sub_one_eq_mod, Nat.shiftRight_eq_div_pow]

/-- Up to the `2 ^ 40`-th, the bits of an index are the process id exactly if the index is not that one. -/
theorem gateBits_nthIndex {processId : UInt16} {n : Nat} (hn : n ≤ 2 ^ 40) :
    (nthIndex processId n >>> 40) &&& 0xFFFF = processId.toUInt64 ↔ n < 2 ^ 40 := by
  have hid : processId.toNat < 65536 := processId.toNat_lt
  rw [← UInt64.toNat_inj, gateBits_toNat, nthIndex_toNat hn, UInt16.toNat_toUInt64]
  constructor
  · intro h
    by_contra hge
    have hn' : n = 2 ^ 40 := by omega
    -- the carry out of the counter goes into the process id
    rw [hn'] at h
    omega
  · intro h
    omega

theorem nthIndex_inj {processId : UInt16} {n m : Nat} (hn : n ≤ 2 ^ 40) (hm : m ≤ 2 ^ 40) :
    nthIndex processId n = nthIndex processId m ↔ n = m := by
  constructor
  · intro h
    have := congrArg UInt64.toNat h
    rw [nthIndex_toNat hn, nthIndex_toNat hm] at this
    omega
  · rintro rfl
    rfl

theorem nthIndex_succ (processId : UInt16) (n : Nat) :
    nthIndex processId n + 1 = nthIndex processId (n + 1) := by
  rw [nthIndex, nthIndex, UInt64.ofNat_add, UInt64.add_assoc]
  rfl

/-! ## What holds in every run -/

/-- A manager that has given out `n` indices gave out the first to the `n`-th. -/
structure Counts (processId : UInt16) (g : Gate) : Prop where
  sequence : ∀ t, (g.managers t).sequenceIndex = nthIndex processId (g.managers t).generated.length
  generated : ∀ t index, index ∈ (g.managers t).generated ↔
    ∃ n, 1 ≤ n ∧ n ≤ (g.managers t).generated.length ∧ index = nthIndex processId n
  live : ∀ x ∈ g.live, x.ordinal ≤ (g.managers x.transport).generated.length ∧
    x.socketIndex = nthIndex processId x.ordinal

theorem counts_init (serverId processId : UInt16) : Counts processId (init serverId processId) where
  sequence _ := by simp [init, nthIndex]
  generated _ index := by
    constructor
    · intro h
      cases h
    · rintro ⟨n, hone, hzero, _⟩
      exact absurd hone (by simp only [init, List.length_nil] at hzero; omega)
  live x hx := by cases hx

/-- What `connect` leaves. -/
def connected (g : Gate) (t : Transport) (client : Bool) : Gate :=
  { g with
    managers := Function.update g.managers t (g.managers t).genSocketIndex.2
    live := ⟨t, (g.managers t).generated.length + 1, (g.managers t).genSocketIndex.1, client⟩ :: g.live }

theorem generated_connected (g : Gate) (t t' : Transport) (client : Bool) :
    ((g.connected t client).managers t').generated =
      if t' = t then (g.managers t).genSocketIndex.1 :: (g.managers t).generated
      else (g.managers t').generated := by
  by_cases ht : t' = t
  · subst ht
    simp [connected, Generator.genSocketIndex]
  · simp [connected, ht]

theorem counts_connected {processId : UInt16} {g : Gate} (hg : Counts processId g) (t : Transport)
    (client : Bool) : Counts processId (g.connected t client) := by
  -- the index that is generated is the next one of this manager
  have hindex : (g.managers t).genSocketIndex.1 = nthIndex processId ((g.managers t).generated.length + 1) := by
    rw [← nthIndex_succ, ← hg.sequence t]
    rfl
  constructor
  case sequence =>
    intro t'
    by_cases ht : t' = t
    · subst ht
      rw [generated_connected, if_pos rfl, List.length_cons, ← hindex]
      simp [connected, Generator.genSocketIndex]
    · rw [generated_connected, if_neg ht, ← hg.sequence t']
      simp [connected, ht]
  case generated =>
    intro t' index
    rw [generated_connected]
    split
    · rename_i ht
      subst ht
      rw [List.mem_cons, hg.generated t' index, hindex, List.length_cons]
      constructor
      · rintro (rfl | ⟨n, hone, hle, rfl⟩)
        · exact ⟨_, by omega, Nat.le_refl _, rfl⟩
        · exact ⟨n, hone, by omega, rfl⟩
      · rintro ⟨n, hone, hle, rfl⟩
        by_cases hn : n = (g.managers t').generated.length + 1
        · exact .inl (by rw [hn])
        · exact .inr ⟨n, hone, by omega, rfl⟩
    · exact hg.generated t' index
  case live =>
    intro x hx
    rw [generated_connected]
    rcases List.mem_cons.mp hx with rfl | hx
    · rw [if_pos rfl]
      exact ⟨by simp, hindex⟩
    · obtain ⟨hle, hid⟩ := hg.live x hx
      refine ⟨?_, hid⟩
      split
      · rename_i ht
        rw [List.length_cons, ← ht]
        omega
      · exact hle

theorem step_counts {processId : UInt16} {g g' : Gate} {l : GateLabel} (hg : Counts processId g)
    (h : g.step l = some g') : Counts processId g' := by
  cases l with
  | connect t client =>
      cases h
      exact counts_connected hg t client
  | clientConnect x processId' =>
      simp only [step, Option.ite_none_right_eq_some] at h
      cases h.2
      exact ⟨hg.sequence, hg.generated, hg.live⟩
  | updateClientProcessInfo x info =>
      simp only [step, Option.ite_none_right_eq_some] at h
      cases h.2
      exact ⟨hg.sequence, hg.generated, hg.live⟩
  | close x =>
      simp only [step, Option.ite_none_right_eq_some] at h
      cases h.2
      exact ⟨hg.sequence, hg.generated, fun y hy => hg.live y (List.mem_of_mem_erase hy)⟩

/-! ## Good ids -/

/-- The bits of all indices given out are the process id exactly if there are fewer than `2 ^ 40`. -/
theorem bits_iff {processId : UInt16} {g : Gate} (hg : Counts processId g) (t : Transport) :
    (∀ index ∈ (g.managers t).generated, (index >>> 40) &&& 0xFFFF = processId.toUInt64) ↔
      (g.managers t).generated.length < 2 ^ 40 := by
  constructor
  · intro hbits
    by_contra hge
    have hmem : nthIndex processId (2 ^ 40) ∈ (g.managers t).generated :=
      (hg.generated t _).mpr ⟨2 ^ 40, by omega, by omega, rfl⟩
    exact absurd ((gateBits_nthIndex (Nat.le_refl _)).mp (hbits _ hmem)) (Nat.lt_irrefl _)
  · intro hlt index hindex
    obtain ⟨n, _, hle, rfl⟩ := (hg.generated t index).mp hindex
    exact (gateBits_nthIndex (by omega)).mpr (by omega)

theorem clientIds_connected (g : Gate) (t : Transport) (client : Bool) :
    (g.connected t client).clientIds =
      if client then (g.managers t).genSocketIndex.1 :: g.clientIds else g.clientIds := by
  cases client <;> rfl

/-- While both managers are below `2 ^ 40`, a new client's id is one in use exactly if a client of the
    other manager has the same ordinal. -/
theorem mem_clientIds_iff {processId : UInt16} {g : Gate} (hg : Counts processId g)
    (hlt : ∀ t, (g.managers t).generated.length < 2 ^ 40) (t : Transport) :
    (g.managers t).genSocketIndex.1 ∈ g.clientIds ↔
      ∃ x ∈ g.live, x.client ∧ x.transport ≠ t ∧ x.ordinal = (g.managers t).generated.length + 1 := by
  have hindex : (g.managers t).genSocketIndex.1 = nthIndex processId ((g.managers t).generated.length + 1) := by
    rw [← nthIndex_succ, ← hg.sequence t]
    rfl
  have ht := hlt t
  rw [clientIds, List.mem_map, hindex]
  constructor
  · rintro ⟨x, hx, hid⟩
    obtain ⟨hlive, hclient⟩ := List.mem_filter.mp hx
    obtain ⟨hle, hxid⟩ := hg.live x hlive
    have hxlt := hlt x.transport
    rw [hxid, nthIndex_inj (by omega) (by omega)] at hid
    refine ⟨x, hlive, hclient, ?_, hid⟩
    rintro rfl
    omega
  · rintro ⟨x, hlive, hclient, _, hord⟩
    exact ⟨x, List.mem_filter.mpr ⟨hlive, hclient⟩, by rw [(hg.live x hlive).2, hord]⟩

theorem good_connected_iff {processId : UInt16} {g : Gate} (hg : Counts processId g)
    (hgood : GoodIds processId g) (t : Transport) (client : Bool) :
    GoodIds processId (g.connected t client) ↔ Apart g (.connect t client) := by
  have hlt : ∀ t, (g.managers t).generated.length < 2 ^ 40 := fun t => (bits_iff hg t).mp (hgood.2 t)
  have hbits : (∀ t', ∀ index ∈ ((g.connected t client).managers t').generated,
      (index >>> 40) &&& 0xFFFF = processId.toUInt64) ↔ (g.managers t).generated.length + 1 < 2 ^ 40 := by
    have hnew := counts_connected hg t client
    constructor
    · intro h
      have hcount := (bits_iff hnew t).mp (h t)
      rwa [generated_connected, if_pos rfl, List.length_cons] at hcount
    · intro h t'
      rw [bits_iff hnew, generated_connected]
      split
      · exact h
      · exact hlt t'
  have hids : (g.connected t client).clientIds.Nodup ↔ (client → ∀ x ∈ g.live, x.client →
      x.transport ≠ t → x.ordinal ≠ (g.managers t).generated.length + 1) := by
    rw [clientIds_connected]
    cases client with
    | false => exact ⟨fun _ h => absurd h (by simp), fun _ => hgood.1⟩
    | true =>
        rw [if_pos rfl, List.nodup_cons, mem_clientIds_iff hg hlt t]
        constructor
        · rintro ⟨hnot, _⟩ _ x hx hc ht hord
          exact hnot ⟨x, hx, hc, ht, hord⟩
        · intro h
          refine ⟨?_, hgood.1⟩
          rintro ⟨x, hx, hc, ht, hord⟩
          exact h rfl x hx hc ht hord
  rw [GoodIds, hids, hbits]
  exact and_comm

theorem step_good_iff {processId : UInt16} {g g' : Gate} {l : GateLabel} (hg : Counts processId g)
    (hgood : GoodIds processId g) (h : g.step l = some g') : GoodIds processId g' ↔ Apart g l := by
  cases l with
  | connect t client =>
      cases h
      exact good_connected_iff hg hgood t client
  | clientConnect x processId' =>
      simp only [step, Option.ite_none_right_eq_some] at h
      cases h.2
      exact ⟨fun _ => trivial, fun _ => hgood⟩
  | updateClientProcessInfo x info =>
      simp only [step, Option.ite_none_right_eq_some] at h
      cases h.2
      exact ⟨fun _ => trivial, fun _ => hgood⟩
  | close x =>
      simp only [step, Option.ite_none_right_eq_some] at h
      cases h.2
      refine ⟨fun _ => trivial, fun _ => ⟨?_, hgood.2⟩⟩
      -- a connection that closes takes one id away at most
      exact List.Nodup.sublist ((List.erase_sublist.filter _).map _) hgood.1

/-- **When client ids are unique.** Over any run of connections of both managers, logins, rpcs of the games
    and closes: in every state on the way the ids of the connected clients are distinct, and the bits
    `(id >> 40) & 0xFFFF` of every index given out are the gate's process id, if and only if neither
    manager gives out `2 ^ 40` indices and no client gets the `n`-th index of its manager while a client
    has the `n`-th index of the other. -/
theorem client_ids_unique_iff (serverId processId : UInt16) (labels : List GateLabel) (g : Gate)
    (hrun : run step (init serverId processId) labels = some g) :
    (∀ pre, pre <+: labels → ∀ g', run step (init serverId processId) pre = some g' →
      GoodIds processId g') ↔ Along step Apart (init serverId processId) labels :=
  good_iff_along step_counts step_good_iff (counts_init serverId processId)
    ⟨List.nodup_nil, fun _ _ h => absurd h (by simp [init])⟩ hrun

/-- Clients of both managers: behind the link to the http client the TCP clients have the ordinals 2 and 3, and the web
    socket client has the ordinal 1. One of them leaves. -/
def apartRun : List GateLabel :=
  [.connect .tcp false, .connect .tcp true, .connect .ws true, .clientConnect ⟨.ws, 1, nthIndex 7 1, true⟩ 3,
    .connect .tcp true, .close ⟨.tcp, 2, nthIndex 7 2, true⟩]

theorem client_ids_unique_iff_both : (∃ g, run step (init 1 7) apartRun = some g ∧ g.clientIds.length = 2) ∧
    ∀ pre, pre <+: apartRun → ∀ g, run step (init 1 7) pre = some g → GoodIds 7 g := by
  refine ⟨⟨_, rfl, by decide⟩, (client_ids_unique_iff 1 7 apartRun _ rfl).mpr ?_⟩
  refine (along_cons rfl).mpr ⟨⟨by decide, by decide⟩, (along_cons rfl).mpr ⟨⟨by decide, by decide⟩, ?_⟩⟩
  refine (along_cons rfl).mpr ⟨⟨by decide, by decide⟩, (along_cons rfl).mpr ⟨trivial, ?_⟩⟩
  exact (along_cons rfl).mpr ⟨⟨by decide, by decide⟩, (along_cons rfl).mpr ⟨trivial, trivial⟩⟩

/-- The connections of `sharedRun`: the second of `tcp_manager` and the second of `web_socket_manager`. -/
def tcpClient : Connection := ⟨.tcp, 2, nthIndex 7 2, true⟩
def wsClient : Connection := ⟨.ws, 2, nthIndex 7 2, true⟩

/-- A TCP client is routed to game 3. Two web socket clients connect, and the second logs in. -/
def sharedRun : List GateLabel :=
  [.connect .tcp false, .connect .tcp true, .clientConnect tcpClient 3, .connect .ws true,
    .connect .ws true, .clientConnect wsClient 4]

/-- Both clients are connected under one id, and the login of the second re-routes the first. -/
theorem client_id_shared :
    ∃ g, run step (init 1 7) sharedRun = some g ∧ ¬ GoodIds 7 g ∧ tcpClient ∈ g.live ∧ wsClient ∈ g.live ∧
      tcpClient.socketIndex = wsClient.socketIndex ∧
      g.server.getProcessIdByClientId tcpClient.socketIndex = 4 := by
  refine ⟨_, rfl, ?_, by decide, by decide, rfl, by decide⟩
  intro h
  exact absurd h.1 (by decide)

end Gate

end Mowang
