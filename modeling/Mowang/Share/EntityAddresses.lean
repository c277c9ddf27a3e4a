import Mathlib.Data.Set.Function
import Mowang.Share.RpcWrapper

/-!
# `Share.EntityAddresses` — which connection an entity call goes to

`m_directly_games` is keyed by the text of an ip with the port right behind it, and every operation on it
builds that text anew. Two addresses are told apart as far as the texts are: where one ip is another with
the first digits of a port behind it, both addresses share one client, and the calls to both go through the
connection of either.

`Addressing` follows the addresses beside the wrapper: for whom a client was returned, for whom the packets
in a cache are, by which addresses a connection goes.

## Contents
- `Host.key_eq_iff`.
- `Addressing`, `Addressing.step`, `Addressed`.
- `Addressing.Inv` and the steps that keep it.
- `entity_calls_addressed_iff`, and `shared_key_run`, where two addresses share a key.
-/

namespace Mowang

/-- Two addresses have one key when the ip of one is the other ip and a first part of the other port. -/
theorem Host.key_eq_iff {A B : Host} : A.key = B.key ↔
    (∃ digits, B.ip = A.ip ++ digits ∧ Nat.toDigits 10 A.port = digits ++ Nat.toDigits 10 B.port) ∨
    ∃ digits, A.ip = B.ip ++ digits ∧ Nat.toDigits 10 B.port = digits ++ Nat.toDigits 10 A.port :=
  List.append_eq_append_iff

/-- The addresses a step is about. -/
def WrapperLabel.hosts : WrapperLabel → List Host
  | .call host _ _ _         => [host]
  | .handleInit _ remote     => [remote]
  | .registerServer _ _ host => [host]
  | .handleClose _           => []

/-- The wrapper, and the addresses of its calls and its connections. -/
structure Addressing where
  wrapper : RpcWrapper
  /-- The remote address of a connection, and those its server announced. -/
  goesBy : SocketIndex → List Host := fun _ => []
  /-- What `get_client_by_address` returned. -/
  returned : List (Host × Nat) := []
  /-- The addresses the packets in the cache of a client are for, in order. -/
  cached : Nat → List Host := fun _ => []
  /-- The packets given to handlers, and the addresses they are for. -/
  given : List (Host × PacketSendInfo) := []

namespace Addressing

open RpcWrapper

def init (processType : ProcessType) : Addressing := { wrapper := .init processType }

/-- The packets that a step gave to handlers. -/
def sentSince (w w' : RpcWrapper) : List PacketSendInfo := w'.sent.drop w.sent.length

/-- What a step means for the addresses. -/
def follow (x : Addressing) (w' : RpcWrapper) : WrapperLabel → Addressing
  | .call host _ _ _ =>
    let c := (x.wrapper.getClientByAddress host.key).2
    { x with
      wrapper := w'
      returned := (host, c) :: x.returned
      cached := if (w'.clients c).any (·.handler.isNone) then
          Function.update x.cached c (x.cached c ++ [host])
        else x.cached
      given := x.given ++ (sentSince x.wrapper w').map fun info => (host, info) }
  | .handleInit s remote =>
    match w'.socketIndex2Client s with
    | none   => { x with wrapper := w' }
    | some c =>
      { x with
        wrapper := w'
        goesBy := Function.update x.goesBy s [remote]
        cached := Function.update x.cached c []
        given := x.given ++ (x.cached c).zip (sentSince x.wrapper w') }
  | .registerServer s _ host =>
    { x with wrapper := w', goesBy := Function.update x.goesBy s (host :: x.goesBy s) }
  | .handleClose _ => { x with wrapper := w' }

def step (x : Addressing) (l : WrapperLabel) : Option Addressing :=
  (x.wrapper.step l).map fun w' => x.follow w' l

/-- Calls go to the addressed process. -/
structure Addressed (x : Addressing) : Prop where
  /-- Clients returned for different addresses differ. -/
  distinct : ∀ A B c, (A, c) ∈ x.returned → (B, c) ∈ x.returned → A = B
  /-- A packet is given to a connection that goes by the address it is for. -/
  goesBy : ∀ A info, (A, info) ∈ x.given → A ∈ x.goesBy info.socketIndex
  /-- These are all packets that were given to handlers. -/
  sent : x.given.map Prod.snd = x.wrapper.sent

/-- A server announces an address only for a client that has none yet. -/
def OneAddress (x : Addressing) : WrapperLabel → Prop
  | .registerServer s processType host =>
    x.wrapper.processType = .game → processType = .game → x.wrapper.directlyGames.lookup host.key = none →
    ∀ c, x.wrapper.socketIndex2Client s = some c → ∀ key, (key, c) ∉ x.wrapper.directlyGames
  | _ => True

/-! ## What holds in every run -/

/-- As long as addresses are told apart and a client has one address, that is the address of the connection of
    its handler, and the one its calls are for. -/
structure Inv (S : Set Host) (x : Addressing) : Prop extends Addressed x where
  sound : Sound x.wrapper
  oneKey : ∀ c k k', (k, c) ∈ x.wrapper.directlyGames → (k', c) ∈ x.wrapper.directlyGames → k = k'
  /-- A client that a second connection took over has an address. -/
  shared : ∀ s s' c client, x.wrapper.socketIndex2Client s = some c → x.wrapper.socketIndex2Client s' = some c →
    s ≠ s' → x.wrapper.clients c = some client → ∃ k, (k, c) ∈ x.wrapper.directlyGames
  named : ∀ k c client s, (k, c) ∈ x.wrapper.directlyGames → x.wrapper.clients c = some client →
    client.handler = some s → ∃ A ∈ x.goesBy s, A.key = k
  within : ∀ s A, A ∈ x.goesBy s → A ∈ S
  asked : ∀ A c, (A, c) ∈ x.returned → A ∈ S ∧ c < x.wrapper.newClient ∧
    ∀ client, x.wrapper.clients c = some client → (A.key, c) ∈ x.wrapper.directlyGames
  cachedFor : ∀ c A, A ∈ x.cached c → (A, c) ∈ x.returned
  caches : ∀ c client, x.wrapper.clients c = some client → (x.cached c).length = client.cachePackets.length
  flushed : ∀ c client s, x.wrapper.clients c = some client → client.handler = some s → client.cachePackets = []

variable {S : Set Host} {x x' : Addressing} {w' : RpcWrapper}

theorem inv_init (S : Set Host) (processType : ProcessType) : Inv S (init processType) where
  distinct := by simp [init]
  goesBy := by simp [init]
  sent := rfl
  sound := sound_init processType
  oneKey := by simp [init, RpcWrapper.init]
  shared := by simp [init, RpcWrapper.init]
  named := by simp [init, RpcWrapper.init]
  within := by simp [init]
  asked := by simp [init]
  cachedFor := by simp [init]
  caches := by simp [init, RpcWrapper.init]
  flushed := by simp [init, RpcWrapper.init]

theorem sentSince_append {w w' : RpcWrapper} {infos : List PacketSendInfo} (h : w'.sent = w.sent ++ infos) :
    sentSince w w' = infos := by
  unfold sentSince
  rw [h, List.drop_left]

/-- A client that is not there yet was returned to nobody, and no packet is for it. -/
theorem Inv.cached_new (hx : Inv S x) {c : Nat} (hc : x.wrapper.newClient ≤ c) : x.cached c = [] := by
  rw [List.eq_nil_iff_forall_not_mem]
  intro A hA
  have hlt := (hx.asked A c (hx.cachedFor c A hA)).2.1
  omega

/-! ### `call_entity` -/

/-- A new client, under no address yet. -/
theorem Inv.create (hx : Inv S x) : Inv S { x with wrapper := x.wrapper.create ⟨none, []⟩ } := by
  refine { hx with
    sound := sound_create hx.sound, shared := ?_, named := ?_, asked := ?_, caches := ?_, flushed := ?_ }
  · intro s s' c client hs hs' hne hc
    rcases update_some hc with ⟨rfl, _⟩ | ⟨_, hc⟩
    · exact absurd (hx.sound.socket_new s _ hs) (Nat.lt_irrefl _)
    · exact hx.shared s s' c client hs hs' hne hc
  · intro k c client s hk hc hs
    rcases update_some hc with ⟨_, rfl⟩ | ⟨_, hc⟩
    · cases hs
    · exact hx.named k c client s hk hc hs
  · intro A c h
    obtain ⟨hA, hlt, hkey⟩ := hx.asked A c h
    refine ⟨hA, Nat.lt_succ_of_lt hlt, ?_⟩
    intro client hc
    rcases update_some hc with ⟨rfl, _⟩ | ⟨_, hc⟩
    · exact absurd hlt (Nat.lt_irrefl _)
    · exact hkey client hc
  · intro c client hc
    rcases update_some hc with ⟨rfl, rfl⟩ | ⟨_, hc⟩
    · show (x.cached x.wrapper.newClient).length = 0
      rw [hx.cached_new (Nat.le_refl _)]
      rfl
    · exact hx.caches c client hc
  · intro c client s hc hs
    rcases update_some hc with ⟨_, rfl⟩ | ⟨_, hc⟩
    · rfl
    · exact hx.flushed c client s hc hs

/-- An address for a client that has none. -/
theorem Inv.enter (hx : Inv S x) {key : AddressKey} {c : Nat} {addresses : SocketIndex → List AddressKey}
    (hsound : Sound { x.wrapper with
      directlyGames := insertKey key c x.wrapper.directlyGames, addresses := addresses })
    (hfree : ∀ k, (k, c) ∉ x.wrapper.directlyGames)
    (hname : ∀ client s, x.wrapper.clients c = some client → client.handler = some s →
      ∃ A ∈ x.goesBy s, A.key = key) :
    Inv S { x with wrapper := { x.wrapper with
      directlyGames := insertKey key c x.wrapper.directlyGames, addresses := addresses } } := by
  refine { hx with sound := hsound, oneKey := ?_, shared := ?_, named := ?_, asked := ?_ }
  · intro c' k k' hk hk'
    rcases mem_insertKey.mp hk with heq | hk <;> rcases mem_insertKey.mp hk' with heq' | hk'
    · cases heq
      cases heq'
      rfl
    · cases heq
      exact absurd hk' (hfree k')
    · cases heq'
      exact absurd hk (hfree k)
    · exact hx.oneKey c' k k' hk hk'
  · intro s s' c' client hs hs' hne hc
    obtain ⟨k, hk⟩ := hx.shared s s' c' client hs hs' hne hc
    exact ⟨k, mem_insertKey.mpr (.inr hk)⟩
  · intro k c' client s hk hc hs
    rcases mem_insertKey.mp hk with heq | hk
    · cases heq
      exact hname client s hc hs
    · exact hx.named k c' client s hk hc hs
  · intro A c' h
    obtain ⟨hA, hlt, hkey⟩ := hx.asked A c' h
    exact ⟨hA, hlt, fun client hc => mem_insertKey.mpr (.inr (hkey client hc))⟩

/-- A placeholder for an address without a client. -/
theorem Inv.placeholder (hx : Inv S x) (key : AddressKey) :
    Inv S { x with wrapper := { x.wrapper.create ⟨none, []⟩ with
      directlyGames := insertKey key x.wrapper.newClient x.wrapper.directlyGames } } := by
  have hfree : ∀ k, (k, x.wrapper.newClient) ∉ x.wrapper.directlyGames :=
    fun k hk => absurd (hx.sound.direct_new k _ hk) (Nat.lt_irrefl _)
  apply hx.create.enter (sound_placeholder hx.sound key) hfree
  intro client s hc hs
  rcases update_some hc with ⟨_, rfl⟩ | ⟨hne, _⟩
  · cases hs
  · exact absurd rfl hne

/-- `get_client_by_address` keeps what holds, and what it returns stands under the address. -/
theorem Inv.getClientByAddress (hx : Inv S x) (key : AddressKey) :
    Inv S { x with wrapper := (x.wrapper.getClientByAddress key).1 } ∧
      (key, (x.wrapper.getClientByAddress key).2) ∈ (x.wrapper.getClientByAddress key).1.directlyGames := by
  unfold RpcWrapper.getClientByAddress
  cases hlook : x.wrapper.directlyGames.lookup key with
  | none   => exact ⟨hx.placeholder key, mem_insertKey.mpr (.inl rfl)⟩
  | some c => exact ⟨hx, mem_of_lookup hlook⟩

/-- A client that lives is returned for the address it stands under. -/
theorem Inv.returns (hx : Inv S x) (hS : Set.InjOn Host.key S) {A : Host} (hA : A ∈ S) {c : Nat}
    {client : RpcClient} (hc : x.wrapper.clients c = some client)
    (hkey : (A.key, c) ∈ x.wrapper.directlyGames) : Inv S { x with returned := (A, c) :: x.returned } := by
  have hsame : ∀ B, (B, c) ∈ x.returned → A = B := by
    intro B hB
    obtain ⟨hBS, _, hBkey⟩ := hx.asked B c hB
    exact hS hA hBS (hx.oneKey c _ _ hkey (hBkey client hc))
  refine { hx with distinct := ?_, asked := ?_, cachedFor := ?_ }
  · intro B B' c' hB hB'
    rcases List.mem_cons.mp hB with heq | hB <;> rcases List.mem_cons.mp hB' with heq' | hB'
    · cases heq
      cases heq'
      rfl
    · cases heq
      exact hsame B' hB'
    · cases heq'
      exact (hsame B hB).symm
    · exact hx.distinct B B' c' hB hB'
  · intro B c' hB
    rcases List.mem_cons.mp hB with heq | hB
    · cases heq
      exact ⟨hA, hx.sound.clients_new c client hc, fun _ _ => hkey⟩
    · exact hx.asked B c' hB
  · intro c' B hB
    exact List.mem_cons_of_mem _ (hx.cachedFor c' B hB)

section Called

variable {A : Host} {c : Nat} {client client' : RpcClient} {packet : EntityRpcByNamePacket}
  {infos : List PacketSendInfo}

/-- A packet sent at once goes to a connection that goes by the address it is for. -/
theorem Inv.sends (hx : Inv S x) (hS : Set.InjOn Host.key S) (hA : (A, c) ∈ x.returned)
    (hc : x.wrapper.clients c = some client) (hsend : client.sendEntityPacket packet = some (client', infos))
    {s : SocketIndex} (hs : client.handler = some s) :
    Inv S { x with wrapper := x.wrapper.called c client' packet infos,
                   given := x.given ++ infos.map fun info => (A, info) } := by
  have hsound := sound_called hx.sound hc hsend
  obtain ⟨s', hs', rfl, rfl⟩ | ⟨hnone, _⟩ :=
    sendEntityPacket_cases (fun s hs => (hx.sound.handler c client s hc hs).2) hsend
  · rw [hs] at hs'
    cases hs'
    obtain ⟨hAS, _, hkey⟩ := hx.asked A c hA
    obtain ⟨B, hB, hBA⟩ := hx.named A.key c _ s (hkey _ hc) hc hs
    obtain rfl := hS (hx.within s B hB) hAS hBA
    have hclients : (x.wrapper.called c client' packet [image s packet]).clients = x.wrapper.clients := by
      show Function.update x.wrapper.clients c (some client') = x.wrapper.clients
      rw [← hc, Function.update_eq_self]
    refine { hx with
      sound := hsound, goesBy := ?_, sent := ?_, shared := ?_, named := ?_, asked := ?_, caches := ?_, flushed := ?_ }
    · intro A' info hinfo
      rcases List.mem_append.mp hinfo with hinfo | hinfo
      · exact hx.goesBy A' info hinfo
      · cases List.mem_singleton.mp hinfo
        exact hB
    · show (x.given ++ [(B, image s packet)]).map Prod.snd = x.wrapper.sent ++ [image s packet]
      rw [List.map_append, hx.sent]
      rfl
    · rw [hclients]
      exact hx.shared
    · rw [hclients]
      exact hx.named
    · rw [hclients]
      exact hx.asked
    · rw [hclients]
      exact hx.caches
    · rw [hclients]
      exact hx.flushed
  · rw [hs] at hnone
    cases hnone

/-- A packet is cached with the others of its client. -/
theorem Inv.keepsBack (hx : Inv S x) (hA : (A, c) ∈ x.returned)
    (hc : x.wrapper.clients c = some client) (hsend : client.sendEntityPacket packet = some (client', infos))
    (hnone : client.handler = none) :
    Inv S { x with wrapper := x.wrapper.called c client' packet infos,
                   cached := Function.update x.cached c (x.cached c ++ [A]) } := by
  have hsound := sound_called hx.sound hc hsend
  obtain ⟨s, hs, _⟩ | ⟨_, rfl, rfl⟩ :=
    sendEntityPacket_cases (fun s hs => (hx.sound.handler c client s hc hs).2) hsend
  · rw [hnone] at hs
    cases hs
  · refine { hx with
      sound := hsound, sent := ?_, shared := ?_, named := ?_, asked := ?_, cachedFor := ?_, caches := ?_,
      flushed := ?_ }
    · show x.given.map Prod.snd = x.wrapper.sent ++ []
      rw [List.append_nil, hx.sent]
    · intro s s' c' cl hs hs' hne h
      rcases update_some h with ⟨rfl, _⟩ | ⟨_, h⟩
      · exact hx.shared s s' c' client hs hs' hne hc
      · exact hx.shared s s' c' cl hs hs' hne h
    · intro k c' cl s hk h hs
      rcases update_some h with ⟨rfl, rfl⟩ | ⟨_, h⟩
      · exact hx.named k c' client s hk hc hs
      · exact hx.named k c' cl s hk h hs
    · intro B c' hB
      obtain ⟨hBS, hlt, hkey⟩ := hx.asked B c' hB
      refine ⟨hBS, hlt, ?_⟩
      intro cl h
      rcases update_some h with ⟨rfl, _⟩ | ⟨_, h⟩
      · exact hkey client hc
      · exact hkey cl h
    · intro c' B hB
      change B ∈ Function.update x.cached c (x.cached c ++ [A]) c' at hB
      by_cases hcc : c' = c
      · subst hcc
        rw [Function.update_self] at hB
        rcases List.mem_append.mp hB with hB | hB
        · exact hx.cachedFor c' B hB
        · cases List.mem_singleton.mp hB
          exact hA
      · rw [Function.update_of_ne hcc] at hB
        exact hx.cachedFor c' B hB
    · intro c' cl h
      rcases update_some h with ⟨rfl, rfl⟩ | ⟨hcc, h⟩
      · simp [hx.caches c' client hc]
      · show (Function.update x.cached c (x.cached c ++ [A]) c').length = cl.cachePackets.length
        rw [Function.update_of_ne hcc]
        exact hx.caches c' cl h
    · intro c' cl s h hs
      rcases update_some h with ⟨rfl, rfl⟩ | ⟨_, h⟩
      · rw [hnone] at hs
        cases hs
      · exact hx.flushed c' cl s h hs

end Called

theorem Inv.call (hx : Inv S x) (hS : Set.InjOn Host.key S) {A : Host} (hA : A ∈ S) {entityId : EntityId}
    {funcName : List UInt8} {args : List Param}
    (h : x.step (.call A entityId funcName args) = some x') : Inv S x' := by
  obtain ⟨w', hw, rfl⟩ := Option.map_eq_some_iff.mp h
  obtain ⟨w₁, c, client, client', packet, infos, hget, hold, hc, hsend, rfl⟩ := call_cases hw
  have hask := hx.getClientByAddress A.key
  rw [hget] at hask
  have hx₁ := hask.1.returns hS hA hc hask.2
  have hsince : sentSince x.wrapper (w₁.called c client' packet infos) = infos :=
    sentSince_append (congrArg (· ++ infos) hold)
  have hlives : (w₁.called c client' packet infos).clients c = some client' := Function.update_self _ _ _
  unfold follow
  dsimp only
  rw [hget, hsince, hlives, Option.any_some]
  obtain ⟨s, hs, rfl, rfl⟩ | ⟨hnone, rfl, rfl⟩ :=
    sendEntityPacket_cases (fun s hs => (hx₁.sound.handler c client s hc hs).2) hsend
  · rw [hs, if_neg (by simp)]
    exact hx₁.sends hS List.mem_cons_self hc hsend hs
  · rw [if_pos (by rw [hnone]; rfl), List.map_nil, List.append_nil]
    exact hx₁.keepsBack List.mem_cons_self hc hsend hnone

/-! ### `handle_init` -/

/-- A client with its addresses, when a new connection becomes its handler. -/
theorem Inv.attach (hx : Inv S x) {s : SocketIndex} {remote : Host} {c : Nat} {client : RpcClient}
    (hremote : remote ∈ S) (hnew : s ∉ x.wrapper.opened) (hc : x.wrapper.clients c = some client)
    (hkeys : ∀ k, (k, c) ∈ x.wrapper.directlyGames → k = remote.key)
    (hhas : (∃ s', x.wrapper.socketIndex2Client s' = some c) → (remote.key, c) ∈ x.wrapper.directlyGames)
    (hS : Set.InjOn Host.key S)
    (hsound : Sound (x.wrapper.attach s remote.key c (client.cachePackets.map (image s)))) :
    Inv S { x with
      wrapper := x.wrapper.attach s remote.key c (client.cachePackets.map (image s))
      goesBy := Function.update x.goesBy s [remote]
      cached := Function.update x.cached c []
      given := x.given ++ (x.cached c).zip (client.cachePackets.map (image s)) } := by
  -- all that was asked through the client was for `remote`: there is one address to a key
  have hfor : ∀ A ∈ x.cached c, A = remote := by
    intro A hA
    obtain ⟨hAS, _, hkey⟩ := hx.asked A c (hx.cachedFor c A hA)
    exact hS hAS hremote (hkeys A.key (hkey client hc))
  -- and nothing went over `s` before it was opened
  have hunsent : ∀ A info, (A, info) ∈ x.given → info.socketIndex ≠ s := by
    intro A info hinfo heq
    have hsent : info ∈ x.wrapper.sent := hx.sent ▸ List.mem_map_of_mem hinfo
    have hnone := (hx.sound.unopened s hnew).2
    rw [sentTo, List.filter_eq_nil_iff] at hnone
    exact hnone info hsent (by simpa using heq)
  refine { hx with
    sound := hsound, goesBy := ?_, sent := ?_, shared := ?_, named := ?_, within := ?_, asked := ?_, cachedFor := ?_,
    caches := ?_, flushed := ?_ }
  · intro A info hinfo
    show A ∈ Function.update x.goesBy s [remote] info.socketIndex
    rcases List.mem_append.mp hinfo with hinfo | hinfo
    · rw [Function.update_of_ne (hunsent A info hinfo)]
      exact hx.goesBy A info hinfo
    · obtain ⟨hA, himage⟩ := List.of_mem_zip hinfo
      obtain ⟨packet, _, rfl⟩ := List.mem_map.mp himage
      rw [hfor A hA]
      show remote ∈ Function.update x.goesBy s [remote] s
      rw [Function.update_self]
      exact List.mem_singleton_self remote
  · show (x.given ++ (x.cached c).zip _).map Prod.snd = x.wrapper.sent ++ _
    rw [List.map_append, hx.sent, List.map_snd_zip]
    simp [hx.caches c client hc]
  · intro s₁ s₂ c' cl hs₁ hs₂ hne h
    rcases update_some hs₁ with ⟨rfl, rfl⟩ | ⟨_, hold₁⟩ <;> rcases update_some hs₂ with ⟨rfl, h₂⟩ | ⟨_, hold₂⟩
    · exact absurd rfl hne
    · exact ⟨remote.key, hhas ⟨s₂, hold₂⟩⟩
    · subst h₂
      exact ⟨remote.key, hhas ⟨s₁, hold₁⟩⟩
    · rcases update_some h with ⟨rfl, _⟩ | ⟨_, h⟩
      · exact hx.shared s₁ s₂ c' client hold₁ hold₂ hne hc
      · exact hx.shared s₁ s₂ c' cl hold₁ hold₂ hne h
  · intro k c' cl s' hk h hs'
    show ∃ A ∈ Function.update x.goesBy s [remote] s', A.key = k
    rcases update_some h with ⟨rfl, rfl⟩ | ⟨_, h⟩
    · cases hs'
      rw [Function.update_self, hkeys k hk]
      exact ⟨remote, List.mem_singleton_self remote, rfl⟩
    · rw [Function.update_of_ne (ne_of_unopened hx.sound hnew (hx.sound.handler c' cl s' h hs').1)]
      exact hx.named k c' cl s' hk h hs'
  · intro s' A hA
    change A ∈ Function.update x.goesBy s [remote] s' at hA
    by_cases hs' : s' = s
    · rw [hs', Function.update_self] at hA
      cases List.mem_singleton.mp hA
      exact hremote
    · rw [Function.update_of_ne hs'] at hA
      exact hx.within s' A hA
  · intro A c' hA
    obtain ⟨hAS, hlt, hkey⟩ := hx.asked A c' hA
    refine ⟨hAS, hlt, ?_⟩
    intro cl h
    rcases update_some h with ⟨rfl, _⟩ | ⟨_, h⟩
    · exact hkey client hc
    · exact hkey cl h
  · intro c' A hA
    change A ∈ Function.update x.cached c [] c' at hA
    by_cases hcc : c' = c
    · rw [hcc, Function.update_self] at hA
      cases hA
    · rw [Function.update_of_ne hcc] at hA
      exact hx.cachedFor c' A hA
  · intro c' cl h
    show (Function.update x.cached c [] c').length = cl.cachePackets.length
    rcases update_some h with ⟨rfl, rfl⟩ | ⟨hcc, h⟩
    · rw [Function.update_self]
      rfl
    · rw [Function.update_of_ne hcc]
      exact hx.caches c' cl h
  · intro c' cl s' h hs'
    rcases update_some h with ⟨rfl, rfl⟩ | ⟨_, h⟩
    · rfl
    · exact hx.flushed c' cl s' h hs'

/-- What `handle_init` means for the addresses when the client at `c` gets its handler. -/
theorem follow_attach {s : SocketIndex} {remote : Host} {c : Nat} {infos : List PacketSendInfo} (w₁ : RpcWrapper)
    (h : w₁.sent = x.wrapper.sent) :
    x.follow (w₁.attach s remote.key c infos) (.handleInit s remote) =
      { x with
        wrapper := w₁.attach s remote.key c infos
        goesBy := Function.update x.goesBy s [remote]
        cached := Function.update x.cached c []
        given := x.given ++ (x.cached c).zip infos } := by
  have hsock : (w₁.attach s remote.key c infos).socketIndex2Client s = some c := Function.update_self _ _ _
  have hsince : sentSince x.wrapper (w₁.attach s remote.key c infos) = infos :=
    sentSince_append (congrArg (· ++ infos) h)
  simp only [follow, hsock, hsince]

theorem Inv.handleInit (hx : Inv S x) (hS : Set.InjOn Host.key S) {s : SocketIndex} {remote : Host}
    (hremote : remote ∈ S) (h : x.step (.handleInit s remote) = some x') : Inv S x' := by
  obtain ⟨w', hw, rfl⟩ := Option.map_eq_some_iff.mp h
  obtain ⟨hvalid, hnew, rfl | ⟨c, client, hkey, hc, rfl⟩⟩ := handleInit_cases hw
  · -- a new client, which stands under no key
    have hc : (x.wrapper.create ⟨none, []⟩).clients x.wrapper.newClient = some ⟨none, []⟩ := Function.update_self _ _ _
    have hnokey : ∀ k, (k, x.wrapper.newClient) ∈ x.wrapper.directlyGames → k = remote.key :=
      fun k hk => absurd (hx.sound.direct_new k _ hk) (Nat.lt_irrefl _)
    rw [follow_attach (x.wrapper.create ⟨none, []⟩) rfl]
    apply hx.create.attach hremote hnew hc hnokey _ hS
    · exact sound_attach (sound_create hx.sound) hc hvalid hnew (fun _ => hnokey) (by simp)
    · rintro ⟨s', hs'⟩
      exact absurd (hx.sound.socket_new s' _ hs') (Nat.lt_irrefl _)
  · have hkeys : ∀ k, (k, c) ∈ x.wrapper.directlyGames → k = remote.key := fun k hk => hx.oneKey c k _ hk hkey
    rw [follow_attach x.wrapper rfl]
    apply hx.attach hremote hnew hc hkeys (fun _ => hkey) hS
    exact sound_attach hx.sound hc hvalid hnew (fun _ => hkeys) (by simp [image])

/-! ### `register_server` and `handle_close` -/

/-- A connection goes by one more address. -/
theorem Inv.announce (hx : Inv S x) {s : SocketIndex} {host : Host} (hhost : host ∈ S)
    {addresses : SocketIndex → List AddressKey} (hsound : Sound { x.wrapper with addresses := addresses }) :
    Inv S { x with
      wrapper := { x.wrapper with addresses := addresses }
      goesBy := Function.update x.goesBy s (host :: x.goesBy s) } := by
  have hmore : ∀ s' A, A ∈ x.goesBy s' → A ∈ Function.update x.goesBy s (host :: x.goesBy s) s' := by
    intro s' A hA
    by_cases hs' : s' = s
    · subst hs'
      rw [Function.update_self]
      exact List.mem_cons_of_mem host hA
    · rwa [Function.update_of_ne hs']
  refine { hx with sound := hsound, goesBy := ?_, named := ?_, within := ?_ }
  · intro A info hinfo
    exact hmore _ A (hx.goesBy A info hinfo)
  · intro k c client s' hk hc hs'
    obtain ⟨A, hA, hAk⟩ := hx.named k c client s' hk hc hs'
    exact ⟨A, hmore s' A hA, hAk⟩
  · intro s' A hA
    change A ∈ Function.update x.goesBy s (host :: x.goesBy s) s' at hA
    by_cases hs' : s' = s
    · rw [hs', Function.update_self] at hA
      rcases List.mem_cons.mp hA with rfl | hA
      · exact hhost
      · exact hx.within s A hA
    · rw [Function.update_of_ne hs'] at hA
      exact hx.within s' A hA

theorem Inv.registerServer (hx : Inv S x) {s : SocketIndex} {processType : ProcessType} {host : Host}
    (hhost : host ∈ S) (hone : OneAddress x (.registerServer s processType host)) :
    Inv S (x.follow { x.wrapper.updateHandlerInfo s processType host.key with
      addresses := Function.update x.wrapper.addresses s (host.key :: x.wrapper.addresses s) }
      (.registerServer s processType host)) := by
  have hsound : Sound { x.wrapper with
      addresses := Function.update x.wrapper.addresses s (host.key :: x.wrapper.addresses s) } :=
    sound_redirect hx.sound (fun _ _ h => .inl h) (fun _ _ => mem_addresses)
  have hsame := hx.announce (s := s) hhost hsound
  have hdone := sound_registerServer hx.sound s processType host.key
  unfold follow
  unfold updateHandlerInfo at hdone ⊢
  cases hs : x.wrapper.socketIndex2Client s with
  | none => exact hsame
  | some c =>
      simp only [hs] at hdone
      dsimp only
      by_cases hgame : x.wrapper.processType = .game ∧ processType = .game
      · rw [if_pos hgame] at hdone ⊢
        cases hlook : x.wrapper.directlyGames.lookup host.key with
        | some _ => exact hsame
        | none =>
            rw [hlook] at hdone
            have hfree := hone hgame.1 hgame.2 hlook c hs
            apply hsame.enter hdone hfree
            -- the handler of the client is this connection: another would have an address for it
            intro client s' hc hs'
            obtain rfl : s' = s := by
              by_contra hne
              obtain ⟨k, hk⟩ := hx.shared s' s c client (hx.sound.handler c client s' hc hs').1 hs hne hc
              exact hfree k hk
            refine ⟨host, ?_, rfl⟩
            show host ∈ Function.update x.goesBy s' (host :: x.goesBy s') s'
            rw [Function.update_self]
            exact List.mem_cons_self
      · rw [if_neg hgame]
        exact hsame

/-- Only an entry of the client whose handler is closed goes. -/
theorem eraseHandler_keeps {w : RpcWrapper} {s : SocketIndex} {entries entries' : List (AddressKey × Nat)}
    (h : w.eraseHandler s entries = some entries') {k : AddressKey} {c : Nat} {client : RpcClient}
    (hc : w.clients c = some client) (hother : client.handler ≠ some s) (hk : (k, c) ∈ entries) :
    (k, c) ∈ entries' := by
  induction entries generalizing entries' with
  | nil => cases hk
  | cons e rest ih =>
      simp only [eraseHandler, Option.bind_eq_some_iff] at h
      obtain ⟨first, hfirst, h⟩ := h
      split at h
      · rename_i hhandler
        cases h
        rcases List.mem_cons.mp hk with rfl | hk
        · rw [hc] at hfirst
          cases hfirst
          exact absurd hhandler hother
        · exact hk
      · obtain ⟨rest', hrest, rfl⟩ := Option.map_eq_some_iff.mp h
        rcases List.mem_cons.mp hk with rfl | hk
        · exact List.mem_cons_self
        · exact List.mem_cons_of_mem e (ih hrest hk)

/-- What is left after a close: fewer entries, clients and connections, and the entries of the clients left. -/
theorem Inv.fewer (hx : Inv S x) (hsound : Sound w') (hnew : w'.newClient = x.wrapper.newClient)
    (hsent : w'.sent = x.wrapper.sent)
    (hentries : ∀ k c, (k, c) ∈ w'.directlyGames → (k, c) ∈ x.wrapper.directlyGames)
    (hkeeps : ∀ k c client, w'.clients c = some client → (k, c) ∈ x.wrapper.directlyGames →
      (k, c) ∈ w'.directlyGames)
    (hclients : ∀ c client, w'.clients c = some client → x.wrapper.clients c = some client)
    (hsockets : ∀ s c, w'.socketIndex2Client s = some c → x.wrapper.socketIndex2Client s = some c) :
    Inv S { x with wrapper := w' } where
  distinct := hx.distinct
  goesBy := hx.goesBy
  sent := hx.sent.trans hsent.symm
  sound := hsound
  oneKey c k k' hk hk' := hx.oneKey c k k' (hentries k c hk) (hentries k' c hk')
  shared s s' c client hs hs' hne hc := by
    obtain ⟨k, hk⟩ := hx.shared s s' c client (hsockets s c hs) (hsockets s' c hs') hne (hclients c client hc)
    exact ⟨k, hkeeps k c client hc hk⟩
  named k c client s hk hc hs := hx.named k c client s (hentries k c hk) (hclients c client hc) hs
  within := hx.within
  asked A c h := by
    obtain ⟨hA, hlt, hkey⟩ := hx.asked A c h
    exact ⟨hA, hnew ▸ hlt, fun client hc => hkeeps _ c client hc (hkey client (hclients c client hc))⟩
  cachedFor := hx.cachedFor
  caches c client hc := hx.caches c client (hclients c client hc)
  flushed c client s hc hs := hx.flushed c client s (hclients c client hc) hs

theorem Inv.handleClose (hx : Inv S x) {s : SocketIndex} (h : x.step (.handleClose s) = some x') : Inv S x' := by
  obtain ⟨w', hw, rfl⟩ := Option.map_eq_some_iff.mp h
  have hsound := sound_handleClose hx.sound hw
  obtain ⟨entries, herase, hw⟩ := Option.bind_eq_some_iff.mp hw
  cases hs : x.wrapper.socketIndex2Client s with
  | none =>
      rw [hs] at hw
      cases hw
      apply hx.fewer hsound rfl rfl (fun _ _ => mem_of_eraseHandler herase) _ (fun _ _ h => h) (fun _ _ h => h)
      intro k c client hc hk
      apply eraseHandler_keeps herase hc _ hk
      intro hhandler
      rw [(hx.sound.handler c client s hc hhandler).1] at hs
      cases hs
  | some c₀ =>
      rw [hs] at hw
      obtain ⟨_, _, rfl⟩ := Option.map_eq_some_iff.mp hw
      apply hx.fewer hsound rfl rfl (fun _ _ => mem_of_eraseHandler herase) _ (fun _ _ h => (update_none h).2)
        (fun _ _ h => (update_none h).2)
      intro k c client hc hk
      obtain ⟨hne, hc⟩ := update_none hc
      apply eraseHandler_keeps herase hc _ hk
      intro hhandler
      rw [(hx.sound.handler c client s hc hhandler).1] at hs
      exact hne (Option.some.inj hs)

/-! ### Runs -/

theorem Inv.step (hx : Inv S x) (hS : Set.InjOn Host.key S) {l : WrapperLabel} (hl : ∀ A ∈ l.hosts, A ∈ S)
    (hone : OneAddress x l) (h : x.step l = some x') : Inv S x' := by
  cases l with
  | call host entityId funcName args => exact hx.call hS (hl host (List.mem_singleton_self host)) h
  | handleInit s remote => exact hx.handleInit hS (hl remote (List.mem_singleton_self remote)) h
  | registerServer s processType host =>
      cases h
      exact hx.registerServer (hl host (List.mem_singleton_self host)) hone
  | handleClose s => exact hx.handleClose h

/-- A call to each of two addresses, when nobody is connected. -/
def bothCalled (A B : Host) : List WrapperLabel := [.call A 1 [] [], .call B 2 [] []]

/-- Two addresses with one key share the placeholder that the first call leaves. -/
theorem bothCalled_shared (processType : ProcessType) {A B : Host} (hkey : A.key = B.key) :
    ∃ x, run step (init processType) (bothCalled A B) = some x ∧ x.returned = [(B, 0), (A, 0)] := by
  obtain ⟨p, hp, _⟩ := fillEntityPacket_empty 1
  obtain ⟨q, hq, _⟩ := fillEntityPacket_empty 2
  have hlook : ([(B.key, 0)] : List (AddressKey × Nat)).lookup B.key = some 0 := by simp
  simp [bothCalled, run, step, follow, init, RpcWrapper.step, callEntity, RpcWrapper.getClientByAddress,
    RpcWrapper.init, RpcWrapper.create, setClient, insertKey, RpcClient.sendEntityPacket, hp, hq, hkey, hlook]

/-- **Calls go to the addressed process exactly when the keys tell the addresses apart.** Over a set of
    addresses: in every run of calls, connections, registrations and closes in which no server announces a
    second address for a client, the clients returned for different addresses differ, and every packet is
    given to a connection that goes by the address it was called for, if and only if no two addresses of the
    set have the same text of ip and port. -/
theorem entity_calls_addressed_iff (processType : ProcessType) (S : Set Host) :
    (∀ labels x, (∀ l ∈ labels, ∀ A ∈ l.hosts, A ∈ S) → Along step OneAddress (init processType) labels →
      run step (init processType) labels = some x → Addressed x) ↔ Set.InjOn Host.key S := by
  constructor
  · intro h A hA B hB hkey
    obtain ⟨x, hrun, hreturned⟩ := bothCalled_shared processType hkey
    have hhosts : ∀ l ∈ bothCalled A B, ∀ C ∈ l.hosts, C ∈ S := by
      simp [bothCalled, WrapperLabel.hosts, hA, hB]
    have hone : Along step OneAddress (init processType) (bothCalled A B) :=
      ⟨trivial, fun _ _ => ⟨trivial, fun _ _ => trivial⟩⟩
    exact (h _ x hhosts hone hrun).distinct A B 0 (by simp [hreturned]) (by simp [hreturned])
  · intro hS labels x hhosts hone hrun
    have hinv : Inv S x := run_invariant_along (fun hx hP h => Inv.step hx hS hP.2 hP.1 h) (inv_init S processType)
      (hone.and_labels hhosts) hrun
    exact hinv.toAddressed

def first : Host := ⟨['1', '.', '1', '.', '1', '.', '1'], 110⟩

def second : Host := ⟨['1', '.', '1', '.', '1', '.', '1', '1'], 10⟩

/-- Two addresses of one key: both calls share a client, and once the second address is connected it is given
    the packet for the first. -/
theorem shared_key_run : first ≠ second ∧ ∃ x,
    run step (init .game) [.call first 1 [] [], .call second 2 [] [], .handleInit 1 second] = some x ∧
    (first, 0) ∈ x.returned ∧ (second, 0) ∈ x.returned ∧
    ∃ info, (first, info) ∈ x.given ∧ first ∉ x.goesBy info.socketIndex := by
  obtain ⟨p, hp, hplen⟩ := fillEntityPacket_empty 1
  obtain ⟨q, hq, hqlen⟩ := fillEntityPacket_empty 2
  have hkey : first.key = second.key := by decide
  have hne : first ≠ second := by decide
  refine ⟨hne, ?_⟩
  have hlook : ([(second.key, 0)] : List (AddressKey × Nat)).lookup second.key = some 0 := by simp
  simp [run, step, follow, init, RpcWrapper.step, callEntity, RpcWrapper.getClientByAddress, registerHandlerInfo,
    RpcWrapper.init, RpcWrapper.create, setClient, insertKey, RpcClient.sendEntityPacket,
    RpcClient.processCachePackets, sendPacket, invalidSocketIndex, sentSince, hp, hq, hplen, hqlen, hkey, hlook, hne]

end Addressing

end Mowang
