import Mowang.Base.OrderedMap
import Mowang.Share.RpcWrapper

/-!
# `Share.RpcRegistry` — the three maps of `rpc_wrapper` and the life of a client

An `rpc_client` stands in `m_socket_index_2_client` from the `handle_init` of its connection on, and
`register_server` enters it in `m_process_id_2_client` and, between game processes, in `m_directly_games`.
`handle_close` deletes it, if the handler is one that registers servers, and takes the first entry out of
each map. What a map holds afterwards may be deleted, or its handler closed.

## Contents
- `RpcRegistry`, its lookups, `RegistryLabel`, `RpcRegistry.step`.
- `RpcRegistry.NoDangling`, `RpcRegistry.SoleEntry`.
- `step_noDangling_iff`, `no_dangling_iff`, and the runs that leave a dangling client.
-/

namespace Mowang

/-- The handlers as far as `need_register_server` and the rpc packets tell them apart: those between servers,
    `client_handler`, which passes the rpc packets on, and `robot_packet_handler`. -/
inductive HandlerKind
  | server | client | robot
  deriving DecidableEq

/-- `need_register_server`. -/
def HandlerKind.needRegisterServer : HandlerKind → Bool
  | .server => true
  | .client => false
  | .robot  => false

/-- `handle_rpc_by_name` runs the call here. -/
def HandlerKind.runsRpc : HandlerKind → Bool
  | .server => true
  | .client => false
  | .robot  => true

/-- The value of `game_process_type`. -/
def ProcessType.value : ProcessType → Nat
  | .gate       => 1
  | .game       => 2
  | .db         => 3
  | .httpClient => 4
  | .robot      => 5

/-- `game_server_info`. -/
structure GameServerInfo where
  processType : ProcessType
  processId : UInt16
  host : Host

/-- `get_key_id_by_process_id`. -/
def keyIdByProcessId (processType : ProcessType) (processId : UInt16) : Nat :=
  processType.value * 2 ^ 16 + processId.toNat

structure RpcRegistry where
  wrapper : RpcWrapper
  /-- `m_process_id_2_client`, in the order of its keys. -/
  processId2Client : List (Nat × Nat) := []
  /-- `m_handlers`. -/
  handlers : SocketIndex → Option HandlerKind := fun _ => none
  /-- The handlers whose `m_socket_index` `handle_close` has made invalid. -/
  closed : List SocketIndex := []

/-- What happens on the logic thread: a call to an entity, a connection's `handle_init`, a `register_server` it
    receives, its `handle_close`. -/
inductive RegistryLabel
  | call (host : Host) (entityId : EntityId) (funcName : List UInt8) (args : List Param)
  | handleInit (kind : HandlerKind) (s : SocketIndex) (remote : Host)
  | registerServer (s : SocketIndex) (info : GameServerInfo)
  | handleClose (s : SocketIndex)

namespace RpcRegistry

def init (processType : ProcessType) : RpcRegistry := { wrapper := .init processType }

/-- `m_process_id_2_client[key_id] = client`. -/
def setKeyId (keyId c : Nat) : List (Nat × Nat) → List (Nat × Nat)
  | []            => [(keyId, c)]
  | entry :: rest =>
    if keyId < entry.1 then (keyId, c) :: entry :: rest
    else if keyId = entry.1 then (keyId, c) :: rest
    else entry :: setKeyId keyId c rest

/-- `rpc->get_handler()->get_socket_index() == socket_index`. -/
def hasHandler (w : RpcWrapper) (s : SocketIndex) (c : Nat) : Option Bool :=
  (w.clients c).map fun client => client.handler = some s

/-- `update_handler_info`. -/
def updateHandlerInfo (x : RpcRegistry) (s : SocketIndex) (info : GameServerInfo) : Option RpcRegistry :=
  match x.wrapper.socketIndex2Client s with
  | none   => some x
  | some c =>
    (x.wrapper.step (.registerServer s info.processType info.host)).map fun w =>
    { x with
      wrapper := w
      processId2Client := setKeyId (keyIdByProcessId info.processType info.processId) c x.processId2Client }

/-- `unregister_handler_info`. -/
def unregisterHandlerInfo (x : RpcRegistry) (s : SocketIndex) : Option RpcRegistry :=
  (eraseFound (hasHandler x.wrapper s) x.processId2Client).bind fun processId2Client =>
  (x.wrapper.step (.handleClose s)).map fun w =>
  { x with wrapper := w, processId2Client := processId2Client }

/-- One step. A handler closes once. -/
def step (x : RpcRegistry) : RegistryLabel → Option RpcRegistry
  | .call host entityId funcName args =>
    (x.wrapper.step (.call host entityId funcName args)).map fun w => { x with wrapper := w }
  | .handleInit kind s remote =>
    (x.wrapper.step (.handleInit s remote)).map fun w =>
    { x with wrapper := w, handlers := Function.update x.handlers s (some kind) }
  | .registerServer s info =>
    match x.handlers s with
    | none      => some x
    | some kind => if kind.runsRpc then x.updateHandlerInfo s info else some x
  | .handleClose s =>
    match x.handlers s with
    | none      => none
    | some kind =>
      (if kind.needRegisterServer then x.unregisterHandlerInfo s else some x).map fun x =>
      { x with handlers := Function.update x.handlers s none, closed := s :: x.closed }

/-! ## Lookups -/

/-- `get_client_by_socket_index`. -/
def getClientBySocketIndex (x : RpcRegistry) (s : SocketIndex) : Option Nat := x.wrapper.socketIndex2Client s

/-- `get_client_by_process_id`. -/
def getClientByProcessId (x : RpcRegistry) (processType : ProcessType) (processId : UInt16) : Option Nat :=
  x.processId2Client.lookup (keyIdByProcessId processType processId)

/-- The clients `get_client_by_process_type` picks from. -/
def clientsByProcessType (x : RpcRegistry) (processType : ProcessType) : List Nat :=
  (x.processId2Client.filter fun entry => entry.1 / 2 ^ 16 % 2 ^ 8 = processType.value).map (·.2)

/-- The client is not deleted, and its handler is not closed. -/
def Usable (x : RpcRegistry) (c : Nat) : Prop :=
  ∃ client, x.wrapper.clients c = some client ∧ ∀ s, client.handler = some s → s ∉ x.closed

/-- No map holds a client that is deleted or whose handler is closed. -/
structure NoDangling (x : RpcRegistry) : Prop where
  direct : ∀ k c, (k, c) ∈ x.wrapper.directlyGames → x.Usable c
  process : ∀ k c, (k, c) ∈ x.processId2Client → x.Usable c
  socket : ∀ s c, x.wrapper.socketIndex2Client s = some c → x.Usable c

/-- Then the lookups return usable clients only. -/
theorem NoDangling.lookups {x : RpcRegistry} (hx : NoDangling x) {c : Nat} :
    (∀ s, x.getClientBySocketIndex s = some c → x.Usable c) ∧
    (∀ processType processId, x.getClientByProcessId processType processId = some c → x.Usable c) ∧
    ∀ processType, c ∈ x.clientsByProcessType processType → x.Usable c := by
  refine ⟨fun s h => hx.socket s c h, fun _ _ h => hx.process _ c (mem_of_lookup h), ?_⟩
  intro processType h
  obtain ⟨⟨k, d⟩, hentry, rfl⟩ := List.mem_map.mp h
  exact hx.process k d (List.mem_of_mem_filter hentry)

/-- A handler that registers servers closes when its client has no other connection and at most one address
    and one process; any other handler closes when its client has been given to another connection. -/
def SoleEntry (x : RpcRegistry) : RegistryLabel → Prop
  | .handleClose s =>
    ∀ kind c client, x.handlers s = some kind → x.wrapper.socketIndex2Client s = some c →
      x.wrapper.clients c = some client →
      if kind.needRegisterServer then
        (∀ s', x.wrapper.socketIndex2Client s' = some c → s' = s) ∧
        x.wrapper.directlyGames.countP (fun entry => entry.2 = c) ≤ 1 ∧
        x.processId2Client.countP (fun entry => entry.2 = c) ≤ 1
      else client.handler ≠ some s
  | _ => True

/-! ## Steps that delete nothing -/

/-- The client stands in a map of the wrapper. -/
def Held (w : RpcWrapper) (c : Nat) : Prop :=
  (∃ k, (k, c) ∈ w.directlyGames) ∨ ∃ s, w.socketIndex2Client s = some c

/-- Clients stay and keep their handler, or are given one that was not open; and what comes into a map is such a
    client, or was in one before. -/
structure Grows (w w' : RpcWrapper) : Prop where
  lives : ∀ c client, w.clients c = some client → ∃ client', w'.clients c = some client' ∧
    ∀ s, client'.handler = some s → client.handler = some s ∨ s ∉ w.opened
  held : ∀ c, Held w' c → Held w c ∨ ∃ client, w'.clients c = some client ∧
    ∀ s, client.handler = some s → s ∉ w.opened

variable {w w' w₁ : RpcWrapper}

theorem Grows.refl (w : RpcWrapper) : Grows w w :=
  ⟨fun _ client hc => ⟨client, hc, fun _ h => .inl h⟩, fun _ h => .inl h⟩

/-- A new client without a handler, whatever it is entered under. -/
theorem grows_create (hw : w.Sound) (key : AddressKey) :
    Grows w { w.create ⟨none, []⟩ with
      directlyGames := RpcWrapper.insertKey key w.newClient w.directlyGames } where
  lives c client hc := by
    have hne : c ≠ w.newClient := Nat.ne_of_lt (hw.clients_new c client hc)
    exact ⟨client, (Function.update_of_ne hne _ _).trans hc, fun _ h => .inl h⟩
  held c := by
    rintro (⟨k, hk⟩ | hs)
    · rcases RpcWrapper.mem_insertKey.mp hk with heq | hk
      · cases heq
        exact .inr ⟨⟨none, []⟩, Function.update_self _ _ _, fun _ h => by cases h⟩
      · exact .inl (.inl ⟨k, hk⟩)
    · exact .inl (.inr hs)

/-- A client may send or cache, as long as it keeps its handler. -/
theorem Grows.called (h : Grows w w₁) {c : Nat} {client client' : RpcClient} {packet : EntityRpcByNamePacket}
    {infos : List PacketSendInfo} (hc : w₁.clients c = some client) (hsame : client'.handler = client.handler) :
    Grows w (w₁.called c client' packet infos) := by
  have hclients : ∀ d cl, w₁.clients d = some cl →
      ∃ cl', (w₁.called c client' packet infos).clients d = some cl' ∧ cl'.handler = cl.handler := by
    intro d cl hd
    by_cases hdc : d = c
    · subst hdc
      rw [hc] at hd
      cases hd
      exact ⟨client', Function.update_self _ _ _, hsame⟩
    · exact ⟨cl, (Function.update_of_ne hdc _ _).trans hd, rfl⟩
  constructor
  · intro d cl hd
    obtain ⟨cl₁, hcl₁, hhandler⟩ := h.lives d cl hd
    obtain ⟨cl', hcl', heq⟩ := hclients d cl₁ hcl₁
    exact ⟨cl', hcl', heq ▸ hhandler⟩
  · intro d hd
    rcases h.held d hd with hd | ⟨cl₁, hcl₁, hnew⟩
    · exact .inl hd
    · obtain ⟨cl', hcl', heq⟩ := hclients d cl₁ hcl₁
      exact .inr ⟨cl', hcl', heq ▸ hnew⟩

theorem grows_call (hw : w.Sound) {host : Host} {entityId : EntityId} {funcName : List UInt8} {args : List Param}
    (h : w.step (.call host entityId funcName args) = some w') : Grows w w' := by
  obtain ⟨w₁, c, client, client', packet, infos, hget, _, hc, hsend, rfl⟩ := RpcWrapper.call_cases h
  have hgrows : Grows w (w.getClientByAddress host.key).1 := by
    unfold RpcWrapper.getClientByAddress
    cases w.directlyGames.lookup host.key with
    | none   => exact grows_create hw host.key
    | some _ => exact .refl w
  have hw₁ := RpcWrapper.sound_getClientByAddress hw host.key
  rw [hget] at hgrows hw₁
  apply hgrows.called hc
  rcases RpcWrapper.sendEntityPacket_cases (fun s hs => (hw₁.handler c client s hc hs).2) hsend with
    ⟨_, _, rfl, _⟩ | ⟨_, _, rfl⟩ <;> rfl

/-- A client, old or new, is given a connection that was not open. -/
theorem grows_attach {s : SocketIndex} {key : AddressKey} {c : Nat} {infos : List PacketSendInfo}
    (hnew : s ∉ w.opened) (hlives : ∀ d cl, w.clients d = some cl → w₁.clients d = some cl)
    (hheld : ∀ d, Held w₁ d → Held w d) : Grows w (w₁.attach s key c infos) where
  lives d cl hd := by
    by_cases hdc : d = c
    · refine ⟨⟨some s, []⟩, by rw [hdc]; exact Function.update_self _ _ _, ?_⟩
      intro s' hs'
      cases hs'
      exact .inr hnew
    · exact ⟨cl, (Function.update_of_ne hdc _ _).trans (hlives d cl hd), fun _ h => .inl h⟩
  held d := by
    have hself : d = c → ∃ client, (w₁.attach s key c infos).clients d = some client ∧
        ∀ s', client.handler = some s' → s' ∉ w.opened := by
      rintro rfl
      refine ⟨⟨some s, []⟩, Function.update_self _ _ _, ?_⟩
      intro s' hs'
      cases hs'
      exact hnew
    rintro (hk | ⟨s', hs'⟩)
    · exact .inl (hheld d (.inl hk))
    · rcases RpcWrapper.update_some hs' with ⟨_, rfl⟩ | ⟨_, hs'⟩
      · exact .inr (hself rfl)
      · exact .inl (hheld d (.inr ⟨s', hs'⟩))

theorem grows_handleInit (hw : w.Sound) {s : SocketIndex} {remote : Host}
    (h : w.step (.handleInit s remote) = some w') : Grows w w' := by
  obtain ⟨_, hnew, rfl | ⟨c, client, _, _, rfl⟩⟩ := RpcWrapper.handleInit_cases h
  · have hlives : ∀ d cl, w.clients d = some cl → (w.create ⟨none, []⟩).clients d = some cl := by
      intro d cl hd
      exact (Function.update_of_ne (Nat.ne_of_lt (hw.clients_new d cl hd)) _ _).trans hd
    exact grows_attach hnew hlives fun _ h => h
  · exact grows_attach hnew (fun _ _ h => h) fun _ h => h

theorem grows_registerServer {s : SocketIndex} {processType : ProcessType} {host : Host}
    (h : w.step (.registerServer s processType host) = some w') : Grows w w' := by
  cases h
  unfold RpcWrapper.updateHandlerInfo
  have hsame : ∀ addresses, Grows w { w with addresses := addresses } :=
    fun _ => ⟨(Grows.refl w).lives, (Grows.refl w).held⟩
  cases hs : w.socketIndex2Client s with
  | none => exact hsame _
  | some c =>
      dsimp only
      split
      · cases w.directlyGames.lookup host.key with
        | some _ => exact hsame _
        | none =>
            refine ⟨fun _ client hc => ⟨client, hc, fun _ h => .inl h⟩, ?_⟩
            rintro d (⟨k, hk⟩ | hd)
            · rcases RpcWrapper.mem_insertKey.mp hk with heq | hk
              · cases heq
                exact .inl (.inr ⟨s, hs⟩)
              · exact .inl (.inl ⟨k, hk⟩)
            · exact .inl (.inr hd)
      · exact hsame _

/-! ## Every step -/

/-- What holds whatever dangles. -/
structure Inv (x : RpcRegistry) : Prop where
  sound : x.wrapper.Sound
  opened : ∀ s kind, x.handlers s = some kind → s ∈ x.wrapper.opened ∧ ∃ c, x.wrapper.socketIndex2Client s = some c
  closed : ∀ s, s ∈ x.closed → s ∈ x.wrapper.opened

variable {x x' : RpcRegistry} {c : Nat}

theorem inv_init (processType : ProcessType) : Inv (init processType) :=
  ⟨RpcWrapper.sound_init processType, by simp [init], by simp [init]⟩

theorem noDangling_init (processType : ProcessType) : NoDangling (init processType) := by
  constructor <;> simp [init, RpcWrapper.init]

theorem Grows.usable (h : Grows x.wrapper w') (hx : Inv x) {pid : List (Nat × Nat)}
    {handlers : SocketIndex → Option HandlerKind} (hc : x.Usable c) :
    Usable { x with wrapper := w', processId2Client := pid, handlers := handlers } c := by
  obtain ⟨client, hclient, hopen⟩ := hc
  obtain ⟨client', hclient', hhandler⟩ := h.lives c client hclient
  refine ⟨client', hclient', ?_⟩
  intro s hs hclosed
  rcases hhandler s hs with hs | hs
  · exact hopen s hs hclosed
  · exact hs (hx.closed s hclosed)

/-- A step that deletes nothing leaves nothing dangling, if it enters only clients that are there. -/
theorem Grows.noDangling (h : Grows x.wrapper w') (hx : Inv x) (hg : NoDangling x) {pid : List (Nat × Nat)}
    {handlers : SocketIndex → Option HandlerKind}
    (hpid : ∀ k c, (k, c) ∈ pid → (k, c) ∈ x.processId2Client ∨ ∃ s, x.wrapper.socketIndex2Client s = some c) :
    NoDangling { x with wrapper := w', processId2Client := pid, handlers := handlers } := by
  have hheld : ∀ c, Held w' c →
      Usable { x with wrapper := w', processId2Client := pid, handlers := handlers } c := by
    intro c hc
    rcases h.held c hc with (⟨k, hk⟩ | ⟨s, hs⟩) | ⟨client, hclient, hnew⟩
    · exact h.usable hx (hg.direct k c hk)
    · exact h.usable hx (hg.socket s c hs)
    · exact ⟨client, hclient, fun s hs hclosed => hnew s hs (hx.closed s hclosed)⟩
  constructor
  · intro k c hk
    exact hheld c (.inl ⟨k, hk⟩)
  · intro k c hk
    rcases hpid k c hk with hk | ⟨s, hs⟩
    · exact h.usable hx (hg.process k c hk)
    · exact h.usable hx (hg.socket s c hs)
  · intro s c hs
    exact hheld c (.inr ⟨s, hs⟩)

theorem setKeyId_eq (key c : Nat) (entries : List (Nat × Nat)) :
    setKeyId key c entries = OrderedMap.insertEntry key c entries := by
  induction entries with
  | nil => rfl
  | cons e rest ih =>
      rw [setKeyId, OrderedMap.insertEntry, ih]
      by_cases hlt : key < e.1
      · rw [if_pos hlt, if_pos hlt]
      · rw [if_neg hlt, if_neg hlt]
        by_cases heq : key = e.1
        · rw [if_pos heq, if_neg (by omega)]
        · rw [if_neg heq, if_pos (by omega)]

theorem mem_setKeyId {key c : Nat} {entries : List (Nat × Nat)} {e : Nat × Nat} (h : e ∈ setKeyId key c entries) :
    e = (key, c) ∨ e ∈ entries := OrderedMap.mem_insertEntry (setKeyId_eq key c entries ▸ h)

theorem call_sockets {host : Host} {entityId : EntityId} {funcName : List UInt8} {args : List Param}
    (h : w.step (.call host entityId funcName args) = some w') :
    w'.opened = w.opened ∧ w'.socketIndex2Client = w.socketIndex2Client := by
  obtain ⟨w₁, c, _, _, _, _, hget, _, _, _, rfl⟩ := RpcWrapper.call_cases h
  show w₁.opened = w.opened ∧ w₁.socketIndex2Client = w.socketIndex2Client
  unfold RpcWrapper.getClientByAddress at hget
  cases hlook : w.directlyGames.lookup host.key with
  | none =>
      rw [hlook] at hget
      cases hget
      exact ⟨rfl, rfl⟩
  | some _ =>
      rw [hlook] at hget
      cases hget
      exact ⟨rfl, rfl⟩

theorem handleInit_sockets {s : SocketIndex} {remote : Host} (h : w.step (.handleInit s remote) = some w') :
    s ∉ w.opened ∧ w'.opened = s :: w.opened ∧
      ∃ c, w'.socketIndex2Client = Function.update w.socketIndex2Client s (some c) := by
  obtain ⟨_, hnew, rfl | ⟨c, _, _, _, rfl⟩⟩ := RpcWrapper.handleInit_cases h
  · exact ⟨hnew, rfl, _, rfl⟩
  · exact ⟨hnew, rfl, c, rfl⟩

theorem registerServer_sockets {s : SocketIndex} {processType : ProcessType} {host : Host}
    (h : w.step (.registerServer s processType host) = some w') :
    w'.opened = w.opened ∧ w'.socketIndex2Client = w.socketIndex2Client := by
  cases h
  unfold RpcWrapper.updateHandlerInfo
  cases w.socketIndex2Client s with
  | none => exact ⟨rfl, rfl⟩
  | some c =>
      dsimp only
      split
      · cases w.directlyGames.lookup host.key <;> exact ⟨rfl, rfl⟩
      · exact ⟨rfl, rfl⟩

theorem eraseHandler_eq (w : RpcWrapper) (s : SocketIndex) (entries : List (AddressKey × Nat)) :
    w.eraseHandler s entries = eraseFound (hasHandler w s) entries := by
  induction entries with
  | nil => rfl
  | cons e rest ih =>
      obtain ⟨k, d⟩ := e
      rw [RpcWrapper.eraseHandler, eraseFound, ih, hasHandler]
      cases w.clients d <;> simp

/-- What `unregister_handler_info` does for a connection that has its client: the client is deleted, and of the
    entries whose client has the handler the first one goes. -/
theorem handleClose_cases {s : SocketIndex} (hs : w.socketIndex2Client s = some c)
    (h : w.step (.handleClose s) = some w') : ∃ entries,
      eraseFound (hasHandler w s) w.directlyGames = some entries ∧
      w' = { w.detach s c with directlyGames := entries } := by
  obtain ⟨entries, herase, h⟩ := Option.bind_eq_some_iff.mp h
  rw [hs] at h
  obtain ⟨_, _, rfl⟩ := Option.map_eq_some_iff.mp h
  exact ⟨entries, eraseHandler_eq w s _ ▸ herase, rfl⟩

/-- A server connection closes: the entries that are left, and the deleted client. -/
theorem unregister_cases {s : SocketIndex} (hs : x.wrapper.socketIndex2Client s = some c)
    (h : x.unregisterHandlerInfo s = some x') : ∃ entries pid,
      eraseFound (hasHandler x.wrapper s) x.wrapper.directlyGames = some entries ∧
      eraseFound (hasHandler x.wrapper s) x.processId2Client = some pid ∧
      x' = { x with wrapper := { x.wrapper.detach s c with directlyGames := entries }, processId2Client := pid } := by
  obtain ⟨pid, hpid, h⟩ := Option.bind_eq_some_iff.mp h
  obtain ⟨w', hw, rfl⟩ := Option.map_eq_some_iff.mp h
  obtain ⟨entries, hentries, rfl⟩ := handleClose_cases hs hw
  exact ⟨entries, pid, hentries, hpid, rfl⟩

/-- What `register_server` does, if the handler runs it and the connection has its client. -/
theorem registerServer_cases {s : SocketIndex} {info : GameServerInfo}
    (h : x.step (.registerServer s info) = some x') : x' = x ∨
    ∃ kind c w', x.handlers s = some kind ∧ kind.runsRpc = true ∧ x.wrapper.socketIndex2Client s = some c ∧
      x.wrapper.step (.registerServer s info.processType info.host) = some w' ∧
      x' = { x with
        wrapper := w'
        processId2Client :=
          setKeyId (keyIdByProcessId info.processType info.processId) c x.processId2Client } := by
  simp only [step] at h
  cases hkind : x.handlers s with
  | none =>
      rw [hkind] at h
      cases h
      exact .inl rfl
  | some kind =>
      simp only [hkind] at h
      cases hruns : kind.runsRpc with
      | false =>
          rw [hruns, if_neg Bool.false_ne_true] at h
          cases h
          exact .inl rfl
      | true =>
          rw [hruns, if_pos rfl, updateHandlerInfo] at h
          cases hs : x.wrapper.socketIndex2Client s with
          | none =>
              rw [hs] at h
              cases h
              exact .inl rfl
          | some c =>
              rw [hs] at h
              obtain ⟨w', hw, rfl⟩ := Option.map_eq_some_iff.mp h
              exact .inr ⟨kind, c, w', rfl, hruns, rfl, hw, rfl⟩

/-- What `handle_close` does, by the kind of the handler. -/
theorem close_cases {s : SocketIndex} (h : x.step (.handleClose s) = some x') :
    ∃ kind x₁, x.handlers s = some kind ∧
      (if kind.needRegisterServer then x.unregisterHandlerInfo s else some x) = some x₁ ∧
      x' = { x₁ with handlers := Function.update x₁.handlers s none, closed := s :: x₁.closed } := by
  simp only [step] at h
  cases hs : x.handlers s with
  | none =>
      rw [hs] at h
      cases h
  | some kind =>
      rw [hs] at h
      obtain ⟨x₁, hx₁, rfl⟩ := Option.map_eq_some_iff.mp h
      exact ⟨kind, x₁, rfl, hx₁, rfl⟩

/-- The maps of a wrapper other than that of the sockets do not matter, nor do the clients by their process. -/
theorem Inv.of_sockets {w' : RpcWrapper} {processId2Client} (hx : Inv x) (hsound : w'.Sound)
    (hsockets : w'.opened = x.wrapper.opened ∧ w'.socketIndex2Client = x.wrapper.socketIndex2Client) :
    Inv { x with wrapper := w', processId2Client := processId2Client } := by
  obtain ⟨hopened, hsock⟩ := hsockets
  refine ⟨hsound, ?_, ?_⟩
  · intro s kind hs
    rw [hopened, hsock]
    exact hx.opened s kind hs
  · intro s hs
    rw [hopened]
    exact hx.closed s hs

theorem step_inv {l : RegistryLabel} (hx : Inv x) (h : x.step l = some x') : Inv x' := by
  cases l with
  | call host entityId funcName args =>
      obtain ⟨w', hw, rfl⟩ := Option.map_eq_some_iff.mp h
      exact hx.of_sockets (RpcWrapper.step_sound hx.sound hw) (call_sockets hw)
  | handleInit kind s remote =>
      obtain ⟨w', hw, rfl⟩ := Option.map_eq_some_iff.mp h
      obtain ⟨_, hopened, c, hsock⟩ := handleInit_sockets hw
      refine ⟨RpcWrapper.step_sound hx.sound hw, ?_, ?_⟩
      · intro s' kind' hs'
        rw [hopened, hsock]
        by_cases hss : s' = s
        · subst hss
          exact ⟨List.mem_cons_self, c, Function.update_self _ _ _⟩
        · obtain ⟨hold, d, hd⟩ := hx.opened s' kind' ((Function.update_of_ne hss _ _).symm.trans hs')
          exact ⟨List.mem_cons_of_mem s hold, d, (Function.update_of_ne hss _ _).trans hd⟩
      · intro s' hs'
        rw [hopened]
        exact List.mem_cons_of_mem s (hx.closed s' hs')
  | registerServer s info =>
      obtain rfl | ⟨_, c, w', _, _, _, hw, rfl⟩ := registerServer_cases h
      · exact hx
      · exact hx.of_sockets (RpcWrapper.step_sound hx.sound hw) (registerServer_sockets hw)
  | handleClose s =>
      obtain ⟨kind, x₁, hkind, hx₁, rfl⟩ := close_cases h
      obtain ⟨hopen, c, hc⟩ := hx.opened s kind hkind
      -- `unregister` is a step of the wrapper, so only the sockets are left to check
      split at hx₁
      · have hsound : x₁.wrapper.Sound := by
          obtain ⟨_, _, hx₁⟩ := Option.bind_eq_some_iff.mp hx₁
          obtain ⟨w', hw, rfl⟩ := Option.map_eq_some_iff.mp hx₁
          exact RpcWrapper.step_sound hx.sound hw
        obtain ⟨entries, pid, _, _, rfl⟩ := unregister_cases hc hx₁
        refine ⟨hsound, ?_, ?_⟩
        · intro s' kind' hs'
          obtain ⟨hss, hs'⟩ := RpcWrapper.update_none hs'
          obtain ⟨hold, d, hd⟩ := hx.opened s' kind' hs'
          exact ⟨hold, d, (Function.update_of_ne hss _ _).trans hd⟩
        · intro s' hs'
          rcases List.mem_cons.mp hs' with rfl | hs'
          · exact hopen
          · exact hx.closed s' hs'
      · cases hx₁
        refine ⟨hx.sound, ?_, ?_⟩
        · intro s' kind' hs'
          exact hx.opened s' kind' (RpcWrapper.update_none hs').2
        · intro s' hs'
          rcases List.mem_cons.mp hs' with rfl | hs'
          · exact hopen
          · exact hx.closed s' hs'

/-! ## What a close leaves -/

section Close

variable {s : SocketIndex} {kind : HandlerKind}

/-- A client whose handler is the connection is its client. -/
theorem Inv.handler_eq (hx : Inv x) (hc : x.wrapper.socketIndex2Client s = some c) {d : Nat} {client : RpcClient}
    (hd : x.wrapper.clients d = some client) (hs : client.handler = some s) : d = c := by
  have hown := (hx.sound.handler d client s hd hs).1
  rw [hc] at hown
  exact (Option.some.inj hown).symm

/-- After the close of another handler: its client must have a connection that is open. -/
theorem noDangling_kept_iff (hx : Inv x) (hg : NoDangling x) (hc : x.wrapper.socketIndex2Client s = some c)
    {client : RpcClient} (hclient : x.wrapper.clients c = some client)
    (handlers : SocketIndex → Option HandlerKind) :
    NoDangling { x with handlers := handlers, closed := s :: x.closed } ↔ client.handler ≠ some s := by
  constructor
  · intro hg' hs
    obtain ⟨client', hclient', hopen⟩ := hg'.socket s c hc
    rw [hclient] at hclient'
    cases hclient'
    exact hopen s hs List.mem_cons_self
  · intro hne
    have husable : ∀ d, x.Usable d → Usable { x with handlers := handlers, closed := s :: x.closed } d := by
      rintro d ⟨cl, hd, hopen⟩
      refine ⟨cl, hd, ?_⟩
      intro s' hs' hclosed
      rcases List.mem_cons.mp hclosed with rfl | hclosed
      · obtain rfl := hx.handler_eq hc hd hs'
        rw [hclient] at hd
        cases hd
        exact hne hs'
      · exact hopen s' hs' hclosed
    exact ⟨fun k d hk => husable d (hg.direct k d hk), fun k d hk => husable d (hg.process k d hk),
      fun s' d hs' => husable d (hg.socket s' d hs')⟩

/-- The client of the connection is found, and no other. -/
theorem hasHandler_eq (hx : Inv x) (hc : x.wrapper.socketIndex2Client s = some c) {client : RpcClient}
    (hclient : x.wrapper.clients c = some client) (hs : client.handler = some s) {d : Nat} (hd : x.Usable d) :
    hasHandler x.wrapper s d = some (decide (d = c)) := by
  obtain ⟨cl, hcl, _⟩ := hd
  unfold hasHandler
  rw [hcl, Option.map_some]
  by_cases hdc : d = c
  · subst hdc
    rw [hclient] at hcl
    cases hcl
    simp [hs]
  · have hne : cl.handler ≠ some s := fun h => hdc (hx.handler_eq hc hcl h)
    simp [hdc, hne]

/-- No entry of the client is left exactly when it had at most one. -/
theorem countP_eraseFound_iff {K : Type} {entries : List (K × Nat)} {found : Nat → Option Bool}
    (h : ∀ entry ∈ entries, found entry.2 = some (decide (entry.2 = c))) {entries' : List (K × Nat)}
    (herase : eraseFound found entries = some entries') :
    entries.countP (fun entry => entry.2 = c) ≤ 1 ↔ ∀ k, (k, c) ∉ entries' := by
  rw [eraseFound_eq (p := fun d => decide (d = c)) h] at herase
  cases herase
  have hcount := countP_eraseP (fun entry : K × Nat => decide (entry.2 = c)) entries
  calc entries.countP (fun entry => entry.2 = c) ≤ 1
      ↔ (entries.eraseP fun entry => decide (entry.2 = c)).countP (fun entry => decide (entry.2 = c)) = 0 := by omega
    _ ↔ ∀ k, (k, c) ∉ entries.eraseP fun entry => decide (entry.2 = c) := by
      rw [List.countP_eq_zero]
      constructor
      · intro hnone k hk
        exact hnone (k, c) hk (decide_eq_true rfl)
      · rintro hnone ⟨k, d⟩ hk heq
        obtain rfl : d = c := of_decide_eq_true heq
        exact hnone k hk

/-- After the close of a server connection. -/
theorem noDangling_unregistered_iff (hx : Inv x) (hg : NoDangling x) (hc : x.wrapper.socketIndex2Client s = some c)
    (h : x.unregisterHandlerInfo s = some x') (handlers : SocketIndex → Option HandlerKind) :
    NoDangling { x' with handlers := handlers, closed := s :: x'.closed } ↔
      (∀ s', x.wrapper.socketIndex2Client s' = some c → s' = s) ∧
      x.wrapper.directlyGames.countP (fun entry => entry.2 = c) ≤ 1 ∧
      x.processId2Client.countP (fun entry => entry.2 = c) ≤ 1 := by
  obtain ⟨entries, pid, hentries, hpid, rfl⟩ := unregister_cases hc h
  obtain ⟨client, hclient, _⟩ := hg.socket s c hc
  have hdeleted : ∀ (y : RpcRegistry), y.wrapper.clients = (x.wrapper.detach s c).clients → ¬ y.Usable c := by
    rintro y hy ⟨cl, hcl, _⟩
    rw [hy] at hcl
    exact (RpcWrapper.update_none hcl).1 rfl
  have hfound : (∀ s', x.wrapper.socketIndex2Client s' = some c → s' = s) → ∀ d, x.Usable d →
      hasHandler x.wrapper s d = some (decide (d = c)) := by
    intro hsole d hd
    obtain ⟨s', hs'⟩ := Option.ne_none_iff_exists'.mp (hx.sound.registered s c client hc hclient)
    obtain rfl := hsole s' (hx.sound.handler c client s' hclient hs').1
    exact hasHandler_eq hx hc hclient hs' hd
  constructor
  · intro hg'
    have hsole : ∀ s', x.wrapper.socketIndex2Client s' = some c → s' = s := by
      intro s' hs'
      by_contra hne
      exact hdeleted _ rfl (hg'.socket s' c ((Function.update_of_ne hne _ _).trans hs'))
    refine ⟨hsole, ?_, ?_⟩
    · rw [countP_eraseFound_iff (fun e he => hfound hsole _ (hg.direct e.1 e.2 he)) hentries]
      exact fun k hk => hdeleted _ rfl (hg'.direct k c hk)
    · rw [countP_eraseFound_iff (fun e he => hfound hsole _ (hg.process e.1 e.2 he)) hpid]
      exact fun k hk => hdeleted _ rfl (hg'.process k c hk)
  · rintro ⟨hsole, hdirect, hprocess⟩
    rw [countP_eraseFound_iff (fun e he => hfound hsole _ (hg.direct e.1 e.2 he)) hentries] at hdirect
    rw [countP_eraseFound_iff (fun e he => hfound hsole _ (hg.process e.1 e.2 he)) hpid] at hprocess
    -- the other clients stay as they are, and the closed handler is not theirs
    have husable : ∀ d, d ≠ c → x.Usable d → Usable
        { x with
          wrapper := { x.wrapper.detach s c with directlyGames := entries }
          processId2Client := pid
          handlers := handlers
          closed := s :: x.closed } d := by
      rintro d hdc ⟨cl, hd, hopen⟩
      refine ⟨cl, (Function.update_of_ne hdc _ _).trans hd, ?_⟩
      intro s' hs' hclosed
      rcases List.mem_cons.mp hclosed with rfl | hclosed
      · exact hdc (hx.handler_eq hc hd hs')
      · exact hopen s' hs' hclosed
    constructor
    · intro k d hk
      apply husable d _ (hg.direct k d (mem_of_eraseFound hentries hk))
      rintro rfl
      exact hdirect k hk
    · intro k d hk
      apply husable d _ (hg.process k d (mem_of_eraseFound hpid hk))
      rintro rfl
      exact hprocess k hk
    · intro s' d hs'
      obtain ⟨hne, hold⟩ := RpcWrapper.update_none hs'
      apply husable d _ (hg.socket s' d hold)
      rintro rfl
      exact hne (hsole s' hold)

end Close

/-- A step from a state without dangling clients leads to one exactly when it closes no handler whose client
    stands anywhere else. -/
theorem step_noDangling_iff {l : RegistryLabel} (hx : Inv x) (hg : NoDangling x) (h : x.step l = some x') :
    NoDangling x' ↔ SoleEntry x l := by
  cases l with
  | call host entityId funcName args =>
      obtain ⟨w', hw, rfl⟩ := Option.map_eq_some_iff.mp h
      exact iff_of_true ((grows_call hx.sound hw).noDangling hx hg fun _ _ h => .inl h) trivial
  | handleInit kind s remote =>
      obtain ⟨w', hw, rfl⟩ := Option.map_eq_some_iff.mp h
      exact iff_of_true ((grows_handleInit hx.sound hw).noDangling hx hg fun _ _ h => .inl h) trivial
  | registerServer s info =>
      obtain rfl | ⟨_, c, w', _, _, hs, hw, rfl⟩ := registerServer_cases h
      · exact iff_of_true hg trivial
      · refine iff_of_true ((grows_registerServer hw).noDangling hx hg ?_) trivial
        intro k d hk
        rcases mem_setKeyId hk with heq | hk
        · cases heq
          exact .inr ⟨s, hs⟩
        · exact .inl hk
  | handleClose s =>
      obtain ⟨kind, x₁, hkind, hx₁, rfl⟩ := close_cases h
      obtain ⟨_, c, hc⟩ := hx.opened s kind hkind
      obtain ⟨client, hclient, _⟩ := hg.socket s c hc
      -- the client is the one under the socket that closes, so the condition is about it alone
      have hone : SoleEntry x (.handleClose s) ↔
          if kind.needRegisterServer then
            (∀ s', x.wrapper.socketIndex2Client s' = some c → s' = s) ∧
            x.wrapper.directlyGames.countP (fun entry => entry.2 = c) ≤ 1 ∧
            x.processId2Client.countP (fun entry => entry.2 = c) ≤ 1
          else client.handler ≠ some s := by
        constructor
        · exact fun h => h kind c client hkind hc hclient
        · intro h kind' c' client' hkind' hc' hclient'
          rw [hkind] at hkind'
          rw [hc] at hc'
          cases hkind'
          cases hc'
          rw [hclient] at hclient'
          cases hclient'
          exact h
      rw [hone]
      cases hneed : kind.needRegisterServer with
      | true =>
          rw [hneed, if_pos rfl] at hx₁
          rw [if_pos rfl]
          exact noDangling_unregistered_iff hx hg hc hx₁ _
      | false =>
          rw [hneed, if_neg Bool.false_ne_true] at hx₁
          cases hx₁
          rw [if_neg Bool.false_ne_true]
          exact noDangling_kept_iff hx hg hc hclient _

/-- **When no rpc client dangles.** Over any run of calls, connections, registrations (repeated ones, or of one
    process from two connections) and closes, on any process: no state on the way has a deleted client, or one
    whose handler is closed, in any of the three maps, if and only if every handler that registers servers
    closed when its client had no other connection and at most one address and one process id, and every other
    handler closed after another connection had been given its client. -/
theorem no_dangling_iff {processType : ProcessType} {labels : List RegistryLabel} {x : RpcRegistry}
    (hrun : run step (init processType) labels = some x) :
    (∀ pre, pre <+: labels → ∀ y, run step (init processType) pre = some y → NoDangling y) ↔
      Along step SoleEntry (init processType) labels :=
  good_iff_along (fun hx h => step_inv hx h) (fun hx hg h => step_noDangling_iff hx hg h)
    (inv_init processType) (noDangling_init processType) hrun

def gameInfo (processId : UInt16) : GameServerInfo := ⟨.game, processId, RpcWrapper.peer⟩

/-- A server that registers once, and closes. -/
def serverRun : List RegistryLabel :=
  [.handleInit .server 1 RpcWrapper.peer, .registerServer 1 (gameInfo 1), .handleClose 1]

/-- The state when that server closes. -/
theorem serverRun_registered : ∃ x, run step (init .game) (serverRun.take 2) = some x ∧
    (∃ y, x.step (.handleClose 1) = some y) ∧ x.wrapper.socketIndex2Client = Function.update (fun _ => none) 1 (some 0) ∧
    x.wrapper.directlyGames = [(RpcWrapper.peer.key, 0)] ∧ x.processId2Client = [(keyIdByProcessId .game 1, 0)] ∧
    x.handlers 1 = some .server := by
  simp [serverRun, gameInfo, run, step, init, RpcWrapper.step, RpcWrapper.registerHandlerInfo, RpcWrapper.init,
    RpcWrapper.create, RpcWrapper.insertKey, updateHandlerInfo, RpcWrapper.updateHandlerInfo, HandlerKind.runsRpc,
    HandlerKind.needRegisterServer, unregisterHandlerInfo, eraseFound, hasHandler, setKeyId,
    RpcWrapper.unregisterHandlerInfo, RpcWrapper.eraseHandler, invalidSocketIndex]

theorem no_dangling_iff_server : (∃ y, run step (init .game) serverRun = some y) ∧
    ∀ pre, pre <+: serverRun → ∀ y, run step (init .game) pre = some y → NoDangling y := by
  obtain ⟨x, hx, ⟨y, hy⟩, hsock, hdirect, hprocess, hkind⟩ := serverRun_registered
  obtain ⟨x₁, h₁, hx⟩ := Option.bind_eq_some_iff.mp hx
  obtain ⟨x₂, h₂, hx⟩ := Option.bind_eq_some_iff.mp hx
  cases hx
  have hrun : run step (init .game) serverRun = some y := by
    show (step (init .game) _).bind _ = some y
    rw [h₁, Option.bind_some]
    show (step x₁ _).bind _ = some y
    rw [h₂, Option.bind_some]
    show (step x _).bind some = some y
    rw [hy, Option.bind_some]
  have hsole : SoleEntry x (.handleClose 1) := by
    intro kind c client hkind' hc _
    rw [hkind] at hkind'
    cases hkind'
    rw [hsock, Function.update_self] at hc
    cases hc
    refine ⟨?_, by rw [hdirect]; decide, by rw [hprocess]; decide⟩
    intro s' hs'
    rw [hsock] at hs'
    rcases RpcWrapper.update_some hs' with ⟨rfl, _⟩ | ⟨_, hs'⟩
    · rfl
    · cases hs'
  refine ⟨⟨y, hrun⟩, (no_dangling_iff hrun).mpr ⟨trivial, fun x₁' h₁' => ⟨trivial, fun x₂' h₂' =>
    ⟨?_, fun _ _ => trivial⟩⟩⟩⟩
  rw [h₁] at h₁'
  cases h₁'
  rw [h₂] at h₂'
  cases h₂'
  exact hsole

/-- A gate's client that leaves, and a server that registers two process ids before it does. -/
theorem client_left_dangling :
    (∃ x, run step (init .gate) [.handleInit .client 1 RpcWrapper.peer, .handleClose 1] = some x ∧
      ¬ NoDangling x) ∧
    ∃ x, run step (init .game) [.handleInit .server 1 RpcWrapper.peer, .registerServer 1 (gameInfo 1),
      .registerServer 1 (gameInfo 2), .handleClose 1] = some x ∧ ¬ NoDangling x := by
  constructor
  · have hrun : ∃ x, run step (init .gate) [.handleInit .client 1 RpcWrapper.peer, .handleClose 1] = some x ∧
        x.getClientBySocketIndex 1 = some 0 ∧ x.wrapper.clients 0 = some ⟨some 1, []⟩ ∧ 1 ∈ x.closed := by
      simp [run, step, init, RpcWrapper.step, RpcWrapper.registerHandlerInfo, RpcWrapper.init, RpcWrapper.create,
        HandlerKind.needRegisterServer, getClientBySocketIndex, invalidSocketIndex]
    obtain ⟨x, hx, hsock, hclient, hclosed⟩ := hrun
    refine ⟨x, hx, fun hg => ?_⟩
    obtain ⟨client, hclient', hopen⟩ := hg.socket 1 0 hsock
    rw [hclient] at hclient'
    cases hclient'
    exact hopen 1 rfl hclosed
  · have hrun : ∃ x, run step (init .game) [.handleInit .server 1 RpcWrapper.peer, .registerServer 1 (gameInfo 1),
        .registerServer 1 (gameInfo 2), .handleClose 1] = some x ∧
        x.getClientByProcessId .game 2 = some 0 ∧ x.wrapper.clients 0 = none := by
      simp [gameInfo, run, step, init, RpcWrapper.step, RpcWrapper.registerHandlerInfo, RpcWrapper.init,
        RpcWrapper.create, RpcWrapper.insertKey, updateHandlerInfo, RpcWrapper.updateHandlerInfo, HandlerKind.runsRpc,
        HandlerKind.needRegisterServer, unregisterHandlerInfo, eraseFound, hasHandler, setKeyId, getClientByProcessId,
        keyIdByProcessId, ProcessType.value, RpcWrapper.unregisterHandlerInfo, RpcWrapper.eraseHandler,
        invalidSocketIndex]
    obtain ⟨x, hx, hprocess, hdeleted⟩ := hrun
    refine ⟨x, hx, fun hg => ?_⟩
    obtain ⟨client, hclient, _⟩ := hg.process _ 0 (mem_of_lookup hprocess)
    rw [hdeleted] at hclient
    cases hclient

end RpcRegistry

end Mowang
