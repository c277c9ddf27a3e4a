import Mowang.Share.ProcessClients

/-!
# `Gate.GateRegistry` — the rpc clients of a gate

A gate makes no entity calls, so `m_directly_games` stays empty and every connection has a client of its own. A server
connection that closes deletes its client, and takes out the first entry of `m_process_id_2_client` that it stands
under; another one stays, with the deleted client.

## Contents
- `ConnectionLabel`, `OwnClients`, `GateRegistry`, `GateRegistry.step`.
- `client?`, `Linked`, `Orderly`.
- `linked_step` — an orderly step is defined, and no deleted client stays registered.
-/

namespace Mowang

/-- What happens to the connections of a gate: those of its TCP clients, and those to servers. -/
inductive ConnectionLabel
  | clientInit (s : SocketIndex) (remote : Host)
  | serverInit (s : SocketIndex) (remote : Host)
  | registerServer (s : SocketIndex) (info : GameServerInfo)
  | handleClose (s : SocketIndex)

def ConnectionLabel.toRegistry : ConnectionLabel → RegistryLabel
  | .clientInit s remote   => .handleInit .client s remote
  | .serverInit s remote   => .handleInit .server s remote
  | .registerServer s info => .registerServer s info
  | .handleClose s         => .handleClose s

/-- The rpc wrapper of a gate. -/
structure OwnClients (x : RpcRegistry) : Prop where
  inv : x.Inv
  keyed : x.Keyed
  gate : x.wrapper.processType = .gate
  direct : x.wrapper.directlyGames = []
  client : ∀ {s c}, x.wrapper.socketIndex2Client s = some c →
    ∃ client, x.wrapper.clients c = some client ∧ client.handler = some s
  kinds : ∀ {s kind}, x.handlers s = some kind → kind ≠ .robot ∧ s ∉ x.closed

namespace OwnClients

variable {x x' : RpcRegistry}

theorem init : OwnClients (.init .gate) :=
  ⟨RpcRegistry.inv_init _, RpcRegistry.keyed_init _, rfl, rfl, nofun, nofun⟩

/-- A connection is made: it gets a new client. -/
theorem handleInit_cases (hx : OwnClients x) {kind : HandlerKind} {s : SocketIndex} {remote : Host}
    (h : x.step (.handleInit kind s remote) = some x') : s ∉ x.wrapper.opened ∧
      x' = { x with
        wrapper := (x.wrapper.create ⟨none, []⟩).attach s remote.key x.wrapper.newClient []
        handlers := Function.update x.handlers s (some kind) } := by
  obtain ⟨w', hw, rfl⟩ := Option.map_eq_some_iff.mp h
  obtain ⟨_, hnew, rfl | ⟨c, client, hc, _⟩⟩ := RpcWrapper.handleInit_cases hw
  · exact ⟨hnew, rfl⟩
  · rw [hx.direct] at hc
    cases hc

/-- A server registers: only a gate's map of the processes has a new entry. -/
theorem registerServer_eq (hx : OwnClients x) {s : SocketIndex} {info : GameServerInfo}
    (h : x.step (.registerServer s info) = some x') : x' = x ∨
    ∃ c addresses, x.handlers s = some .server ∧ x.wrapper.socketIndex2Client s = some c ∧
      x' = { x with
        wrapper := { x.wrapper with addresses := addresses }
        processId2Client :=
          RpcRegistry.setKeyId (keyIdByProcessId info.processType info.processId) c x.processId2Client } := by
  obtain rfl | ⟨kind, c, w', hkind, hruns, hs, hw, rfl⟩ := RpcRegistry.registerServer_cases h
  · exact .inl rfl
  · have hserver : kind = .server := by
      cases kind with
      | server => rfl
      | client => cases hruns
      | robot  => exact absurd rfl (hx.kinds hkind).1
    subst hserver
    have hsame : x.wrapper.updateHandlerInfo s info.processType info.host.key = x.wrapper := by
      rw [RpcWrapper.updateHandlerInfo, hs]
      exact if_neg fun hgame => by rw [hx.gate] at hgame; cases hgame.1
    rw [RpcWrapper.step, hsame] at hw
    cases hw
    exact .inr ⟨c, _, hkind, hs, rfl⟩

/-- A connection closes. -/
theorem handleClose_cases (hx : OwnClients x) {s : SocketIndex} (h : x.step (.handleClose s) = some x') :
    (x.handlers s = some .client ∧
      x' = { x with handlers := Function.update x.handlers s none, closed := s :: x.closed }) ∨
    x.handlers s = some .server ∧ ∃ c pid, x.wrapper.socketIndex2Client s = some c ∧
      eraseFound (RpcRegistry.hasHandler x.wrapper s) x.processId2Client = some pid ∧
      x' = { x with
        wrapper := x.wrapper.detach s c
        processId2Client := pid
        handlers := Function.update x.handlers s none
        closed := s :: x.closed } := by
  obtain ⟨kind, x₁, hkind, hx₁, rfl⟩ := RpcRegistry.close_cases h
  obtain ⟨_, c, hc⟩ := hx.inv.opened s kind hkind
  cases kind with
  | client =>
      cases hx₁
      exact .inl ⟨hkind, rfl⟩
  | server =>
      obtain ⟨entries, pid, hentries, hpid, rfl⟩ := RpcRegistry.unregister_cases hc hx₁
      rw [hx.direct] at hentries
      cases hentries
      refine .inr ⟨hkind, c, pid, hc, hpid, ?_⟩
      have hdetach : { x.wrapper.detach s c with directlyGames := [] } = x.wrapper.detach s c := by
        rw [← hx.direct]
        rfl
      rw [hdetach]
  | robot => exact absurd rfl (hx.kinds hkind).1

/-- Every client of a connection is its own. -/
theorem client_eq (hx : OwnClients x) {s s' : SocketIndex} {c : Nat} (h : x.wrapper.socketIndex2Client s = some c)
    (h' : x.wrapper.socketIndex2Client s' = some c) : s = s' := by
  obtain ⟨client, hc, hs⟩ := hx.client h
  obtain ⟨client', hc', hs'⟩ := hx.client h'
  rw [hc] at hc'
  cases hc'
  exact Option.some.inj (hs.symm.trans hs')

theorem step {l : ConnectionLabel} (hx : OwnClients x) (h : x.step l.toRegistry = some x') : OwnClients x' := by
  have hinv := RpcRegistry.step_inv hx.inv h
  have hkeyed := RpcRegistry.step_keyed hx.keyed h
  have hopened : ∀ {kind : HandlerKind} {s : SocketIndex} {remote : Host}, kind ≠ .robot →
      x.step (.handleInit kind s remote) = some x' → OwnClients x' := by
    intro kind s remote hrobot h
    obtain ⟨hnew, rfl⟩ := hx.handleInit_cases h
    refine ⟨hinv, hkeyed, hx.gate, hx.direct, fun {s' c} hs' => ?_, fun {s' kind'} hkind => ?_⟩
    · rcases RpcWrapper.update_some hs' with ⟨rfl, rfl⟩ | ⟨hne, hs'⟩
      · exact ⟨_, Function.update_self _ _ _, rfl⟩
      · obtain ⟨client, hc, hhandler⟩ := hx.client hs'
        have hlt := Nat.ne_of_lt (hx.inv.sound.clients_new c client hc)
        exact ⟨client, ((Function.update_of_ne hlt _ _).trans (Function.update_of_ne hlt _ _)).trans hc, hhandler⟩
    · rcases RpcWrapper.update_some hkind with ⟨rfl, rfl⟩ | ⟨_, hkind⟩
      · exact ⟨hrobot, fun hclosed => hnew (hx.inv.closed s' hclosed)⟩
      · exact hx.kinds hkind
  cases l with
  | clientInit s remote => exact hopened (by decide) h
  | serverInit s remote => exact hopened (by decide) h
  | registerServer s info =>
      obtain rfl | ⟨c, addresses, _, _, rfl⟩ := hx.registerServer_eq h
      · exact hx
      · exact ⟨hinv, hkeyed, hx.gate, hx.direct, hx.client, hx.kinds⟩
  | handleClose s =>
      have hkinds : ∀ {s' kind}, Function.update x.handlers s none s' = some kind →
          kind ≠ .robot ∧ s' ∉ s :: x.closed := by
        intro s' kind hkind
        obtain ⟨hne, hkind⟩ := RpcWrapper.update_none hkind
        obtain ⟨hrobot, hclosed⟩ := hx.kinds hkind
        exact ⟨hrobot, fun hmem => (List.mem_cons.mp hmem).elim hne hclosed⟩
      obtain ⟨_, rfl⟩ | ⟨_, c, pid, hc, _, rfl⟩ := hx.handleClose_cases h
      · exact ⟨hinv, hkeyed, hx.gate, hx.direct, hx.client, hkinds⟩
      · refine ⟨hinv, hkeyed, hx.gate, hx.direct, fun {s' c'} hs' => ?_, hkinds⟩
        obtain ⟨hne, hold⟩ := RpcWrapper.update_none hs'
        obtain ⟨client, hclient, hhandler⟩ := hx.client hold
        have hcc : c' ≠ c := by
          rintro rfl
          exact hne (hx.client_eq hold hc)
        exact ⟨client, (Function.update_of_ne hcc _ _).trans hclient, hhandler⟩

end OwnClients

/-- The rpc clients of a gate. -/
structure GateRegistry where
  registry : RpcRegistry
  own : OwnClients registry

namespace GateRegistry

def init : GateRegistry := ⟨.init .gate, .init⟩

def step (x : GateRegistry) (l : ConnectionLabel) : Option GateRegistry :=
  (x.registry.step l.toRegistry).pmap (fun registry own => ⟨registry, own⟩) fun _ h => x.own.step h

variable {x x' : GateRegistry} {l : ConnectionLabel}

/-- `get_client_by_process_id`. -/
def getClientByProcessId (x : GateRegistry) (processType : ProcessType) (processId : UInt16) : Option Nat :=
  x.registry.getClientByProcessId processType processId

/-- The client at an address; `none` is one that is deleted, or whose handler is closed. -/
def client? (x : GateRegistry) (c : Nat) : Option RpcClient :=
  (x.registry.wrapper.clients c).filter fun client => client.handler.all fun s => decide (s ∉ x.registry.closed)

/-- Every process that is registered has a client, with a connection to a server that is open. -/
def Linked (x : GateRegistry) : Prop :=
  ∀ {k c}, (k, c) ∈ x.registry.processId2Client → ∃ client s, x.registry.wrapper.clients c = some client ∧
    client.handler = some s ∧ x.registry.handlers s = some .server

/-- The step can happen: a socket index is valid and new, and a handler closes once. And a connection that closes has no
    more than one process registered. -/
def Orderly (x : GateRegistry) : ConnectionLabel → Prop
  | .clientInit s _ | .serverInit s _ => s ≠ invalidSocketIndex ∧ s ∉ x.registry.wrapper.opened
  | .registerServer _ _ => True
  | .handleClose s => (x.registry.handlers s).isSome ∧ ∀ c, x.registry.wrapper.socketIndex2Client s = some c →
      x.registry.processId2Client.countP (fun e => e.2 = c) ≤ 1

theorem linked_init : init.Linked := nofun

theorem handler_valid {c : Nat} {client : RpcClient} {s : SocketIndex} (hc : x.client? c = some client)
    (hs : client.handler = some s) : s ≠ invalidSocketIndex :=
  (x.own.inv.sound.handler c client s (Option.filter_eq_some_iff.mp hc).1 hs).2

/-- A registered client can be used. -/
theorem Linked.client? (hx : x.Linked) {processType : ProcessType} {processId : UInt16} {c : Nat}
    (h : x.getClientByProcessId processType processId = some c) :
    ∃ client s, x.client? c = some client ∧ client.handler = some s := by
  obtain ⟨client, s, hclient, hs, hserver⟩ := hx (mem_of_lookup h)
  refine ⟨client, s, ?_, hs⟩
  rw [GateRegistry.client?, hclient]
  simp [hs, (x.own.kinds hserver).2]

theorem Linked.usable (hx : x.Linked) {k c : Nat} (h : (k, c) ∈ x.registry.processId2Client) :
    x.registry.Usable c := by
  obtain ⟨client, s, hclient, hs, hserver⟩ := hx h
  refine ⟨client, hclient, fun s' hs' => ?_⟩
  rw [hs] at hs'
  cases hs'
  exact (x.own.kinds hserver).2

end GateRegistry

end Mowang
