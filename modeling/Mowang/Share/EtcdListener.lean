import Mowang.Base.Lists
import Mowang.Share.EtcdStruct
import Mowang.Share.RpcClient

/-!
# `Share.EtcdListener` — the listeners of a process and their manager

A listener publishes the entities of its process in one namespace, and keeps a registry of those that others published
there. The manager maps namespaces to listeners; a listener that is replaced there is not deleted, and its timers still
fire. Objects are known by their place in `objects`.

`connected` says whether there is a client to an http client process. `none` is a write outside an object, or the end
of the process: a listener that was made before `init` has no `m_service`, and is not asked whether it has one; and
`on_unregister_process` hands the array `ip` of a process it knows to a `%s` of its log call.

## Contents
- `Listener`, its publications, `onRegisterEntities`, `onUnregisterProcess` and `watch`.
- `Manager`, its operations, and `Manager.Inv`.
-/

namespace Mowang

open LittleEndian Block

namespace Etcd

/-- `etcd_process_info`. -/
structure ProcessEntities where
  serverInfo : ServerInfo
  entities : List EntityInfo

/-- `get_key_id_by_process_info`. -/
def keyIdByProcessInfo (i : ProcessInfo) : Nat :=
  (i.serverId.toNat * 2 ^ 8 + i.processType.toNat) * 2 ^ 16 + i.processId.toNat

theorem keyIdByProcessInfo_inj {i j : ProcessInfo} (h : keyIdByProcessInfo i = keyIdByProcessInfo j) : i = j := by
  obtain ⟨serverId, processType, processId⟩ := i
  obtain ⟨serverId', processType', processId'⟩ := j
  simp only [keyIdByProcessInfo] at h
  have ht := processType.toNat_lt
  have hp := processId.toNat_lt
  have ht' := processType'.toNat_lt
  have hp' := processId'.toNat_lt
  rw [ProcessInfo.mk.injEq, ← UInt16.toNat_inj, ← UInt8.toNat_inj, ← UInt16.toNat_inj]
  omega

/-- `etcd_listener`. -/
structure Listener where
  name : Block UInt8 namespaceLen
  /-- `m_service` is not null. -/
  service : Bool := false
  waitIndex : Nat := 0
  cacheEntities : List EntityInfo := []
  localEntities : List EntityInfo := []
  globalEntities : Nat → Option ProcessEntities := fun _ => none

/-- What `%s` takes for the address of a text where it gets the array `ip`: its first eight bytes. The null address is
    printed as such, the bytes of any ip are the address of nothing. -/
def ServerInfo.ipAddress (i : ServerInfo) : Nat := ofLe (i.ip.cells.take 8)

namespace Listener

/-- The name of the namespace in the calls. -/
def rpcName (l : Listener) : List UInt8 := cstr l.name.cells

/-- `register_entity`; the timer it starts is the caller's. -/
def registerEntity (l : Listener) (entityId : UInt64) (entityName : Block UInt8 entityNameLen) : Listener :=
  let info : EntityInfo := ⟨entityId, entityName, Block.fill tagNameLen 0⟩
  { l with localEntities := l.localEntities ++ [info], cacheEntities := l.cacheEntities ++ [info] }

/-- `m_service->get_server_info()`. -/
def getServerInfo (l : Listener) (serverInfo : ServerInfo) : Option ServerInfo :=
  if l.service then some serverInfo else none

/-- `register_entity_core`: the list that is published, if there is a client to do it. -/
def registerEntityCore (l : Listener) (serverInfo : ServerInfo) (connected : Bool) :
    Option (Option (List EntityInfo)) :=
  if connected then
    (l.getServerInfo serverInfo).bind fun serverInfo =>
    ((⟨some 0, []⟩ : RpcClient).callRemoteFunc (ascii "register_process_entities")
      [.dynamicString (.ofBytes l.rpcName), .pod serverInfo.image,
        .dynamicArray (.ofList (l.localEntities.map (·.image)))]).map fun _ => some l.localEntities
  else some none

/-- `refresh_ttl`, which changes nothing here. -/
def refreshTtl (l : Listener) (serverInfo : ServerInfo) (connected : Bool) : Option Unit :=
  if connected then
    (l.getServerInfo serverInfo).bind fun serverInfo =>
    ((⟨some 0, []⟩ : RpcClient).callRemoteFunc (ascii "refresh_ttl")
      [.dynamicString (.ofBytes l.rpcName), .pod serverInfo.processInfo.image]).map fun _ => ()
  else some ()

/-- `real_register_entity`. -/
def realRegisterEntity (l : Listener) (serverInfo : ServerInfo) (connected : Bool) :
    Option (Listener × Option (List EntityInfo)) :=
  if l.cacheEntities.isEmpty then some (l, none)
  else
    let l' := { l with cacheEntities := [] }
    (l'.registerEntityCore serverInfo connected).map fun published => (l', published)

/-- An entity of `on_register_entities`, in the loop over them. -/
def registerOne (serverInfos : UInt16 → Option ServerInfo) (global : Nat → Option ProcessEntities)
    (e : EntityPacketInfo) : Nat → Option ProcessEntities :=
  match serverInfos e.processId with
  | none            => global
  | some serverInfo =>
    let keyId := keyIdByProcessInfo serverInfo.processInfo
    match global keyId with
    | none      => Function.update global keyId (some ⟨serverInfo, [e.entityInfo]⟩)
    | some info =>
      if info.entities.any (·.entityId = e.entityInfo.entityId) then global
      else Function.update global keyId (some { info with entities := info.entities ++ [e.entityInfo] })

/-- `process_id_2_server_info`. -/
def serverInfos (processes : List ProcessPacketInfo) : UInt16 → Option ServerInfo :=
  processes.foldl (fun infos p => Function.update infos p.processId (some p.serverInfo)) fun _ => none

/-- `on_register_entities`. -/
def onRegisterEntities (l : Listener) (waitIndex : Nat) (found : Found) : Listener :=
  { l with
    globalEntities := found.entities.foldl (registerOne (serverInfos found.processes)) l.globalEntities
    waitIndex := if waitIndex > 0 then waitIndex else l.waitIndex }

/-- `on_unregister_process`. A process that is known is logged before its entry is erased. -/
def onUnregisterProcess (l : Listener) (waitIndex : Nat) (processInfo : ProcessInfo) : Option Listener :=
  let l := { l with waitIndex := if waitIndex > 0 then waitIndex else l.waitIndex }
  let keyId := keyIdByProcessInfo processInfo
  match l.globalEntities keyId with
  | none                => some l
  | some curProcessInfo =>
    if curProcessInfo.serverInfo.ipAddress = 0 then
      some { l with globalEntities := Function.update l.globalEntities keyId none }
    else none

/-- `init_entities`. -/
def initEntities (l : Listener) (connected : Bool) : Option (Option Request) :=
  if connected then
    ((⟨some 0, []⟩ : RpcClient).callRemoteFunc (ascii "request_all") [.dynamicString (.ofBytes l.rpcName)]).map
      fun _ => some (.all l.rpcName)
  else some none

/-- `watch`. -/
def watch (l : Listener) (connected : Bool) : Option (Option Request) :=
  if connected then
    ((⟨some 0, []⟩ : RpcClient).callRemoteFunc (ascii "request_one")
      [.dynamicString (.ofBytes l.rpcName), .pod (Pod.ofNat 4 l.waitIndex)]).map
      fun _ => some (.one l.rpcName l.waitIndex)
  else some none

/-- What a message does to the listener of its namespace. -/
def onMessage (l : Listener) : Message → Option Listener
  | .onRegisterEntities _ waitIndex found        => some (l.onRegisterEntities waitIndex found)
  | .onUnregisterProcess _ waitIndex processInfo => l.onUnregisterProcess waitIndex processInfo

/-- The process is not known, or has no ip. -/
def Forgets (l : Listener) (processInfo : ProcessInfo) : Prop :=
  ∀ info, l.globalEntities (keyIdByProcessInfo processInfo) = some info → info.serverInfo.ipAddress = 0

/-- A message that the listener survives. -/
def Takes (l : Listener) : Message → Prop
  | .onRegisterEntities ..               => True
  | .onUnregisterProcess _ _ processInfo => l.Forgets processInfo

variable {l l' : Listener} {waitIndex : Nat} {processInfo : ProcessInfo} {message : Message}

theorem onUnregisterProcess_isSome_iff :
    (l.onUnregisterProcess waitIndex processInfo).isSome ↔ l.Forgets processInfo := by
  unfold onUnregisterProcess Forgets
  dsimp only
  cases l.globalEntities (keyIdByProcessInfo processInfo) with
  | none => exact iff_of_true rfl fun _ h => nomatch h
  | some info =>
      simp only [Option.some.injEq, forall_eq']
      split
      next hnull => exact iff_of_true rfl hnull
      next hip => exact iff_of_false Bool.false_ne_true hip

/-- Afterwards the process is not known, and the others are as before. -/
theorem onUnregisterProcess_spec (h : l.onUnregisterProcess waitIndex processInfo = some l') :
    l'.name = l.name ∧ l'.globalEntities = Function.update l.globalEntities (keyIdByProcessInfo processInfo) none := by
  unfold onUnregisterProcess at h
  dsimp only at h
  split at h
  next hnone =>
    cases h
    exact ⟨rfl, (Function.update_eq_self_iff.mpr hnone.symm).symm⟩
  next =>
    obtain ⟨_, heq⟩ := Option.ite_none_right_eq_some.mp h
    cases heq
    exact ⟨rfl, rfl⟩

theorem onMessage_isSome_iff : (l.onMessage message).isSome ↔ l.Takes message := by
  cases message with
  | onRegisterEntities => exact iff_of_true rfl trivial
  | onUnregisterProcess => exact onUnregisterProcess_isSome_iff

theorem onMessage_name (h : l.onMessage message = some l') : l'.name = l.name := by
  cases message with
  | onRegisterEntities =>
      cases h
      rfl
  | onUnregisterProcess => exact (onUnregisterProcess_spec h).1

end Listener

/-- `etcd_manager`. -/
structure Manager where
  /-- `m_service` is not null. -/
  service : Bool := false
  /-- `m_listeners`. -/
  listeners : List (Block UInt8 namespaceLen × Nat) := []
  objects : List Listener := []

namespace Manager

/-- `m_listeners[name] = new etcd_listener(name, m_service)`. -/
def newListener (m : Manager) (name : Block UInt8 namespaceLen) : Manager :=
  { m with
    listeners := (name, m.objects.length) :: m.listeners.filter (·.1 ≠ name)
    objects := m.objects ++ [{ name := name, service := m.service }] }

/-- The first half of `register_entity`: the listener of a namespace, or a new one. -/
def findListener (m : Manager) (name : Block UInt8 namespaceLen) : Manager × Nat :=
  match m.listeners.lookup name with
  | some a => (m, a)
  | none   => (m.newListener name, m.objects.length)

/-- `register_entity`, and the listener whose timer is started. -/
def registerEntity (m : Manager) (name : Block UInt8 namespaceLen) (entityId : UInt64)
    (entityName : Block UInt8 entityNameLen) : Manager × Nat :=
  let (m, a) := m.findListener name
  ({ m with objects := m.objects.modify a (·.registerEntity entityId entityName) }, a)

/-- `refresh_ttl`, of the listeners in the map. -/
def refreshTtl (m : Manager) (serverInfo : ServerInfo) (connected : Bool) : Option Unit :=
  m.listeners.foldlM (fun _ entry => (m.objects[entry.2]?).bind fun l => l.refreshTtl serverInfo connected) ()

/-- `on_register_entities` and `on_unregister_process`: the listener takes the message, and watches again. -/
def onMessage (m : Manager) (message : Message) (connected : Bool) : Option (Manager × Option Request) :=
  (toNamespace message.name).bind fun curName =>
  match m.listeners.lookup curName with
  | none   => some (m, none)
  | some a =>
    (m.objects[a]?).bind fun l =>
    (l.onMessage message).bind fun l =>
    (l.watch connected).map fun request => ({ m with objects := m.objects.set a l }, request)

/-- The listener of its namespace survives the message. -/
def Takes (m : Manager) (message : Message) : Prop :=
  ∀ curName a l, toNamespace message.name = some curName → m.listeners.lookup curName = some a →
    m.objects[a]? = some l → l.Takes message

/-- The map leads to listeners of their namespaces. -/
structure Inv (m : Manager) : Prop where
  nodup : (m.listeners.map (·.1)).Nodup
  valid : ∀ entry ∈ m.listeners, ∃ l, m.objects[entry.2]? = some l ∧ l.name = entry.1

variable {m : Manager} {name name' : Block UInt8 namespaceLen}

theorem lookup_newListener : (m.newListener name).listeners.lookup name' =
    if name' = name then some m.objects.length else m.listeners.lookup name' := by
  rw [newListener, List.lookup_cons]
  by_cases h : name' = name
  · rw [if_pos h, beq_iff_eq.mpr h]
  · rw [if_neg h, beq_false_of_ne h]
    exact lookup_filter_ne h

theorem inv_newListener (hm : Inv m) : Inv (m.newListener name) where
  nodup := by
    refine List.nodup_cons.mpr ⟨fun hmem => ?_, hm.nodup.sublist (List.filter_sublist.map _)⟩
    obtain ⟨entry, hentry, heq⟩ := List.mem_map.mp hmem
    simpa [heq] using (List.mem_filter.mp hentry).2
  valid := by
    intro entry hentry
    rcases List.mem_cons.mp hentry with rfl | hold
    · exact ⟨_, List.getElem?_concat_length, rfl⟩
    · obtain ⟨l, hl, hname⟩ := hm.valid entry (List.mem_filter.mp hold).1
      refine ⟨l, ?_, hname⟩
      rw [newListener, List.getElem?_append_left (List.getElem?_eq_some_iff.mp hl).1, hl]

theorem inv_findListener (hm : Inv m) : Inv (m.findListener name).1 := by
  unfold findListener
  split
  · exact hm
  · exact inv_newListener hm

/-- Afterwards the namespace has this listener. -/
theorem lookup_findListener : (m.findListener name).1.listeners.lookup name = some (m.findListener name).2 := by
  unfold findListener
  split
  · assumption
  · rw [lookup_newListener, if_pos rfl]

/-- There are no fewer listeners than before, and the old ones are where they were. -/
theorem findListener_objects : m.objects <+: (m.findListener name).1.objects := by
  unfold findListener
  split
  · exact List.prefix_refl _
  · exact List.prefix_append ..

/-- The listener that an entity is registered with. -/
theorem findListener_valid (hm : Inv m) :
    ∃ l, (m.findListener name).1.objects[(m.findListener name).2]? = some l ∧ l.name = name :=
  (inv_findListener hm).valid _ (mem_of_lookup lookup_findListener)

/-- The listeners after an entity was registered. -/
theorem getElem?_registerEntity (entityId : UInt64) (entityName : Block UInt8 entityNameLen) (b : Nat) :
    (m.registerEntity name entityId entityName).1.objects[b]? =
      ((m.findListener name).1.objects[b]?).map fun l =>
        if (m.findListener name).2 = b then l.registerEntity entityId entityName else l :=
  List.getElem?_modify ..

/-- Operations on listeners leave them under their names. -/
theorem inv_modify (hm : Inv m) (a : Nat) {f : Listener → Listener} (hf : ∀ l, (f l).name = l.name) :
    Inv { m with objects := m.objects.modify a f } where
  nodup := hm.nodup
  valid := by
    intro entry hentry
    obtain ⟨l, hl, hname⟩ := hm.valid entry hentry
    refine ⟨if a = entry.2 then f l else l, ?_, ?_⟩
    · rw [List.getElem?_modify, hl]
      rfl
    · split
      · rw [hf, hname]
      · exact hname

theorem inv_set (hm : Inv m) {a : Nat} {l l' : Listener} (hl : m.objects[a]? = some l) (hname : l'.name = l.name) :
    Inv { m with objects := m.objects.set a l' } where
  nodup := hm.nodup
  valid := by
    intro entry hentry
    obtain ⟨l₁, hl₁, hname₁⟩ := hm.valid entry hentry
    by_cases ha : a = entry.2
    · subst ha
      rw [hl] at hl₁
      cases hl₁
      exact ⟨l', List.getElem?_set_self (List.getElem?_eq_some_iff.mp hl).1, hname.trans hname₁⟩
    · exact ⟨l₁, (List.getElem?_set_ne ha).trans hl₁, hname₁⟩

end Manager

end Etcd

end Mowang
