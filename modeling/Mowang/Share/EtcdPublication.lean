import Mowang.Base.Run
import Mowang.Share.EtcdListener

/-!
# `Share.EtcdPublication` — which of the registered entities a process has published

`register_entity` starts a timer of one second, and the timer publishes the whole local list of its listener, if
something was added to the cache since. Each time an http client registers, `init` puts a new listener with empty lists
into the map and publishes those. A listener that `register_entity` made before has no service, and the process ends
where its timer, or that of `refresh_ttl`, finds a client.

Pending timers fire in any order. `none` is a write outside a packet, or a null pointer that is followed.

## Contents
- `Publisher`, `PublisherLabel`, `Publisher.step`.
- `Published` — what is registered is published or will be.
- `published_iff`, and `registered_too_early`, an entity that is never published.
-/

namespace Mowang

namespace Etcd

/-- A process, with what it published. -/
structure Publisher where
  manager : Manager := {}
  /-- There is a client to an http client. -/
  connected : Bool := false
  /-- The timers of one second that have not fired, by their listeners. -/
  timers : List Nat := []
  -- the rest is read by the theorems only
  /-- The last list of a namespace since the http client registered. -/
  published : Block UInt8 namespaceLen → Option (List EntityInfo) := fun _ => none
  registered : Block UInt8 namespaceLen → List EntityInfo := fun _ => []

inductive PublisherLabel
  | registerEntity (n : Namespace) (entityId : UInt64) (entityName : Block UInt8 entityNameLen)
  | fire (i : Nat)
  /-- A timer of five seconds, which `init` has started. -/
  | refreshTtl
  /-- `register_server` of an http client. -/
  | connect
  | disconnect

namespace Publisher

variable (serverInfo : ServerInfo) (serverName : Namespace)

def step (s : Publisher) : PublisherLabel → Option Publisher
  | .registerEntity n entityId entityName =>
    let (manager, a) := s.manager.registerEntity n.array entityId entityName
    some { s with
      manager := manager
      timers := s.timers ++ [a]
      registered := Function.update s.registered n.array
        (s.registered n.array ++ [⟨entityId, entityName, Block.fill tagNameLen 0⟩]) }
  | .fire i     =>
    match s.timers[i]? with
    | none   => some s
    | some a =>
      (s.manager.objects[a]?).bind fun l =>
      (l.realRegisterEntity serverInfo s.connected).map fun (l', published) =>
      { s with
        manager := { s.manager with objects := s.manager.objects.set a l' }
        timers := s.timers.eraseIdx i
        published := match published with
          | none      => s.published
          | some list => Function.update s.published l.name (some list) }
  | .refreshTtl =>
    if s.manager.service then (s.manager.refreshTtl serverInfo s.connected).map fun _ => s else some s
  | .connect    =>
    (({ name := serverName.array, service := true } : Listener).registerEntityCore serverInfo true).map fun published =>
    { s with
      manager := ({ s.manager with service := true }).newListener serverName.array
      connected := true
      published := Function.update (fun _ => none) serverName.array published }
  | .disconnect => some { s with connected := false }

/-- A timer of one second will publish `e`. -/
def Pending (s : Publisher) (name : Block UInt8 namespaceLen) (e : EntityInfo) : Prop :=
  ∃ a ∈ s.timers, ∃ l, s.manager.objects[a]? = some l ∧ l.name = name ∧ l.cacheEntities ≠ [] ∧ e ∈ l.localEntities

/-- A timer of another listener will. -/
def PendingElsewhere (s : Publisher) (a : Nat) (name : Block UInt8 namespaceLen) (e : EntityInfo) : Prop :=
  ∃ b ∈ s.timers, b ≠ a ∧
    ∃ l, s.manager.objects[b]? = some l ∧ l.name = name ∧ l.cacheEntities ≠ [] ∧ e ∈ l.localEntities

/-- While there is a client, each registered entity is in the last list of its namespace, or a pending timer will publish
    it. -/
def Published (s : Publisher) : Prop :=
  s.connected = true → ∀ name, ∀ e ∈ s.registered name,
    (∃ list, s.published name = some list ∧ e ∈ list) ∨ s.Pending name e

/-- The list of a listener fits in the packet of `register_process_entities`. -/
def ListFits (l : Listener) : Prop := l.rpcName.length + 35 + 72 * l.localEntities.length ≤ sizeofBuffer

/-- An http client registers while all registered entities wait for a timer, and a list goes out only from a listener with
    a service, and if it fits in the packet and has all that was registered, except for what a replaced listener will
    publish. The listeners in the map have a service when they are refreshed. -/
def Complete (s : Publisher) : PublisherLabel → Prop
  | .registerEntity .. => True
  | .fire i            => s.connected = true → ∀ a l, s.timers[i]? = some a → s.manager.objects[a]? = some l →
      l.cacheEntities ≠ [] → l.service = true ∧ ListFits l ∧
        ∀ e ∈ s.registered l.name, e ∈ l.localEntities ∨ s.PendingElsewhere a l.name e
  | .refreshTtl        => s.manager.service = true → s.connected = true → ∀ entry ∈ s.manager.listeners,
      ∀ l, s.manager.objects[entry.2]? = some l → l.service = true
  | .connect           => ∀ name, ∀ e ∈ s.registered name, s.Pending name e
  | .disconnect        => True

/-- Map and timers lead to listeners. -/
structure Inv (s : Publisher) : Prop where
  manager : s.manager.Inv
  timers : ∀ a ∈ s.timers, a < s.manager.objects.length

variable {serverInfo serverName} {s s' : Publisher}

/-! ## Publications -/

/-- What a listener with a service has to send fits, or does not. -/
theorem registerEntityCore_isSome_iff {l : Listener} :
    (l.registerEntityCore serverInfo true).isSome ↔ l.service = true ∧ ListFits l := by
  have hargs : List.Forall₂ Param.Holds [.dynamicString (.ofBytes l.rpcName), .pod serverInfo.image,
        .dynamicArray (.ofList (l.localEntities.map (·.image)))]
      [.dynamicString l.rpcName, .pod serverInfo.image, .dynamicArray (l.localEntities.map (·.image))] :=
    .cons (.dynamicString (DynamicString.ofBytes_holds _)) (.cons (.pod _)
      (.cons (.dynamicArray (DynamicArray.ofList_holds _)) .nil))
  have hname : (ascii "register_process_entities").length ≤ sizeofRpcName := by decide
  rw [Listener.registerEntityCore, if_pos rfl, Listener.getServerInfo]
  by_cases hservice : l.service = true
  swap
  · rw [if_neg hservice]
    exact iff_of_false (fun h => nomatch h) fun h => hservice h.1
  rw [if_pos hservice, Option.bind_some, Option.isSome_map, RpcClient.callRemoteFunc_isSome_iff hargs rfl,
    RpcClient.Call.Fits, ListFits, and_iff_right hname, and_iff_right hservice]
  simp only [List.flatMap_cons, List.flatMap_nil, Value.encode, Value.encodeString, Block.counted, List.length_append,
    LittleEndian.leBytes_length, flatMap_cells_length, List.length_map, Block.size_eq, List.length_nil]
  omega

theorem registerEntityCore_published {l : Listener} {published : Option (List EntityInfo)}
    (h : l.registerEntityCore serverInfo true = some published) : published = some l.localEntities := by
  rw [Listener.registerEntityCore, if_pos rfl] at h
  obtain ⟨_, _, h⟩ := Option.bind_eq_some_iff.mp h
  obtain ⟨_, _, rfl⟩ := Option.map_eq_some_iff.mp h
  rfl

/-- A listener is refreshed where it has a service. -/
theorem refreshTtl_isSome_iff {l : Listener} : (l.refreshTtl serverInfo true).isSome ↔ l.service = true := by
  have hlen : l.rpcName.length ≤ 64 := Nat.le_trans (cstr_length_le _) (Nat.le_of_eq l.name.size_eq)
  have hargs : List.Forall₂ Param.Holds [.dynamicString (.ofBytes l.rpcName), .pod serverInfo.processInfo.image]
      [.dynamicString l.rpcName, .pod serverInfo.processInfo.image] :=
    .cons (.dynamicString (DynamicString.ofBytes_holds _)) (.cons (.pod _) .nil)
  rw [Listener.refreshTtl, if_pos rfl, Listener.getServerInfo]
  by_cases hservice : l.service = true
  swap
  · rw [if_neg hservice]
    exact iff_of_false (fun h => nomatch h) hservice
  rw [if_pos hservice, Option.bind_some, Option.isSome_map, RpcClient.callRemoteFunc_isSome_iff hargs rfl]
  refine iff_of_true ⟨by decide, ?_⟩ hservice
  simp only [List.flatMap_cons, List.flatMap_nil, Value.encode, Value.encodeString, List.length_append,
    LittleEndian.leBytes_length, Block.size_eq, List.length_nil, sizeofBuffer]
  omega

/-- All listeners of a manager are refreshed where each has a service. -/
theorem manager_refreshTtl_isSome_iff {m : Manager} (hm : m.Inv) (connected : Bool) :
    (m.refreshTtl serverInfo connected).isSome ↔
      (connected = true → ∀ entry ∈ m.listeners, ∀ l, m.objects[entry.2]? = some l → l.service = true) := by
  have hone : ∀ entry ∈ m.listeners,
      (((m.objects[entry.2]?).bind fun l => l.refreshTtl serverInfo connected).isSome ↔
        (connected = true → ∀ l, m.objects[entry.2]? = some l → l.service = true)) := by
    intro entry hentry
    obtain ⟨l, hl, _⟩ := hm.valid entry hentry
    rw [hl, Option.bind_some]
    cases connected with
    | false => exact iff_of_true rfl fun h => nomatch h
    | true =>
        rw [refreshTtl_isSome_iff]
        constructor
        · intro hservice _ l' hl'
          cases hl'
          exact hservice
        · exact fun h => h rfl l rfl
  have hall : (m.refreshTtl serverInfo connected).isSome ↔ ∀ entry ∈ m.listeners,
      ((m.objects[entry.2]?).bind fun l => l.refreshTtl serverInfo connected).isSome := by
    apply foldlM_isSome_iff
    exact fun _ _ => Iff.rfl
  rw [hall]
  constructor
  · exact fun h hconnected entry hentry => (hone entry hentry).mp (h entry hentry) hconnected
  · exact fun h entry hentry => (hone entry hentry).mpr fun hconnected => h hconnected entry hentry

/-- What a timer publishes: the whole list, if there is a client and the list fits. -/
theorem realRegisterEntity_empty {l : Listener} (hcache : l.cacheEntities = []) (connected : Bool) :
    l.realRegisterEntity serverInfo connected = some (l, none) := by
  rw [Listener.realRegisterEntity, if_pos (List.isEmpty_iff.mpr hcache)]

theorem realRegisterEntity_disconnected {l : Listener} (hcache : l.cacheEntities ≠ []) :
    l.realRegisterEntity serverInfo false = some ({ l with cacheEntities := [] }, none) := by
  rw [Listener.realRegisterEntity, if_neg fun h => hcache (List.isEmpty_iff.mp h)]
  rfl

theorem realRegisterEntity_fits {l : Listener} (hcache : l.cacheEntities ≠ []) (hfits : l.service = true ∧ ListFits l) :
    l.realRegisterEntity serverInfo true = some ({ l with cacheEntities := [] }, some l.localEntities) := by
  obtain ⟨published, hcore⟩ := Option.isSome_iff_exists.mp
    ((@registerEntityCore_isSome_iff serverInfo { l with cacheEntities := [] }).mpr hfits)
  rw [Listener.realRegisterEntity, if_neg fun h => hcache (List.isEmpty_iff.mp h)]
  dsimp only
  rw [hcore, registerEntityCore_published hcore, Option.map_some]

theorem realRegisterEntity_none {l : Listener} (hcache : l.cacheEntities ≠ [])
    (hfits : ¬ (l.service = true ∧ ListFits l)) :
    l.realRegisterEntity serverInfo true = none := by
  have hcore : ({ l with cacheEntities := [] } : Listener).registerEntityCore serverInfo true = none := by
    rw [← Option.not_isSome_iff_eq_none, registerEntityCore_isSome_iff]
    exact hfits
  rw [Listener.realRegisterEntity, if_neg fun h => hcache (List.isEmpty_iff.mp h)]
  dsimp only
  rw [hcore, Option.map_none]

/-- A new listener has a list that fits. -/
theorem listFits_new (name : Block UInt8 namespaceLen) : ListFits { name := name, service := true } := by
  have hlen : (cstr name.cells).length ≤ 64 := Nat.le_trans (cstr_length_le _) (Nat.le_of_eq name.size_eq)
  show (cstr name.cells).length + 35 + 72 * 0 ≤ sizeofBuffer
  rw [sizeofBuffer]
  omega

/-! ## Registering -/

/-- A pending timer stays one while its listener only gets more. -/
theorem Pending.mono {name : Block UInt8 namespaceLen} {e : EntityInfo} (h : s.Pending name e)
    (htimers : ∀ a ∈ s.timers, ∀ l, s.manager.objects[a]? = some l → l.cacheEntities ≠ [] → e ∈ l.localEntities →
      a ∈ s'.timers ∧ ∃ l', s'.manager.objects[a]? = some l' ∧ l'.name = l.name ∧ l'.cacheEntities ≠ [] ∧
        e ∈ l'.localEntities) : s'.Pending name e := by
  obtain ⟨a, ha, l, hl, hname, hcache, hlocal⟩ := h
  obtain ⟨ha', l', hl', hname', hcache', hlocal'⟩ := htimers a ha l hl hcache hlocal
  exact ⟨a, ha', l', hl', hname'.trans hname, hcache', hlocal'⟩

theorem step_registerEntity (hs : Inv s) (n : Namespace) (entityId : UInt64)
    (entityName : Block UInt8 entityNameLen) :
    ∃ s', step serverInfo serverName s (.registerEntity n entityId entityName) = some s' ∧ Inv s' ∧
      (Published s → Published s') := by
  obtain ⟨l, hl, hlname⟩ := @Manager.findListener_valid s.manager n.array hs.manager
  obtain ⟨more, hobjects⟩ := @Manager.findListener_objects s.manager n.array
  have hlength : s.manager.objects.length ≤ (s.manager.findListener n.array).1.objects.length := by
    rw [← hobjects, List.length_append]
    exact Nat.le_add_right _ _
  refine ⟨_, rfl, ⟨?_, ?_⟩, ?_⟩
  · exact Manager.inv_modify (Manager.inv_findListener hs.manager) _ fun _ => rfl
  · intro a ha
    show a < (List.modify _ _ _).length
    rw [List.length_modify]
    rcases List.mem_append.mp ha with hold | hnew
    · exact Nat.lt_of_lt_of_le (hs.timers a hold) hlength
    · rw [List.mem_singleton.mp hnew]
      exact (List.getElem?_eq_some_iff.mp hl).1
  · intro hpublished hconnected name e he
    -- the new timer publishes the whole list, and the old ones still have theirs
    have hold : e ∈ s.registered name → (∃ list, s.published name = some list ∧ e ∈ list) ∨
        Pending { s with
          manager := (s.manager.registerEntity n.array entityId entityName).1
          timers := s.timers ++ [(s.manager.registerEntity n.array entityId entityName).2] } name e := by
      intro he
      rcases hpublished hconnected name e he with hlist | hpending
      · exact Or.inl hlist
      · refine Or.inr (hpending.mono fun a ha l₀ hl₀ hcache hlocal => ⟨List.mem_append_left _ ha, ?_⟩)
        have hl₀' : (s.manager.findListener n.array).1.objects[a]? = some l₀ := by
          rw [← hobjects, List.getElem?_append_left (hs.timers a ha)]
          exact hl₀
        refine ⟨if (s.manager.findListener n.array).2 = a then l₀.registerEntity entityId entityName else l₀, ?_, ?_⟩
        · show (s.manager.registerEntity n.array entityId entityName).1.objects[a]? = _
          rw [Manager.getElem?_registerEntity, hl₀', Option.map_some]
        · split
          · exact ⟨rfl, List.append_ne_nil_of_left_ne_nil hcache _, List.mem_append_left _ hlocal⟩
          · exact ⟨rfl, hcache, hlocal⟩
    change e ∈ Function.update s.registered n.array _ name at he
    by_cases hname : name = n.array
    · subst hname
      rw [Function.update_self] at he
      rcases List.mem_append.mp he with he | he
      · exact hold he
      · rw [List.mem_singleton.mp he]
        refine Or.inr ⟨_, List.mem_append_right _ (List.mem_singleton_self _), l.registerEntity entityId entityName, ?_,
          hlname, ?_, ?_⟩
        · show (s.manager.registerEntity n.array entityId entityName).1.objects[(s.manager.findListener n.array).2]? = _
          rw [Manager.getElem?_registerEntity, hl, Option.map_some, if_pos rfl]
        · simp [Listener.registerEntity]
        · exact List.mem_append_right _ (List.mem_singleton_self _)
    · rw [Function.update_of_ne hname] at he
      exact hold he

/-! ## Connecting -/

theorem step_connect (hs : Inv s) : ∃ s', step serverInfo serverName s .connect = some s' ∧ Inv s' ∧
    (Published s' ↔ s.Complete .connect) := by
  obtain ⟨published, hcore⟩ := Option.isSome_iff_exists.mp
    ((@registerEntityCore_isSome_iff serverInfo _).mpr ⟨rfl, listFits_new serverName.array⟩)
  have hempty := registerEntityCore_published hcore
  -- the old listeners are where they were
  have hold : ∀ a ∈ s.timers,
      (s.manager.objects ++ [{ name := serverName.array, service := true }])[a]? = s.manager.objects[a]? :=
    fun a ha => List.getElem?_append_left (hs.timers a ha)
  refine ⟨{ s with
      manager := ({ s.manager with service := true }).newListener serverName.array
      connected := true
      published := Function.update (fun _ => none) serverName.array published }, ?_, ⟨?_, ?_⟩, ?_⟩
  · rw [step, hcore, Option.map_some]
  · exact Manager.inv_newListener ⟨hs.manager.nodup, hs.manager.valid⟩
  · intro a ha
    refine Nat.lt_of_lt_of_le (hs.timers a ha) ?_
    show _ ≤ (s.manager.objects ++ _).length
    rw [List.length_append]
    exact Nat.le_add_right _ _
  · constructor
    · intro hpublished name e he
      rcases hpublished rfl name e he with ⟨list, hlist, hmem⟩ | ⟨a, ha, l, hl, h⟩
      · -- nothing is in the new lists
        change Function.update (fun _ => none) serverName.array published name = some list at hlist
        by_cases hname : name = serverName.array
        · rw [hname, Function.update_self, hempty] at hlist
          cases hlist
          cases hmem
        · rw [Function.update_of_ne hname] at hlist
          cases hlist
      · exact ⟨a, ha, l, (hold a ha).symm.trans hl, h⟩
    · intro hcomplete _ name e he
      obtain ⟨a, ha, l, hl, h⟩ := hcomplete name e he
      exact Or.inr ⟨a, ha, l, (hold a ha).trans hl, h⟩

/-! ## Timers -/

/-- What is left of the pending timers when one of a listener has fired. -/
theorem pendingElsewhere_iff {i a : Nat} {l l' : Listener}
    {published : Block UInt8 namespaceLen → Option (List EntityInfo)}
    (hi : s.timers[i]? = some a) (hl : s.manager.objects[a]? = some l) (hl' : l'.cacheEntities = [])
    {name : Block UInt8 namespaceLen} {e : EntityInfo} :
    Pending { s with
      manager := { s.manager with objects := s.manager.objects.set a l' }
      timers := s.timers.eraseIdx i
      published := published } name e ↔ s.PendingElsewhere a name e := by
  have hself : (s.manager.objects.set a l')[a]? = some l' :=
    List.getElem?_set_self (List.getElem?_eq_some_iff.mp hl).1
  constructor
  · rintro ⟨b, hb, l₀, hl₀, hname, hcache, hlocal⟩
    change (s.manager.objects.set a l')[b]? = some l₀ at hl₀
    have hne : b ≠ a := by
      rintro rfl
      rw [hself] at hl₀
      cases hl₀
      exact hcache hl'
    rw [List.getElem?_set_ne (Ne.symm hne)] at hl₀
    exact ⟨b, List.mem_of_mem_eraseIdx hb, hne, l₀, hl₀, hname, hcache, hlocal⟩
  · rintro ⟨b, hb, hne, l₀, hl₀, h⟩
    refine ⟨b, ?_, l₀, (List.getElem?_set_ne (Ne.symm hne)).trans hl₀, h⟩
    obtain ⟨j, hj⟩ := List.mem_iff_getElem?.mp hb
    refine List.mem_eraseIdx_iff_getElem?.mpr ⟨j, ?_, hj⟩
    rintro rfl
    exact hne (Option.some.inj (hj.symm.trans hi))

/-- A pending timer of another namespace, or of a listener with an empty cache, is one of another listener. -/
theorem Pending.elsewhere {a : Nat} {l : Listener} {name : Block UInt8 namespaceLen} {e : EntityInfo}
    (h : s.Pending name e) (hl : s.manager.objects[a]? = some l) (hother : l.name ≠ name ∨ l.cacheEntities = []) :
    s.PendingElsewhere a name e := by
  obtain ⟨b, hb, l₀, hl₀, hname, hcache, hlocal⟩ := h
  refine ⟨b, hb, ?_, l₀, hl₀, hname, hcache, hlocal⟩
  rintro rfl
  rw [hl] at hl₀
  cases hl₀
  rcases hother with hother | hother
  · exact hother hname
  · exact hcache hother

/-- A timer fires. -/
theorem fire_eq {i a : Nat} {l : Listener} (hi : s.timers[i]? = some a) (hl : s.manager.objects[a]? = some l) :
    step serverInfo serverName s (.fire i) = (l.realRegisterEntity serverInfo s.connected).map fun (l', published) =>
      { s with
        manager := { s.manager with objects := s.manager.objects.set a l' }
        timers := s.timers.eraseIdx i
        published := match published with
          | none      => s.published
          | some list => Function.update s.published l.name (some list) } := by
  rw [step, hi]
  dsimp only
  rw [hl, Option.bind_some]

theorem complete_fire_iff {i a : Nat} {l : Listener} (hi : s.timers[i]? = some a)
    (hl : s.manager.objects[a]? = some l) :
    s.Complete (.fire i) ↔ (s.connected = true → l.cacheEntities ≠ [] → l.service = true ∧ ListFits l ∧
      ∀ e ∈ s.registered l.name, e ∈ l.localEntities ∨ s.PendingElsewhere a l.name e) := by
  constructor
  · intro h hconnected
    exact h hconnected a l hi hl
  · intro h hconnected a' l₀ ha hl₀
    rw [hi] at ha
    cases ha
    rw [hl] at hl₀
    cases hl₀
    exact h hconnected

/-- A list that goes out keeps all published exactly if nothing that was registered is missing. -/
theorem published_fire_iff (hpublished : Published s) {i a : Nat} {l : Listener} (hi : s.timers[i]? = some a)
    (hl : s.manager.objects[a]? = some l) (hconnected : s.connected = true) :
    Published { s with
      manager := { s.manager with objects := s.manager.objects.set a { l with cacheEntities := [] } }
      timers := s.timers.eraseIdx i
      published := Function.update s.published l.name (some l.localEntities) } ↔
      ∀ e ∈ s.registered l.name, e ∈ l.localEntities ∨ s.PendingElsewhere a l.name e := by
  constructor
  · intro h e he
    rcases h hconnected l.name e he with ⟨list, hlist, hmem⟩ | hpending
    · change Function.update s.published l.name (some l.localEntities) l.name = some list at hlist
      rw [Function.update_self] at hlist
      cases hlist
      exact Or.inl hmem
    · exact Or.inr ((pendingElsewhere_iff hi hl rfl).mp hpending)
  · intro h _ name e he
    by_cases hname : name = l.name
    · subst hname
      rcases h e he with hmem | hpending
      · exact Or.inl ⟨_, Function.update_self .., hmem⟩
      · exact Or.inr ((pendingElsewhere_iff hi hl rfl).mpr hpending)
    · rcases hpublished hconnected name e he with ⟨list, hlist, hmem⟩ | hpending
      · exact Or.inl ⟨list, (Function.update_of_ne hname ..).trans hlist, hmem⟩
      · exact Or.inr ((pendingElsewhere_iff hi hl rfl).mpr (hpending.elsewhere hl (Or.inl (Ne.symm hname))))

theorem step_fire (hs : Inv s) (hpublished : Published s) (i : Nat) :
    (∃ s', step serverInfo serverName s (.fire i) = some s' ∧ Published s') ↔ s.Complete (.fire i) := by
  cases hi : s.timers[i]? with
  | none =>
      refine iff_of_true ⟨s, by rw [step, hi], hpublished⟩ fun _ a l ha => ?_
      rw [hi] at ha
      cases ha
  | some a =>
      obtain ⟨l, hl⟩ : ∃ l, s.manager.objects[a]? = some l :=
        ⟨_, List.getElem?_eq_getElem (hs.timers a (List.mem_of_getElem? hi))⟩
      rw [complete_fire_iff hi hl, fire_eq hi hl]
      by_cases hcache : l.cacheEntities = []
      · -- nothing is published
        rw [realRegisterEntity_empty hcache, Option.map_some]
        refine iff_of_true ⟨_, rfl, fun hconnected name e he => ?_⟩ fun _ h => absurd hcache h
        rcases hpublished hconnected name e he with hlist | hpending
        · exact Or.inl hlist
        · exact Or.inr ((pendingElsewhere_iff hi hl hcache).mpr (hpending.elsewhere hl (Or.inr hcache)))
      · by_cases hconnected : s.connected = true
        · by_cases hfits : l.service = true ∧ ListFits l
          · have hreal := @realRegisterEntity_fits serverInfo l hcache hfits
            rw [← hconnected] at hreal
            rw [hreal, Option.map_some]
            constructor
            · rintro ⟨s', hs', h⟩ _ _
              cases hs'
              exact ⟨hfits.1, hfits.2, (published_fire_iff hpublished hi hl hconnected).mp h⟩
            · intro h
              exact ⟨_, rfl, (published_fire_iff hpublished hi hl hconnected).mpr (h hconnected hcache).2.2⟩
          · have hreal := @realRegisterEntity_none serverInfo l hcache hfits
            rw [← hconnected] at hreal
            rw [hreal]
            refine iff_of_false (fun ⟨_, h, _⟩ => nomatch h) fun h => hfits ?_
            exact ⟨(h hconnected hcache).1, (h hconnected hcache).2.1⟩
        · rw [Bool.not_eq_true] at hconnected
          have hreal := @realRegisterEntity_disconnected serverInfo l hcache
          rw [← hconnected] at hreal
          rw [hreal, Option.map_some]
          refine iff_of_true ⟨_, rfl, fun h => ?_⟩ fun h => ?_
          · exact absurd (hconnected.symm.trans h) Bool.false_ne_true
          · exact absurd (hconnected.symm.trans h) Bool.false_ne_true

theorem fire_inv (hs : Inv s) {i : Nat} (h : step serverInfo serverName s (.fire i) = some s') : Inv s' := by
  cases hi : s.timers[i]? with
  | none =>
      rw [step, hi] at h
      cases h
      exact hs
  | some a =>
      obtain ⟨l, hl⟩ : ∃ l, s.manager.objects[a]? = some l :=
        ⟨_, List.getElem?_eq_getElem (hs.timers a (List.mem_of_getElem? hi))⟩
      rw [fire_eq hi hl] at h
      obtain ⟨⟨l', published⟩, hreal, rfl⟩ := Option.map_eq_some_iff.mp h
      have hname : l'.name = l.name := by
        unfold Listener.realRegisterEntity at hreal
        split at hreal
        · cases hreal
          rfl
        · obtain ⟨_, _, heq⟩ := Option.map_eq_some_iff.mp hreal
          cases heq
          rfl
      refine ⟨Manager.inv_set hs.manager hl hname, fun b hb => ?_⟩
      show b < (List.set _ _ _).length
      rw [List.length_set]
      exact hs.timers b (List.mem_of_mem_eraseIdx hb)

/-- The refresh changes nothing, where it goes on. -/
theorem refreshTtl_eq (hs : Inv s) :
    (∃ s', step serverInfo serverName s .refreshTtl = some s') ↔ s.Complete .refreshTtl := by
  rw [step, Complete, ← Option.isSome_iff_exists]
  split
  next hservice =>
    rw [Option.isSome_map, manager_refreshTtl_isSome_iff hs.manager]
    exact ⟨fun h _ => h, fun h => h hservice⟩
  next hservice => exact iff_of_true rfl fun h => absurd h hservice

theorem eq_of_refreshTtl (h : step serverInfo serverName s .refreshTtl = some s') : s' = s := by
  rw [step] at h
  split at h
  · obtain ⟨_, _, rfl⟩ := Option.map_eq_some_iff.mp h
    rfl
  · cases h
    rfl

/-! ## Every run -/

theorem step_inv (hs : Inv s) {label : PublisherLabel} (h : step serverInfo serverName s label = some s') : Inv s' := by
  cases label with
  | registerEntity n entityId entityName =>
      obtain ⟨s₁, hstep, hinv, _⟩ := @step_registerEntity serverInfo serverName _ hs n entityId entityName
      rw [hstep] at h
      cases h
      exact hinv
  | fire i => exact fire_inv hs h
  | refreshTtl =>
      rw [eq_of_refreshTtl h]
      exact hs
  | connect =>
      obtain ⟨s₁, hstep, hinv, _⟩ := @step_connect serverInfo serverName _ hs
      rw [hstep] at h
      cases h
      exact hinv
  | disconnect =>
      cases h
      exact ⟨hs.manager, hs.timers⟩

theorem step_published_iff (hs : Inv s) (hpublished : Published s) {label : PublisherLabel} :
    (∃ s', step serverInfo serverName s label = some s' ∧ Published s') ↔ s.Complete label := by
  cases label with
  | registerEntity n entityId entityName =>
      obtain ⟨s₁, hstep, _, hkeep⟩ := @step_registerEntity serverInfo serverName _ hs n entityId entityName
      exact iff_of_true ⟨s₁, hstep, hkeep hpublished⟩ trivial
  | fire i => exact step_fire hs hpublished i
  | refreshTtl =>
      rw [← @refreshTtl_eq serverInfo serverName _ hs]
      constructor
      · rintro ⟨s', h, _⟩
        exact ⟨s', h⟩
      · rintro ⟨s', h⟩
        exact ⟨s', h, (eq_of_refreshTtl h).symm ▸ hpublished⟩
  | connect =>
      obtain ⟨s₁, hstep, _, hiff⟩ := @step_connect serverInfo serverName _ hs
      rw [← hiff, hstep]
      constructor
      · rintro ⟨s₂, heq, h⟩
        cases heq
        exact h
      · intro h
        exact ⟨s₁, rfl, h⟩
  | disconnect => exact iff_of_true ⟨_, rfl, fun h => nomatch h⟩ trivial

/-- **When registered entities are published.** Over any run of registrations, timers, connections and disconnections:
    the process goes on, nothing is written outside a packet, and in every state with a client each registered entity is
    in the last list or will be published by a pending timer, if and only if an http client registers only while all
    registered entities wait for a timer, each list that goes out is that of a listener with a service, fits and misses
    nothing that was registered but what a replaced listener will still publish, and the listeners that are refreshed
    have a service. -/
theorem published_iff (serverInfo : ServerInfo) (serverName : Namespace) (labels : List PublisherLabel) :
    (∃ s, run (step serverInfo serverName) {} labels = some s ∧
      ∀ pre, pre <+: labels → ∀ s₁, run (step serverInfo serverName) {} pre = some s₁ → Published s₁) ↔
      Along (step serverInfo serverName) Complete {} labels := by
  have hinit : Inv {} :=
    ⟨⟨List.nodup_nil, fun entry h => absurd h List.not_mem_nil⟩, fun a h => absurd h List.not_mem_nil⟩
  exact total_good_iff_along (fun hs h => step_inv hs h) (fun hs hpublished => step_published_iff hs hpublished) hinit
    (fun h => nomatch h) labels

/-- The game process 1 of the server 1. -/
def gameInfo : ServerInfo := ⟨⟨1, 1, 1⟩, 10000, Block.fill ipLen 0⟩

def gameName : Namespace := ⟨ascii "1", by decide, by decide⟩

/-- The first entity, under no name. -/
def firstEntity : EntityInfo := ⟨1, Block.fill entityNameLen 0, Block.fill tagNameLen 0⟩

/-- It is registered, and its timer fires, before there is an http client; then the http client registers. -/
def registeredTooEarly : List PublisherLabel :=
  [.registerEntity gameName 1 (Block.fill entityNameLen 0), .fire 0, .connect]

/-- The list that is published is empty, and no timer is left. -/
theorem registered_too_early : ∃ s, run (step gameInfo gameName) {} registeredTooEarly = some s ∧ s.connected = true ∧
    firstEntity ∈ s.registered gameName.array ∧ s.published gameName.array = some [] ∧ s.timers = [] ∧
    ¬ Published s := by
  obtain ⟨s₂, hrun, htimers, hregistered⟩ : ∃ s₂, run (step gameInfo gameName) {}
      [.registerEntity gameName 1 (Block.fill entityNameLen 0), .fire 0] = some s₂ ∧ s₂.timers = [] ∧
      s₂.registered = Function.update (fun _ => []) gameName.array [firstEntity] := ⟨_, rfl, rfl, rfl⟩
  obtain ⟨published, hcore⟩ := Option.isSome_iff_exists.mp
    ((@registerEntityCore_isSome_iff gameInfo _).mpr ⟨rfl, listFits_new gameName.array⟩)
  obtain ⟨s₃, hstep, hconnected, hregistered₃, hpublished, htimers₃⟩ : ∃ s₃,
      step gameInfo gameName s₂ .connect = some s₃ ∧ s₃.connected = true ∧ s₃.registered = s₂.registered ∧
      s₃.published = Function.update (fun _ => none) gameName.array published ∧ s₃.timers = s₂.timers :=
    ⟨{ s₂ with
        manager := ({ s₂.manager with service := true }).newListener gameName.array
        connected := true
        published := Function.update (fun _ => none) gameName.array published },
      by rw [step, hcore, Option.map_some], rfl, rfl, rfl, rfl⟩
  have hempty : s₃.published gameName.array = some [] := by
    rw [hpublished, Function.update_self]
    exact registerEntityCore_published hcore
  have hmem : firstEntity ∈ s₃.registered gameName.array := by
    rw [hregistered₃, hregistered, Function.update_self]
    exact List.mem_singleton_self _
  refine ⟨s₃, ?_, hconnected, hmem, hempty, htimers₃.trans htimers, fun h => ?_⟩
  · have hparts := run_append (step gameInfo gameName) {}
      [.registerEntity gameName 1 (Block.fill entityNameLen 0), .fire 0] [.connect]
    rw [hrun, Option.bind_some, run, hstep, Option.bind_some, run] at hparts
    exact hparts
  · rcases h hconnected _ _ hmem with ⟨list, hlist, hin⟩ | ⟨a, ha, _⟩
    · rw [hempty] at hlist
      cases hlist
      cases hin
    · rw [htimers₃, htimers] at ha
      cases ha

end Publisher

end Etcd

end Mowang
