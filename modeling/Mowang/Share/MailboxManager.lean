import Mowang.Share.EtcdStruct
import Mowang.Share.RpcWrapper

/-!
# `Share.MailboxManager` — entities by name and by tag

Every process keeps a directory of the entities that the others publish. `m_entity_2_mailbox` has the latest entity of
each name; `m_tag_2_mailbox` has all entities of each tag, one more with every refresh. A process that goes takes its
entities out of both.

A directory is what a history of `add_entity` and `del_entity` leaves. `mailboxByEntity_iff` says what is found by name,
and `listsTag_iff` when what is found by tag is right: `get_mailbox_list_by_tag` never puts anything into its list.

Names and tags are NUL-terminated in their arrays.

## Contents
- `EntityDetailInfo`, `MailboxInfo`, `MailboxManager` and its functions, `directory`.
- `Published`, `mailboxByEntity_iff`.
- `RegisteredUnder`, `mem_entities_iff`, `ListsTag`, `listsTag_iff`.
-/

namespace Mowang

open Etcd

/-- `etcd_entity_detail_info`. -/
structure EntityDetailInfo where
  serverInfo : ServerInfo
  entityInfo : EntityInfo

/-- `mailbox_info`. -/
structure MailboxInfo where
  ip : Block UInt8 ipLen
  port : UInt16
  entityId : UInt64

namespace EntityDetailInfo

/-- `std::string(entity_name.data())` and `std::string(tag.data())`. -/
def name (e : EntityDetailInfo) : List UInt8 := cstr e.entityInfo.entityName.cells

def tag (e : EntityDetailInfo) : List UInt8 := cstr e.entityInfo.tag.cells

def processInfo (e : EntityDetailInfo) : ProcessInfo := e.serverInfo.processInfo

def mailbox (e : EntityDetailInfo) : MailboxInfo := ⟨e.serverInfo.ip, e.serverInfo.port, e.entityInfo.entityId⟩

end EntityDetailInfo

/-- The two unordered maps. -/
structure MailboxManager where
  entity2Mailbox : List (List UInt8 × EntityDetailInfo) := []
  tag2Mailbox : List (List UInt8 × List EntityDetailInfo) := []

namespace MailboxManager

/-- `get_mailbox_by_entity`; `none` is `false`. -/
def getMailboxByEntity (s : MailboxManager) (entityName : List UInt8) : Option MailboxInfo :=
  (s.entity2Mailbox.lookup entityName).map EntityDetailInfo.mailbox

/-- `get_mailbox_list_by_tag`. Its loop makes a mailbox for each entity, and leaves `mailbox_list` as it is. -/
def getMailboxListByTag (s : MailboxManager) (mailboxList : List MailboxInfo) (tag : List UInt8) :
    Bool × List MailboxInfo :=
  match s.tag2Mailbox.lookup tag with
  | none          => (false, mailboxList)
  | some entities => (true, entities.foldl (fun mailboxList _ => mailboxList) mailboxList)

/-- `add_entity`. -/
def addEntity (s : MailboxManager) (e : EntityDetailInfo) : MailboxManager :=
  { entity2Mailbox := setEntry e.name e s.entity2Mailbox
    tag2Mailbox :=
      match s.tag2Mailbox.lookup e.tag with
      | none          => setEntry e.tag [e] s.tag2Mailbox
      | some entities => setEntry e.tag (entities ++ [e]) s.tag2Mailbox }

/-- `del_entity`: the names of the process are collected first, and erased then. -/
def delEntity (s : MailboxManager) (p : ProcessInfo) : MailboxManager :=
  let entityNames := (s.entity2Mailbox.filter (·.2.processInfo = p)).map (·.2.name)
  { entity2Mailbox := eraseKeys entityNames s.entity2Mailbox
    tag2Mailbox := s.tag2Mailbox.map fun (tag, entities) => (tag, entities.filter (·.processInfo ≠ p)) }

end MailboxManager

inductive MailboxLabel
  | addEntity (e : EntityDetailInfo)
  | delEntity (p : ProcessInfo)

def MailboxManager.apply (s : MailboxManager) : MailboxLabel → MailboxManager
  | .addEntity e => s.addEntity e
  | .delEntity p => s.delEntity p

/-- What a history leaves, the oldest call first. -/
def directory (history : List MailboxLabel) : MailboxManager := history.foldl MailboxManager.apply {}

/-- The address of a mailbox, as `get_client_by_address` prints it. -/
def MailboxInfo.host (m : MailboxInfo) : Host := ⟨(cstr m.ip.cells).map fun c => Char.ofNat c.toNat, m.port.toNat⟩

/-- `rpc_wrapper::call_stub`. -/
def RpcWrapper.callStub (w : RpcWrapper) (s : MailboxManager) (stubName funcName : List UInt8) (args : List Param) :
    Option RpcWrapper :=
  match s.getMailboxByEntity stubName with
  | some mailbox => w.callEntity mailbox.host mailbox.entityId.toNat funcName args
  | none         => some w

theorem directory_snoc (history : List MailboxLabel) (label : MailboxLabel) :
    directory (history ++ [label]) = (directory history).apply label := by
  rw [directory, List.foldl_append]
  rfl

/-! ## By name -/

/-- `e` is the latest entity of the name, and its process was not unregistered since. -/
def Published (history : List MailboxLabel) (name : List UInt8) (e : EntityDetailInfo) : Prop :=
  e.name = name ∧ ∃ before after, history = before ++ .addEntity e :: after ∧
    (∀ e', .addEntity e' ∈ after → e'.name ≠ name) ∧ .delEntity e.processInfo ∉ after

variable {history : List MailboxLabel} {name tag : List UInt8} {e e' : EntityDetailInfo} {p : ProcessInfo}

theorem not_published_nil : ¬ Published [] name e := by
  rintro ⟨-, before, after, heq, -⟩
  simp at heq

theorem published_addEntity :
    Published (history ++ [.addEntity e']) name e ↔
      if e'.name = name then e = e' else Published history name e := by
  unfold Published
  rw [exists_split_snoc]
  split
  next hname =>
    constructor
    · rintro ⟨-, ⟨heq, -⟩ | ⟨before, after, -, hlatest, -⟩⟩
      · cases heq
        rfl
      · exact absurd hname (hlatest e' (List.mem_append_right _ List.mem_cons_self))
    · rintro rfl
      exact ⟨hname, Or.inl ⟨rfl, fun _ h => absurd h List.not_mem_nil, List.not_mem_nil⟩⟩
  next hname =>
    constructor
    · rintro ⟨he, ⟨heq, -⟩ | ⟨before, after, hsplit, hlatest, hstays⟩⟩
      · cases heq
        exact absurd he hname
      · exact ⟨he, before, after, hsplit, fun e₁ h => hlatest e₁ (List.mem_append_left _ h),
          fun h => hstays (List.mem_append_left _ h)⟩
    · rintro ⟨he, before, after, hsplit, hlatest, hstays⟩
      refine ⟨he, Or.inr ⟨before, after, hsplit, ?_, ?_⟩⟩
      · intro e₁ h
        rcases List.mem_append.mp h with h | h
        · exact hlatest e₁ h
        · cases List.mem_singleton.mp h
          exact hname
      · intro h
        rcases List.mem_append.mp h with h | h
        · exact hstays h
        · cases List.mem_singleton.mp h

theorem published_delEntity :
    Published (history ++ [.delEntity p]) name e ↔ Published history name e ∧ e.processInfo ≠ p := by
  unfold Published
  rw [exists_split_snoc]
  constructor
  · rintro ⟨he, ⟨heq, -⟩ | ⟨before, after, hsplit, hlatest, hstays⟩⟩
    · cases heq
    · refine ⟨⟨he, before, after, hsplit, fun e₁ h => hlatest e₁ (List.mem_append_left _ h),
        fun h => hstays (List.mem_append_left _ h)⟩, ?_⟩
      rintro rfl
      exact hstays (List.mem_append_right _ List.mem_cons_self)
  · rintro ⟨⟨he, before, after, hsplit, hlatest, hstays⟩, hne⟩
    refine ⟨he, Or.inr ⟨before, after, hsplit, ?_, ?_⟩⟩
    · intro e₁ h
      rcases List.mem_append.mp h with h | h
      · exact hlatest e₁ h
      · cases List.mem_singleton.mp h
    · intro h
      rcases List.mem_append.mp h with h | h
      · exact hstays h
      · cases List.mem_singleton.mp h
        exact hne rfl

namespace MailboxManager

/-- Each entity is under its own name, and each name once. -/
structure Inv (s : MailboxManager) : Prop where
  named : ∀ entry ∈ s.entity2Mailbox, entry.1 = entry.2.name
  nodup : (s.entity2Mailbox.map Prod.fst).Nodup

variable {s : MailboxManager}

theorem Inv.addEntity (h : Inv s) (e : EntityDetailInfo) : Inv (s.addEntity e) where
  named := by
    intro entry hentry
    rcases mem_setEntry.mp hentry with rfl | ⟨hold, -⟩
    · rfl
    · exact h.named entry hold
  nodup := nodup_setEntry h.nodup e.name e

theorem Inv.delEntity (h : Inv s) (p : ProcessInfo) : Inv (s.delEntity p) where
  named := fun entry hentry => h.named entry ((eraseKeys_sublist _ _).subset hentry)
  nodup := h.nodup.sublist ((eraseKeys_sublist _ _).map _)

theorem inv_directory (history : List MailboxLabel) : Inv (directory history) := by
  induction history using List.reverseRecOn with
  | nil => exact ⟨fun _ h => absurd h List.not_mem_nil, List.nodup_nil⟩
  | append_singleton history label ih =>
      rw [directory_snoc]
      cases label with
      | addEntity e => exact ih.addEntity e
      | delEntity p => exact ih.delEntity p

theorem lookup_addEntity (s : MailboxManager) (e : EntityDetailInfo) (name : List UInt8) :
    (s.addEntity e).entity2Mailbox.lookup name = if name = e.name then some e else s.entity2Mailbox.lookup name :=
  lookup_setEntry e.name name e

/-- Only the entities of the process go. -/
theorem lookup_delEntity (h : Inv s) (p : ProcessInfo) (name : List UInt8) :
    (s.delEntity p).entity2Mailbox.lookup name =
      (s.entity2Mailbox.lookup name).filter fun e => e.processInfo ≠ p := by
  show (eraseKeys _ s.entity2Mailbox).lookup name = _
  rw [lookup_eraseKeys]
  cases hlookup : s.entity2Mailbox.lookup name with
  | none => rw [ite_self, Option.filter_none]
  | some e =>
      have hmem : (name, e) ∈ s.entity2Mailbox := mem_of_lookup hlookup
      have hcollected : name ∈ (s.entity2Mailbox.filter (·.2.processInfo = p)).map (·.2.name) ↔ e.processInfo = p := by
        rw [List.mem_map]
        constructor
        · rintro ⟨entry, hentry, hname⟩
          obtain ⟨hentry, hp⟩ := List.mem_filter.mp hentry
          -- what was collected under the name is what is found under it
          have hfound := lookup_of_mem h.nodup hentry
          rw [h.named entry hentry, hname, hlookup] at hfound
          rw [Option.some.inj hfound]
          exact of_decide_eq_true hp
        · intro hp
          exact ⟨(name, e), List.mem_filter.mpr ⟨hmem, decide_eq_true hp⟩, (h.named _ hmem).symm⟩
      by_cases hp : e.processInfo = p
      · rw [if_pos (hcollected.mpr hp), Option.filter_some, if_neg (by simp [hp])]
      · rw [if_neg fun h => hp (hcollected.mp h), Option.filter_some, if_pos (by simp [hp])]

theorem lookup_directory (history : List MailboxLabel) (name : List UInt8) (e : EntityDetailInfo) :
    (directory history).entity2Mailbox.lookup name = some e ↔ Published history name e := by
  induction history using List.reverseRecOn with
  | nil => exact iff_of_false (fun h => by cases h) not_published_nil
  | append_singleton history label ih =>
      rw [directory_snoc]
      cases label with
      | addEntity e' =>
          show ((directory history).addEntity e').entity2Mailbox.lookup name = some e ↔ _
          rw [lookup_addEntity, published_addEntity, ← ih]
          by_cases hname : e'.name = name
          · rw [if_pos hname, if_pos hname.symm, Option.some_inj, eq_comm]
          · rw [if_neg hname, if_neg (Ne.symm hname)]
      | delEntity p =>
          show ((directory history).delEntity p).entity2Mailbox.lookup name = some e ↔ _
          rw [lookup_delEntity (inv_directory history), published_delEntity, ← ih, Option.filter_eq_some_iff]
          simp only [decide_eq_true_eq]

/-- **What is found by name** is the latest entity of that name, unless its process was unregistered after it; and a
    stub is called there or nowhere. -/
theorem mailboxByEntity_iff (history : List MailboxLabel) (name : List UInt8) :
    (∀ mailbox, (directory history).getMailboxByEntity name = some mailbox ↔
      ∃ e, Published history name e ∧ e.mailbox = mailbox) ∧
    ∀ (w w' : RpcWrapper) (funcName : List UInt8) (args : List Param),
      w.callStub (directory history) name funcName args = some w' →
        w' = w ∧ (∀ e, ¬ Published history name e) ∨
        ∃ e, Published history name e ∧
          w.callEntity e.mailbox.host e.mailbox.entityId.toNat funcName args = some w' := by
  have hfound : ∀ mailbox, (directory history).getMailboxByEntity name = some mailbox ↔
      ∃ e, Published history name e ∧ e.mailbox = mailbox := by
    intro mailbox
    rw [getMailboxByEntity, Option.map_eq_some_iff]
    simp only [lookup_directory]
  refine ⟨hfound, ?_⟩
  intro w w' funcName args h
  unfold RpcWrapper.callStub at h
  split at h
  next mailbox hmailbox =>
    obtain ⟨e, he, rfl⟩ := (hfound mailbox).mp hmailbox
    exact Or.inr ⟨e, he, h⟩
  next hnone =>
    cases h
    refine Or.inl ⟨rfl, fun e he => ?_⟩
    rw [(hfound e.mailbox).mpr ⟨e, he, rfl⟩] at hnone
    cases hnone

end MailboxManager

/-! ## By tag -/

/-- `e` was registered under the tag, and its process was not unregistered since. -/
def RegisteredUnder (history : List MailboxLabel) (tag : List UInt8) (e : EntityDetailInfo) : Prop :=
  e.tag = tag ∧ ∃ before after, history = before ++ .addEntity e :: after ∧ .delEntity e.processInfo ∉ after

theorem registeredUnder_addEntity :
    RegisteredUnder (history ++ [.addEntity e']) tag e ↔ RegisteredUnder history tag e ∨ e = e' ∧ e'.tag = tag := by
  unfold RegisteredUnder
  rw [exists_split_snoc]
  simp only [List.mem_append, List.mem_singleton, reduceCtorEq, or_false, List.not_mem_nil, not_false_eq_true,
    and_true, MailboxLabel.addEntity.injEq]
  constructor
  · rintro ⟨he, rfl | hold⟩
    · exact Or.inr ⟨rfl, he⟩
    · exact Or.inl ⟨he, hold⟩
  · rintro (⟨he, hold⟩ | ⟨rfl, he⟩)
    · exact ⟨he, Or.inr hold⟩
    · exact ⟨he, Or.inl rfl⟩

theorem registeredUnder_delEntity :
    RegisteredUnder (history ++ [.delEntity p]) tag e ↔ RegisteredUnder history tag e ∧ e.processInfo ≠ p := by
  unfold RegisteredUnder
  rw [exists_split_snoc]
  simp only [List.mem_append, List.mem_singleton, reduceCtorEq, false_and, false_or, MailboxLabel.delEntity.injEq,
    not_or]
  constructor
  · rintro ⟨he, before, after, hsplit, hstays, hne⟩
    exact ⟨⟨he, before, after, hsplit, hstays⟩, hne⟩
  · rintro ⟨⟨he, before, after, hsplit, hstays⟩, hne⟩
    exact ⟨he, before, after, hsplit, hstays, hne⟩

namespace MailboxManager

/-- The vector of a tag, empty if there is none. -/
def entities (s : MailboxManager) (tag : List UInt8) : List EntityDetailInfo := (s.tag2Mailbox.lookup tag).getD []

theorem lookup_tag_addEntity (s : MailboxManager) (e : EntityDetailInfo) (tag : List UInt8) :
    (s.addEntity e).tag2Mailbox.lookup tag =
      if tag = e.tag then some (s.entities e.tag ++ [e]) else s.tag2Mailbox.lookup tag := by
  unfold addEntity entities
  split <;> rename_i hlookup <;> dsimp only <;> rw [lookup_setEntry, hlookup] <;> rfl

theorem lookup_tag_delEntity (s : MailboxManager) (p : ProcessInfo) (tag : List UInt8) :
    (s.delEntity p).tag2Mailbox.lookup tag = (s.tag2Mailbox.lookup tag).map (·.filter (·.processInfo ≠ p)) := by
  show (s.tag2Mailbox.map _).lookup tag = _
  induction s.tag2Mailbox with
  | nil => rfl
  | cons entry rest ih =>
      rw [List.map_cons, List.lookup_cons, List.lookup_cons, ih]
      split <;> rfl

/-- The vector of a tag has the entities that are registered under it, each as often as it was added. -/
theorem mem_entities_iff (history : List MailboxLabel) (tag : List UInt8) (e : EntityDetailInfo) :
    e ∈ (directory history).entities tag ↔ RegisteredUnder history tag e := by
  -- on the last label: the vector only changes under the tag of an entity that is added or deleted
  induction history using List.reverseRecOn with
  | nil =>
      refine iff_of_false List.not_mem_nil ?_
      rintro ⟨-, before, after, heq, -⟩
      simp at heq
  | append_singleton history label ih =>
      rw [directory_snoc]
      cases label with
      | addEntity e' =>
          rw [registeredUnder_addEntity, ← ih]
          show e ∈ (((directory history).addEntity e').tag2Mailbox.lookup tag).getD [] ↔ _
          rw [lookup_tag_addEntity]
          by_cases htag : tag = e'.tag
          · rw [if_pos htag, Option.getD_some, List.mem_append, List.mem_singleton, ← htag, and_iff_left rfl]
          · rw [if_neg htag]
            exact (or_iff_left fun h => htag h.2.symm).symm
      | delEntity p =>
          rw [registeredUnder_delEntity, ← ih]
          show e ∈ (((directory history).delEntity p).tag2Mailbox.lookup tag).getD [] ↔ _
          rw [lookup_tag_delEntity, entities]
          cases (directory history).tag2Mailbox.lookup tag with
          | none => simp
          | some es => simp

/-- A tag has a vector once an entity was added with it, and keeps it. -/
theorem tag_isSome_iff (history : List MailboxLabel) (tag : List UInt8) :
    ((directory history).tag2Mailbox.lookup tag).isSome ↔ ∃ e, .addEntity e ∈ history ∧ e.tag = tag := by
  induction history using List.reverseRecOn with
  | nil => exact iff_of_false (fun h => by cases h) fun ⟨_, h, _⟩ => absurd h List.not_mem_nil
  | append_singleton history label ih =>
      rw [directory_snoc]
      simp only [List.mem_append, List.mem_singleton]
      cases label with
      | addEntity e' =>
          show (((directory history).addEntity e').tag2Mailbox.lookup tag).isSome ↔ _
          rw [lookup_tag_addEntity]
          by_cases htag : tag = e'.tag
          · rw [if_pos htag]
            exact iff_of_true rfl ⟨e', Or.inr rfl, htag.symm⟩
          · rw [if_neg htag, ih]
            constructor
            · rintro ⟨e, he, heq⟩
              exact ⟨e, Or.inl he, heq⟩
            · rintro ⟨e, he | he, heq⟩
              · exact ⟨e, he, heq⟩
              · cases he
                exact absurd heq.symm htag
      | delEntity p =>
          show (((directory history).delEntity p).tag2Mailbox.lookup tag).isSome ↔ _
          rw [lookup_tag_delEntity, Option.isSome_map, ih]
          simp only [reduceCtorEq, or_false]

/-- What is found by tag is one mailbox for each entity that is registered under it. -/
def ListsTag (history : List MailboxLabel) (tag : List UInt8) : Prop :=
  ∃ mailboxList, (directory history).getMailboxListByTag [] tag = (true, mailboxList) ∧ mailboxList.Nodup ∧
    ∀ mailbox, mailbox ∈ mailboxList ↔ ∃ e, RegisteredUnder history tag e ∧ e.mailbox = mailbox

theorem getMailboxListByTag_eq (s : MailboxManager) (mailboxList : List MailboxInfo) (tag : List UInt8) :
    s.getMailboxListByTag mailboxList tag = ((s.tag2Mailbox.lookup tag).isSome, mailboxList) := by
  unfold getMailboxListByTag
  split
  next hnone => rw [hnone]; rfl
  next entities hsome => rw [hsome, List.foldl_fixed]; rfl

/-- **What is found by tag is right** when nothing is registered under the tag any more, though something was. -/
theorem listsTag_iff (history : List MailboxLabel) (tag : List UInt8) :
    ListsTag history tag ↔
      (∃ e, .addEntity e ∈ history ∧ e.tag = tag) ∧ ∀ e, ¬ RegisteredUnder history tag e := by
  unfold ListsTag
  simp only [getMailboxListByTag_eq, Prod.mk.injEq]
  rw [tag_isSome_iff]
  constructor
  · rintro ⟨_, ⟨hadded, rfl⟩, -, hlist⟩
    exact ⟨hadded, fun e he => absurd ((hlist e.mailbox).mpr ⟨e, he, rfl⟩) List.not_mem_nil⟩
  · rintro ⟨hadded, hnone⟩
    refine ⟨[], ⟨hadded, rfl⟩, List.nodup_nil, fun mailbox => ?_⟩
    exact iff_of_false List.not_mem_nil fun ⟨e, he, _⟩ => hnone e he

/-- A stub of game process 1. -/
def rollStub : EntityDetailInfo where
  serverInfo := ⟨⟨1, 2, 1⟩, 7000, (Block.fill ipLen 0).write 0 (ascii "127.0.0.1") (by decide)⟩
  entityInfo :=
    ⟨257, (Block.fill entityNameLen 0).write 0 (ascii "roll_stub") (by decide),
      (Block.fill tagNameLen 0).write 0 (ascii "stub") (by decide)⟩

/-- One entity, and its tag finds an empty list. -/
theorem not_listed_one : ¬ ListsTag [.addEntity rollStub] (ascii "stub") := by
  rintro ⟨mailboxList, hget, -, hlist⟩
  rw [getMailboxListByTag_eq, Prod.mk.injEq] at hget
  obtain ⟨-, rfl⟩ := hget
  refine absurd ((hlist rollStub.mailbox).mpr ⟨rollStub, ⟨by decide, [], [], rfl, List.not_mem_nil⟩, rfl⟩) ?_
  exact List.not_mem_nil

end MailboxManager

end Mowang
