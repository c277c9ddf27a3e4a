import Mowang.Base.CString
import Mowang.Gate.ClientCommands
import Mowang.Gate.GateServer
import Mowang.Share.ProcessClients
import Mowang.Share.RpcImage

/-!
# `Gate.ServerCalls` — calls that the gate makes for its clients

The commands of web socket clients come to the gate as texts. The gate makes the calls itself (`call_server`): it fills
an rpc packet and puts it into a transfer packet, as it does with the packets of TCP clients. The game gives the call to
the entity of the client, or logs a new account in.

## Contents
- `DynamicString.ofCStr`, `DynamicString.taken`.
- `Answers`, `call_runs` — which calls run, and with what.
-/

namespace Mowang

open LittleEndian Block

/-! ## Strings -/

namespace DynamicString

/-- `dynamic_string(const char*)`; `none` is the NUL behind an allocation of no bytes. -/
def ofCStr (s : List UInt8) : Option DynamicString :=
  let s := cstr s
  let len := s.length % 65536
  let maxLen := (len + 1) % 65536
  (DynamicCells.realloc? ⟨len, s.length, s⟩ maxLen len 0).bind fun a => a.store? a.len 0

/-- What it holds: the length is counted in 16 bits. -/
def taken (s : List UInt8) : List UInt8 := (cstr s).take ((cstr s).length % 65536)

theorem taken_length (s : List UInt8) : (taken s).length = (cstr s).length % 65536 := by
  rw [taken, List.length_take]
  exact Nat.min_eq_left (Nat.mod_le _ _)

theorem ofCStr_holds {s : List UInt8} (h : (cstr s).length % 65536 ≠ 65535) :
    ∃ a, ofCStr s = some a ∧ DynamicCells.Holds a (taken s) := by
  have hlen := taken_length s
  have hlt := Nat.mod_lt (cstr s).length (by decide : 0 < 65536)
  have hmax : ((cstr s).length % 65536 + 1) % 65536 = (cstr s).length % 65536 + 1 := Nat.mod_eq_of_lt (by omega)
  have hroom : (cstr s).length % 65536 + 1 - (cstr s).length % 65536 = 1 := by omega
  refine ⟨⟨(cstr s).length % 65536, (cstr s).length % 65536 + 1, taken s ++ [0]⟩, ?_, List.take_left' hlen, hlen.symm⟩
  simp only [ofCStr, hmax, DynamicCells.realloc?]
  rw [if_pos ⟨Nat.le_succ _, Nat.mod_le _ _⟩, Option.bind_some]
  simp [DynamicCells.store?, hroom, taken, Nat.mod_le]

theorem ofCStr_eq_none {s : List UInt8} (h : (cstr s).length % 65536 = 65535) : ofCStr s = none := by
  simp [ofCStr, h, DynamicCells.realloc?]

end DynamicString

/-! ## Which calls run -/

namespace EntityMethod

/-- The types that the commands of clients are registered with. -/
def commandTypes : EntityMethod → List ParamType
  | login         => [.pod 1, .dynamicString, .dynamicString]
  | createRole    => [.pod 1, .dynamicString]
  | incomeResource | upBuildingLevel => [.pod 2]
  | buildBuilding => [.pod 2, .pod 2]
  | _             => []

theorem registered_types {kind : EntityKind} {method : EntityMethod} {types : List ParamType}
    (h : (method, types) ∈ kind.registered) (hcommand : method.isClientCommand = true) : types = method.commandTypes := by
  have hall : ∀ entry ∈ kind.registered, entry.1.isClientCommand = true → entry.2 = entry.1.commandTypes := by
    cases kind <;> decide
  exact hall _ h hcommand

theorem nulFree_name (method : EntityMethod) : 0 ∉ method.name := by cases method <;> decide

theorem name_length_lt (method : EntityMethod) : method.name.length < sizeofRpcName := by cases method <;> decide

/-- Of the commands, only the login has it in its name. -/
theorem findLogin_iff {method : EntityMethod} (hcommand : method.isClientCommand = true) :
    GameDispatch.findLogin method.name = true ↔ method = .login := by
  cases method <;> simp_all [isClientCommand] <;> decide

end EntityMethod

/-- The game answers the command of a client: the entity that it is bound to has registered it, or a new account logs
    in. -/
def Answers (g : GameProcess) (clientId : UInt64) (method : EntityMethod) (entityId : EntityId) : Prop :=
  if g.dispatch.getEntityIdByClientId clientId.toNat ≠ invalidEntityId then
    entityId = g.dispatch.getEntityIdByClientId clientId.toNat ∧
      ∃ kind, g.entities.lookup entityId = some kind ∧ (method, method.commandTypes) ∈ kind.registered
  else method = .login ∧ entityId = g.entityId + 1

section Game

variable {g : GameProcess} {clientId : UInt64} {method : EntityMethod} {vs : List Value} {r : Invocation}

variable (g clientId) in
/-- The parameters of a login, and the login. -/
theorem parseLogin_iff {n buffer : Nat} {b : Block UInt8 n} (hcounted : ∀ v ∈ vs, v.Counted)
    (htypes : vs.map Value.type = EntityMethod.login.commandTypes) (hhas : b.Has buffer (vs.flatMap Value.encode)) :
    (∀ r, g.dispatch.parseLogin clientId.toNat b buffer = some (some r) →
      r.method = .login ∧ r.entityId = g.entityId + 1 ∧ List.Forall₂ Param.Holds r.args vs ∧ ∀ v ∈ vs, v.Pushable) ∧
    ((∀ v ∈ vs, v.Pushable) → ∃ r, g.dispatch.parseLogin clientId.toNat b buffer = some (some r)) := by
  constructor
  · intro r h
    simp only [GameDispatch.parseLogin, Option.bind_eq_some_iff, Option.some.injEq, Prod.exists] at h
    obtain ⟨platformId, i, hplatform, userId, j, huser, token, k, htoken, rfl⟩ := h
    obtain ⟨h₁, rfl⟩ := readBlock_eq_some.mp hplatform
    have hin : buffer + 1 ≤ n := by
      have hsize := h₁.1
      rwa [platformId.size_eq] at hsize
    obtain ⟨us, huserHolds, hus, h₂, rfl⟩ := (decodes_parseString b).sound hin huser
    obtain ⟨ts, htokenHolds, hts, h₃, rfl⟩ := (decodes_parseString b).sound h₂.1 htoken
    have hargs : HasArgs b buffer EntityMethod.login.commandTypes
        [.pod platformId, .dynamicString us, .dynamicString ts] := by
      refine ⟨rfl, by simp [Value.Pushable, hus, hts], ?_⟩
      have hpod : platformId.cells.length = 1 := platformId.size_eq
      simp only [List.flatMap_cons, List.flatMap_nil, List.append_nil, Value.encode]
      exact has_append.mpr ⟨h₁, has_append.mpr ⟨by rw [hpod]; exact h₂, by rw [hpod]; exact h₃⟩⟩
    obtain rfl := hasArgs_unique hargs htypes hcounted hhas
    exact ⟨rfl, rfl, .cons (.pod _) (.cons (.dynamicString huserHolds.1) (.cons (.dynamicString htokenHolds.1) .nil)),
      hargs.2.1⟩
  · intro hpush
    obtain ⟨v₁, vs, rfl, ht₁, htypes⟩ := List.map_eq_cons_iff.mp htypes
    obtain ⟨v₂, vs, rfl, ht₂, htypes₂⟩ := List.map_eq_cons_iff.mp htypes
    obtain ⟨v₃, vs, rfl, ht₃, htypes₃⟩ := List.map_eq_cons_iff.mp htypes₂
    obtain ⟨platformId, rfl⟩ := Value.type_eq_pod.mp ht₁
    obtain ⟨us, rfl⟩ := Value.type_eq_dynamicString.mp ht₂
    obtain ⟨ts, rfl⟩ := Value.type_eq_dynamicString.mp ht₃
    obtain rfl := List.map_eq_nil_iff.mp htypes₃
    simp only [List.flatMap_cons, List.flatMap_nil, List.append_nil, Value.encode] at hhas
    obtain ⟨h₁, hhas⟩ := has_append.mp hhas
    obtain ⟨h₂, h₃⟩ := has_append.mp hhas
    have hplatform : b.readBlock 1 buffer = some (platformId, buffer + platformId.cells.length) :=
      readBlock_eq_some.mpr ⟨h₁, by rw [platformId.size_eq]⟩
    obtain ⟨userId, huser, _⟩ := (decodes_parseString b).complete h₂ (hpush (.dynamicString us) (by simp))
    obtain ⟨token, htoken, _⟩ := (decodes_parseString b).complete h₃ (hpush (.dynamicString ts) (by simp))
    rw [GameDispatch.parseLogin, hplatform]
    simp only [Option.bind_some, huser, htoken]
    exact ⟨_, rfl⟩

variable (g clientId) in
/-- **A call of the gate** runs the command that it names, on the client's entity or in a new login, with the values
    that it was made with, whatever stands behind its packet in memory; it runs if the game answers it and the strings
    are short. -/
theorem call_runs (hcommand : method.isClientCommand = true) (hcounted : ∀ v ∈ vs, v.Counted)
    (htypes : vs.map Value.type = method.commandTypes) (link : SocketIndex) (rest : List UInt8) :
    (∀ r, g.dispatch.handlePacket link (transferred clientId (rpcImage method.name vs) rest) = some (some r) →
      r.method = method ∧ Answers g clientId method r.entityId ∧ List.Forall₂ Param.Holds r.args vs ∧
        ∀ v ∈ vs, v.Pushable) ∧
    (∀ entityId, Answers g clientId method entityId → (∀ v ∈ vs, v.Pushable) →
      ∃ r, g.dispatch.handlePacket link (transferred clientId (rpcImage method.name vs) rest) = some (some r)) := by
  obtain ⟨hid, hname, hargs⟩ := has_rpcImage method.nulFree_name method.name_length_lt
    (has_append.mp (has_cells (received (rpcImage method.name vs ++ rest)))).1
  rw [Nat.zero_add] at hid hname hargs
  have hhas : (transferred clientId (rpcImage method.name vs) rest).Has _ _ := has_transferred.mpr hargs
  have hdispatch : g.dispatch.handlePacket link (transferred clientId (rpcImage method.name vs) rest) =
      if g.dispatch.getEntityIdByClientId clientId.toNat ≠ invalidEntityId then
        g.dispatch.entity.call (g.dispatch.getEntityIdByClientId clientId.toNat) method.name
          (transferred clientId (rpcImage method.name vs) rest)
          (TransferEntityPacket.offsetBuffer + RpcByNamePacket.offsetBuffer)
      else if GameDispatch.findLogin method.name then
        g.dispatch.parseLogin clientId.toNat (transferred clientId (rpcImage method.name vs) rest)
          (TransferEntityPacket.offsetBuffer + RpcByNamePacket.offsetBuffer)
      else some none := by
    rw [handlePacket_transferred, readCell_eq_some.mpr ⟨has_transferred.mpr hid, rfl⟩]
    simp only [Option.bind_some, if_true]
    rw [readCStr_eq_some.mpr (nameAt_transferred.mpr hname), Option.bind_some]
  rw [hdispatch]
  by_cases hbound : g.dispatch.getEntityIdByClientId clientId.toNat ≠ invalidEntityId
  · simp only [Answers, if_pos hbound, entity_call_iff method.nulFree_name]
    constructor
    · rintro r ⟨kind, method', types, hkind, hmem, hsame, hrun⟩
      obtain rfl := EntityMethod.name_inj hsame
      obtain rfl := EntityMethod.registered_types hmem hcommand
      obtain ⟨ws, args, hws, hholds, rfl⟩ := RpcFunc.run_sound (Nat.le_trans (Nat.le_add_right _ _) hhas.1) hrun
      obtain rfl := hasArgs_unique hws htypes hcounted hhas
      exact ⟨rfl, ⟨rfl, kind, hkind, hmem⟩, hholds, hws.2.1⟩
    · rintro entityId ⟨rfl, kind, hkind, hmem⟩ hpush
      obtain ⟨args, _, hrun⟩ := RpcFunc.run_complete (f := EntityKind.func
        (g.dispatch.getEntityIdByClientId clientId.toNat) method method.commandTypes) ⟨htypes, hpush, hhas⟩
      exact ⟨_, kind, method, method.commandTypes, hkind, hmem, rfl, hrun⟩
  · simp only [Answers, if_neg hbound]
    by_cases hlogin : method = .login
    · subst hlogin
      rw [if_pos ((EntityMethod.findLogin_iff rfl).mpr rfl)]
      obtain ⟨hsound, hcomplete⟩ := parseLogin_iff g clientId hcounted htypes hhas
      refine ⟨fun r h => ?_, fun entityId _ hpush => hcomplete hpush⟩
      obtain ⟨hmethod, hentity, hholds, hpush⟩ := hsound r h
      exact ⟨hmethod, ⟨rfl, hentity⟩, hholds, hpush⟩
    · rw [if_neg (mt (EntityMethod.findLogin_iff hcommand).mp hlogin)]
      exact ⟨nofun, fun entityId h => absurd h.1 hlogin⟩

end Game

end Mowang
