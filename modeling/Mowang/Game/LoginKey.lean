import Mowang.Base.Run
import Mowang.Game.SaveRole

/-!
# `Game.LoginKey` — the user id and the role name on their way into SQL

`account::login` copies the bytes of `user_id` over the first ones of `m_user_id`, and prints the array between
the quotes of a condition; `create_account` prints it into the values of an insertion. `create_role` does the same
with `role_name`, after it has cleared `m_role_name`. Nothing looks at a length, and nothing escapes a character.

A step that writes outside an array, or reads a string that has no end in it, is `none`.

## Contents
- `Asked.Carries` — the text handed to the DB holds one literal in its place, equal to the key.
- `LoginSession.step`, over any order of logins, answers and created roles.
- `keys_carried_iff`, and `stale_user_id`.
-/

namespace Mowang

open Block

/-- `USER_ID_LEN`. -/
def userIdLen : Nat := 64

/-- A text handed to the DB. Around its literal stand `front` and `back`; `key` is what the latest command brought. -/
structure Asked where
  text : List UInt8
  front : List UInt8
  key : List UInt8
  back : List UInt8

/-- Where the text has its literal, the database reads the key. -/
def Asked.Carries (a : Asked) : Prop :=
  ∃ body, a.text = a.front ++ quote :: body ∧ readLiteral body = some (a.key, a.back)

/-- A format with `'%s'` in it, and the text that `%s` prints. -/
def Asked.print (front back printed key : List UInt8) : Asked :=
  ⟨mwToString (front ++ quote :: (printed ++ quote :: back)), front, key, back⟩

/-- The fields of an `account` that go into a statement. -/
structure LoginKey where
  platformId : UInt8
  userId : Block UInt8 userIdLen
  accountId : UInt64
  roleId : UInt64
  sex : UInt8
  roleName : Block UInt8 roleNameLen

/-- What the account does not decide. `printed` is what `%s` prints for an integer, where it does not crash. -/
structure LoginWorld where
  memory : Memory
  serverId : UInt16
  printed : UInt8 → Option (List UInt8)

structure LoginSession where
  account : LoginKey
  /-- Account queries that are not answered yet. -/
  waiting : Nat
  /-- The user id of the latest login. -/
  latest : List UInt8
  asked : List Asked

inductive LoginEvent
  | login (platformId : UInt8) (userId : List UInt8)
  /-- The answer to an account query: its status, and the ids of the row if there is one. -/
  | loadAccount (status : Bool) (row : Option (UInt64 × UInt64))
  /-- The time, and what the allocation of the buildings' text holds at first. -/
  | createRole (sex : UInt8) (roleName : List UInt8) (now : DbTime) (fresh : Nat → UInt8)

namespace LoginSession

variable (w : LoginWorld)

/-- `platform_id = %d and user_id = '%s'`. -/
def conditionFront (platformId : UInt8) : List UInt8 :=
  ascii "platform_id = " ++ decimal platformId.toNat ++ ascii " and user_id = "

/-- `(%u, %d, '%s', '%u', '%u')`, up to the literal. -/
def accountFront (platformId : UInt8) (serverId : UInt16) : List UInt8 :=
  ascii "(" ++ decimal platformId.toNat ++ ascii ", " ++ decimal serverId.toNat ++ ascii ", "

def accountBack (accountId roleId : UInt64) : List UInt8 :=
  ascii ", '" ++ decimal accountId.toNat ++ ascii "', '" ++ decimal roleId.toNat ++ ascii "')"

/-- `('%u', '%u', %d, %d, '%s', '%s')`, up to the literal of the name. -/
def roleFront (accountId roleId : UInt64) (sex : UInt8) : List UInt8 :=
  ascii "('" ++ decimal accountId.toNat ++ ascii "', '" ++ decimal roleId.toNat ++ ascii "', " ++ decimal sex.toNat ++
    ascii ", " ++ decimal 1 ++ ascii ", "

def roleBack (building : List UInt8) : List UInt8 := ascii ", '" ++ building ++ ascii "')"

/-- `account::login`. The array keeps what stood behind the copied bytes. -/
def login (s : LoginSession) (platformId : UInt8) (userId : List UInt8) : Option LoginSession :=
  (s.account.userId.write? 0 userId).bind fun copied =>
  (copied.readCStr 0).map fun printed =>
  { account := { s.account with platformId := platformId, userId := copied }
    waiting := s.waiting + 1
    latest := userId
    asked := .print (conditionFront platformId) [] printed userId :: s.asked }

/-- `account::create_account`. -/
def createAccount (s : LoginSession) : Option LoginSession :=
  (s.account.userId.readCStr 0).map fun printed =>
  { s with account := { s.account with accountId := 1, roleId := 1 }
           asked := .print (accountFront s.account.platformId w.serverId) (accountBack 1 1) printed s.latest ::
             s.asked }

/-- `account::on_load_account_callback`. -/
def onLoadAccountCallback (s : LoginSession) (status : Bool) (row : Option (UInt64 × UInt64)) : Option LoginSession :=
  if !status then some s
  else
    match row with
    | none => createAccount w s
    | some (accountId, roleId) => some { s with account := { s.account with accountId := accountId, roleId := roleId } }

/-- `account::create_role`. The message to the client prints the integer `sex` where its format has a `%s`. -/
def createRole (s : LoginSession) (sex : UInt8) (roleName : List UInt8) (now : DbTime) (fresh : Nat → UInt8) :
    Option LoginSession :=
  (w.printed sex).bind fun _ =>
  ((Block.fill roleNameLen 0).write? 0 roleName).bind fun copied =>
  (RoleInfo.buildingText w.memory fresh now RoleInfo.initialBuildings).bind fun building =>
  (copied.readCStr 0).map fun printed =>
  { s with account := { s.account with sex := sex, roleName := copied }
           asked := .print (roleFront s.account.accountId s.account.roleId sex) (roleBack building) printed roleName ::
             s.asked }

/-- A query is answered once; an answer nobody waits for does not come. -/
def step (s : LoginSession) : LoginEvent → Option LoginSession
  | .login platformId userId => login s platformId userId
  | .loadAccount status row  =>
    if s.waiting = 0 then some s else onLoadAccountCallback w { s with waiting := s.waiting - 1 } status row
  | .createRole sex roleName now fresh => createRole w s sex roleName now fresh

/-- The account before its first command; its fields hold anything. -/
def created (account : LoginKey) : LoginSession := ⟨account, 0, [], []⟩

/-- Every text handed to the DB so far carries its key. -/
def Sound (s : LoginSession) : Prop := ∀ a ∈ s.asked, a.Carries

/-- Behind the user id nothing is left and it is plain, or what is left happens to complete it to a text for itself. -/
def Stands (userId rest : List UInt8) : Prop :=
  rest = [] ∧ plain userId = true ∨ rest ≠ [] ∧ readLiteral (userId ++ rest ++ [quote]) = some (userId, [])

/-- A string without a NUL that ends inside the array, and that `rest`, the old bytes behind it up to a NUL, does not
    change. -/
def KeyFits (s : LoginSession) (userId : List UInt8) : Prop :=
  NulFree userId ∧ ∃ rest, s.account.userId.readCStr userId.length = some rest ∧ Stands userId rest

/-- A plain string without a NUL that is shorter than the array, a `sex` that `%s` can print, and 3 bytes behind the
    258 that are allocated for the text of the buildings. -/
def RoleFits (sex : UInt8) (roleName : List UInt8) : Prop :=
  (w.printed sex).isSome ∧ roleName.length < roleNameLen ∧ NulFree roleName ∧ plain roleName = true ∧
  261 ≤ w.memory.usable 258

/-- What a command has to meet. -/
def Fits (s : LoginSession) : LoginEvent → Prop
  | .login _ userId => s.KeyFits userId
  | .loadAccount _ _ => True
  | .createRole sex roleName _ _ => RoleFits w sex roleName

end LoginSession

/-! ## The literal -/

section Print

variable {front back printed key : List UInt8}

/-- A text that is not cut off carries the key where the printed string reads as it. -/
theorem Asked.carries_print_iff (hlen : front.length + printed.length + back.length ≤ 2044)
    (hback : back.head? ≠ some quote) :
    (Asked.print front back printed key).Carries ↔ readLiteral (printed ++ [quote]) = some (key, []) := by
  have htext : (Asked.print front back printed key).text = front ++ quote :: (printed ++ quote :: back) := by
    apply mwToString_eq_self
    simp only [List.length_append, List.length_cons]
    omega
  rw [← readLiteral_append_iff hback]
  constructor
  · rintro ⟨body, hbody, hread⟩
    rw [htext] at hbody
    have heq : quote :: (printed ++ quote :: back) = quote :: body := List.append_cancel_left hbody
    cases heq
    exact hread
  · intro hread
    exact ⟨_, htext, hread⟩

end Print

/-! ## Copying into an array -/

section Copy

variable {n : Nat} {b : Block UInt8 n} {s : List UInt8}

theorem cells_write_zero (h : 0 + s.length ≤ n) : (b.write 0 s h).cells = s ++ b.cells.drop s.length := by
  show s ++ b.cells.drop (0 + s.length) = _
  rw [Nat.zero_add]

/-- Behind a copied string comes what the array held there. -/
theorem readCStr_write_zero (h : 0 + s.length ≤ n) (hs : NulFree s) :
    (b.write 0 s h).readCStr 0 = (b.readCStr s.length).map (s ++ ·) := by
  have hpos : ∀ c ∈ s, decide (c ≠ 0) = true := by
    intro c hc
    simp only [ne_eq, decide_not, Bool.not_eq_eq_eq_not, Bool.not_true, decide_eq_false_iff_not]
    rintro rfl
    exact hs hc
  simp only [readCStr, cells_write_zero h, List.drop_zero, List.takeWhile_append_of_pos hpos, List.length_append]
  split
  · rw [if_pos (by omega), Option.map_some]
  · rw [if_neg (by omega), Option.map_none]

/-- A NUL in the copied string ends it. -/
theorem readCStr_write_nul (h : 0 + s.length ≤ n) (hs : ¬ NulFree s) :
    ∃ printed, (b.write 0 s h).readCStr 0 = some printed ∧ printed.length < s.length := by
  have hself : (b.write 0 s h).Has 0 s := ⟨h, slice_write_self h⟩
  generalize b.write 0 s h = copied at hself ⊢
  obtain ⟨p, t, rfl, hp⟩ := List.eq_append_cons_of_mem (not_not.mp hs)
  rw [← List.singleton_append, ← List.append_assoc] at hself
  refine ⟨p, readCStr_eq_some.mpr ⟨hp, (has_append.mp hself).1⟩, ?_⟩
  rw [List.length_append, List.length_cons]
  omega

/-- When a copied string reads as itself. -/
theorem copied_iff : (∃ copied printed, b.write? 0 s = some copied ∧ copied.readCStr 0 = some printed ∧
      readLiteral (printed ++ [quote]) = some (s, [])) ↔
    NulFree s ∧ ∃ rest, b.readCStr s.length = some rest ∧ LoginSession.Stands s rest := by
  constructor
  · rintro ⟨copied, printed, hcopied, hprinted, hread⟩
    have hfit : 0 + s.length ≤ n := write?_isSome.mp (Option.isSome_of_eq_some hcopied)
    rw [write?_eq hfit] at hcopied
    cases hcopied
    have hfree : NulFree s := by
      by_contra hnul
      obtain ⟨printed', hprinted', hlt⟩ := readCStr_write_nul hfit hnul
      rw [hprinted] at hprinted'
      cases hprinted'
      -- a literal is no longer than its text
      obtain ⟨y, heq, hle, _⟩ := readLiteral_sound hread
      rw [← List.append_cancel_right heq] at hle
      omega
    rw [readCStr_write_zero hfit hfree] at hprinted
    obtain ⟨rest, hrest, rfl⟩ := Option.map_eq_some_iff.mp hprinted
    refine ⟨hfree, rest, hrest, ?_⟩
    by_cases hnil : rest = []
    · subst hnil
      rw [List.append_nil] at hread
      exact Or.inl ⟨rfl, (readLiteral_self_iff (by decide)).mp hread⟩
    · exact Or.inr ⟨hnil, hread⟩
  · rintro ⟨hfree, rest, hrest, hstands⟩
    have hfit : 0 + s.length ≤ n := by
      have := (readCStr_eq_some.mp hrest).2.1
      omega
    refine ⟨_, s ++ rest, write?_eq hfit, ?_, ?_⟩
    · rw [readCStr_write_zero hfit hfree, hrest, Option.map_some]
    · rcases hstands with ⟨rfl, hplain⟩ | ⟨_, hread⟩
      · rw [List.append_nil]
        exact readLiteral_plain hplain (by decide)
      · exact hread

/-- Behind a string in a cleared array nothing is left. -/
theorem readCStr_fill {k : Nat} {rest : List UInt8} :
    (Block.fill n 0).readCStr k = some rest ↔ k < n ∧ rest = [] := by
  have hdrop : (Block.fill n (0 : UInt8)).cells.drop k = List.replicate (n - k) 0 := List.drop_replicate
  have htake : (List.replicate (n - k) (0 : UInt8)).takeWhile (· ≠ 0) = [] := by
    rw [List.takeWhile_replicate]
    rfl
  simp only [readCStr, hdrop, htake, List.length_nil, List.length_replicate, Option.ite_none_right_eq_some,
    Option.some.injEq, Nat.sub_pos_iff_lt]
  exact and_congr_right fun _ => eq_comm

/-- When a string copied into a cleared array reads as itself. -/
theorem copied_fill_iff : (∃ copied printed, (Block.fill n 0).write? 0 s = some copied ∧
      copied.readCStr 0 = some printed ∧ readLiteral (printed ++ [quote]) = some (s, [])) ↔
    s.length < n ∧ NulFree s ∧ plain s = true := by
  rw [copied_iff]
  constructor
  · rintro ⟨hfree, rest, hrest, hstands⟩
    obtain ⟨hlt, rfl⟩ := readCStr_fill.mp hrest
    rcases hstands with ⟨_, hplain⟩ | ⟨hne, _⟩
    · exact ⟨hlt, hfree, hplain⟩
    · exact absurd rfl hne
  · rintro ⟨hlt, hfree, hplain⟩
    exact ⟨hfree, [], readCStr_fill.mpr ⟨hlt, rfl⟩, Or.inl ⟨rfl, hplain⟩⟩

end Copy

namespace LoginSession

variable {w : LoginWorld} {s s' : LoginSession} {userId : List UInt8}

theorem sound_cons {account : LoginKey} {waiting : Nat} {a : Asked} :
    Sound ⟨account, waiting, userId, a :: s.asked⟩ ↔ a.Carries ∧ Sound s := List.forall_mem_cons

/-! ## What is printed fits the formatter -/

theorem decimal_length_u64 (v : UInt64) : (decimal v.toNat).length ≤ 20 :=
  decimal_length_le (by decide) (Nat.lt_of_lt_of_le v.toNat_lt (by decide))

theorem decimal_length_u8 (v : UInt8) : (decimal v.toNat).length ≤ 3 :=
  decimal_length_le (by decide) (Nat.lt_of_lt_of_le v.toNat_lt (by decide))

theorem decimal_length_u16 (v : UInt16) : (decimal v.toNat).length ≤ 5 :=
  decimal_length_le (by decide) (Nat.lt_of_lt_of_le v.toNat_lt (by decide))

theorem conditionFront_length (platformId : UInt8) : (conditionFront platformId).length ≤ 40 := by
  have h₁ : (ascii "platform_id = ").length = 14 := rfl
  have h₂ : (ascii " and user_id = ").length = 15 := rfl
  have := decimal_length_u8 platformId
  simp only [conditionFront, List.length_append, h₁, h₂]
  omega

theorem accountFront_length (platformId : UInt8) (serverId : UInt16) :
    (accountFront platformId serverId).length ≤ 20 := by
  have h₁ : (ascii "(").length = 1 := rfl
  have h₂ : (ascii ", ").length = 2 := rfl
  have := decimal_length_u8 platformId
  have := decimal_length_u16 serverId
  simp only [accountFront, List.length_append, h₁, h₂]
  omega

theorem accountBack_length (accountId roleId : UInt64) : (accountBack accountId roleId).length ≤ 60 := by
  have h₁ : (ascii ", '").length = 3 := rfl
  have h₂ : (ascii "', '").length = 4 := rfl
  have h₃ : (ascii "')").length = 2 := rfl
  have := decimal_length_u64 accountId
  have := decimal_length_u64 roleId
  simp only [accountBack, List.length_append, h₁, h₂, h₃]
  omega

theorem roleFront_length (accountId roleId : UInt64) (sex : UInt8) :
    (roleFront accountId roleId sex).length ≤ 60 := by
  have h₁ : (ascii "('").length = 2 := rfl
  have h₂ : (ascii "', '").length = 4 := rfl
  have h₃ : (ascii "', ").length = 3 := rfl
  have h₄ : (ascii ", ").length = 2 := rfl
  have h₅ : (decimal 1).length = 1 := rfl
  have := decimal_length_u64 accountId
  have := decimal_length_u64 roleId
  have := decimal_length_u8 sex
  simp only [roleFront, List.length_append, h₁, h₂, h₃, h₄, h₅]
  omega

theorem roleBack_length (building : List UInt8) : (roleBack building).length = building.length + 5 := by
  have h₁ : (ascii ", '").length = 3 := rfl
  have h₂ : (ascii "')").length = 2 := rfl
  simp only [roleBack, List.length_append, h₁, h₂]
  omega

theorem head?_roleBack (building : List UInt8) : (roleBack building).head? ≠ some quote := by
  intro h
  cases h

theorem head?_accountBack (accountId roleId : UInt64) : (accountBack accountId roleId).head? ≠ some quote := by
  intro h
  cases h

/-! ## The steps -/

/-- While an answer is awaited, the array reads as the latest user id. -/
def Remembers (s : LoginSession) : Prop :=
  0 < s.waiting → ∃ printed, s.account.userId.readCStr 0 = some printed ∧
    readLiteral (printed ++ [quote]) = some (s.latest, [])

theorem readCStr_length_lt {n : Nat} {b : Block UInt8 n} {i : Nat} {printed : List UInt8}
    (h : b.readCStr i = some printed) : printed.length < n := by
  have hhas := (readCStr_eq_some.mp h).2.1
  rw [List.length_append, List.length_singleton] at hhas
  omega

/-- A login asks for its user id exactly if that fits. -/
theorem login_sound_iff (hsound : Sound s) (platformId : UInt8) :
    (∃ s', login s platformId userId = some s' ∧ Sound s') ↔ s.KeyFits userId := by
  rw [KeyFits, ← copied_iff]
  have hcarries : ∀ {copied : Block UInt8 userIdLen} {printed}, copied.readCStr 0 = some printed →
      ((Asked.print (conditionFront platformId) [] printed userId).Carries ↔
        readLiteral (printed ++ [quote]) = some (userId, [])) := by
    intro copied printed hprinted
    apply Asked.carries_print_iff _ (by decide)
    have := conditionFront_length platformId
    have := readCStr_length_lt hprinted
    rw [List.length_nil]
    rw [userIdLen] at this
    omega
  constructor
  · rintro ⟨s', h, hsound'⟩
    obtain ⟨copied, hcopied, h⟩ := Option.bind_eq_some_iff.mp h
    obtain ⟨printed, hprinted, rfl⟩ := Option.map_eq_some_iff.mp h
    exact ⟨copied, printed, hcopied, hprinted, (hcarries hprinted).mp (sound_cons.mp hsound').1⟩
  · rintro ⟨copied, printed, hcopied, hprinted, hread⟩
    refine ⟨_, by rw [login, hcopied, Option.bind_some, hprinted, Option.map_some], ?_⟩
    exact sound_cons.mpr ⟨(hcarries hprinted).mpr hread, hsound⟩

/-- A login that fits is remembered. -/
theorem login_remembers (hfits : s.KeyFits userId) {platformId : UInt8} (h : login s platformId userId = some s') :
    s'.Remembers := by
  intro _
  obtain ⟨copied, hcopied, h⟩ := Option.bind_eq_some_iff.mp h
  obtain ⟨printed, hprinted, rfl⟩ := Option.map_eq_some_iff.mp h
  obtain ⟨copied', printed', hcopied', hprinted', hread⟩ := copied_iff.mpr hfits
  rw [hcopied] at hcopied'
  cases hcopied'
  rw [hprinted] at hprinted'
  cases hprinted'
  exact ⟨printed, hprinted, hread⟩

/-- What is remembered goes into the insertion. -/
theorem createAccount_sound (hsound : Sound s) {printed : List UInt8}
    (hprinted : s.account.userId.readCStr 0 = some printed)
    (hread : readLiteral (printed ++ [quote]) = some (s.latest, [])) :
    ∃ s', createAccount w s = some s' ∧ Sound s' := by
  refine ⟨_, by rw [createAccount, hprinted, Option.map_some], sound_cons.mpr ⟨?_, hsound⟩⟩
  apply (Asked.carries_print_iff _ (head?_accountBack 1 1)).mpr hread
  have := accountFront_length s.account.platformId w.serverId
  have := accountBack_length 1 1
  have := readCStr_length_lt hprinted
  rw [userIdLen] at this
  omega

theorem loadAccount_sound (hsound : Sound s) (hremembers : s.Remembers) (status : Bool)
    (row : Option (UInt64 × UInt64)) :
    ∃ s', step w s (.loadAccount status row) = some s' ∧ Sound s' := by
  rw [step]
  split
  · exact ⟨s, rfl, hsound⟩
  · rename_i hwaiting
    obtain ⟨printed, hprinted, hread⟩ := hremembers (Nat.pos_of_ne_zero hwaiting)
    cases status with
    | false => exact ⟨_, rfl, hsound⟩
    | true =>
        cases row with
        | some ids => exact ⟨_, rfl, hsound⟩
        | none => exact createAccount_sound (s := { s with waiting := s.waiting - 1 }) hsound hprinted hread

/-- A role is asked for exactly if it fits. -/
theorem createRole_sound_iff (hsound : Sound s) {sex : UInt8} {roleName : List UInt8} {now : DbTime}
    {fresh : Nat → UInt8} :
    (∃ s', createRole w s sex roleName now fresh = some s' ∧ Sound s') ↔ RoleFits w sex roleName := by
  have hmax := @RoleInfo.binaryStringMaxLen_eq RoleInfo.initialBuildings.length (by decide) (by decide)
  have hcarries : ∀ {copied : Block UInt8 roleNameLen} {printed building}, copied.readCStr 0 = some printed →
      RoleInfo.buildingText w.memory fresh now RoleInfo.initialBuildings = some building →
      ((Asked.print (roleFront s.account.accountId s.account.roleId sex) (roleBack building) printed
        roleName).Carries ↔ readLiteral (printed ++ [quote]) = some (roleName, [])) := by
    intro copied printed building hprinted hbuilding
    apply Asked.carries_print_iff _ (head?_roleBack building)
    obtain ⟨rfl, _⟩ := RoleInfo.buildingText_spec (by decide) hbuilding
    have := roleFront_length s.account.accountId s.account.roleId sex
    have := readCStr_length_lt hprinted
    rw [roleBack_length, dynamicText_length, RoleInfo.images_length]
    rw [roleNameLen] at this
    have : sizeofBuildingInfo * RoleInfo.initialBuildings.length = 120 := rfl
    omega
  constructor
  · rintro ⟨s', h, hsound'⟩
    obtain ⟨_, hsex, h⟩ := Option.bind_eq_some_iff.mp h
    obtain ⟨copied, hcopied, h⟩ := Option.bind_eq_some_iff.mp h
    obtain ⟨building, hbuilding, h⟩ := Option.bind_eq_some_iff.mp h
    obtain ⟨printed, hprinted, rfl⟩ := Option.map_eq_some_iff.mp h
    have hread := (hcarries hprinted hbuilding).mp (sound_cons.mp hsound').1
    obtain ⟨hlen, hfree, hplain⟩ := copied_fill_iff.mp ⟨copied, printed, hcopied, hprinted, hread⟩
    obtain ⟨_, hroom⟩ := RoleInfo.buildingText_spec (by decide) hbuilding
    rw [hmax] at hroom
    exact ⟨Option.isSome_of_eq_some hsex, hlen, hfree, hplain, hroom⟩
  · rintro ⟨hsex, hlen, hfree, hplain, hroom⟩
    obtain ⟨copied, printed, hcopied, hprinted, hread⟩ := copied_fill_iff.mpr ⟨hlen, hfree, hplain⟩
    obtain ⟨message, hsex⟩ := Option.isSome_iff_exists.mp hsex
    have hbuilding : RoleInfo.buildingText w.memory fresh now RoleInfo.initialBuildings = _ :=
      RoleInfo.buildingText_eq (by decide) (by decide) hroom
    refine ⟨_, by rw [createRole, hsex, Option.bind_some, hcopied, Option.bind_some, hbuilding, Option.bind_some,
      hprinted, Option.map_some], ?_⟩
    exact sound_cons.mpr ⟨(hcarries hprinted hbuilding).mpr hread, hsound⟩

/-- What an answer leaves as it is. -/
theorem loadAccount_keeps {status : Bool} {row : Option (UInt64 × UInt64)}
    (h : step w s (.loadAccount status row) = some s') :
    s'.account.userId = s.account.userId ∧ s'.latest = s.latest ∧ s'.waiting ≤ s.waiting ∧
      (Sound s' → Sound s) := by
  rw [step] at h
  split at h
  · cases h
    exact ⟨rfl, rfl, Nat.le_refl _, id⟩
  · have hle : s.waiting - 1 ≤ s.waiting := Nat.sub_le _ _
    cases status with
    | false =>
        cases h
        exact ⟨rfl, rfl, hle, id⟩
    | true =>
        cases row with
        | some ids =>
            cases h
            exact ⟨rfl, rfl, hle, id⟩
        | none =>
            obtain ⟨printed, _, rfl⟩ := Option.map_eq_some_iff.mp h
            exact ⟨rfl, rfl, hle, fun hsound => (sound_cons.mp hsound).2⟩

/-- The texts of a later state are more. -/
theorem step_sound_back {event : LoginEvent} (h : step w s event = some s') (hsound : Sound s') : Sound s := by
  cases event with
  | login platformId userId =>
      obtain ⟨copied, _, h⟩ := Option.bind_eq_some_iff.mp h
      obtain ⟨printed, _, rfl⟩ := Option.map_eq_some_iff.mp h
      exact (sound_cons.mp hsound).2
  | loadAccount status row => exact (loadAccount_keeps h).2.2.2 hsound
  | createRole sex roleName now fresh =>
      obtain ⟨_, _, h⟩ := Option.bind_eq_some_iff.mp h
      obtain ⟨copied, _, h⟩ := Option.bind_eq_some_iff.mp h
      obtain ⟨building, _, h⟩ := Option.bind_eq_some_iff.mp h
      obtain ⟨printed, _, rfl⟩ := Option.map_eq_some_iff.mp h
      exact (sound_cons.mp hsound).2

/-- An event that is not a login leaves `m_user_id` and the latest user id. -/
theorem step_remembers (hremembers : s.Remembers) {event : LoginEvent} (hfits : s.Fits w event)
    (h : step w s event = some s') : s'.Remembers := by
  cases event with
  | login platformId userId => exact login_remembers hfits h
  | loadAccount status row =>
      obtain ⟨huserId, hlatest, hwaiting, _⟩ := loadAccount_keeps h
      intro hpos
      rw [huserId, hlatest]
      exact hremembers (Nat.lt_of_lt_of_le hpos hwaiting)
  | createRole sex roleName now fresh =>
      obtain ⟨_, _, h⟩ := Option.bind_eq_some_iff.mp h
      obtain ⟨copied, _, h⟩ := Option.bind_eq_some_iff.mp h
      obtain ⟨building, _, h⟩ := Option.bind_eq_some_iff.mp h
      obtain ⟨printed, _, rfl⟩ := Option.map_eq_some_iff.mp h
      exact hremembers

/-- The steps that hand over sound texts are those that fit. -/
theorem step_sound_iff (hsound : Sound s) (hremembers : s.Remembers) {event : LoginEvent} :
    (∃ s', step w s event = some s' ∧ Sound s') ↔ s.Fits w event := by
  cases event with
  | login platformId userId => exact login_sound_iff hsound platformId
  | loadAccount status row => exact iff_of_true (loadAccount_sound hsound hremembers status row) trivial
  | createRole sex roleName now fresh => exact createRole_sound_iff hsound

/-- **The keys are carried unchanged.** Whatever the account's fields hold at first: a sequence of commands and
    answers writes past no array, and every text handed to the DB holds one literal in its place, equal to the key of
    the latest command, if and only if each login and each created role fits when it comes. -/
theorem keys_carried_iff (w : LoginWorld) (account : LoginKey) (events : List LoginEvent) :
    (∃ s', run (step w) (created account) events = some s' ∧ ∀ a ∈ s'.asked, a.Carries) ↔
      Along (step w) (Fits w) (created account) events := by
  have hstep : ∀ {s : LoginSession} {event}, Sound s ∧ s.Remembers →
      ((∃ s', step w s event = some s' ∧ Sound s') ↔ s.Fits w event) := fun h => step_sound_iff h.1 h.2
  have hinv : ∀ {s : LoginSession} {event s'}, Sound s ∧ s.Remembers → s.Fits w event →
      step w s event = some s' → Sound s' ∧ s'.Remembers := by
    intro s event s' hs hfits h
    obtain ⟨s₁, h₁, hsound₁⟩ := (hstep hs).mpr hfits
    rw [h] at h₁
    cases h₁
    exact ⟨hsound₁, step_remembers hs.2 hfits h⟩
  have hstart : Sound (created account) := fun a ha => absurd ha List.not_mem_nil
  exact sound_iff_along hstep hinv step_sound_back ⟨hstart, fun hpos => absurd hpos (Nat.lt_irrefl 0)⟩ hstart events

/-- After a login with `alice`, one with `bob` asks for `bobce`. -/
theorem stale_user_id : ¬ ∃ s', run (step ⟨⟨fun n => n + 8, fun _ _ => 0, fun _ _ => 0⟩, 1, fun _ => none⟩)
      (created ⟨0, .fill userIdLen 0, 0, 0, 0, .fill roleNameLen 0⟩)
      [.login 1 (ascii "alice"), .login 1 (ascii "bob")] = some s' ∧ ∀ a ∈ s'.asked, a.Carries := by
  rintro ⟨s', hrun, hsound⟩
  obtain ⟨s₁, h₁, hrun⟩ := Option.bind_eq_some_iff.mp hrun
  obtain ⟨s₂, h₂, hrun⟩ := Option.bind_eq_some_iff.mp hrun
  cases hrun
  have hfits := (login_sound_iff (step_sound_back h₂ hsound) 1).mp ⟨s', h₂, hsound⟩
  cases h₁
  obtain ⟨_, rest, hrest, hstands⟩ := hfits
  let alice := (Block.fill userIdLen 0).write 0 (ascii "alice") (by decide)
  have hleft : alice.readCStr 3 = some (ascii "ce") := by decide
  have hrest' : alice.readCStr 3 = some rest := hrest
  cases Option.some.inj (hleft.symm.trans hrest')
  rcases hstands with ⟨hnil, _⟩ | ⟨_, hread⟩
  · cases hnil
  · rw [readLiteral_plain (plain_of_forall (forall_of_all (by decide))) (by decide)] at hread
    cases hread

end LoginSession

end Mowang
