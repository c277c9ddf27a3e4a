import Mathlib.Tactic.Common

/-!
# `Share.BaseUtil` — the constants and identifier types of `base_util.h`

Identifiers are `Nat`: none of the results depends on their width, except where a definition says
so with an explicit `% 2^w`.
-/

namespace Mowang

/-- `MAX_PACKET_READ_SIZE`: bytes taken from a socket in one read. -/
def maxPacketReadSize : Nat := 30000

/-- `MAX_PACKET_BUFFER_SIZE`, the receive buffer of one socket: `65536 * 3`. -/
def maxPacketBufferSize : Nat := 196608

/-- `MAX_PACKET_BUFFER_MOVE_FORWARD_SIZE`: read index past which unread bytes move to the front. -/
def maxPacketBufferMoveForwardSize : Nat := 100000

/-- `TSocketIndex_t`. -/
abbrev SocketIndex := Nat

/-- `TProcessID_t`. -/
abbrev ProcessId := Nat

/-- `TEntityID_t`. -/
abbrev EntityId := Nat

/-- `TAccountID_t`. -/
abbrev AccountId := Nat

/-- `TRoleID_t`. -/
abbrev RoleId := Nat

/-- `TPacketLen_t` is a `uint16`: what a length becomes when it is stored in `m_len`. -/
def toPacketLen (n : Nat) : Nat := n % 65536

theorem toPacketLen_of_le {n : Nat} (h : n ≤ 65535) : toPacketLen n = n :=
  Nat.mod_eq_of_lt (Nat.lt_succ_of_le h)

end Mowang
