import Mowang.Base.CString
import Mowang.Share.RpcParam

/-!
# `Db.MysqlConn` — `mysql_conn`, the statements and the result buffer

Each operation prints its statement into `sql[2048]`, hands it to the connector, and catches what the connector
throws. A query encodes its rows into the 65000 bytes that the caller passes. `none` is a write outside either.

The database answers an operation with an `Outcome`. A row of the result is `none` where `next` throws, and each
access of a cell may throw; an exception leaves what was encoded before it.

## Contents
- `removeSql`, `insertSql`, `updateSql`, `querySql`.
- `fillResult`, `fillRow`, `fillRows`.
- `MysqlConn.remove`, `insert`, `update`, `query`.
-/

namespace Mowang

open LittleEndian Block

/-- The size of `sql`. -/
def sizeofSql : Nat := 2048

/-- The size of `db_result`. -/
def sizeofResult : Nat := 65000

/-- The values of `sql::DataType` that `fill_result` names. -/
inductive DataType
  | tinyint | smallint | integer | bigint | char | varchar | longvarchar
  | unknown (columnType : Int)
  deriving DecidableEq

/-- A cell of a result set: the type of its column, and what the accessors return, or `none` if they throw. -/
structure Cell where
  columnType : DataType
  getInt : Option Int
  getInt64 : Option Int
  getString : Option (List UInt8)

/-- What the database does with a statement: it throws, or it succeeds with the rows. -/
inductive Outcome
  | throws
  | rows (rows : List (Option (List Cell)))

namespace MysqlConn

/-! ## Statements -/

def removeSql (table query : List UInt8) : List UInt8 :=
  if query.length < 1 then ascii "delete from " ++ table
  else ascii "delete from " ++ table ++ ascii " where " ++ query

def insertSql (table fields values : List UInt8) : List UInt8 :=
  ascii "insert into " ++ table ++ ascii " " ++ fields ++ ascii " values " ++ values

def updateSql (table fields query : List UInt8) : List UInt8 :=
  if query.length < 1 then ascii "update " ++ table ++ ascii " " ++ fields
  else ascii "update " ++ table ++ ascii " " ++ fields ++ ascii " where " ++ query

def querySql (table fields query : List UInt8) : List UInt8 :=
  if query.length < 1 then
    if fields.length < 1 then ascii "select * from " ++ table
    else ascii "select " ++ fields ++ ascii " from " ++ table
  else
    if fields.length < 1 then ascii "select * from " ++ table ++ ascii " where " ++ query
    else ascii "select " ++ fields ++ ascii " from " ++ table ++ ascii " where " ++ query

/-! ## Results -/

variable {n : Nat}

/-- An integer, as the unsigned type of `size` bytes holds it. -/
def fillInt (size : Nat) (value : Option Int) (result : Block UInt8 n) (len : Nat) :
    Option ((Block UInt8 n × Nat) × Bool) :=
  match value with
  | none   => some ((result, len), true)
  | some v => (writeBytes (leBytes size (v % 2 ^ (8 * size)).toNat) result len).map fun r => (r, false)

/-- The bytes go into a `dynamic_string` one by one. -/
def pushAll (bytes : List UInt8) : Option DynamicString := bytes.foldlM DynamicString.pushBack DynamicString.mk'

def fillText (value : Option (List UInt8)) (result : Block UInt8 n) (len : Nat) :
    Option ((Block UInt8 n × Nat) × Bool) :=
  match value with
  | none   => some ((result, len), true)
  | some r => (pushAll r).bind fun s => (fillString s result len).map fun r => (r, false)

/-- `fill_result`: the buffer and its length, and whether an exception is on its way. -/
def fillResult (cell : Cell) (result : Block UInt8 n) (len : Nat) : Option ((Block UInt8 n × Nat) × Bool) :=
  match cell.columnType with
  | .tinyint     => fillInt 1 cell.getInt result len
  | .smallint    => fillInt 2 cell.getInt result len
  | .integer     => fillInt 4 cell.getInt result len
  | .bigint      => fillInt 8 cell.getInt64 result len
  | .char        => fillText cell.getString result len
  | .varchar     => fillText cell.getString result len
  | .longvarchar => fillText cell.getString result len
  | .unknown _   => some ((result, len), false)

/-- The columns of a row, until one throws. -/
def fillRow : List Cell → Block UInt8 n → Nat → Option ((Block UInt8 n × Nat) × Bool)
  | [],            result, len => some ((result, len), false)
  | cell :: cells, result, len =>
    (fillResult cell result len).bind fun ((result, len), threw) =>
    if threw then some ((result, len), true) else fillRow cells result len

/-- `while (res->next())`. -/
def fillRows : List (Option (List Cell)) → Block UInt8 n → Nat → Option ((Block UInt8 n × Nat) × Bool)
  | [],                 result, len => some ((result, len), false)
  | none :: _,          result, len => some ((result, len), true)
  | some cells :: rows, result, len =>
    (fillRow cells result len).bind fun ((result, len), threw) =>
    if threw then some ((result, len), true) else fillRows rows result len

/-! ## Operations -/

/-- What an operation returns, and the statements it had the connector execute. -/
structure Done where
  status : Bool
  executed : List (List UInt8)

/-- `remove`: the handler of the exception logs it. -/
def remove (table query : List UInt8) (outcome : Outcome) : Option Done :=
  (sprintf sizeofSql (removeSql table query)).map fun sql =>
  match outcome with
  | .throws => ⟨true, [cstr sql.cells]⟩
  | .rows _ => ⟨true, [cstr sql.cells]⟩

/-- `insert`. -/
def insert (table fields values : List UInt8) (outcome : Outcome) : Option Done :=
  if fields.length < 1 then some ⟨false, []⟩
  else
    (sprintf sizeofSql (insertSql table fields values)).map fun sql =>
    match outcome with
    | .throws => ⟨true, [cstr sql.cells]⟩
    | .rows _ => ⟨true, [cstr sql.cells]⟩

/-- `update`. -/
def update (table fields query : List UInt8) (outcome : Outcome) : Option Done :=
  (sprintf sizeofSql (updateSql table fields query)).map fun sql =>
  match outcome with
  | .throws => ⟨false, [cstr sql.cells]⟩
  | .rows _ => ⟨false, [cstr sql.cells]⟩

/-- What `query` leaves in the caller's buffer. -/
structure Queried (n : Nat) extends Done where
  result : Block UInt8 n
  len : Nat

/-- `query`. -/
def query (table fields query : List UInt8) (result : Block UInt8 n) (len : Nat) (outcome : Outcome) :
    Option (Queried n) :=
  (sprintf sizeofSql (querySql table fields query)).bind fun sql =>
  match outcome with
  | .throws  => some ⟨⟨false, [cstr sql.cells]⟩, result, len⟩
  | .rows [] => some ⟨⟨true, [cstr sql.cells]⟩, result, len⟩
  | .rows rows =>
    (writeBytes (leBytes 2 rows.length) result len).bind fun (result, len) =>
    (fillRows rows result len).map fun ((result, len), threw) => ⟨⟨!threw, [cstr sql.cells]⟩, result, len⟩

/-! ## What is executed -/

theorem nulFree_removeSql {table query : List UInt8} (ht : NulFree table) (hq : NulFree query) :
    NulFree (removeSql table query) := by
  have hconst : NulFree (ascii "delete from ") ∧ NulFree (ascii " where ") := by decide
  unfold removeSql
  split <;> simp only [nulFree_append, hconst, ht, hq, and_self]

theorem nulFree_insertSql {table fields values : List UInt8} (ht : NulFree table) (hf : NulFree fields)
    (hv : NulFree values) : NulFree (insertSql table fields values) := by
  have hconst : NulFree (ascii "insert into ") ∧ NulFree (ascii " ") ∧ NulFree (ascii " values ") := by decide
  simp only [insertSql, nulFree_append, hconst, ht, hf, hv, and_self]

theorem nulFree_updateSql {table fields query : List UInt8} (ht : NulFree table) (hf : NulFree fields)
    (hq : NulFree query) : NulFree (updateSql table fields query) := by
  have hconst : NulFree (ascii "update ") ∧ NulFree (ascii " ") ∧ NulFree (ascii " where ") := by decide
  unfold updateSql
  split <;> simp only [nulFree_append, hconst, ht, hf, hq, and_self]

theorem nulFree_querySql {table fields query : List UInt8} (ht : NulFree table) (hf : NulFree fields)
    (hq : NulFree query) : NulFree (querySql table fields query) := by
  have hconst : NulFree (ascii "select * from ") ∧ NulFree (ascii "select ") ∧ NulFree (ascii " from ") ∧
      NulFree (ascii " where ") := by decide
  unfold querySql
  split <;> split <;> simp only [nulFree_append, hconst, ht, hf, hq, and_self]

variable {table fields query : List UInt8} {outcome : Outcome} {done : Done}

theorem remove_executed (ht : NulFree table) (hq : NulFree query) (h : remove table query outcome = some done) :
    done.executed = [removeSql table query] := by
  obtain ⟨sql, hsql, rfl⟩ := Option.map_eq_some_iff.mp h
  rw [← cstr_sprintf (nulFree_removeSql ht hq) hsql]
  cases outcome <;> rfl

theorem insert_executed {values : List UInt8} (ht : NulFree table) (hf : NulFree fields) (hv : NulFree values)
    (h : insert table fields values outcome = some done) :
    done.executed = if fields.length < 1 then [] else [insertSql table fields values] := by
  unfold insert at h
  split at h
  · rw [if_pos ‹_›]
    cases h
    rfl
  · rw [if_neg ‹_›]
    obtain ⟨sql, hsql, rfl⟩ := Option.map_eq_some_iff.mp h
    rw [← cstr_sprintf (nulFree_insertSql ht hf hv) hsql]
    cases outcome <;> rfl

theorem update_executed (ht : NulFree table) (hf : NulFree fields) (hq : NulFree query)
    (h : update table fields query outcome = some done) : done.executed = [updateSql table fields query] := by
  obtain ⟨sql, hsql, rfl⟩ := Option.map_eq_some_iff.mp h
  rw [← cstr_sprintf (nulFree_updateSql ht hf hq) hsql]
  cases outcome <;> rfl

theorem query_executed (ht : NulFree table) (hf : NulFree fields) (hq : NulFree query) {result : Block UInt8 n}
    {len : Nat} {queried : Queried n} (h : MysqlConn.query table fields query result len outcome = some queried) :
    queried.executed = [querySql table fields query] := by
  obtain ⟨sql, hsql, h⟩ := Option.bind_eq_some_iff.mp h
  rw [← cstr_sprintf (nulFree_querySql ht hf hq) hsql]
  split at h
  · cases h
    rfl
  · cases h
    rfl
  · obtain ⟨_, _, h⟩ := Option.bind_eq_some_iff.mp h
    obtain ⟨_, _, rfl⟩ := Option.map_eq_some_iff.mp h
    rfl

end MysqlConn

end Mowang
