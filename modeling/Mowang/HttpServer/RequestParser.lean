import Mowang.Base.PropertyTree
import Mowang.Base.Recognizer
import Mathlib.Data.List.ModifyLast

/-!
# `HttpServer.RequestParser` — the parser of requests, one character at a time

`consume` is the switch over the twenty states. A `char` is signed, so a byte from 128 on is neither a character nor a
control character. No handler reads the version numbers, whose overflow is taken to wrap.

`back` of a vector without elements is undefined; here it leaves the vector as it is, and `parse_hasBack` says that
the parser never gets there.

## Contents
- `Header`, `Request`, `State`, `Parser`, `consume`, `reset`.
- `tokenChar`, `textChar`, the two classes of characters.
- `live`: every state can still come to `good`.
- `HasBack`, `parse_hasBack`.
-/

namespace Mowang

/-- `header`. -/
structure Header where
  name : List UInt8
  value : List UInt8
deriving DecidableEq

/-- `request`. -/
structure Request where
  method : List UInt8
  uri : List UInt8
  httpVersionMajor : Int
  httpVersionMinor : Int
  headers : List Header
deriving DecidableEq

namespace RequestParser

open Recognizer

/-- `request_parser::state`. -/
inductive State
  | methodStart | method | uri
  | httpVersionH | httpVersionT1 | httpVersionT2 | httpVersionP | httpVersionSlash
  | httpVersionMajorStart | httpVersionMajor | httpVersionMinorStart | httpVersionMinor
  | expectingNewline1 | headerLineStart | headerLws | headerName | spaceBeforeHeaderValue | headerValue
  | expectingNewline2 | expectingNewline3
deriving DecidableEq

/-- A `request_parser`, and the request it fills. -/
structure Parser where
  state : State
  req : Request
deriving DecidableEq

/-- A `char` as an `int`. -/
def toChar (c : UInt8) : Int := if c.toNat < 128 then c.toNat else c.toNat - 256

/-- `is_char`. -/
def isChar (c : Int) : Bool := 0 ≤ c && c ≤ 127

/-- `is_ctl`. -/
def isCtl (c : Int) : Bool := (0 ≤ c && c ≤ 31) || c == 127

/-- `is_tspecial`. -/
def isTspecial (c : Int) : Bool :=
  [40, 41, 60, 62, 64, 44, 59, 58, 92, 34, 47, 91, 93, 63, 61, 123, 125, 32, 9].contains c

/-- `is_digit`. -/
def isDigit (c : Int) : Bool := 48 ≤ c && c ≤ 57

/-- `version * 10 + input - '0'`. -/
def nextVersion (version : Int) (input : UInt8) : Int := (version * 10 + toChar input - 48).bmod (2 ^ 32)

/-- The last header, changed. -/
def Request.modifyBack (req : Request) (f : Header → Header) : Request :=
  { req with headers := req.headers.modifyLast f }

/-- `request_parser::consume`. -/
def consume (p : Parser) (input : UInt8) : ResultType × Parser :=
  let notToken := !isChar (toChar input) || isCtl (toChar input) || isTspecial (toChar input)
  match p.state with
  | .methodStart =>
    if notToken then (.bad, p) else (.indeterminate, ⟨.method, { p.req with method := p.req.method ++ [input] }⟩)
  | .method =>
    if input = 32 then (.indeterminate, { p with state := .uri })
    else if notToken then (.bad, p)
    else (.indeterminate, { p with req := { p.req with method := p.req.method ++ [input] } })
  | .uri =>
    if input = 32 then (.indeterminate, { p with state := .httpVersionH })
    else if isCtl (toChar input) then (.bad, p)
    else (.indeterminate, { p with req := { p.req with uri := p.req.uri ++ [input] } })
  | .httpVersionH =>
    if input = 72 then (.indeterminate, { p with state := .httpVersionT1 }) else (.bad, p)
  | .httpVersionT1 =>
    if input = 84 then (.indeterminate, { p with state := .httpVersionT2 }) else (.bad, p)
  | .httpVersionT2 =>
    if input = 84 then (.indeterminate, { p with state := .httpVersionP }) else (.bad, p)
  | .httpVersionP =>
    if input = 80 then (.indeterminate, { p with state := .httpVersionSlash }) else (.bad, p)
  | .httpVersionSlash =>
    if input = 47 then
      (.indeterminate, ⟨.httpVersionMajorStart, { p.req with httpVersionMajor := 0, httpVersionMinor := 0 }⟩)
    else (.bad, p)
  | .httpVersionMajorStart =>
    if isDigit (toChar input) then
      (.indeterminate,
        ⟨.httpVersionMajor, { p.req with httpVersionMajor := nextVersion p.req.httpVersionMajor input }⟩)
    else (.bad, p)
  | .httpVersionMajor =>
    if input = 46 then (.indeterminate, { p with state := .httpVersionMinorStart })
    else if isDigit (toChar input) then
      (.indeterminate, { p with req := { p.req with httpVersionMajor := nextVersion p.req.httpVersionMajor input } })
    else (.bad, p)
  | .httpVersionMinorStart =>
    if isDigit (toChar input) then
      (.indeterminate,
        ⟨.httpVersionMinor, { p.req with httpVersionMinor := nextVersion p.req.httpVersionMinor input }⟩)
    else (.bad, p)
  | .httpVersionMinor =>
    if input = 13 then (.indeterminate, { p with state := .expectingNewline1 })
    else if isDigit (toChar input) then
      (.indeterminate, { p with req := { p.req with httpVersionMinor := nextVersion p.req.httpVersionMinor input } })
    else (.bad, p)
  | .expectingNewline1 =>
    if input = 10 then (.indeterminate, { p with state := .headerLineStart }) else (.bad, p)
  | .headerLineStart =>
    if input = 13 then (.indeterminate, { p with state := .expectingNewline3 })
    else if p.req.headers ≠ [] ∧ (input = 32 ∨ input = 9) then (.indeterminate, { p with state := .headerLws })
    else if notToken then (.bad, p)
    else (.indeterminate, ⟨.headerName, { p.req with headers := p.req.headers ++ [⟨[input], []⟩] }⟩)
  | .headerLws =>
    if input = 13 then (.indeterminate, { p with state := .expectingNewline2 })
    else if input = 32 ∨ input = 9 then (.indeterminate, p)
    else if isCtl (toChar input) then (.bad, p)
    else (.indeterminate, ⟨.headerValue, Request.modifyBack p.req fun h => { h with value := h.value ++ [input] }⟩)
  | .headerName =>
    if input = 58 then (.indeterminate, { p with state := .spaceBeforeHeaderValue })
    else if notToken then (.bad, p)
    else (.indeterminate, { p with req := Request.modifyBack p.req fun h => { h with name := h.name ++ [input] } })
  | .spaceBeforeHeaderValue =>
    if input = 32 then (.indeterminate, { p with state := .headerValue }) else (.bad, p)
  | .headerValue =>
    if input = 13 then (.indeterminate, { p with state := .expectingNewline2 })
    else if isCtl (toChar input) then (.bad, p)
    else (.indeterminate, { p with req := Request.modifyBack p.req fun h => { h with value := h.value ++ [input] } })
  | .expectingNewline2 =>
    if input = 10 then (.indeterminate, { p with state := .headerLineStart }) else (.bad, p)
  | .expectingNewline3 => if input = 10 then (.good, p) else (.bad, p)

/-- `request_parser::reset`. -/
def reset (p : Parser) : Parser := { p with state := .methodStart }

/-- The members of a new connection; the numbers are not set. -/
def init (major minor : Int) : Parser := ⟨.methodStart, ⟨[], [], major, minor, []⟩⟩

/-! ## Characters -/

/-- The characters of a method and of a name. -/
def tokenChar (c : UInt8) : Bool := isChar (toChar c) && !isCtl (toChar c) && !isTspecial (toChar c)

/-- The characters of a URI and of a value. -/
def textChar (c : UInt8) : Bool := !isCtl (toChar c)

theorem notToken_eq (c : UInt8) :
    (!isChar (toChar c) || isCtl (toChar c) || isTspecial (toChar c)) = !tokenChar c := by
  simp only [tokenChar, Bool.not_and, Bool.not_not]

theorem toChar_of_isDigit {c : UInt8} (h : isDigit (toChar c) = true) :
    toChar c = c.toNat ∧ 48 ≤ c.toNat ∧ c.toNat ≤ 57 := by
  have hlt := c.toNat_lt
  obtain ⟨hlow, hhigh⟩ : 48 ≤ toChar c ∧ toChar c ≤ 57 := by simpa [isDigit] using h
  rw [toChar] at hlow hhigh ⊢
  split at hlow
  · rename_i hsmall
    rw [if_pos hsmall] at hhigh ⊢
    omega
  · omega

/-! ## Verdicts -/

/-- A character that leads on to the end of a request, and the state behind it. -/
def towardsEnd : State → UInt8 × State
  | .methodStart            => (71, .method)
  | .method                 => (32, .uri)
  | .uri                    => (32, .httpVersionH)
  | .httpVersionH           => (72, .httpVersionT1)
  | .httpVersionT1          => (84, .httpVersionT2)
  | .httpVersionT2          => (84, .httpVersionP)
  | .httpVersionP           => (80, .httpVersionSlash)
  | .httpVersionSlash       => (47, .httpVersionMajorStart)
  | .httpVersionMajorStart  => (49, .httpVersionMajor)
  | .httpVersionMajor       => (46, .httpVersionMinorStart)
  | .httpVersionMinorStart  => (48, .httpVersionMinor)
  | .httpVersionMinor       => (13, .expectingNewline1)
  | .headerName             => (58, .spaceBeforeHeaderValue)
  | .spaceBeforeHeaderValue => (32, .headerValue)
  | .headerLws              => (13, .expectingNewline2)
  | .headerValue            => (13, .expectingNewline2)
  | .expectingNewline1      => (10, .headerLineStart)
  | .expectingNewline2      => (10, .headerLineStart)
  | .headerLineStart        => (13, .expectingNewline3)
  | .expectingNewline3      => (10, .expectingNewline3)

/-- How many characters are left on that way. -/
def toEnd : State → Nat
  | .methodStart            => 14
  | .method                 => 13
  | .uri                    => 12
  | .httpVersionH           => 11
  | .httpVersionT1          => 10
  | .httpVersionT2          => 9
  | .httpVersionP           => 8
  | .httpVersionSlash       => 7
  | .httpVersionMajorStart  => 6
  | .httpVersionMajor       => 5
  | .httpVersionMinorStart  => 4
  | .httpVersionMinor       => 3
  | .headerName             => 5
  | .spaceBeforeHeaderValue => 4
  | .headerLws              => 3
  | .headerValue            => 3
  | .expectingNewline1      => 2
  | .expectingNewline2      => 2
  | .headerLineStart        => 1
  | .expectingNewline3      => 0

theorem consume_towardsEnd (p : Parser) : toEnd p.state = 0 ∧ consume p 10 = (.good, p) ∨
    ∃ p', consume p (towardsEnd p.state).1 = (.indeterminate, p') ∧ toEnd p'.state < toEnd p.state := by
  obtain ⟨state, req⟩ := p
  cases state
  case expectingNewline3 => exact Or.inl ⟨rfl, rfl⟩
  all_goals exact Or.inr ⟨_, rfl, Nat.lt_succ_self _⟩

/-- Every state can still come to `good`. -/
theorem exists_accepts (p : Parser) : ∃ word p', Accepts consume p p' word := by
  induction hn : toEnd p.state using Nat.strongRecOn generalizing p with
  | _ n ih =>
      rcases consume_towardsEnd p with ⟨_, hgood⟩ | ⟨p₁, hmore, hlt⟩
      · exact ⟨[10], p, parse_cons_of_verdict hgood ResultType.noConfusion []⟩
      · obtain ⟨word, p', hword⟩ := ih _ (hn ▸ hlt) p₁ rfl
        exact ⟨_ :: word, p', (parse_cons_of_more hmore word).trans hword⟩

theorem live (p : Parser) : Live consume p := fun _ p₁ _ => exists_accepts p₁

/-! ## The last header -/

/-- The states in which the last header is, or was, changed. -/
def State.inHeader : State → Bool
  | .headerLws | .headerName | .spaceBeforeHeaderValue | .headerValue | .expectingNewline2 => true
  | _                                                                                      => false

/-- `back` has an element to return. -/
def HasBack (p : Parser) : Prop := p.state.inHeader = true → p.req.headers ≠ []

theorem hasBack_of_not_inHeader {p : Parser} (h : p.state.inHeader = false) : HasBack p := fun htrue =>
  Bool.noConfusion (h.symm.trans htrue)

theorem modifyBack_headers_ne_nil {req : Request} (h : req.headers ≠ []) (f : Header → Header) :
    (Request.modifyBack req f).headers ≠ [] := by
  obtain ⟨hs, hd, hheaders⟩ := (List.eq_nil_or_concat' req.headers).resolve_left h
  rw [Request.modifyBack]
  show req.headers.modifyLast f ≠ []
  rw [hheaders, List.modifyLast_concat]
  exact List.append_ne_nil_of_right_ne_nil _ (List.cons_ne_nil _ _)

theorem consume_hasBack {p : Parser} (hp : HasBack p) (c : UInt8) : HasBack (consume p c).2 := by
  obtain ⟨state, req⟩ := p
  cases state
  case headerLineStart =>
    simp only [consume]
    split
    · exact hasBack_of_not_inHeader rfl
    · split
      · rename_i hblank
        exact fun _ => hblank.1
      · split
        · exact hasBack_of_not_inHeader rfl
        · exact fun _ => List.append_ne_nil_of_right_ne_nil _ (List.cons_ne_nil _ _)
  case headerLws =>
    have hreq : req.headers ≠ [] := hp rfl
    simp only [consume]
    repeat' split
    · exact fun _ => hreq
    · exact fun _ => hreq
    · exact fun _ => hreq
    · exact fun _ => modifyBack_headers_ne_nil hreq _
  case headerName =>
    have hreq : req.headers ≠ [] := hp rfl
    simp only [consume]
    repeat' split
    · exact fun _ => hreq
    · exact fun _ => hreq
    · exact fun _ => modifyBack_headers_ne_nil hreq _
  case spaceBeforeHeaderValue =>
    have hreq : req.headers ≠ [] := hp rfl
    simp only [consume]
    split
    · exact fun _ => hreq
    · exact fun _ => hreq
  case headerValue =>
    have hreq : req.headers ≠ [] := hp rfl
    simp only [consume]
    repeat' split
    · exact fun _ => hreq
    · exact fun _ => hreq
    · exact fun _ => modifyBack_headers_ne_nil hreq _
  case expectingNewline2 =>
    have hreq : req.headers ≠ [] := hp rfl
    simp only [consume]
    split
    · exact fun _ => hreq
    · exact fun _ => hreq
  -- the other states come before the first header
  all_goals
    simp only [consume]
    repeat' split
    all_goals exact hasBack_of_not_inHeader rfl

theorem parse_hasBack {p : Parser} (hp : HasBack p) (input : List UInt8) : HasBack (parse consume p input).2.1 := by
  induction input generalizing p with
  | nil => exact hp
  | cons c input ih =>
      rw [parse]
      split
      · exact ih (consume_hasBack hp c)
      · exact consume_hasBack hp c

end RequestParser

end Mowang
