import Mowang.Base.HttpMessage
import Mowang.HttpServer.RequestParser

/-!
# `HttpServer.Replies` — the replies and their texts

A reply is written as its buffers, one behind the other. The replies of the server have two headers, the length and the
type of the content.

## Contents
- `StatusType`, `statusString`, `stockText`, `extensionToType`.
- `Reply`, `toBuffers`, `stockReply`.
- `Reply.Described`, `written_eq` — the text as a status line, fields and the content.
-/

namespace Mowang

open HttpMessage

/-- `reply::status_type`. -/
inductive StatusType
  | ok | created | accepted | noContent
  | multipleChoices | movedPermanently | movedTemporarily | notModified
  | badRequest | unauthorized | forbidden | notFound
  | internalServerError | notImplemented | badGateway | serviceUnavailable
deriving DecidableEq

/-- `status_strings`. -/
def statusString : StatusType → List UInt8
  | .ok                  => ascii "HTTP/1.0 200 OK\r\n"
  | .created             => ascii "HTTP/1.0 201 Created\r\n"
  | .accepted            => ascii "HTTP/1.0 202 Accepted\r\n"
  | .noContent           => ascii "HTTP/1.0 204 No Content\r\n"
  | .multipleChoices     => ascii "HTTP/1.0 300 Multiple Choices\r\n"
  | .movedPermanently    => ascii "HTTP/1.0 301 Moved Permanently\r\n"
  | .movedTemporarily    => ascii "HTTP/1.0 302 Moved Temporarily\r\n"
  | .notModified         => ascii "HTTP/1.0 304 Not Modified\r\n"
  | .badRequest          => ascii "HTTP/1.0 400 Bad Request\r\n"
  | .unauthorized        => ascii "HTTP/1.0 401 Unauthorized\r\n"
  | .forbidden           => ascii "HTTP/1.0 403 Forbidden\r\n"
  | .notFound            => ascii "HTTP/1.0 404 Not Found\r\n"
  | .internalServerError => ascii "HTTP/1.0 500 Internal Server Error\r\n"
  | .notImplemented      => ascii "HTTP/1.0 501 Not Implemented\r\n"
  | .badGateway          => ascii "HTTP/1.0 502 Bad Gateway\r\n"
  | .serviceUnavailable  => ascii "HTTP/1.0 503 Service Unavailable\r\n"

/-- The page of a status. -/
def page (title heading : List UInt8) : List UInt8 :=
  ascii "<html><head><title>" ++ title ++ ascii "</title></head><body><h1>" ++ heading ++ ascii "</h1></body></html>"

/-- `stock_replies`. -/
def stockText : StatusType → List UInt8
  | .ok                  => []
  | .created             => page (ascii "Created") (ascii "201 Created")
  | .accepted            => page (ascii "Accepted") (ascii "202 Accepted")
  | .noContent           => page (ascii "No Content") (ascii "204 Content")
  | .multipleChoices     => page (ascii "Multiple Choices") (ascii "300 Multiple Choices")
  | .movedPermanently    => page (ascii "Moved Permanently") (ascii "301 Moved Permanently")
  | .movedTemporarily    => page (ascii "Moved Temporarily") (ascii "302 Moved Temporarily")
  | .notModified         => page (ascii "Not Modified") (ascii "304 Not Modified")
  | .badRequest          => page (ascii "Bad Request") (ascii "400 Bad Request")
  | .unauthorized        => page (ascii "Unauthorized") (ascii "401 Unauthorized")
  | .forbidden           => page (ascii "Forbidden") (ascii "403 Forbidden")
  | .notFound            => page (ascii "Not Found") (ascii "404 Not Found")
  | .internalServerError => page (ascii "Internal Server Error") (ascii "500 Internal Server Error")
  | .notImplemented      => page (ascii "Not Implemented") (ascii "501 Not Implemented")
  | .badGateway          => page (ascii "Bad Gateway") (ascii "502 Bad Gateway")
  | .serviceUnavailable  => page (ascii "Service Unavailable") (ascii "503 Service Unavailable")

/-- `mime_types::mappings`. -/
def mappings : List (List UInt8 × List UInt8) :=
  [(ascii "gif", ascii "image/gif"), (ascii "htm", ascii "text/html"), (ascii "html", ascii "text/html"),
    (ascii "jpg", ascii "image/jpeg"), (ascii "png", ascii "image/png")]

/-- `extension_to_type`. -/
def extensionToType (extension : List UInt8) : List UInt8 := (mappings.lookup extension).getD (ascii "text/plain")

/-- `reply`. -/
structure Reply where
  status : StatusType
  headers : List Header
  content : List UInt8
deriving DecidableEq

namespace Reply

/-- `reply::to_buffers`. -/
def toBuffers (r : Reply) : List (List UInt8) :=
  statusString r.status :: (r.headers.flatMap fun h => [h.name, [58, 32], h.value, crlf]) ++ [crlf, r.content]

/-- What is written of the buffers. -/
def written (r : Reply) : List UInt8 := r.toBuffers.flatten

/-- The two headers of a reply. -/
def contentHeaders (content type : List UInt8) : List Header :=
  [⟨ascii "Content-Length", decimal content.length⟩, ⟨ascii "Content-Type", type⟩]

/-- `reply::stock_reply`. -/
def stockReply (status : StatusType) : Reply :=
  ⟨status, contentHeaders (stockText status) (ascii "text/html"), stockText status⟩

end Reply

/-! ## The text of a reply -/

namespace StatusType

def code : StatusType → List UInt8
  | .ok                  => ascii "200"
  | .created             => ascii "201"
  | .accepted            => ascii "202"
  | .noContent           => ascii "204"
  | .multipleChoices     => ascii "300"
  | .movedPermanently    => ascii "301"
  | .movedTemporarily    => ascii "302"
  | .notModified         => ascii "304"
  | .badRequest          => ascii "400"
  | .unauthorized        => ascii "401"
  | .forbidden           => ascii "403"
  | .notFound            => ascii "404"
  | .internalServerError => ascii "500"
  | .notImplemented      => ascii "501"
  | .badGateway          => ascii "502"
  | .serviceUnavailable  => ascii "503"

/-- The status line of a status. -/
def statusLine (s : StatusType) : StatusLine where
  version := ascii "HTTP/1.0"
  code := s.code
  reason := ((statusString s).drop 13).dropLast.dropLast
  http := by decide
  token := by decide +kernel
  digits := by cases s <;> decide +kernel
  three := by cases s <;> rfl
  plain := by cases s <;> decide +kernel

theorem statusString_eq (s : StatusType) : statusString s = s.statusLine.bytes := by
  cases s <;> decide +kernel

end StatusType

/-- The types of contents. -/
def contentTypes : List (List UInt8) :=
  [ascii "image/gif", ascii "text/html", ascii "image/jpeg", ascii "image/png", ascii "text/plain"]

theorem extensionToType_mem (extension : List UInt8) : extensionToType extension ∈ contentTypes := by
  rw [extensionToType]
  cases h : mappings.lookup extension with
  | none => decide
  | some type =>
      have hmem : type ∈ mappings.map Prod.snd := by
        obtain ⟨l₁, l₂, hsplit, _⟩ := List.lookup_eq_some_iff.mp h
        rw [hsplit, List.map_append, List.map_cons]
        exact List.mem_append_right _ List.mem_cons_self
      rw [Option.getD_some]
      have hall : ∀ type ∈ mappings.map Prod.snd, type ∈ contentTypes := by decide
      exact hall type hmem

/-- A field that is only letters, digits and the like. -/
theorem plain_field {text : List UInt8} (h : ∀ c ∈ text, 32 ≤ c) : ∀ c ∈ text, c ≠ 13 ∧ c ≠ 10 ∧ c ≠ 0 := by
  intro c hc
  have hle := h c hc
  refine ⟨?_, ?_, ?_⟩ <;>
  · rintro rfl
    exact absurd hle (by decide)

def lengthLine (n : Nat) : HttpMessage.Line where
  text := ascii "Content-Length: " ++ decimal n
  nonempty := List.append_ne_nil_of_left_ne_nil (by decide) _
  plain := plain_field fun c hc => by
    have hall : ∀ c ∈ ascii "Content-Length: ", 32 ≤ c := by decide +kernel
    rcases List.mem_append.mp hc with hc | hc
    · exact hall c hc
    · exact UInt8.le_iff_toNat_le.mpr (Nat.le_trans (by decide) (mem_decimal hc).1)

/-- The line of a type of the table. -/
def typeLine (type : List UInt8) (htype : type ∈ contentTypes) : HttpMessage.Line where
  text := ascii "Content-Type: " ++ type
  nonempty := List.append_ne_nil_of_left_ne_nil (by decide) _
  plain := plain_field fun c hc => by
    revert c
    have hall : ∀ type ∈ contentTypes, ∀ c ∈ ascii "Content-Type: " ++ type, 32 ≤ c := by decide +kernel
    exact hall type htype

namespace Reply

/-- The two headers are those of the content. -/
def Described (r : Reply) : Prop := ∃ type ∈ contentTypes, r.headers = contentHeaders r.content type

theorem stockReply_described (status : StatusType) : (stockReply status).Described :=
  ⟨ascii "text/html", by decide, rfl⟩

/-- The text of a reply is a response, and the length that it names is that of the content. -/
theorem written_eq {r : Reply} {type : List UInt8} (htype : type ∈ contentTypes)
    (h : r.headers = contentHeaders r.content type) :
    r.written = r.status.statusLine.bytes ++
      (block [lengthLine r.content.length, typeLine type htype] ++ r.content) := by
  have hlength : ascii "Content-Length" ++ [58, 32] = ascii "Content-Length: " := rfl
  have hname : ascii "Content-Type" ++ [58, 32] = ascii "Content-Type: " := rfl
  simp only [written, toBuffers, h, contentHeaders, List.flatMap_cons, List.flatMap_nil, List.flatten_cons,
    List.flatten_nil, List.cons_append, List.nil_append, List.append_nil, block, lengthLine, typeLine,
    List.append_assoc, StatusType.statusString_eq]
  rw [← hlength, ← hname]
  simp only [List.append_assoc, List.cons_append, List.nil_append]

end Reply

end Mowang
