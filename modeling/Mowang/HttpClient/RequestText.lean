import Mowang.HttpServer.RequestGrammar
import Mowang.Share.StringCommon

/-!
# `HttpClient.RequestText` — the request that `write_request` sends

The request line and the host line are put together by `gx_to_string`, which keeps 2046 characters. A request line that
is longer loses its end, and with it the line end, so that the server sees the host line as a part of it.

The path and the body are copied as C strings, but the length is that of the body.

## Contents
- `requestText`.
- `ClientRequest`, `ClientRequest.message` — what is to be sent, as the server understands it.
- `requestText_eq`, where the lines fit; `bad_of_colon`, `requestText_cut`, where the request line does not.
- `sentRequest`, `Expressible`, and `expressible_of_good`, by the length of a message.
- `requestText_iff`.
-/

namespace Mowang

namespace HttpProxy

open Recognizer RequestParser HttpMessage

/-- `write_request`. -/
def requestText (opt host path body : List UInt8) (port : Int) : Option (List UInt8) :=
  (gxToString "%s %s HTTP/1.1\r\n" [.str (cstr opt), .str (cstr path)]).bind fun s1 =>
  (gxToString "Host: %s:%d\r\n" [.str (cstr host), .int port]).map fun s2 =>
  s1 ++ (s2 ++ (ascii "Accept-Encoding: *\r\n" ++ (ascii "Content-Length: " ++ (decimal body.length ++ (crlf ++
    (ascii "Content-Type: application/x-www-form-urlencoded\r\n" ++
      (ascii "Connection: close\r\n\r\n" ++ cstr body)))))))

/-! ## What is to be sent -/

/-- A request that a client makes: the method is a token, the path and the host are texts. -/
structure ClientRequest where
  opt : List UInt8
  host : List UInt8
  path : List UInt8
  body : List UInt8
  port : Int
  opt_ne_nil : opt ≠ []
  opt_token : ∀ c ∈ opt, tokenChar c = true
  path_text : ∀ c ∈ path, c ≠ 32 ∧ textChar c = true
  host_text : ∀ c ∈ host, textChar c = true
  /-- The host line is not cut. -/
  host_fits : (host ++ decimalInt port).length ≤ 2037

namespace ClientRequest

variable (r : ClientRequest)

def text? : Option (List UInt8) := requestText r.opt r.host r.path r.body r.port

/-- The first line. -/
def requestLine : List UInt8 := r.opt ++ 32 :: (r.path ++ ascii " HTTP/1.1\r\n")

/-- What follows it. -/
def rest : List UInt8 :=
  ascii "Host: " ++ (r.host ++ 58 :: (decimalInt r.port ++ (crlf ++ (ascii "Accept-Encoding: *\r\n" ++
    (ascii "Content-Length: " ++ (decimal r.body.length ++ (crlf ++
      (ascii "Content-Type: application/x-www-form-urlencoded\r\n" ++
        (ascii "Connection: close\r\n\r\n" ++ cstr r.body)))))))))

/-- The headers, as the server gets them. -/
def headers : List Header :=
  [⟨ascii "Host", r.host ++ 58 :: decimalInt r.port⟩, ⟨ascii "Accept-Encoding", ascii "*"⟩,
    ⟨ascii "Content-Length", decimal r.body.length⟩,
    ⟨ascii "Content-Type", ascii "application/x-www-form-urlencoded"⟩, ⟨ascii "Connection", ascii "close"⟩]

/-- The request, as the server gets it. -/
def request : Request := ⟨r.opt, r.path, 1, 1, r.headers⟩

end ClientRequest

theorem textChar_digit {c : UInt8} (h : 48 ≤ c.toNat ∧ c.toNat ≤ 57) : textChar c = true := by
  have hdigit : ∀ k < 10, textChar (UInt8.ofNat (48 + k)) = true := by decide +kernel
  have hrow := hdigit (c.toNat - 48) (by omega)
  rwa [Nat.add_sub_cancel' h.1, UInt8.ofNat_toNat] at hrow

theorem textChar_decimal {v : Nat} {c : UInt8} (h : c ∈ decimal v) : textChar c = true := textChar_digit (mem_decimal h)

theorem textChar_decimalInt {v : Int} {c : UInt8} (h : c ∈ decimalInt v) : textChar c = true := by
  rw [decimalInt] at h
  split at h
  · rcases List.mem_cons.mp h with rfl | h
    · decide
    · exact textChar_decimal h
  · exact textChar_decimal h

namespace ClientRequest

variable (r : ClientRequest)

theorem host_value_text : ∀ c ∈ r.host ++ 58 :: decimalInt r.port, textChar c = true := by
  intro c hc
  rcases List.mem_append.mp hc with hc | hc
  · exact r.host_text c hc
  · rcases List.mem_cons.mp hc with rfl | hc
    · decide
    · exact textChar_decimalInt hc

end ClientRequest

theorem one_digits : ∀ c ∈ ascii "1", isDigit (toChar c) = true := by decide +kernel

/-- The fixed names and values of the headers. -/
theorem header_token : ∀ name ∈ [ascii "Host", ascii "Accept-Encoding", ascii "Content-Length", ascii "Content-Type",
    ascii "Connection"], name ≠ [] ∧ ∀ c ∈ name, tokenChar c = true := by decide +kernel

theorem header_text : ∀ value ∈ [ascii "*", ascii "application/x-www-form-urlencoded", ascii "close"],
    ∀ c ∈ value, textChar c = true := by decide +kernel

namespace ClientRequest

variable (r : ClientRequest)

/-- A field with a name of the list. -/
def field {name value : List UInt8} (hname : name ≠ [] ∧ ∀ c ∈ name, tokenChar c = true)
    (hvalue : ∀ c ∈ value, textChar c = true) : RequestParser.Line := .field ⟨name, value, hname.1, hname.2, hvalue⟩

/-- The request as a message of the grammar. -/
def message : Message where
  method := r.opt
  uri := r.path
  major := ascii "1"
  minor := ascii "1"
  lines := [
    field (header_token (ascii "Host") (by simp)) r.host_value_text,
    field (header_token (ascii "Accept-Encoding") (by simp)) (header_text (ascii "*") (by simp)),
    field (header_token (ascii "Content-Length") (by simp)) (fun _ => textChar_decimal (v := r.body.length)),
    field (header_token (ascii "Content-Type") (by simp))
      (header_text (ascii "application/x-www-form-urlencoded") (by simp)),
    field (header_token (ascii "Connection") (by simp)) (header_text (ascii "close") (by simp))]
  method_ne_nil := r.opt_ne_nil
  method_token := r.opt_token
  uri_text := r.path_text
  major_ne_nil := List.cons_ne_nil _ _
  major_digits := one_digits
  minor_ne_nil := List.cons_ne_nil _ _
  minor_digits := one_digits
  begins := by
    rintro l ⟨⟩
    exact trivial

theorem message_request : r.message.request = r.request := by
  have hone : version (ascii "1") = 1 := by decide
  show (⟨r.opt, r.path, version (ascii "1"), version (ascii "1"), r.headers⟩ : Request) = _
  rw [hone]
  rfl

theorem message_bytes : r.message.bytes ++ cstr r.body = r.requestLine ++ r.rest := by
  have hversion : ascii " HTTP/1.1\r\n" = 32 :: (ascii "HTTP/" ++ (ascii "1" ++ 46 :: (ascii "1" ++ crlf))) := rfl
  have hhost : ascii "Host: " = ascii "Host" ++ [58, 32] := rfl
  have hencoding : ascii "Accept-Encoding: *\r\n" = ascii "Accept-Encoding" ++ 58 :: 32 :: (ascii "*" ++ crlf) := rfl
  have hlength : ascii "Content-Length: " = ascii "Content-Length" ++ [58, 32] := rfl
  have htype : ascii "Content-Type: application/x-www-form-urlencoded\r\n" =
      ascii "Content-Type" ++ 58 :: 32 :: (ascii "application/x-www-form-urlencoded" ++ crlf) := rfl
  have hconnection : ascii "Connection: close\r\n\r\n" =
      ascii "Connection" ++ 58 :: 32 :: (ascii "close" ++ (crlf ++ crlf)) := rfl
  simp only [Message.bytes, message, requestLine, rest, hversion, hhost, hencoding, hlength, htype, hconnection,
    field, List.flatMap_cons, List.flatMap_nil, RequestParser.Line.bytes, List.append_assoc, List.cons_append,
    List.nil_append]

end ClientRequest

theorem nulFree_of_text {s : List UInt8} (h : ∀ c ∈ s, textChar c = true) : NulFree s := fun hmem =>
  absurd (h 0 hmem) (by decide)

theorem printf_line (a b : List UInt8) :
    printf "%s %s HTTP/1.1\r\n".toList [.str a, .str b] = some (a ++ 32 :: (b ++ ascii " HTTP/1.1\r\n")) := rfl

theorem printf_host (a : List UInt8) (port : Int) :
    printf "Host: %s:%d\r\n".toList [.str a, .int port] =
      some (ascii "Host: " ++ (a ++ 58 :: (decimalInt port ++ crlf))) := rfl

theorem nulFree_of_token {s : List UInt8} (h : ∀ c ∈ s, tokenChar c = true) : NulFree s := fun hmem =>
  absurd (h 0 hmem) (by decide)

/-- What is sent. -/
theorem requestText_eq (r : ClientRequest) : r.text? = some (r.requestLine.take 2046 ++ r.rest) := by
  have hopt := cstr_eq_self (nulFree_of_token r.opt_token)
  have hpath := cstr_eq_self (nulFree_of_text fun c hc => (r.path_text c hc).2)
  have hhost := cstr_eq_self (nulFree_of_text r.host_text)
  have hline : gxToString "%s %s HTTP/1.1\r\n" [.str r.opt, .str r.path] = some (r.requestLine.take 2046) := by
    rw [gxToString, printf_line]
    rfl
  have hfits : (ascii "Host: " ++ (r.host ++ 58 :: (decimalInt r.port ++ crlf))).length ≤ 2046 := by
    have hle := r.host_fits
    have hsix : (ascii "Host: ").length = 6 := rfl
    have htwo : crlf.length = 2 := rfl
    simp only [List.length_append, List.length_cons, hsix, htwo] at hle ⊢
    omega
  rw [ClientRequest.text?, requestText, hopt, hpath, hhost, hline, Option.bind_some,
    gxToString_eq_some (printf_host r.host r.port) hfits, Option.map_some]
  simp only [ClientRequest.rest, List.append_assoc, List.cons_append]

/-! ## A request line that is cut -/

/-- The states of the version, up to its line end. -/
def inVersion : State → Bool
  | .httpVersionH | .httpVersionT1 | .httpVersionT2 | .httpVersionP | .httpVersionSlash | .httpVersionMajorStart
  | .httpVersionMajor | .httpVersionMinorStart | .httpVersionMinor => true
  | _                                                              => false

/-- The version goes on, or is refused. -/
theorem consume_inVersion {p : Parser} (hp : inVersion p.state = true) {c : UInt8} (hc : c ≠ 13) :
    (consume p c).1 = .bad ∨ ∃ p', consume p c = (.indeterminate, p') ∧ inVersion p'.state = true := by
  obtain ⟨state, req⟩ := p
  cases state
  case httpVersionMajor =>
    simp only [consume]
    split
    · exact Or.inr ⟨_, rfl, rfl⟩
    · split
      · exact Or.inr ⟨_, rfl, rfl⟩
      · exact Or.inl rfl
  case httpVersionMinor =>
    simp only [consume, if_neg hc]
    split
    · exact Or.inr ⟨_, rfl, rfl⟩
    · exact Or.inl rfl
  case httpVersionH | httpVersionT1 | httpVersionT2 | httpVersionP | httpVersionSlash | httpVersionMajorStart |
      httpVersionMinorStart =>
    simp only [consume]
    split
    · exact Or.inr ⟨_, rfl, rfl⟩
    · exact Or.inl rfl
  all_goals cases hp

theorem parse_inVersion {p : Parser} (hp : inVersion p.state = true) {w : List UInt8} (hw : (13 : UInt8) ∉ w) :
    (∀ more, (parse consume p (w ++ more)).1 = .bad) ∨ ∃ p', Passes consume p p' w ∧ inVersion p'.state = true := by
  induction w generalizing p with
  | nil => exact Or.inr ⟨p, Passes.nil p, hp⟩
  | cons c w ih =>
      obtain ⟨hc, hw⟩ := not_or.mp (mt List.mem_cons.mpr hw)
      rcases consume_inVersion hp (Ne.symm hc) with hbad | ⟨p₁, hmore, hp₁⟩
      · exact Or.inl fun more => bad_of_passes (Passes.nil p) hbad (w ++ more)
      · rcases ih hp₁ hw with hbad | ⟨p', hpasses, hp'⟩
        · refine Or.inl fun more => ?_
          rw [List.cons_append, parse_cons_of_more hmore]
          exact hbad more
        · exact Or.inr ⟨p', Passes.cons hmore hpasses, hp'⟩

/-- No version has a colon. -/
theorem bad_of_colon {p : Parser} (hp : inVersion p.state = true) {w : List UInt8} (hw : (13 : UInt8) ∉ w)
    (more : List UInt8) : (parse consume p (w ++ 58 :: more)).1 = .bad := by
  rcases parse_inVersion hp hw with hbad | ⟨⟨state, req⟩, hpasses, hp'⟩
  · exact hbad _
  · refine bad_of_passes hpasses ?_ more
    cases state
    case httpVersionH | httpVersionT1 | httpVersionT2 | httpVersionP | httpVersionSlash | httpVersionMajorStart |
      httpVersionMajor | httpVersionMinorStart | httpVersionMinor => rfl
    all_goals cases hp'

/-- Behind a carriage return the line ends. -/
theorem bad_of_cr {p : Parser} (hp : inVersion p.state = true) {w : List UInt8} (hw : (13 : UInt8) ∉ w) {c : UInt8}
    (hc : c ≠ 10) (more : List UInt8) : (parse consume p (w ++ 13 :: c :: more)).1 = .bad := by
  rcases parse_inVersion hp hw with hbad | ⟨⟨state, req⟩, hpasses, hp'⟩
  · exact hbad _
  · cases state
    case httpVersionMinor =>
      have hcr : Passes consume ⟨.httpVersionMinor, req⟩ ⟨.expectingNewline1, req⟩ [13] :=
        Passes.cons rfl (Passes.nil _)
      have hbad := bad_of_passes (hpasses.append hcr) (c := c) (by simp only [consume, if_neg hc]) more
      rwa [List.append_assoc] at hbad
    case httpVersionH | httpVersionT1 | httpVersionT2 | httpVersionP | httpVersionSlash | httpVersionMajorStart |
      httpVersionMajor | httpVersionMinorStart => exact bad_of_passes hpasses rfl (c :: more)
    all_goals cases hp'

theorem text_ne_cr {c : UInt8} (h : textChar c = true) : c ≠ 13 := textChar_ne h (by decide)

/-- A method up to where it is cut. -/
theorem method_during {w : List UInt8} (hne : w ≠ []) (hw : ∀ c ∈ w, tokenChar c = true) (major minor : Int) :
    Passes consume (RequestParser.init major minor) ⟨.method, ⟨w, [], major, minor, []⟩⟩ w := by
  obtain ⟨c, w, rfl⟩ := List.exists_cons_of_ne_nil hne
  obtain ⟨hc, hw⟩ := List.forall_mem_cons.mp hw
  have htail := (method_loop (RequestParser.init major minor).req).during (v := [c]) (w := w)
    fun b hb => ⟨tokenChar_ne (hw b hb) (by decide), hw b hb⟩
  exact Passes.cons (consume_method hc _) htail

/-- The method, and a URI with the blank behind it. -/
theorem uri_passes {opt uri : List UInt8} (hne : opt ≠ []) (hopt : ∀ c ∈ opt, tokenChar c = true)
    (huri : ∀ c ∈ uri, c ≠ 32 ∧ textChar c = true) (major minor : Int) :
    Passes consume (RequestParser.init major minor) ⟨.httpVersionH, ⟨opt, uri, major, minor, []⟩⟩
      (opt ++ ([32] ++ (uri ++ [32]))) := by
  have hblank : Passes consume ⟨.method, ⟨opt, [], major, minor, []⟩⟩ ⟨.uri, ⟨opt, [], major, minor, []⟩⟩ [32] :=
    Passes.cons rfl (Passes.nil _)
  have hrest := (uri_loop ⟨opt, [], major, minor, []⟩).passes (v := []) (w := uri) huri
  exact (method_during hne hopt major minor).append (hblank.append hrest)

/-- **A request line that is cut** is no request line. -/
theorem requestText_cut (r : ClientRequest) (h : 2046 < r.requestLine.length) (major minor : Int) :
    (parse consume (RequestParser.init major minor) (r.requestLine.take 2046 ++ r.rest)).1 = .bad := by
  have hversion : ascii " HTTP/1.1\r\n" = 32 :: (ascii "HTTP/1.1" ++ crlf) := rfl
  have hlen : r.requestLine.length = r.opt.length + 1 + r.path.length + 11 := by
    rw [ClientRequest.requestLine, List.length_append, List.length_cons, List.length_append]
    show _ + (_ + 11 + 1) = _
    omega
  obtain ⟨tail, hrest⟩ : ∃ tail, r.rest = ascii "Host" ++ 58 :: 32 :: (r.host ++ 58 :: tail) := ⟨_, rfl⟩
  rw [hrest]
  by_cases hmethod : 2046 ≤ r.opt.length
  · -- the line is cut inside the method, and the colon behind `Host` is no character of one
    have hcut : r.requestLine.take 2046 = r.opt.take 2046 := List.take_append_of_le_length hmethod
    have htoken : ∀ c ∈ r.opt.take 2046 ++ ascii "Host", tokenChar c = true := by
      intro c hc
      have hall : ∀ c ∈ ascii "Host", tokenChar c = true := by decide +kernel
      rcases List.mem_append.mp hc with hc | hc
      · exact r.opt_token c (List.mem_of_mem_take hc)
      · exact hall c hc
    have hpasses := method_during (List.append_ne_nil_of_right_ne_nil _ (by decide)) htoken major minor
    rw [hcut, ← List.append_assoc]
    exact bad_of_passes hpasses rfl _
  have hopt : r.requestLine.take 2046 =
      r.opt ++ 32 :: (r.path ++ 32 :: (ascii "HTTP/1.1" ++ crlf)).take (2045 - r.opt.length) := by
    rw [ClientRequest.requestLine, hversion, List.take_append, List.take_of_length_le (by omega),
      show 2046 - r.opt.length = (2045 - r.opt.length) + 1 by omega, List.take_succ_cons]
  by_cases hpath : 2045 - r.opt.length ≤ r.path.length
  · -- inside the path, which goes on with `Host:`; the host is no version
    have hcut : (r.path ++ 32 :: (ascii "HTTP/1.1" ++ crlf)).take (2045 - r.opt.length) =
        r.path.take (2045 - r.opt.length) := List.take_append_of_le_length hpath
    have htext : ∀ c ∈ r.path.take (2045 - r.opt.length) ++ ascii "Host:", c ≠ 32 ∧ textChar c = true := by
      intro c hc
      have hall : ∀ c ∈ ascii "Host:", c ≠ 32 ∧ textChar c = true := by decide +kernel
      rcases List.mem_append.mp hc with hc | hc
      · exact r.path_text c (List.mem_of_mem_take hc)
      · exact hall c hc
    have hpasses := uri_passes r.opt_ne_nil r.opt_token htext major minor
    have hbytes : r.requestLine.take 2046 ++ (ascii "Host" ++ 58 :: 32 :: (r.host ++ 58 :: tail)) =
        r.opt ++ ([32] ++ (r.path.take (2045 - r.opt.length) ++ ascii "Host:" ++ [32])) ++ (r.host ++ 58 :: tail) := by
      have hcolon : ascii "Host:" = ascii "Host" ++ [58] := rfl
      rw [hopt, hcut, hcolon]
      simp only [List.append_assoc, List.cons_append, List.nil_append]
    rw [hbytes, parse_of_passes hpasses]
    exact bad_of_colon rfl (fun hmem => text_ne_cr (r.host_text 13 hmem) rfl) tail
  · -- inside the version, or inside the line end
    have hpasses := uri_passes r.opt_ne_nil r.opt_token r.path_text major minor
    have hbytes : r.requestLine.take 2046 ++ (ascii "Host" ++ 58 :: 32 :: (r.host ++ 58 :: tail)) =
        r.opt ++ ([32] ++ (r.path ++ [32])) ++ ((ascii "HTTP/1.1" ++ crlf).take (2044 - r.opt.length - r.path.length) ++
          (ascii "Host" ++ 58 :: 32 :: (r.host ++ 58 :: tail))) := by
      rw [hopt, List.take_append, List.take_of_length_le (by omega),
        show 2045 - r.opt.length - r.path.length = (2044 - r.opt.length - r.path.length) + 1 by omega,
        List.take_succ_cons]
      simp only [List.append_assoc, List.cons_append, List.nil_append]
    rw [hbytes, parse_of_passes hpasses]
    generalize hj : 2044 - r.opt.length - r.path.length = j
    by_cases hcr : j ≤ 8
    · have hplain : (13 : UInt8) ∉ (ascii "HTTP/1.1").take j ++ ascii "Host" := fun hmem => by
        rcases List.mem_append.mp hmem with hmem | hmem
        · exact absurd (List.mem_of_mem_take hmem) (by decide)
        · exact absurd hmem (by decide)
      rw [List.take_append_of_le_length hcr, ← List.append_assoc]
      exact bad_of_colon rfl hplain _
    · obtain rfl : j = 9 := by omega
      exact bad_of_cr rfl (w := ascii "HTTP/1.1") (by decide) (by decide) _

/-! ## What the server gets -/

/-- The bytes of a header line that is not folded. -/
def lineLength (h : Header) : Nat := h.name.length + h.value.length + 4

theorem addTo_length (headers : List Header) (l : RequestParser.Line) :
    ((l.addTo headers).map lineLength).sum ≤ (headers.map lineLength).sum + l.bytes.length := by
  have hcrlf : crlf.length = 2 := rfl
  cases l with
  | field f =>
      simp only [RequestParser.Line.addTo, RequestParser.Line.bytes, List.map_append, List.map_cons, List.map_nil,
        List.sum_append, List.sum_cons, List.sum_nil, lineLength, List.length_append, List.length_cons, hcrlf]
      omega
  | fold f =>
      rcases List.eq_nil_or_concat' headers with rfl | ⟨hs, h, rfl⟩
      · exact Nat.zero_le _
      · simp only [RequestParser.Line.addTo, RequestParser.Line.bytes, List.modifyLast_concat, List.map_append,
          List.map_cons, List.map_nil, List.sum_append, List.sum_cons, List.sum_nil, lineLength, List.length_append,
          hcrlf]
        omega

/-- Folded lines only add to the bytes. -/
theorem foldl_addTo_length (lines : List RequestParser.Line) (headers : List Header) :
    ((lines.foldl RequestParser.Line.addTo headers).map lineLength).sum ≤
      (headers.map lineLength).sum + (lines.flatMap RequestParser.Line.bytes).length := by
  induction lines generalizing headers with
  | nil => exact Nat.le_refl _
  | cons l lines ih =>
      have hhead := addTo_length headers l
      have htail := ih (l.addTo headers)
      rw [List.foldl_cons, List.flatMap_cons, List.length_append]
      omega

theorem addTo_text {headers : List Header} (hheaders : ∀ h ∈ headers, ∀ c ∈ h.value, textChar c = true)
    (l : RequestParser.Line) : ∀ h ∈ l.addTo headers, ∀ c ∈ h.value, textChar c = true := by
  cases l with
  | field f =>
      exact List.forall_mem_append.mpr ⟨hheaders, List.forall_mem_singleton.mpr f.text⟩
  | fold f =>
      rcases List.eq_nil_or_concat' headers with rfl | ⟨hs, h, rfl⟩
      · exact List.forall_mem_nil _
      · obtain ⟨hhs, hh⟩ := List.forall_mem_append.mp hheaders
        rw [RequestParser.Line.addTo, List.modifyLast_concat]
        refine List.forall_mem_append.mpr ⟨hhs, List.forall_mem_singleton.mpr ?_⟩
        exact List.forall_mem_append.mpr ⟨List.forall_mem_singleton.mp hh, f.text⟩

/-- The values of a message are texts. -/
theorem foldl_addTo_text (lines : List RequestParser.Line) {headers : List Header}
    (hheaders : ∀ h ∈ headers, ∀ c ∈ h.value, textChar c = true) :
    ∀ h ∈ lines.foldl RequestParser.Line.addTo headers, ∀ c ∈ h.value, textChar c = true := by
  induction lines generalizing headers with
  | nil => exact hheaders
  | cons l lines ih => exact ih (addTo_text hheaders l)

/-- A message is no shorter than what it says. -/
theorem message_length (m : Message) :
    m.method.length + m.uri.length + 14 + (m.request.headers.map lineLength).sum ≤ m.bytes.length := by
  have hlines := foldl_addTo_length m.lines []
  have hmajor := List.length_pos_of_ne_nil m.major_ne_nil
  have hminor := List.length_pos_of_ne_nil m.minor_ne_nil
  have hcrlf : crlf.length = 2 := rfl
  have hhttp : (ascii "HTTP/").length = 5 := rfl
  have hheaders : m.request.headers = m.lines.foldl RequestParser.Line.addTo [] := rfl
  rw [List.map_nil, List.sum_nil] at hlines
  simp only [Message.bytes, List.length_append, List.length_cons, hcrlf, hhttp, hheaders]
  omega

section Sent

variable (opt host path body : List UInt8) (port : Int)

/-- The request that the arguments ask for. -/
def sentRequest : Request := ⟨cstr opt, cstr path, 1, 1,
  [⟨ascii "Host", cstr host ++ 58 :: decimalInt port⟩, ⟨ascii "Accept-Encoding", ascii "*"⟩,
    ⟨ascii "Content-Length", decimal body.length⟩,
    ⟨ascii "Content-Type", ascii "application/x-www-form-urlencoded"⟩, ⟨ascii "Connection", ascii "close"⟩]⟩

/-- The method is a token, the path and the host are texts, and the host line is not cut. -/
structure Expressible : Prop where
  opt_ne_nil : cstr opt ≠ []
  opt_token : ∀ c ∈ cstr opt, tokenChar c = true
  path_text : ∀ c ∈ cstr path, c ≠ 32 ∧ textChar c = true
  host_text : ∀ c ∈ cstr host, textChar c = true
  host_fits : (cstr host ++ decimalInt port).length ≤ 2037

variable {opt host path port}

def Expressible.clientRequest (h : Expressible opt host path port) : ClientRequest :=
  ⟨cstr opt, cstr host, cstr path, body, port, h.opt_ne_nil, h.opt_token, h.path_text, h.host_text, h.host_fits⟩

variable {body}

theorem Expressible.text? (h : Expressible opt host path port) :
    (h.clientRequest body).text? = requestText opt host path body port := by
  have hcstr : ∀ s, cstr (cstr s) = cstr s := fun s => cstr_eq_self (nulFree_cstr s)
  rw [ClientRequest.text?, requestText, requestText]
  simp only [Expressible.clientRequest, hcstr]

/-- The length of the first line, where it is not cut. -/
theorem Expressible.requestLine_length (h : Expressible opt host path port) :
    (h.clientRequest body).requestLine.length = (cstr opt).length + (cstr path).length + 12 := by
  have htail : (ascii " HTTP/1.1\r\n").length = 11 := rfl
  simp only [ClientRequest.requestLine, Expressible.clientRequest, List.length_append, List.length_cons, htail]
  omega

/-- The text is no longer than its lines and 2046 characters for each of the first two. -/
theorem requestText_length {text : List UInt8} (h : requestText opt host path body port = some text) :
    text.length ≤ min 2046 ((cstr opt).length + (cstr path).length + 12) +
      min 2046 ((cstr host ++ decimalInt port).length + 9) + (decimal body.length).length + (cstr body).length + 108 := by
  have hline : gxToString "%s %s HTTP/1.1\r\n" [.str (cstr opt), .str (cstr path)] =
      some ((cstr opt ++ 32 :: (cstr path ++ ascii " HTTP/1.1\r\n")).take 2046) := rfl
  have hhost : gxToString "Host: %s:%d\r\n" [.str (cstr host), .int port] =
      some ((ascii "Host: " ++ (cstr host ++ 58 :: (decimalInt port ++ crlf))).take 2046) := rfl
  rw [requestText, hline, hhost, Option.bind_some, Option.map_some] at h
  cases h
  have hlens : (ascii " HTTP/1.1\r\n").length = 11 ∧ (ascii "Host: ").length = 6 ∧ crlf.length = 2 ∧
      (ascii "Accept-Encoding: *\r\n").length = 20 ∧ (ascii "Content-Length: ").length = 16 ∧
      (ascii "Content-Type: application/x-www-form-urlencoded\r\n").length = 49 ∧
      (ascii "Connection: close\r\n\r\n").length = 21 := by decide
  simp only [List.length_append, List.length_take, List.length_cons, hlens]
  omega

/-- **The server has the request** only if it can be expressed, and neither line is cut. -/
theorem expressible_of_good {text : List UInt8} {major minor : Int}
    (htext : requestText opt host path body port = some text)
    (h : parse consume (RequestParser.init major minor) text =
      (.good, ⟨.expectingNewline3, sentRequest opt host path body port⟩, cstr body)) :
    Expressible opt host path port ∧ (cstr opt).length + (cstr path).length ≤ 2034 := by
  obtain ⟨m, hbytes, hrequest⟩ := ((parse_spec major minor text).1 _ _).mp h
  have hrequest : sentRequest opt host path body port = m.request := (Parser.mk.inj hrequest).2
  have hle := requestText_length htext
  have hlength := message_length m
  have hmethod : m.method = cstr opt := congrArg Request.method hrequest.symm
  have huri : m.uri = cstr path := congrArg Request.uri hrequest.symm
  have hlens : (ascii "Host").length = 4 ∧ (ascii "Accept-Encoding").length = 15 ∧ (ascii "*").length = 1 ∧
      (ascii "Content-Length").length = 14 ∧ (ascii "Content-Type").length = 12 ∧
      (ascii "application/x-www-form-urlencoded").length = 33 ∧ (ascii "Connection").length = 10 ∧
      (ascii "close").length = 5 := by decide
  rw [hmethod, huri, ← hrequest] at hlength
  rw [hbytes] at hle
  simp only [sentRequest, List.map_cons, List.map_nil, List.sum_cons, List.sum_nil, lineLength, List.length_append,
    List.length_cons, hlens] at hlength hle
  have htexts := @foldl_addTo_text m.lines [] (List.forall_mem_nil _)
  have hheaders : m.lines.foldl RequestParser.Line.addTo [] = (sentRequest opt host path body port).headers :=
    congrArg Request.headers hrequest.symm
  rw [hheaders] at htexts
  refine ⟨⟨hmethod ▸ m.method_ne_nil, hmethod ▸ m.method_token, huri ▸ m.uri_text, fun c hc => ?_, ?_⟩, by omega⟩
  · exact htexts _ (List.mem_cons_self ..) c (List.mem_append_left _ hc)
  · rw [List.length_append]
    omega

end Sent

/-- **The server understands what the client sends** if and only if the method is a token, the path and the host are
    texts, the path without a blank, and neither line is cut by the 2046 characters of `gx_to_string`: then its parser
    stops before the body, and has the method, the path and the headers. Where only the request line is cut, it says
    that the request is bad. -/
theorem requestText_iff (opt host path body : List UInt8) (port major minor : Int) :
    ∃ text, requestText opt host path body port = some text ∧
      (parse consume (RequestParser.init major minor) text =
          (.good, ⟨.expectingNewline3, sentRequest opt host path body port⟩, cstr body) ↔
        Expressible opt host path port ∧ (cstr opt).length + (cstr path).length ≤ 2034) ∧
      (Expressible opt host path port → 2034 < (cstr opt).length + (cstr path).length →
        (parse consume (RequestParser.init major minor) text).1 = .bad) := by
  obtain ⟨text, htext⟩ : ∃ text, requestText opt host path body port = some text := ⟨_, rfl⟩
  refine ⟨text, htext, ⟨expressible_of_good htext, ?_⟩, ?_⟩
  · rintro ⟨h, hfits⟩
    have hr := requestText_eq (h.clientRequest body)
    rw [h.text?, htext, List.take_of_length_le (by rw [h.requestLine_length]; omega)] at hr
    cases hr
    rw [← (h.clientRequest body).message_bytes]
    exact ((h.clientRequest body).message_request ▸ (h.clientRequest body).message.accepts major minor).parse _
  · intro h hlong
    have hr := requestText_eq (h.clientRequest body)
    rw [h.text?, htext] at hr
    cases hr
    exact requestText_cut (h.clientRequest body) (by rw [h.requestLine_length]; omega) major minor

/-- A blank in the path ends it. -/
example : (requestText (ascii "GET") (ascii "h") (ascii "/a b") [] 80).map (fun text =>
    (parse consume (RequestParser.init 0 0) text).1) = some .bad := by decide +kernel

end HttpProxy

end Mowang
