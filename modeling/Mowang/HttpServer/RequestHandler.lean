import Mowang.Base.Path
import Mowang.HttpClient.BodyDecoding
import Mowang.HttpClient.UrlCodec
import Mowang.HttpServer.Replies

/-!
# `HttpServer.RequestHandler` — what a request is answered with

The file system is a parameter: what a file with a name holds, if there is one that can be opened. A name ends at its
first NUL, and the extension is looked for in all of the path.

An escape may hold what a stream takes for a hexadecimal number: one digit and something else, or a sign.

## Contents
- `extractHex`, `urlDecode`, `handleRequest`.
- `urlDecode_urlEncode` — what the http client encodes is decoded.
- `Inside`, `inside_fullPath`, `handleRequest_inside`.
- `handleRequest_file`, `handleRequest_described`.
-/

namespace Mowang

namespace RequestHandler

open Search HttpMessage Reply

/-- `is >> std::hex >> value`. -/
def extractHex (text : List UInt8) : Option Int :=
  let text := text.dropWhile isSpace
  let negative := text.head? = some 45
  let text := if negative || text.head? = some 43 then text.tail else text
  let digits := (HttpProxy.skip0x text).takeWhile isHexDigit
  if digits = [] then none else some (if negative then -hexValue digits else hexValue digits)

/-- `request_handler::url_decode`. -/
def urlDecode : List UInt8 → Option (List UInt8)
  | []         => some []
  | c :: input =>
    if c = 37 then
      match input with
      | high :: low :: input =>
        (extractHex [high, low]).bind fun value => (urlDecode input).map (UInt8.ofInt value :: ·)
      | _                    => none
    else if c = 43 then (urlDecode input).map (32 :: ·)
    else (urlDecode input).map (c :: ·)

/-- `std::string::find_last_of` of one character. -/
def findLastOf (s : List UInt8) (c : UInt8) : Option Nat := (s.reverse.idxOf? c).map fun k => s.length - 1 - k

/-- The file extension of a path. -/
def extension (requestPath : List UInt8) : List UInt8 :=
  match findLastOf requestPath 46, findLastOf requestPath 47 with
  | some lastDotPos, some lastSlashPos => if lastDotPos > lastSlashPos then requestPath.drop (lastDotPos + 1) else []
  | _, _                               => []

/-- The loop over `buf`, which holds 512 bytes. -/
def readLoop : Nat → List UInt8 → List UInt8 → List UInt8
  | 0, content, _           => content
  | fuel + 1, content, file =>
    if (file.take 512).length > 0 then readLoop fuel (content ++ file.take 512) (file.drop 512) else content

/-- The path of a URI, if it is absolute and does not contain `..`. -/
def requestPath? (uri : List UInt8) : Option (List UInt8) :=
  (urlDecode uri).bind fun requestPath =>
  if requestPath = [] ∨ requestPath.head? ≠ some 47 ∨ ascii ".." <:+: requestPath then none
  else some (if requestPath.getLast? = some 47 then requestPath ++ ascii "index.html" else requestPath)

/-- `request_handler::handle_request`. -/
def handleRequest (docRoot : List UInt8) (open? : List UInt8 → Option (List UInt8)) (req : Request) (rep : Reply) :
    Reply :=
  match requestPath? req.uri with
  | none             => stockReply .badRequest
  | some requestPath =>
    match open? (cstr (docRoot ++ requestPath)) with
    | none      => stockReply .notFound
    | some file =>
      let content := readLoop (file.length + 1) rep.content file
      ⟨.ok, contentHeaders content (extensionToType (extension requestPath)), content⟩

/-- One digit and another character are an escape. -/
example : urlDecode (ascii "%4g+%-1") = some [4, 32, 255] := by decide +kernel

/-! ## Decoding what was encoded -/

/-- The two digits of an escape. -/
theorem extractHex_digits {high low : UInt8} (hhigh : HttpProxy.IsHexChar high) (hlow : HttpProxy.IsHexChar low) :
    (extractHex [high, low]).map UInt8.ofInt = some ((HttpProxy.fromHex high <<< 4) + HttpProxy.fromHex low) := by
  have hall : ∀ high ∈ ascii "0123456789ABCDEF", ∀ low ∈ ascii "0123456789ABCDEF",
      (extractHex [high, low]).map UInt8.ofInt = some ((HttpProxy.fromHex high <<< 4) + HttpProxy.fromHex low) := by
    decide +kernel
  exact hall high hhigh low hlow

theorem urlDecode_escape (high low : UInt8) (input : List UInt8) :
    urlDecode (37 :: high :: low :: input) =
      (extractHex [high, low]).bind fun value => (urlDecode input).map (UInt8.ofInt value :: ·) := by
  rw [urlDecode, if_pos rfl]

theorem urlDecode_plain {c : UInt8} (hc : c ≠ 37) (input : List UInt8) :
    urlDecode (c :: input) = (urlDecode input).map (HttpProxy.plainChar c :: ·) := by
  rw [urlDecode.eq_def]
  simp only [if_neg hc, HttpProxy.plainChar]
  split <;> rfl

/-- Texts of the http client are decoded to the same as there. -/
theorem urlDecode_encoded {text : List UInt8} (h : HttpProxy.Encoded text) :
    urlDecode text = some (HttpProxy.decoded text) := by
  induction h with
  | nil => rfl
  | @plain c text hc _ ih =>
      have hne : c ≠ 37 := by
        rintro rfl
        exact absurd hc (by decide)
      rw [urlDecode_plain hne, ih, Option.map_some, HttpProxy.decoded_plain hne]
  | @escape high low text hhigh hlow _ ih =>
      obtain ⟨value, hvalue, hbyte⟩ := Option.map_eq_some_iff.mp (extractHex_digits hhigh hlow)
      rw [urlDecode_escape, hvalue, Option.bind_some, ih, Option.map_some, hbyte, HttpProxy.decoded_escape]

/-- **The two codecs agree.** -/
theorem urlDecode_urlEncode {s text : List UInt8} (h : HttpProxy.urlEncode [] s = some text) :
    urlDecode text = some s := by
  by_cases hs : ∀ c ∈ s, c < 128
  · obtain ⟨text', hencode, hencoded, hdecoded⟩ := HttpProxy.urlEncode_eq hs
    obtain rfl : text' = text := Option.some.inj ((hencode []).symm.trans h)
    rw [urlDecode_encoded hencoded, hdecoded]
  · obtain ⟨c, hc, hhigh⟩ : ∃ c ∈ s, 128 ≤ c := by
      by_contra hnone
      exact hs fun c hc => UInt8.not_le.mp fun hle => hnone ⟨c, hc, hle⟩
    rw [HttpProxy.urlEncode_eq_none ⟨c, hc, hhigh⟩] at h
    cases h

/-- A name with a blank, a plus and a slash. -/
theorem urlDecode_urlEncode_name : urlDecode (ascii "a+b%2Bc%2F") = some (ascii "a b+c/") :=
  urlDecode_urlEncode (show HttpProxy.urlEncode [] (ascii "a b+c/") = some (ascii "a+b%2Bc%2F") by decide +kernel)

/-! ## The files that are opened -/

/-- Where a name leads, from a working directory. -/
def place (cwd : List (List UInt8)) (name : List UInt8) : List (List UInt8) :=
  Path.resolve 47 [[], ascii "."] [ascii ".."] cwd name

/-- Whatever the working directory, the name leads to a place below the directory of documents. -/
def Inside (docRoot name : List UInt8) : Prop := ∀ cwd, place cwd (docRoot ++ [47]) <+: place cwd name

/-- The parent of the working directory is not inside it. -/
example : ¬ Inside (ascii ".") (ascii "./../secret") := fun h => absurd (h [ascii "www"]) (by decide +kernel)

/-- No two points next to each other come from a longer path. -/
theorem not_infix_append {path : List UInt8} (h : ¬ ascii ".." <:+: path) (hlast : path.getLast? = some 47) :
    ¬ ascii ".." <:+: path ++ ascii "index.html" := by
  obtain ⟨front, rfl⟩ := List.getLast?_eq_some_iff.mp hlast
  have hnone : find? (ascii "..") (front ++ [47]) = none := find?_eq_none_iff.mpr h
  rw [← find?_eq_none_iff]
  clear h hlast
  induction front with
  | nil => decide
  | cons c front ih =>
      rw [List.cons_append] at hnone
      have hhead : ¬ ascii ".." <+: c :: (front ++ [47]) := by
        intro hpre
        rw [find?_eq_zero hpre] at hnone
        cases hnone
      rw [find?_cons hhead, Option.map_eq_none_iff] at hnone
      have hhead' : ¬ ascii ".." <+: c :: (front ++ [47] ++ ascii "index.html") := by
        rintro ⟨t, ht⟩
        refine hhead ?_
        cases front with
        | nil =>
            have hsecond := (List.cons.inj (List.cons.inj ht).2).1
            exact absurd hsecond (by decide)
        | cons c' front =>
            obtain ⟨hfirst, hrest⟩ := List.cons.inj ht
            exact ⟨front ++ [47], by rw [← hfirst, ← (List.cons.inj hrest).1]; rfl⟩
      rw [List.cons_append, List.cons_append, find?_cons hhead', Option.map_eq_none_iff]
      exact ih hnone

/-- What the checks leave of a path. -/
theorem requestPath?_spec {uri path : List UInt8} (h : requestPath? uri = some path) :
    ∃ rest, path = 47 :: rest ∧ ¬ ascii ".." <:+: path := by
  obtain ⟨decoded, _, hpath⟩ := Option.bind_eq_some_iff.mp h
  split at hpath
  · cases hpath
  · rename_i hchecked
    simp only [not_or, not_not] at hchecked
    obtain ⟨_, hhead, hdots⟩ := hchecked
    obtain ⟨rest, hrest⟩ := List.head?_eq_some_iff.mp hhead
    obtain rfl := Option.some.inj hpath
    split
    · rename_i hlast
      exact ⟨rest ++ ascii "index.html", by rw [hrest]; rfl, not_infix_append hdots hlast⟩
    · exact ⟨rest, hrest, hdots⟩

theorem inside_fullPath {docRoot uri path : List UInt8} (hroot : NulFree docRoot) (h : requestPath? uri = some path) :
    Inside docRoot (cstr (docRoot ++ path)) := by
  obtain ⟨rest, rfl, hdots⟩ := requestPath?_spec h
  have hname : cstr (docRoot ++ 47 :: rest) = docRoot ++ 47 :: cstr rest := by
    rw [cstr_append, if_pos hroot]
    rfl
  intro cwd
  rw [hname]
  refine Path.prefix_resolve List.mem_cons_self fun hpart => hdots ?_
  -- what a NUL leaves of the path is a part of it
  exact (hpart.trans (List.takeWhile_prefix _).isInfix).trans (List.suffix_cons 47 rest).isInfix

/-- **No request reads outside.** Two file systems that agree on the names below the directory of documents give every
    request the same reply. -/
theorem handleRequest_inside {docRoot : List UInt8} (hroot : NulFree docRoot)
    {open? open?' : List UInt8 → Option (List UInt8)} (hsame : ∀ name, Inside docRoot name → open? name = open?' name)
    (req : Request) (rep : Reply) : handleRequest docRoot open? req rep = handleRequest docRoot open?' req rep := by
  rw [handleRequest, handleRequest]
  cases hpath : requestPath? req.uri with
  | none => rfl
  | some path =>
      simp only
      rw [hsame _ (inside_fullPath hroot hpath)]

/-- A file system where only `secret` holds something, next to the working directory, which holds the documents. -/
theorem handleRequest_inside_secret :
    handleRequest (ascii ".") (fun name => if name = ascii "./../secret" then some [1] else none)
        ⟨ascii "GET", ascii "/%2e%2e/secret", 1, 0, []⟩ ⟨.ok, [], []⟩ =
      handleRequest (ascii ".") (fun _ => none) ⟨ascii "GET", ascii "/%2e%2e/secret", 1, 0, []⟩ ⟨.ok, [], []⟩ := by
  refine handleRequest_inside (by decide) (fun name hinside => if_neg ?_) _ _
  rintro rfl
  exact absurd (hinside [ascii "www"]) (by decide +kernel)

/-! ## The replies -/

theorem readLoop_eq {fuel : Nat} {content file : List UInt8} (h : file.length < fuel) :
    readLoop fuel content file = content ++ file := by
  induction fuel generalizing content file with
  | zero => exact absurd h (Nat.not_lt_zero _)
  | succ fuel ih =>
      rw [readLoop]
      split
      · rename_i hpos
        rw [List.length_take] at hpos
        rw [ih (by rw [List.length_drop]; omega), List.append_assoc, List.take_append_drop]
      · rename_i hpos
        have hnil : file = [] := List.length_eq_zero_iff.mp (by rw [List.length_take] at hpos; omega)
        rw [hnil, List.append_nil]

/-- A file that is found is served whole, behind what the reply had. -/
theorem handleRequest_file {docRoot path file : List UInt8} {open? : List UInt8 → Option (List UInt8)} {req : Request}
    (hpath : requestPath? req.uri = some path) (hfile : open? (cstr (docRoot ++ path)) = some file) (rep : Reply) :
    handleRequest docRoot open? req rep =
      ⟨.ok, contentHeaders (rep.content ++ file) (extensionToType (extension path)), rep.content ++ file⟩ := by
  rw [handleRequest, hpath]
  simp only [hfile, readLoop_eq (Nat.lt_succ_self _)]

/-- The headers of every reply are those of its content. -/
theorem handleRequest_described (docRoot : List UInt8) (open? : List UInt8 → Option (List UInt8)) (req : Request)
    (rep : Reply) : (handleRequest docRoot open? req rep).Described := by
  rw [handleRequest]
  cases requestPath? req.uri with
  | none => exact stockReply_described _
  | some path =>
      simp only
      cases open? (cstr (docRoot ++ path)) with
      | none => exact stockReply_described _
      | some file => exact ⟨_, extensionToType_mem _, rfl⟩

end RequestHandler

end Mowang
