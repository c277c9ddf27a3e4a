import Mowang.HttpClient.HttpAnswers

/-!
# `HttpClient.HttpBodies` — the bodies that the callback gets

A peer that sends a response and closes the connection is answered by the client with what the buffer becomes at the
end of the stream, however the bytes are split over the reads; only the bytes that have arrived with the header decide
whether the body is decoded. The place of the body is found behind the first blank line, in 16 bits, and the text
`chunked` is looked for in everything that has arrived, except at its very beginning.

## Contents
- `Serves`, `served` — the responses of a peer, and what becomes of them.
- `Reassembled`, `reassembled_iff` — chunked bodies.
- `Delivered`, `copied`, `Coincides`, `Deliverable`, `delivered_iff` — plain bodies.
-/

namespace Mowang

namespace HttpProxy

open Search HttpMessage

/-! ## A peer that answers -/

section Peer

/-- The operations that read from the stream. -/
def Operation.reads : Operation → Bool
  | .readStatusLine | .readHeader | .readBody => true
  | _                                         => false

/-- The completions of a request to a peer that sends `bytes` and closes the connection. -/
def Serves (fresh : Nat → UInt8) (p : Proxy) (bytes : List UInt8) : List Completion → Prop
  | []        => p.awaits = none
  | o :: outs =>
    Possible p o ∧ o.received <+: bytes ∧
      (o.error = .success ∨ o.error = .eof ∧ o.operation.reads = true ∧ o.received = bytes) ∧
      match step fresh p o with
      | none    => outs = []
      | some p' => Serves fresh p' (bytes.drop o.received.length) outs

instance instDecidableServes (fresh : Nat → UInt8) : ∀ p bytes outs, Decidable (Serves fresh p bytes outs)
  | p, _, []         => inferInstanceAs (Decidable (p.awaits = none))
  | p, bytes, o :: outs =>
    match h : step fresh p o with
    | none    =>
      decidable_of_iff (Possible p o ∧ o.received <+: bytes ∧
        (o.error = .success ∨ o.error = .eof ∧ o.operation.reads = true ∧ o.received = bytes) ∧ outs = [])
        (by simp [Serves, h])
    | some p' =>
      have : Decidable (Serves fresh p' (bytes.drop o.received.length) outs) := instDecidableServes fresh p' _ outs
      decidable_of_iff (Possible p o ∧ o.received <+: bytes ∧
        (o.error = .success ∨ o.error = .eof ∧ o.operation.reads = true ∧ o.received = bytes) ∧
          Serves fresh p' (bytes.drop o.received.length) outs)
        (by simp [Serves, h])

variable {fresh : Nat → UInt8} {usessl : Bool} {outs : List Completion} {p : Proxy} {bytes text : List UInt8}

theorem Serves.completes (h : Serves fresh p bytes outs) : Completes fresh p outs := by
  induction outs generalizing p bytes with
  | nil => exact h
  | cons o outs ih =>
      obtain ⟨hpossible, _, _, hrest⟩ := h
      refine ⟨hpossible, ?_⟩
      cases hstep : step fresh p o with
      | none =>
          rw [hstep] at hrest
          exact hrest
      | some p' =>
          rw [hstep] at hrest
          exact ih hrest

/-- What arrives is the start of what is sent, and all of it where a read ends with the stream. -/
theorem Serves.arrived (h : Serves fresh p bytes outs) :
    arrived outs <+: bytes ∧
      ∀ o ∈ outs, o.error ≠ .success → o.error = .eof ∧ o.operation.reads = true ∧ arrived outs = bytes := by
  induction outs generalizing p bytes with
  | nil => exact ⟨List.nil_prefix, nofun⟩
  | cons o outs ih =>
      obtain ⟨_, ⟨rest, rfl⟩, hends, hrest⟩ := h
      rw [List.drop_left] at hrest
      have htail : arrived outs <+: rest ∧
          ∀ o ∈ outs, o.error ≠ .success → o.error = .eof ∧ o.operation.reads = true ∧ arrived outs = rest := by
        cases hstep : step fresh p o with
        | none =>
            rw [hstep] at hrest
            rw [show outs = [] from hrest]
            exact ⟨List.nil_prefix, nofun⟩
        | some p' =>
            rw [hstep] at hrest
            exact ih hrest
      have hcons : HttpProxy.arrived (o :: outs) = o.received ++ HttpProxy.arrived outs := List.flatMap_cons
      refine ⟨by rw [hcons]; exact (List.prefix_append_right_inj _).mpr htail.1, fun o' ho' herror => ?_⟩
      rcases List.mem_cons.mp ho' with rfl | hmem
      · obtain ⟨heof, hreads, hall⟩ := hends.resolve_left herror
        have hrest' : rest = [] := by simpa using hall
        subst hrest'
        refine ⟨heof, hreads, ?_⟩
        rw [hcons, List.prefix_nil.mp htail.1]
      · obtain ⟨heof, hreads, hall⟩ := htail.2 o' hmem herror
        exact ⟨heof, hreads, by rw [hcons, hall]⟩

/-- The digits behind a blank. -/
theorem scanNumber_code (l : StatusLine) (rest : List UInt8) :
    scanNumber (32 :: (l.code ++ 32 :: rest)) = (false, l.code, 32 :: rest) := by
  obtain ⟨d, code, hcode⟩ := List.exists_cons_of_length_pos (show 0 < l.code.length by rw [l.three]; decide)
  have hd : isDigit d = true := l.digits d (hcode ▸ List.mem_cons_self)
  have hspace : isSpace d = false := by
    revert hd
    simp only [isDigit, isSpace, Bool.and_eq_true, decide_eq_true_eq, UInt8.le_iff_toNat_le, Bool.or_eq_false_iff,
      Bool.and_eq_false_iff, decide_eq_false_iff_not, ← UInt8.toNat_inj]
    simp
    omega
  have hne : ∀ c : UInt8, isDigit c = false → d ≠ c := by
    rintro c hc rfl
    rw [hd] at hc
    cases hc
  have hdrop : (32 :: (l.code ++ 32 :: rest)).dropWhile isSpace = l.code ++ 32 :: rest := by
    rw [List.dropWhile_cons_of_pos (by decide), hcode]
    exact List.dropWhile_cons_of_neg (by simp [hspace])
  have hhead : (l.code ++ 32 :: rest).head? = some d := by
    rw [hcode]
    rfl
  have htake : (l.code ++ 32 :: rest).takeWhile isDigit = l.code := by
    rw [List.takeWhile_append_of_pos l.digits, List.takeWhile_cons_of_neg (by decide), List.append_nil]
  have hrest : (l.code ++ 32 :: rest).dropWhile isDigit = 32 :: rest := by
    rw [List.dropWhile_append_of_pos l.digits]
    exact List.dropWhile_cons_of_neg (by decide)
  rw [scanNumber]
  simp only [hdrop, hhead, Option.some.injEq, hne 45 (by decide), hne 43 (by decide), decide_false, Bool.or_self,
    Bool.false_eq_true, if_false, htake, hrest]

theorem digitsValue_lt (l : StatusLine) : digitsValue l.code < 2 ^ 32 := by
  obtain ⟨a, b, c, hcode⟩ := List.length_eq_three.mp l.three
  have ha := a.toNat_lt
  have hb := b.toNat_lt
  have hc := c.toNat_lt
  rw [hcode]
  show 10 * (10 * (10 * 0 + (a.toNat - 48)) + (b.toNat - 48)) + (c.toNat - 48) < 2 ^ 32
  omega

/-- A status line is read, and left behind. -/
theorem readStatusLine_bytes (l : StatusLine) (more : List UInt8) :
    readStatusLine (l.bytes ++ more) = some (digitsValue l.code, more) := by
  obtain ⟨v, hv⟩ := l.http
  have htoken : ∀ c ∈ l.version, (!isSpace c) = true := by
    intro c hc
    rw [l.token c hc]
    rfl
  have hbytes : l.bytes ++ more = l.version ++ 32 :: (l.code ++ 32 :: (l.reason ++ (crlf ++ more))) := by
    simp only [StatusLine.bytes, List.append_assoc, List.cons_append]
  have hskip : (l.bytes ++ more).dropWhile isSpace = l.bytes ++ more := by
    rw [hbytes, ← hv]
    exact List.dropWhile_cons_of_neg (by decide)
  have hversion : (l.bytes ++ more).takeWhile (fun c => !isSpace c) = l.version := by
    rw [hbytes, List.takeWhile_append_of_pos htoken, List.takeWhile_cons_of_neg (by decide), List.append_nil]
  have hstream : (l.bytes ++ more).dropWhile (fun c => !isSpace c) =
      32 :: (l.code ++ 32 :: (l.reason ++ (crlf ++ more))) := by
    rw [hbytes, List.dropWhile_append_of_pos htoken]
    exact List.dropWhile_cons_of_neg (by decide)
  have hhttp : l.version.take 5 = ascii "HTTP/" := by
    rw [← hv]
    rfl
  have hcode : l.code ≠ [] := by
    intro hnil
    have hthree := l.three
    rw [hnil] at hthree
    cases hthree
  have hline : (32 :: (l.reason ++ (crlf ++ more))).dropWhile (· ≠ 10) = 10 :: more := by
    rw [List.dropWhile_cons_of_pos (by decide), List.dropWhile_append_of_pos fun c hc => by
      simpa using (l.plain c hc).2]
    rfl
  have hlt := digitsValue_lt l
  rw [readStatusLine]
  simp only [hskip, hversion, hstream, scanNumber_code]
  rw [if_neg (by simp [hcode, hhttp]; omega), hline]
  rfl

/-- **What becomes of a response.** The client gets a buffer with all of it behind the status line, or finds no blank
    line in it. -/
theorem served (l : StatusLine) (h : Serves fresh (init fresh usessl) (l.bytes ++ text) outs) :
    (¬ blankLine <:+: text ∧ ∃ p, run (step fresh) (init fresh usessl) outs = some p ∧
        p.calls = failureCalls .readHeader) ∨
      (blankLine <:+: headerBuffer outs ∧ headerBuffer outs <+: text ∧
        headerBuffer outs =
          (received .readStatusLine outs ++ received .readHeader outs).drop l.bytes.length ∧
        run (step fresh) (init fresh usessl) outs = respond fresh usessl (headerBuffer outs) text) := by
  obtain ⟨hpre, hfails⟩ := h.arrived
  have hcrlf : crlf <:+: l.bytes := find?_isSome_iff.mp (Option.isSome_of_eq_some l.ends)
  -- what has arrived with the status line begins with it
  have hbegins : crlf <:+: received .readStatusLine outs →
      (∃ more, arrived outs = received .readStatusLine outs ++ more) →
      ∃ s, received .readStatusLine outs = l.bytes ++ s ∧ statusLine? outs = some (digitsValue l.code, s) := by
    rintro hfound ⟨more, harrived⟩
    have hpart : received .readStatusLine outs <+: l.bytes ++ text := by
      refine List.IsPrefix.trans ?_ hpre
      rw [harrived]
      exact List.prefix_append _ _
    obtain ⟨s, hs⟩ := l.ends.all_of_part (by decide) hpart hfound
    refine ⟨s, hs.symm, ?_⟩
    rw [statusLine?, ← hs]
    exact readStatusLine_bytes l s
  have hended := run_ended h.completes
  generalize run (step fresh) (init fresh usessl) outs = result at hended
  cases hended with
  | @failed front o p hlast hfront hfailed hcalls hstatus hheader =>
      have ho : o ∈ outs := by
        rw [hlast]
        exact List.mem_append_right _ List.mem_cons_self
      obtain ⟨heof, hreads, hall⟩ := hfails o ho hfailed.1
      cases hop : o.operation with
      | readStatusLine =>
          refine absurd ?_ (hstatus hop)
          rw [hall]
          exact hcrlf.trans (List.prefix_append _ _).isInfix
      | readHeader =>
          obtain ⟨hfound, harrived, hblank⟩ := hheader hop
          obtain ⟨s, hs, hline⟩ := hbegins hfound ⟨_, harrived⟩
          have hbuffer : headerBuffer outs = s ++ received .readHeader outs := by
            rw [headerBuffer, hline]
            rfl
          rw [hall, hs, List.append_assoc, List.append_cancel_left_eq, ← hbuffer] at harrived
          rw [harrived]
          rw [hop] at hcalls
          exact Or.inl ⟨hblank, p, rfl, hcalls⟩
      | readBody => exact absurd ⟨hop, heof⟩ hfailed.2
      | resolve => rw [hop] at hreads; cases hreads
      | connect => rw [hop] at hreads; cases hreads
      | handshake => rw [hop] at hreads; cases hreads
      | write => rw [hop] at hreads; cases hreads
  | invalid hall hline hfound harrived hcalls =>
      obtain ⟨s, _, hsome⟩ := hbegins hfound ⟨[], by rw [List.append_nil]; exact harrived⟩
      rw [hline] at hsome
      cases hsome
  | @responded code rest hall hline hfound hblank hordered hlast =>
      obtain ⟨s, hs, hsome⟩ := hbegins hfound ⟨_, by rw [hordered, List.append_assoc]⟩
      have hbuffer : headerBuffer outs = s ++ received .readHeader outs := by
        rw [headerBuffer, hsome]
        rfl
      have harrived : arrived outs = l.bytes ++ responseBuffer outs := by
        rw [hordered, responseBuffer, hbuffer, hs, List.append_assoc, List.append_assoc, List.append_assoc]
      have hdrop : headerBuffer outs =
          (received .readStatusLine outs ++ received .readHeader outs).drop l.bytes.length := by
        rw [hs, List.append_assoc, List.drop_left, hbuffer]
      have hresponse : responseBuffer outs <+: text := by
        rw [harrived] at hpre
        exact (List.prefix_append_right_inj _).mp hpre
      refine Or.inr ⟨hblank, (List.prefix_append _ _).trans hresponse, hdrop, ?_⟩
      rcases hlast with hnone | ⟨o, ho, heof⟩
      · have hnone' : ∀ response, respond fresh usessl (headerBuffer outs) response = none := by
          intro response
          rw [respond, hnone, Option.bind_none]
        rw [hnone', hnone']
      · have hall' := (hfails o ho (by rw [heof]; decide)).2.2
        rw [harrived, List.append_cancel_left_eq] at hall'
        rw [hall']

end Peer

/-! ## The copy of a body -/

section Copy

variable {header body result : List UInt8}

/-- Behind a header of less than 65536 bytes the body is found. -/
theorem bodyStart_eq (hends : Ends blankLine header) (body : List UInt8) :
    bodyStart (header ++ body) = copyStart header.length := by
  have hle := hends.length_le (by decide)
  have hfour : blankLine.length = 4 := rfl
  have hfind : find (header ++ body) blankLine 0 = header.length - 4 := by
    rw [find_zero, find?_append hends (by decide)]
    rfl
  rw [bodyStart, hfind, Nat.sub_add_cancel (by omega)]

theorem copyStart_eq {n : Nat} (hpos : 0 < n) (h : n < 2 ^ 16) : copyStart n = n := by
  rw [copyStart, toInt_eq (by omega), if_pos (by omega), Nat.mod_eq_of_lt h]

theorem bodyLen_eq (hends : Ends blankLine header) (h : header.length < 2 ^ 16) (body : List UInt8) :
    bodyLen (header ++ body) = body.length % 2 ^ 16 ∧ bodyStart (header ++ body) = header.length := by
  have hle := hends.length_le (by decide)
  have hfour : blankLine.length = 4 := rfl
  have hstart : bodyStart (header ++ body) = header.length := by rw [bodyStart_eq hends, copyStart_eq (by omega) h]
  rw [bodyLen, hstart, List.length_append, Nat.add_sub_cancel_left]
  exact ⟨rfl, rfl⟩

theorem blankLine_found (hends : Ends blankLine header) (body : List UInt8) : blankLine <:+: header ++ body :=
  find?_isSome_iff.mp (Option.isSome_of_eq_some (find?_append hends (by decide) body))

/-- A body of less than 65535 bytes, but at least one, is copied. -/
theorem body?_located (hends : Ends blankLine header) (h : header.length < 2 ^ 16) (hpos : 0 < body.length)
    (hshort : body.length < 65535) : body? (header ++ body) = some body := by
  obtain ⟨hlen, hstart⟩ := bodyLen_eq hends h body
  rw [Nat.mod_eq_of_lt (by omega)] at hlen
  rw [(body?_eq (blankLine_found hends body)).1, hlen, hstart,
    appended?_pos (by omega) (by rw [List.length_append]), if_pos (by omega), List.drop_left, List.take_length]

/-- Decoding makes less of what is copied. -/
theorem decoded?_cases {piece : List UInt8} {chucked : Bool} (hshort : piece.length < 65535)
    (h : decoded? chucked piece = some result) :
    chucked = false ∧ result = piece ∨ chucked = true ∧ (result = [] ∨ result.length < piece.length) := by
  rw [decoded?] at h
  cases chucked with
  | false =>
      cases h
      exact Or.inl ⟨rfl, rfl⟩
  | true =>
      have hle := cstr_length_le piece
      obtain ⟨out, hout, hbound⟩ := @decode?_spec (cstr piece) (by omega)
      rw [if_pos rfl] at h
      cases hout.symm.trans h
      exact Or.inr ⟨rfl, hbound.imp_right fun hbound => by omega⟩

theorem length_body?_lt {response piece : List UInt8} (h : body? response = some piece) : piece.length < 65535 := by
  have hadded := @appendIn_emptyString (fun _ => 0) (response ++ [0]) _
    (bodyPart_lt response.length (find response blankLine 0)) (bodyPart response.length (find response blankLine 0)).2
  rw [show appended? (response ++ [0]) _ _ = some piece from h] at hadded
  rcases hadded with ⟨hnone, _⟩ | ⟨piece', s, hsome, _, hterminated⟩
  · cases hnone
  · cases hsome
    exact length_lt_of_terminated hterminated

/-- One call at the end of a stream, and what can be said of it. -/
theorem respond_iff {fresh : Nat → UInt8} {usessl : Bool} {header response : List UInt8}
    {Q : Int → List UInt8 → Bool → Prop} :
    (∃ p call, respond fresh usessl header response = some p ∧ p.calls = [call] ∧ Q call.status call.result p.chucked) ↔
      strlen16 header ≠ 65535 ∧ ∃ piece result, body? response = some piece ∧
        decoded? (isChucked header) piece = some result ∧ Q 200 result (isChucked header) := by
  have hview := @respond_spec fresh usessl header response
  have hle := strlen16_le header
  constructor
  · rintro ⟨p, call, hp, hcalls, hQ⟩
    rw [hp, Option.map_some] at hview
    obtain ⟨⟨h, result⟩, hanswer, hsame⟩ := Option.map_eq_some_iff.mp hview.symm
    obtain ⟨hmode, hcall⟩ := Prod.mk.inj hsame
    rw [hcalls] at hcall
    cases hcall
    rw [answer?, appended?_zero] at hanswer
    obtain ⟨text, htext, hanswer⟩ := Option.bind_eq_some_iff.mp hanswer
    obtain ⟨piece, hpiece, hanswer⟩ := Option.bind_eq_some_iff.mp hanswer
    obtain ⟨result', hresult, hpair⟩ := Option.map_eq_some_iff.mp hanswer
    cases hpair
    refine ⟨fun hfull => ?_, piece, result, hpiece, hresult, ?_⟩
    · rw [if_neg fun h => h.2 hfull] at htext
      cases htext
    · rw [hmode]
      exact hQ
  · rintro ⟨hheader, piece, result, hpiece, hresult, hQ⟩
    rw [answer?, appended?_zero, if_pos ⟨by omega, hheader⟩, Option.bind_some, hpiece, Option.bind_some, hresult,
      Option.map_some, Option.map_some] at hview
    obtain ⟨p, hp, hsame⟩ := Option.map_eq_some_iff.mp hview
    obtain ⟨hmode, hcalls⟩ := Prod.mk.inj hsame
    refine ⟨p, _, hp, hcalls, ?_⟩
    rw [hmode]
    exact hQ

/-- The mode is that of the first occurrence in what has arrived. -/
theorem isChucked_iff {header : List UInt8} (h : ascii "chunked" <:+: header) (early : List UInt8)
    (hshort : header.length < 2 ^ 16) : isChucked (header ++ early) = true ↔ ¬ ascii "chunked" <+: header := by
  obtain ⟨k, hk⟩ := Option.isSome_iff_exists.mp (find?_isSome_iff.mpr h)
  have hle := find?_le hk (by decide)
  have hseven : (ascii "chunked").length = 7 := rfl
  have hfind : find (header ++ early) (ascii "chunked") 0 = k := by
    rw [find_zero, find?_append hk (by decide)]
    rfl
  rw [isChucked, hfind, toInt_eq (by omega), decide_eq_true_iff]
  constructor
  · intro hpos hpre
    rw [find?_eq_zero hpre] at hk
    cases hk
    exact absurd hpos (Int.lt_irrefl 0)
  · intro hpre
    by_contra hzero
    obtain rfl : k = 0 := by omega
    exact hpre (find?_eq_some_iff.mp hk).1

end Copy

/-! ## Chunked bodies -/

section Chunked

/-- The callback is called once, and gets the chunks put together if the body is chunked. -/
def Reassembled (body : List UInt8) (result : Option Proxy) : Prop :=
  ∃ p call, result = some p ∧ p.calls = [call] ∧ ∀ b : ChunkedBody, b.bytes = body → call.result = b.content

variable {fresh : Nat → UInt8} {usessl : Bool} {outs : List Completion} {header body : List UInt8}

/-- What the header has in its buffer when it is handled. -/
theorem headerBuffer_eq {text : List UInt8} (hends : Ends blankLine header) (hblank : blankLine <:+: headerBuffer outs)
    (hpre : headerBuffer outs <+: header ++ text) : ∃ early, headerBuffer outs = header ++ early :=
  let ⟨early, hearly⟩ := hends.all_of_part (by decide) hpre hblank
  ⟨early, hearly.symm⟩

/-- **Exactly the chunked bodies** whose header part does not begin with `chunked` are put together; whatever the body
    is, the callback is called once. -/
theorem reassembled_iff (l : StatusLine) (hends : Ends blankLine header) (hchunked : ascii "chunked" <:+: header)
    (hne : body ≠ []) (hnul : NulFree body) (hshort : (l.bytes ++ (header ++ body)).length < 65536)
    (h : Serves fresh (init fresh usessl) (l.bytes ++ (header ++ body)) outs) :
    Reassembled body (run (step fresh) (init fresh usessl) outs) ↔
      ¬ (ascii "chunked" <+: header ∧ ∃ b : ChunkedBody, b.bytes = body) := by
  have hline : 2 ≤ l.bytes.length := l.ends.length_le (by decide)
  simp only [List.length_append] at hshort
  have hpos : 0 < body.length := List.length_pos_iff.mpr hne
  rcases served l h with ⟨hblank, _⟩ | ⟨hblank, hpre, _, hrun⟩
  · exact absurd (blankLine_found hends body) hblank
  obtain ⟨early, hearly⟩ := headerBuffer_eq hends hblank hpre
  have hmode := isChucked_iff hchunked early (by omega)
  have hheader : strlen16 (headerBuffer outs) ≠ 65535 := by
    have hle : (headerBuffer outs).length ≤ header.length + body.length := by
      simpa using hpre.length_le
    have hstrlen := strlen16_le (headerBuffer outs)
    omega
  have hbody := body?_located hends (by omega) hpos (by omega)
  have hcall := @respond_iff fresh usessl (headerBuffer outs) (header ++ body) fun _ result _ =>
    ∀ b : ChunkedBody, b.bytes = body → result = b.content
  rw [Reassembled, hrun, hcall, hbody, hearly]
  by_cases hbegins : ascii "chunked" <+: header
  · have hplain : isChucked (header ++ early) = false := by
      rw [← Bool.not_eq_true, hmode, not_not]
      exact hbegins
    rw [hplain]
    constructor
    · rintro ⟨_, piece, result, hpiece, hresult, hcontent⟩ ⟨_, b, hb⟩
      cases hpiece
      cases hresult
      -- a chunked body is longer than its content
      have hlt := b.content_length_lt
      rw [hb, ← hcontent b hb] at hlt
      exact Nat.lt_irrefl _ hlt
    · intro hnot
      exact ⟨hearly ▸ hheader, body, body, rfl, rfl, fun b hb => absurd ⟨hbegins, b, hb⟩ hnot⟩
  · obtain ⟨result, hresult, _⟩ := @decode?_spec body (by omega)
    refine iff_of_true ⟨hearly ▸ hheader, body, result, rfl, ?_, fun b hb => ?_⟩ fun hnot => hbegins hnot.1
    · rw [hmode.mpr hbegins, decoded?, if_pos rfl, cstr_eq_self hnul, hresult]
    · rw [← hb] at hresult hnul hshort
      cases hresult.symm.trans (decode?_bytes b (by omega) hnul)
      rfl

/-- `HTTP/1.1 200 OK` -/
def okLine : StatusLine where
  version := ascii "HTTP/1.1"
  code := ascii "200"
  reason := ascii "OK"
  http := by decide
  token := by decide +kernel
  digits := by decide +kernel
  three := rfl
  plain := by decide +kernel

/-- The chunk `A`, and the last one. -/
def oneChunk : ChunkedBody where
  chunks := [⟨⟨ascii "1", [], by decide, by decide +kernel, nofun, by decide +kernel⟩, ascii "A", rfl, by decide⟩]
  last := ⟨ascii "0", [], by decide, by decide +kernel, nofun, by decide +kernel⟩
  last_zero := rfl
  trailer := []

theorem reassembled_iff_one :
    Reassembled oneChunk.bytes (run (step fun _ => 0) (init (fun _ => 0) false)
      (inOneRead (okLine.bytes ++ (ascii "Transfer-Encoding: chunked\r\n\r\n" ++ oneChunk.bytes)))) ↔
      ¬ (ascii "chunked" <+: ascii "Transfer-Encoding: chunked\r\n\r\n" ∧
        ∃ b : ChunkedBody, b.bytes = oneChunk.bytes) :=
  reassembled_iff okLine (by decide +kernel) (by decide +kernel) (by decide) (by decide) (by decide) (by decide +kernel)

/-- A field whose name begins with `chunked` hides the coding. -/
theorem chunked_field_first : ∃ (l : StatusLine) (header : List UInt8) (b : ChunkedBody) (outs : List Completion),
    Ends blankLine header ∧ ascii "chunked" <:+: header ∧ NulFree b.bytes ∧
      (l.bytes ++ (header ++ b.bytes)).length < 65536 ∧
      Serves (fun _ => 0) (init (fun _ => 0) false) (l.bytes ++ (header ++ b.bytes)) outs ∧
      ¬ Reassembled b.bytes (run (step fun _ => 0) (init (fun _ => 0) false) outs) := by
  refine ⟨okLine, ascii "chunked-ok: 1\r\nTransfer-Encoding: chunked\r\n\r\n", oneChunk, inOneRead (okLine.bytes ++
    (ascii "chunked-ok: 1\r\nTransfer-Encoding: chunked\r\n\r\n" ++ oneChunk.bytes)), by decide +kernel,
    by decide +kernel, by decide, by decide, by decide +kernel, ?_⟩
  rintro ⟨p, call, hp, hcalls, hcontent⟩
  have hresult := hcontent oneChunk rfl
  have hrun : (run (step fun _ => 0) (init (fun _ => 0) false) (inOneRead (okLine.bytes ++
      (ascii "chunked-ok: 1\r\nTransfer-Encoding: chunked\r\n\r\n" ++ oneChunk.bytes)))).map
        (fun p => p.calls.map Call.result) = some [oneChunk.bytes] := by decide +kernel
  rw [hp, Option.map_some, hcalls, Option.some.injEq] at hrun
  rw [List.map_singleton, hresult] at hrun
  revert hrun
  decide

end Chunked

/-! ## Plain bodies -/

section Plain

/-- The bytes of the body that had arrived when the header was handled. -/
def arrivedEarly (l : StatusLine) (header : List UInt8) (outs : List Completion) : List UInt8 :=
  (received .readStatusLine outs ++ received .readHeader outs).drop (l.bytes.length + header.length)

/-- The callback is called once, and gets the body as it is, or a failure; only the header can have set the mode. -/
def Delivered (header body : List UInt8) (result : Option Proxy) : Prop :=
  ∃ p call, result = some p ∧ p.calls = [call] ∧
    (call.status < 0 ∨ call.result = body ∧ (p.chucked = true → ascii "chunked" <:+: header))

/-- The bytes of the buffer that are copied as the body: as many from `bodyStart` on as 16 bits leave of the rest; if
    these are none, as many as the C string that the buffer is. -/
def copied (response : List UInt8) : List UInt8 :=
  if bodyLen response = 0 then ((response ++ [0]).drop (bodyStart response)).take (strlen16 response)
  else (response.drop (bodyStart response)).take (bodyLen response)

/-- They lie in the buffer, and are not 65535. -/
def CopyFits (response : List UInt8) : Prop :=
  bodyLen response ≠ 65535 ∧
    (bodyLen response = 0 → strlen16 response ≠ 65535 ∧ bodyStart response + strlen16 response ≤ response.length + 1)

/-- Behind a header part that 16 bits do not count, another part of the buffer is copied; it can still have the same
    bytes, or chunks of them. -/
def Coincides (header body early : List UInt8) : Prop :=
  CopyFits (header ++ body) ∧
    if isChucked (header ++ early) then
      ascii "chunked" <:+: header ∧ decode? (cstr (copied (header ++ body))) = some body
    else copied (header ++ body) = body

/-- The bodies that are delivered, behind these fields and after `early` has arrived with them. -/
def Deliverable (fields : List Line) (body early : List UInt8) : Prop :=
  match fields with
  -- no blank line is found, and the request fails
  | []     => ¬ blankLine <:+: crlf ++ body
  | _ :: _ =>
    strlen16 (block fields ++ early) ≠ 65535 ∧
      if (block fields).length < 2 ^ 16 then
        0 < body.length ∧ body.length < 65535 ∧ isChucked (block fields ++ early) = false
      else Coincides (block fields) body early

variable {fresh : Nat → UInt8} {usessl : Bool} {outs : List Completion} {header body early : List UInt8}

theorem body?_eq_copied {response : List UInt8} (hblank : blankLine <:+: response) {piece : List UInt8} :
    body? response = some piece ↔ CopyFits response ∧ copied response = piece := by
  obtain ⟨hcopy, hstart⟩ := body?_eq hblank
  have hsome := body?_isSome_iff hblank
  have hpiece : ∀ {piece}, body? response = some piece → copied response = piece := by
    intro piece hpiece
    rw [hcopy] at hpiece
    rw [copied]
    by_cases hlen : bodyLen response = 0
    · rw [hlen, appended?_zero] at hpiece
      rw [if_pos hlen]
      split at hpiece
      next => exact Option.some.inj hpiece
      next => cases hpiece
    · have hle : bodyLen response ≤ response.length - bodyStart response := Nat.mod_le _ _
      rw [appended?_pos hlen (by omega)] at hpiece
      rw [if_neg hlen]
      split at hpiece
      next => exact Option.some.inj hpiece
      next => cases hpiece
  constructor
  · intro h
    exact ⟨hsome.mp (Option.isSome_of_eq_some h), hpiece h⟩
  · rintro ⟨hfits, rfl⟩
    obtain ⟨piece, h⟩ := Option.isSome_iff_exists.mp (hsome.mpr hfits)
    rw [h, hpiece h]

/-- What is copied, and what becomes of it. -/
theorem coincides_iff_exists (hblank : blankLine <:+: header ++ body) :
    Coincides header body early ↔ ∃ piece, body? (header ++ body) = some piece ∧
      decoded? (isChucked (header ++ early)) piece = some body ∧
        (isChucked (header ++ early) = true → ascii "chunked" <:+: header) := by
  rw [Coincides]
  cases isChucked (header ++ early) with
  | true =>
      rw [if_pos rfl]
      constructor
      · rintro ⟨hfits, hheader, hdecode⟩
        exact ⟨_, (body?_eq_copied hblank).mpr ⟨hfits, rfl⟩, (if_pos rfl).trans hdecode, fun _ => hheader⟩
      · rintro ⟨piece, hpiece, hdecode, hheader⟩
        obtain ⟨hfits, hcopied⟩ := (body?_eq_copied hblank).mp hpiece
        rw [decoded?, if_pos rfl] at hdecode
        rw [hcopied]
        exact ⟨hfits, hheader rfl, hdecode⟩
  | false =>
      constructor
      · rintro ⟨hfits, hsame⟩
        exact ⟨body, (body?_eq_copied hblank).mpr ⟨hfits, hsame⟩, if_neg Bool.false_ne_true,
          fun h => absurd h Bool.false_ne_true⟩
      · rintro ⟨piece, hpiece, hdecode, _⟩
        obtain ⟨hfits, hcopied⟩ := (body?_eq_copied hblank).mp hpiece
        rw [decoded?, if_neg Bool.false_ne_true, Option.some.injEq] at hdecode
        rw [if_neg Bool.false_ne_true, hcopied]
        exact ⟨hfits, hdecode⟩

/-- An empty body behind a header of less than 65536 bytes is not copied: the C string of the buffer is longer than what
    is left of it. -/
theorem body?_empty {response : List UInt8} (hblank : blankLine <:+: response) (hlen : bodyLen response = 0)
    (hstart : bodyStart response = response.length) (hshort : response.length < 2 ^ 16)
    (hcstr : 2 ≤ (cstr response).length) : body? response = none := by
  by_contra hne
  obtain ⟨_, hin⟩ := (body?_isSome_iff hblank).mp (Option.isSome_iff_ne_none.mpr hne)
  have hread := (hin hlen).2
  have hle := cstr_length_le response
  rw [strlen16, Nat.mod_eq_of_lt (by omega)] at hread
  omega

/-- The C string of a buffer of 65536 bytes that ends with a blank line has no 65534 bytes, in 16 bits. -/
theorem strlen16_lt {front : List UInt8} (hfront : front.length = 65532) : strlen16 (front ++ blankLine) < 65534 := by
  rw [strlen16, cstr_append]
  split
  next =>
      have hfour : (cstr blankLine).length = 4 := by decide
      rw [List.length_append, hfour, hfront]
      decide
  next =>
      have hle := cstr_length_le front
      omega

/-- Without fields, a body with a blank line is cut there. -/
theorem body?_cut {piece : List UInt8} (hblank : blankLine <:+: crlf ++ body)
    (hpiece : body? (crlf ++ body) = some piece) : piece.length < body.length := by
  obtain ⟨i, hi⟩ := Option.isSome_iff_exists.mp (find?_isSome_iff.mpr hblank)
  have hle := find?_le hi (by decide)
  have htwo : crlf.length = 2 := rfl
  have hfour : blankLine.length = 4 := rfl
  have hfind : find (crlf ++ body) blankLine 0 = i := by
    rw [find_zero, hi]
    rfl
  have hshort := length_body?_lt hpiece
  have hcopy := hpiece
  rw [(body?_eq hblank).1] at hcopy
  have hlength : (crlf ++ body).length = body.length + 2 := by
    rw [List.length_append, htwo, Nat.add_comm]
  rw [hlength, hfour] at hle
  by_cases hbig : 65534 < body.length
  · omega
  by_cases hat : i + 4 < 2 ^ 16
  · have hstart : bodyStart (crlf ++ body) = i + 4 := by rw [bodyStart, hfind, copyStart_eq (by omega) hat]
    have hlen : bodyLen (crlf ++ body) = body.length + 2 - (i + 4) := by
      rw [bodyLen, hstart, hlength, Nat.mod_eq_of_lt (by omega)]
    by_cases hzero : bodyLen (crlf ++ body) = 0
    · -- nothing is left behind the blank line
      have hcstr : 2 ≤ (cstr (crlf ++ body)).length := by
        rw [cstr_append, if_pos (by decide), List.length_append, htwo]
        exact Nat.le_add_right 2 _
      have hwhole : bodyStart (crlf ++ body) = (crlf ++ body).length := by omega
      have hnone := body?_empty hblank hzero hwhole (by omega) hcstr
      cases hnone.symm.trans hpiece
    · rw [appended?_pos hzero (by omega)] at hcopy
      split at hcopy
      next =>
          have htaken : piece.length ≤ bodyLen (crlf ++ body) := by
            rw [← Option.some.inj hcopy]
            exact List.length_take_le _ _
          rw [hlen] at htaken
          exact Nat.lt_of_le_of_lt htaken (by omega)
      next => cases hcopy
  · -- the blank line is at the end of 65536 bytes, and the copy begins at their start
    have hi' : i = 65532 := by omega
    have hbody : body.length = 65534 := by omega
    have hstart : bodyStart (crlf ++ body) = 0 := by
      rw [bodyStart, hfind, hi']
      decide
    have hlen : bodyLen (crlf ++ body) = 0 := by
      rw [bodyLen, hstart, hlength, hbody]
      decide
    obtain ⟨front, hfront, hsplit⟩ :
        ∃ front : List UInt8, front.length = 65532 ∧ crlf ++ body = front ++ blankLine := by
      have hat := (find?_eq_some_iff.mp hi).1
      refine ⟨(crlf ++ body).take i, by rw [List.length_take]; omega, ?_⟩
      have hrest : blankLine = (crlf ++ body).drop i := hat.eq_of_length (by rw [List.length_drop]; omega)
      rw [hrest, List.take_append_drop]
    have hstrlen := strlen16_lt hfront
    rw [hlen, hstart, appended?_zero] at hcopy
    split at hcopy
    next =>
        rw [← Option.some.inj hcopy, List.length_take, hsplit]
        omega
    next => cases hcopy

/-- Behind a header part of less than 65536 bytes nothing coincides but the body itself. -/
theorem coincides_iff (hends : Ends blankLine header) (hnul : NulFree header) (hshort : header.length < 2 ^ 16) :
    Coincides header body early ↔
      0 < body.length ∧ body.length < 65535 ∧ isChucked (header ++ early) = false := by
  have hblank := blankLine_found hends body
  have hfour := hends.length_le (by decide)
  rw [coincides_iff_exists hblank]
  constructor
  · rintro ⟨piece, hpiece, hdecoded, _⟩
    have hpiece' := length_body?_lt hpiece
    have hresult := decoded?_cases hpiece' hdecoded
    obtain ⟨hlen, hstart⟩ := bodyLen_eq hends hshort body
    have hpos : 0 < body.length := by
      by_contra hzero
      obtain rfl : body = [] := List.length_eq_zero_iff.mp (by omega)
      rw [List.append_nil] at hpiece hblank hlen hstart
      have hcstr : 2 ≤ (cstr header).length := by
        rw [cstr_eq_self hnul]
        exact Nat.le_trans (by decide) hfour
      have hnone := body?_empty hblank hlen hstart hshort hcstr
      cases hnone.symm.trans hpiece
    have hle : body.length ≤ piece.length := by
      rcases hresult with ⟨_, rfl⟩ | ⟨_, rfl | hlt⟩
      · exact Nat.le_refl _
      · exact Nat.zero_le _
      · exact Nat.le_of_lt hlt
    have hsmall : body.length < 65535 := by omega
    refine ⟨hpos, hsmall, ?_⟩
    rw [body?_located hends hshort hpos hsmall] at hpiece
    cases hpiece
    rcases hresult with ⟨hmode, _⟩ | ⟨_, rfl | hlt⟩
    · exact hmode
    · exact absurd hpos (Nat.lt_irrefl 0)
    · exact absurd hlt (Nat.lt_irrefl _)
  · rintro ⟨hpos, hsmall, hmode⟩
    refine ⟨body, body?_located hends hshort hpos hsmall, ?_, fun hchucked => ?_⟩
    · rw [hmode]
      rfl
    · rw [hmode] at hchucked
      cases hchucked

/-- **Exactly these bodies** are delivered as they are, or as a failure. -/
theorem delivered_iff (l : StatusLine) (fields : List Line) (body : List UInt8)
    (h : Serves fresh (init fresh usessl) (l.bytes ++ (block fields ++ body)) outs) :
    Delivered (block fields) body (run (step fresh) (init fresh usessl) outs) ↔
      Deliverable fields body (arrivedEarly l (block fields) outs) := by
  have hcall := @respond_iff fresh usessl (headerBuffer outs) (block fields ++ body) fun status result chucked =>
    status < 0 ∨ result = body ∧ (chucked = true → ascii "chunked" <:+: block fields)
  rcases served l h with ⟨hblank, p, hp, hcalls⟩ | ⟨hblank, hpre, hbuffer, hrun⟩
  · -- the header is never found
    cases fields with
    | nil => exact iff_of_true ⟨p, _, hp, hcalls, Or.inl (Int.negSucc_lt_zero 0)⟩ hblank
    | cons line fields => exact absurd (blankLine_found (block_ends (List.cons_ne_nil line fields)) body) hblank
  · rw [Delivered, hrun, hcall]
    cases fields with
    | nil =>
        have hwhole : blankLine <:+: crlf ++ body := hblank.trans hpre.isInfix
        refine iff_of_false ?_ fun hnot => hnot hwhole
        rintro ⟨_, piece, result, hpiece, hresult, hneg | ⟨rfl, _⟩⟩
        · exact absurd hneg (by decide)
        · have hcut := body?_cut hwhole hpiece
          rcases decoded?_cases (length_body?_lt hpiece) hresult with ⟨_, rfl⟩ | ⟨_, rfl | hlt⟩
          · exact Nat.lt_irrefl _ hcut
          · exact Nat.not_lt_zero _ hcut
          · exact Nat.lt_asymm hlt hcut
    | cons line fields =>
        have hends := block_ends (List.cons_ne_nil line fields)
        obtain ⟨early, hearly⟩ := headerBuffer_eq hends hblank hpre
        have hsame : arrivedEarly l (block (line :: fields)) outs = early := by
          rw [arrivedEarly, ← List.drop_drop, ← hbuffer, hearly, List.drop_left]
        have hcoincides : (∃ piece result, body? (block (line :: fields) ++ body) = some piece ∧
            decoded? (isChucked (block (line :: fields) ++ early)) piece = some result ∧
              ((200 : Int) < 0 ∨ result = body ∧
                (isChucked (block (line :: fields) ++ early) = true → ascii "chunked" <:+: block (line :: fields)))) ↔
            Coincides (block (line :: fields)) body early := by
          rw [coincides_iff_exists (blankLine_found hends body)]
          constructor
          · rintro ⟨piece, result, hpiece, hresult, hneg | ⟨rfl, hmode⟩⟩
            · exact absurd hneg (by decide)
            · exact ⟨piece, hpiece, hresult, hmode⟩
          · rintro ⟨piece, hpiece, hresult, hmode⟩
            exact ⟨piece, body, hpiece, hresult, Or.inr ⟨rfl, hmode⟩⟩
        rw [hsame, hearly]
        refine and_congr_right fun _ => hcoincides.trans ?_
        split
        next hshort => exact coincides_iff hends (nulFree_block _) hshort
        next => exact Iff.rfl

/-- The field `A: b`. -/
def oneField : Line := ⟨ascii "A: b", by decide, by decide +kernel⟩

theorem delivered_iff_one :
    Delivered (block [oneField]) (ascii "x") (run (step fun _ => 0) (init (fun _ => 0) false)
      (inOneRead (okLine.bytes ++ (block [oneField] ++ ascii "x")))) ↔
      Deliverable [oneField] (ascii "x") (arrivedEarly okLine (block [oneField])
        (inOneRead (okLine.bytes ++ (block [oneField] ++ ascii "x")))) :=
  delivered_iff okLine [oneField] (ascii "x") (by decide +kernel)

/-- A body with the text `chunked`, which arrives with the header, is decoded to nothing; and the copy of an empty body
    leaves the buffer. -/
theorem chunked_text_and_empty_body :
    (∃ (l : StatusLine) (fields : List Line) (body : List UInt8) (outs : List Completion),
      Serves (fun _ => 0) (init (fun _ => 0) false) (l.bytes ++ (block fields ++ body)) outs ∧
        ¬ Delivered (block fields) body (run (step fun _ => 0) (init (fun _ => 0) false) outs)) ∧
    ∃ (l : StatusLine) (fields : List Line) (outs : List Completion),
      Serves (fun _ => 0) (init (fun _ => 0) false) (l.bytes ++ (block fields ++ [])) outs ∧
        run (step fun _ => 0) (init (fun _ => 0) false) outs = none := by
  refine ⟨⟨okLine, [oneField], ascii "not chunked",
    inOneRead (okLine.bytes ++ (block [oneField] ++ ascii "not chunked")), by decide +kernel, ?_⟩, okLine, [oneField],
    inOneRead (okLine.bytes ++ (block [oneField] ++ [])), by decide +kernel, ?_⟩
  · rintro ⟨p, call, hp, hcalls, hresult⟩
    have hrun : (run (step fun _ => 0) (init (fun _ => 0) false)
        (inOneRead (okLine.bytes ++ (block [oneField] ++ ascii "not chunked")))).map
          (fun p => p.calls.map fun call => (call.status, call.result)) = some [(200, [])] := by decide +kernel
    rw [hp, Option.map_some, hcalls, Option.some.injEq, List.map_singleton] at hrun
    obtain ⟨hstatus, hempty⟩ := Prod.mk.inj (List.cons.inj hrun).1
    rw [hstatus, hempty] at hresult
    rcases hresult with hneg | ⟨hsame, _⟩
    · exact absurd hneg (by decide)
    · exact absurd hsame (by decide)
  · apply Option.map_eq_none_iff.mp
    show (run (step fun _ => 0) (init (fun _ => 0) false)
      (inOneRead (okLine.bytes ++ (block [oneField] ++ [])))).map (·.calls) = none
    decide +kernel

end Plain

end HttpProxy

end Mowang
