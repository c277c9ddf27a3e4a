import Mowang.HttpClient.HttpProxy

/-!
# `HttpClient.HttpAnswers` — what a request is answered with

A request is to be answered once: with a negative status if the transport fails or the status line is none, and with
the status code of the response otherwise. A host that is not resolved is never answered. The test of the status code
is of two ranges that exclude each other, so every response that is read to its end is answered with 200. Where the
copy of the header or of the body leaves the buffer, an empty body in particular, there is no telling.

## Contents
- `InBounds`, `answer?_isSome_iff`.
- `Answered`, `answered_iff` — the requests that are answered so.
- `outcome_of_run` — the answers are the outcomes that the callbacks of the etcd requests are modelled with.
-/

namespace Mowang

namespace HttpProxy

open Search HttpMessage

/-! ## The copies -/

section Copies

/-- Where the copy of a body begins that stands at `position`. -/
def copyStart (position : Nat) : Nat := if 0 < toInt position then position % 2 ^ 16 else 0

/-- Where the copy of the body begins. -/
def bodyStart (response : List UInt8) : Nat := copyStart (find response blankLine 0 + 4)

/-- The number of bytes that is asked for; 0 asks for the C string that the whole buffer is. -/
def bodyLen (response : List UInt8) : Nat := (response.length - bodyStart response) % 2 ^ 16

/-- The length of a C string, in 16 bits. -/
def strlen16 (s : List UInt8) : Nat := (cstr s).length % 2 ^ 16

/-- The copies of the header and of the body stay inside the buffer, and are not of 65535 bytes. -/
structure InBounds (header response : List UInt8) : Prop where
  header : strlen16 header ≠ 65535
  body : bodyLen response ≠ 65535
  empty : bodyLen response = 0 →
    strlen16 response ≠ 65535 ∧ bodyStart response + strlen16 response ≤ response.length + 1

/-- The conversion keeps the lower 16 bits. -/
theorem toInt_emod (n : Nat) : toInt n % 2 ^ 16 = (n % 2 ^ 16 : Nat) := by
  unfold toInt
  generalize hm : (n : Int).bmod (2 ^ 32) = m
  rw [Int.bmod_def] at hm
  split at hm
  · omega
  · omega

theorem bodyPart_eq {size found : Nat} (h : found + 4 ≤ size) :
    bodyPart size found = ((size - copyStart (found + 4)) % 2 ^ 16, copyStart (found + 4)) := by
  have hmod := toInt_emod (found + 4)
  rw [bodyPart, copyStart]
  by_cases hpos : 0 < toInt (found + 4)
  · have hle : (found + 4) % 2 ^ 16 ≤ found + 4 := Nat.mod_le _ _
    simp only [gt_iff_lt, hpos, if_true, hmod, Int.toNat_natCast, Prod.mk.injEq, and_true]
    generalize toInt (found + 4) = offset at hmod
    omega
  · simp only [gt_iff_lt, hpos, if_false, Int.toNat_natCast, Nat.sub_zero]

theorem appended?_zero (s : List UInt8) (offset : Nat) :
    appended? (s ++ [0]) 0 offset =
      if offset + strlen16 s ≤ s.length + 1 ∧ strlen16 s ≠ 65535 then
        some (((s ++ [0]).drop offset).take (strlen16 s))
      else none := by
  rw [appended?, if_pos rfl, strlen?_nul, Option.map_some, Option.bind_some, List.length_append, List.length_singleton]
  rfl

theorem appended?_pos {s : List UInt8} {len offset : Nat} (hlen : len ≠ 0) (hread : offset + len ≤ s.length) :
    appended? (s ++ [0]) len offset = if len ≠ 65535 then some ((s.drop offset).take len) else none := by
  rw [appended?, if_neg hlen, Option.bind_some, List.length_append, List.length_singleton,
    List.drop_append_of_le_length (by omega), List.take_append_of_le_length (by rw [List.length_drop]; omega)]
  exact if_congr ⟨fun h => h.2, fun h => ⟨by omega, h⟩⟩ rfl rfl

theorem strlen16_le (s : List UInt8) : strlen16 s ≤ s.length := (Nat.mod_le _ _).trans (cstr_length_le s)

/-- The copy of a body behind a blank line. -/
theorem body?_eq {response : List UInt8} (hblank : blankLine <:+: response) :
    body? response = appended? (response ++ [0]) (bodyLen response) (bodyStart response) ∧
      bodyStart response ≤ response.length := by
  obtain ⟨i, hi⟩ := Option.isSome_iff_exists.mp (find?_isSome_iff.mpr hblank)
  have hle := find?_le hi (by decide)
  have hfind : find response blankLine 0 = i := by
    rw [find_zero, hi]
    rfl
  have hfit : find response blankLine 0 + 4 ≤ response.length := by
    rw [hfind]
    exact hle
  have hstart : bodyStart response ≤ response.length := by
    rw [bodyStart, copyStart]
    split
    · exact (Nat.mod_le _ _).trans hfit
    · exact Nat.zero_le _
  have hpart : bodyPart response.length (find response blankLine 0) = (bodyLen response, bodyStart response) :=
    bodyPart_eq hfit
  refine ⟨?_, hstart⟩
  rw [body?, hpart]

/-- What is copied can be decoded. -/
theorem decoded?_isSome {data body : List UInt8} {len offset : Nat} (hlen : len < 2 ^ 16)
    (h : appended? data len offset = some body) (chucked : Bool) : (decoded? chucked body).isSome := by
  have hadded := @appendIn_emptyString (fun _ => 0) data _ hlen offset
  rw [h] at hadded
  rcases hadded with ⟨hnone, _⟩ | ⟨body', s, hsome, _, hterminated⟩
  · cases hnone
  · cases hsome
    have hshort := length_lt_of_terminated hterminated
    have hle := cstr_length_le body
    obtain ⟨out, hout, _⟩ := @decode?_spec (cstr body) (by omega)
    rw [decoded?]
    cases chucked with
    | false => rfl
    | true => rw [if_pos rfl, hout]; rfl

/-- The copy of a body, and where it leaves the buffer. -/
theorem body?_isSome_iff {response : List UInt8} (hblank : blankLine <:+: response) :
    (body? response).isSome ↔ bodyLen response ≠ 65535 ∧
      (bodyLen response = 0 →
        strlen16 response ≠ 65535 ∧ bodyStart response + strlen16 response ≤ response.length + 1) := by
  obtain ⟨hbody, hstart⟩ := body?_eq hblank
  rw [hbody]
  by_cases hlen : bodyLen response = 0
  · rw [hlen, appended?_zero]
    constructor
    · intro h
      split at h
      next hread => exact ⟨nofun, fun _ => hread.symm⟩
      next => cases h
    · rintro ⟨_, hread⟩
      rw [if_pos (hread rfl).symm]
      rfl
  · have hread : bodyStart response + bodyLen response ≤ response.length := by
      have hle : bodyLen response ≤ response.length - bodyStart response := Nat.mod_le _ _
      omega
    rw [appended?_pos hlen hread]
    constructor
    · intro h
      split at h
      next hne => exact ⟨hne, fun h => absurd h hlen⟩
      next => cases h
    · rintro ⟨hne, _⟩
      rw [if_pos hne]
      rfl

/-- **The copies have a result** exactly if they are in bounds. -/
theorem answer?_isSome_iff {header response : List UInt8} (hblank : blankLine <:+: response) :
    (answer? header response).isSome ↔ InBounds header response := by
  have hle := strlen16_le header
  rw [answer?, appended?_zero]
  by_cases hheader : strlen16 header = 65535
  · rw [if_neg fun h => h.2 hheader]
    exact iff_of_false Bool.false_ne_true fun h => h.header hheader
  rw [if_pos ⟨by omega, hheader⟩, Option.bind_some]
  cases hbody : body? response with
  | none =>
      refine iff_of_false Bool.false_ne_true fun h => ?_
      have hsome := (body?_isSome_iff hblank).mpr ⟨h.body, h.empty⟩
      rw [hbody] at hsome
      cases hsome
  | some body =>
      have hin := (body?_isSome_iff hblank).mp (by rw [hbody]; rfl)
      rw [(body?_eq hblank).1] at hbody
      obtain ⟨result, hresult⟩ := Option.isSome_iff_exists.mp
        (decoded?_isSome (Nat.mod_lt _ (by decide)) hbody (isChucked header))
      rw [Option.bind_some, hresult]
      exact iff_of_true rfl ⟨hheader, hin.1, hin.2⟩

end Copies

/-! ## Answers -/

section Answers

/-- The status code that is read. -/
def statusCode? (outs : List Completion) : Option Nat := (statusLine? outs).map Prod.fst

/-- The request is answered once: with a negative status if the transport failed, or there is no status code, and with
    the status code otherwise. -/
def Answered (outs : List Completion) (result : Option Proxy) : Prop :=
  ∃ p call, result = some p ∧ p.calls = [call] ∧
    if ∃ o ∈ outs, o.Failed then call.status < 0
    else
      match statusCode? outs with
      | some code => call.status = code
      | none      => call.status < 0

/-- The host was resolved. -/
def Resolved (outs : List Completion) : Prop := ∀ o ∈ outs, o.operation = .resolve → o.error = .success

instance (outs : List Completion) : Decidable (Resolved outs) :=
  inferInstanceAs (Decidable (∀ o ∈ outs, o.operation = .resolve → o.error = .success))

variable {fresh : Nat → UInt8} {usessl : Bool} {outs : List Completion}

theorem failureCalls_eq {operation : Operation} (h : operation ≠ .resolve) :
    ∃ error : Etcd.TransportError, failureCalls operation = [⟨-1, [], error.text⟩] := by
  cases operation with
  | resolve => exact absurd rfl h
  | connect => exact ⟨.connect, rfl⟩
  | handshake => exact ⟨.handshake, rfl⟩
  | write => exact ⟨.write, rfl⟩
  | readStatusLine => exact ⟨.readStatusLine, rfl⟩
  | readHeader => exact ⟨.readHeaders, rfl⟩
  | readBody => exact ⟨.readContent, rfl⟩

theorem resolved_of_not_failed (hall : ∀ o ∈ outs, ¬ o.Failed) : Resolved outs := by
  intro o ho hop
  by_contra herror
  exact hall o ho ⟨herror, fun h => by rw [hop] at h; cases h.1⟩

theorem responseBuffer_blank (h : blankLine <:+: headerBuffer outs) : blankLine <:+: responseBuffer outs :=
  h.trans (List.prefix_append _ _).isInfix

/-- **Exactly the requests** whose host is resolved, and whose response, if there is one, has the status 200 and is
    copied inside the buffer, are answered once and with their status. -/
theorem answered_iff (h : Completes fresh (init fresh usessl) outs) :
    Answered outs (run (step fresh) (init fresh usessl) outs) ↔
      Resolved outs ∧ ((∀ o ∈ outs, ¬ o.Failed) → ∀ code, statusCode? outs = some code →
        code = 200 ∧ InBounds (headerBuffer outs) (responseBuffer outs)) := by
  have hended := run_ended h
  generalize run (step fresh) (init fresh usessl) outs = result at hended
  cases hended with
  | @failed front o p hlast hfront hfailed hcalls _ _ =>
      have ho : o ∈ outs := by
        rw [hlast]
        exact List.mem_append_right _ List.mem_cons_self
      have hany : ∃ o ∈ outs, o.Failed := ⟨o, ho, hfailed⟩
      by_cases hop : o.operation = .resolve
      · -- nobody is called back
        refine iff_of_false ?_ fun hresolved => hfailed.1 (hresolved.1 o ho hop)
        rintro ⟨q, call, hq, hcall, _⟩
        cases hq
        rw [hcalls, hop] at hcall
        cases hcall
      · obtain ⟨error, herror⟩ := failureCalls_eq hop
        refine iff_of_true ⟨p, _, rfl, hcalls.trans herror, ?_⟩
          ⟨fun o' ho' hop' => ?_, fun hall => absurd hfailed (hall o ho)⟩
        · rw [if_pos hany]
          exact Int.negSucc_lt_zero 0
        · rw [hlast] at ho'
          rcases List.mem_append.mp ho' with hmem | hmem
          · exact hfront o' hmem
          · rw [List.mem_singleton.mp hmem] at hop'
            exact absurd hop' hop
  | @invalid p hall hline _ _ hcalls =>
      have hnot : ¬ ∃ o ∈ outs, o.Failed := fun ⟨o, ho, hfailed⟩ => hfailed.1 (hall o ho)
      have hcode : statusCode? outs = none := by rw [statusCode?, hline]; rfl
      refine iff_of_true ⟨p, _, rfl, hcalls, ?_⟩ ⟨fun o ho _ => hall o ho, fun _ code hsome => ?_⟩
      · rw [if_neg hnot, hcode]
        exact Int.negSucc_lt_zero 0
      · rw [hcode] at hsome
        cases hsome
  | @responded code rest hall hline _ hblank _ _ =>
      have hnot : ¬ ∃ o ∈ outs, o.Failed := fun ⟨o, ho, hfailed⟩ => hall o ho hfailed
      have hcode : statusCode? outs = some code := by rw [statusCode?, hline]; rfl
      have hspec := @respond_spec fresh usessl (headerBuffer outs) (responseBuffer outs)
      have hbounds := @answer?_isSome_iff (headerBuffer outs) _ (responseBuffer_blank hblank)
      cases hanswer : answer? (headerBuffer outs) (responseBuffer outs) with
      | none =>
          rw [hanswer] at hspec hbounds
          have hnone : respond fresh usessl (headerBuffer outs) (responseBuffer outs) = none :=
            Option.map_eq_none_iff.mp hspec
          refine iff_of_false ?_ fun hcond => ?_
          · rintro ⟨q, _, hq, _⟩
            rw [hnone] at hq
            cases hq
          · cases hbounds.mpr (hcond.2 hall code hcode).2
      | some answer =>
          rw [hanswer] at hspec hbounds
          obtain ⟨p, hp, hview⟩ := Option.map_eq_some_iff.mp hspec
          -- the callback is given 200, whatever the status line said
          have hcalls : p.calls = [⟨200, answer.1, answer.2⟩] := congrArg Prod.snd hview
          constructor
          · rintro ⟨q, call, hq, hcall, hstatus⟩
            rw [hp] at hq
            cases hq
            rw [hcalls] at hcall
            cases hcall
            rw [if_neg hnot, hcode] at hstatus
            refine ⟨resolved_of_not_failed hall, fun _ code' hcode' => ?_⟩
            rw [hcode] at hcode'
            cases hcode'
            exact ⟨(Int.ofNat.inj hstatus).symm, hbounds.mp rfl⟩
          · rintro ⟨_, hcond⟩
            obtain ⟨rfl, _⟩ := hcond hall code hcode
            refine ⟨p, _, hp, hcalls, ?_⟩
            rw [if_neg hnot, hcode]
            rfl

/-- The completions of a request over http, whose response arrives in one read. -/
def inOneRead (response : List UInt8) : List Completion :=
  [⟨.resolve, .success, []⟩, ⟨.connect, .success, []⟩, ⟨.write, .success, []⟩, ⟨.readStatusLine, .success, response⟩,
    ⟨.readHeader, .success, []⟩, ⟨.readBody, .eof, []⟩]

theorem answered_iff_ok :
    Answered (inOneRead (ascii "HTTP/1.1 200 OK\r\nA: b\r\n\r\nx")) (run (step fun _ => 0) (init (fun _ => 0) false)
      (inOneRead (ascii "HTTP/1.1 200 OK\r\nA: b\r\n\r\nx"))) := by
  refine (answered_iff (by decide +kernel)).mpr ⟨by decide +kernel, fun _ code hcode => ?_⟩
  have hok : statusCode? (inOneRead (ascii "HTTP/1.1 200 OK\r\nA: b\r\n\r\nx")) = some 200 := by decide +kernel
  cases hok.symm.trans hcode
  exact ⟨rfl, by decide +kernel, by decide +kernel, by decide +kernel⟩

/-- A response with the status 404 is reported with 200, and a host that is not resolved is not reported. -/
theorem not_found_and_unresolved :
    (∃ outs, Completes (fun _ => 0) (init (fun _ => 0) false) outs ∧
      ¬ Answered outs (run (step fun _ => 0) (init (fun _ => 0) false) outs)) ∧
    ∃ outs p, Completes (fun _ => 0) (init (fun _ => 0) false) outs ∧
      run (step fun _ => 0) (init (fun _ => 0) false) outs = some p ∧ p.calls = [] := by
  refine ⟨⟨inOneRead (ascii "HTTP/1.1 404 Not Found\r\nA: b\r\n\r\nx"), by decide +kernel, ?_⟩,
    [⟨.resolve, .other, []⟩], _, by decide +kernel, rfl, rfl⟩
  rintro ⟨p, call, hp, hcalls, hstatus⟩
  have hrun : (run (step fun _ => 0) (init (fun _ => 0) false)
      (inOneRead (ascii "HTTP/1.1 404 Not Found\r\nA: b\r\n\r\nx"))).map (fun p => p.calls.map Call.status) =
        some [200] := by decide +kernel
  rw [hp, Option.map_some, hcalls, Option.some.injEq, List.map_singleton] at hrun
  have hcode : statusCode? (inOneRead (ascii "HTTP/1.1 404 Not Found\r\nA: b\r\n\r\nx")) = some 404 := by
    decide +kernel
  rw [if_neg (by decide +kernel), hcode, (List.cons.inj hrun).1] at hstatus
  revert hstatus
  decide

/-! ## Outcomes -/

/-- What an outcome of an etcd request calls back. -/
def outcomeCalls : Etcd.Outcome → List Call
  | .unresolved           => []
  | .failed error         => [⟨-1, [], error.text⟩]
  | .response header body => [⟨200, header, body⟩]

/-- **The answers of a request** are those of an outcome, as the callbacks of the etcd requests are modelled with. -/
theorem outcome_of_run (h : Completes fresh (init fresh usessl) outs) {p : Proxy}
    (hp : run (step fresh) (init fresh usessl) outs = some p) : ∃ outcome, p.calls = outcomeCalls outcome := by
  have hended := run_ended h
  rw [hp] at hended
  generalize hresult : some p = result at hended
  cases hended with
  | @failed front o q _ _ _ hcalls _ _ =>
      cases hresult
      by_cases hop : o.operation = .resolve
      · exact ⟨.unresolved, by rw [hcalls, hop]; rfl⟩
      · obtain ⟨error, herror⟩ := failureCalls_eq hop
        exact ⟨.failed error, hcalls.trans herror⟩
  | invalid _ _ _ _ hcalls =>
      cases hresult
      exact ⟨.failed .invalidResponse, hcalls⟩
  | responded _ _ _ _ _ _ =>
      have hview := @respond_spec fresh usessl (headerBuffer outs) (responseBuffer outs)
      rw [← hresult, Option.map_some] at hview
      obtain ⟨⟨header, result⟩, _, hsame⟩ := Option.map_eq_some_iff.mp hview.symm
      exact ⟨.response header result, (congrArg Prod.snd hsame).symm⟩

end Answers

end HttpProxy

end Mowang
