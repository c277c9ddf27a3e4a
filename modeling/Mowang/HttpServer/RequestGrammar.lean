import Mowang.Base.HttpMessage
import Mowang.HttpServer.RequestParser

/-!
# `HttpServer.RequestGrammar` — the requests that the parser accepts

A `Message` is a request line and header lines, where a line that begins with a blank goes on with the value of the
header before it. The parser accepts these texts and no others, and fills the request with what they say.

A version number is the value of its digits, modulo what an `int` holds.

## Contents
- `Field`, `Fold`, `Line`, `Message`; `Message.bytes`, `Message.request`.
- The loops of the parser.
- `Line.passes`, `line_split` — one header line.
- `Message.accepts`, `accepts_iff`, `parse_spec`.
-/

namespace Mowang

namespace RequestParser

open Recognizer HttpMessage

/-! ## Messages -/

/-- A header field. -/
structure Field where
  name : List UInt8
  value : List UInt8
  nonempty : name ≠ []
  token : ∀ c ∈ name, tokenChar c = true
  text : ∀ c ∈ value, textChar c = true

/-- A line that goes on with a value. -/
structure Fold where
  blanks : List UInt8
  value : List UInt8
  nonempty : blanks ≠ []
  blank : ∀ c ∈ blanks, c = 32 ∨ c = 9
  text : ∀ c ∈ value, textChar c = true
  begins : value.head? ≠ some 32

inductive Line
  | field (f : Field)
  | fold (f : Fold)

namespace Line

def bytes : Line → List UInt8
  | .field f => f.name ++ 58 :: 32 :: (f.value ++ crlf)
  | .fold f  => f.blanks ++ (f.value ++ crlf)

/-- The headers with this line behind them. -/
def addTo (headers : List Header) : Line → List Header
  | .field f => headers ++ [⟨f.name, f.value⟩]
  | .fold f  => headers.modifyLast fun h => { h with value := h.value ++ f.value }

/-- The line can follow these headers. -/
def Follows (headers : List Header) : Line → Prop
  | .field _ => True
  | .fold _  => headers ≠ []

end Line

/-- A request. -/
structure Message where
  method : List UInt8
  uri : List UInt8
  major : List UInt8
  minor : List UInt8
  lines : List Line
  method_ne_nil : method ≠ []
  method_token : ∀ c ∈ method, tokenChar c = true
  uri_text : ∀ c ∈ uri, c ≠ 32 ∧ textChar c = true
  major_ne_nil : major ≠ []
  major_digits : ∀ c ∈ major, isDigit (toChar c) = true
  minor_ne_nil : minor ≠ []
  minor_digits : ∀ c ∈ minor, isDigit (toChar c) = true
  begins : ∀ l, lines.head? = some l → l.Follows []

/-- The digits of a version number, read by `nextVersion`. -/
def version (digits : List UInt8) : Int := (digitsValue digits : Int).bmod (2 ^ 32)

namespace Message

def bytes (m : Message) : List UInt8 :=
  m.method ++ 32 :: (m.uri ++ 32 :: (ascii "HTTP/" ++ (m.major ++ 46 :: (m.minor ++ (crlf ++
    (m.lines.flatMap Line.bytes ++ crlf))))))

/-- What the message says. -/
def request (m : Message) : Request :=
  ⟨m.method, m.uri, version m.major, version m.minor, m.lines.foldl Line.addTo []⟩

end Message

/-! ## The loops -/

theorem digitsValue_append (v : List UInt8) (c : UInt8) :
    digitsValue (v ++ [c]) = 10 * digitsValue v + (c.toNat - 48) := by
  rw [digitsValue, List.foldl_append]
  rfl

theorem bmod_next (v d : Int) (n : Nat) : (v.bmod n * 10 + d - 48).bmod n = (v * 10 + d - 48).bmod n := by
  rw [← Int.bmod_sub_bmod, ← Int.bmod_add_bmod, Int.bmod_mul_bmod, Int.bmod_add_bmod, Int.bmod_sub_bmod]

theorem cast_digitsValue_append (v : List UInt8) {c : UInt8} (hc : 48 ≤ c.toNat) :
    ((digitsValue (v ++ [c]) : Nat) : Int) = (digitsValue v : Int) * 10 + c.toNat - 48 := by
  rw [digitsValue_append]
  omega

/-- The number that the parser keeps is the value of the digits so far. -/
theorem nextVersion_version (v : List UInt8) {c : UInt8} (hc : isDigit (toChar c) = true) :
    nextVersion (version v) c = version (v ++ [c]) := by
  have hchar := toChar_of_isDigit hc
  have hcast := cast_digitsValue_append v hchar.2.1
  calc nextVersion (version v) c
    _ = (version v * 10 + c.toNat - 48).bmod (2 ^ 32) := by rw [← hchar.1]; exact Eq.refl _
    _ = ((digitsValue v : Int) * 10 + c.toNat - 48).bmod (2 ^ 32) := bmod_next _ _ _
    _ = version (v ++ [c]) := by rw [← hcast]; exact Eq.refl _

section Loops

variable (r : Request) (hs : List Header) (h : Header)

theorem method_loop : Loop consume (fun v => ⟨.method, { r with method := v }⟩) (fun c => tokenChar c = true) 32
    (fun v => ⟨.uri, { r with method := v }⟩) where
  stops _ := rfl
  takes v c hne hok := by
    simp only [consume, if_neg hne, notToken_eq, hok, Bool.not_true, Bool.false_eq_true, if_false]
  rejects v c hne hok := by
    simp only [consume, if_neg hne, notToken_eq, hok, Bool.not_false, if_true]

theorem uri_loop : Loop consume (fun v => ⟨.uri, { r with uri := v }⟩) (fun c => textChar c = true) 32
    (fun v => ⟨.httpVersionH, { r with uri := v }⟩) where
  stops _ := rfl
  takes v c hne hok := by
    have hctl : isCtl (toChar c) = false := by simpa [textChar] using hok
    simp only [consume, if_neg hne, hctl, Bool.false_eq_true, if_false]
  rejects v c hne hok := by
    have hctl : isCtl (toChar c) = true := by simpa [textChar] using hok
    simp only [consume, if_neg hne, hctl, if_true]

-- `number` is `version`, which is kept closed here
theorem major_loop {number : List UInt8 → Int}
    (hnumber : ∀ v c, isDigit (toChar c) = true → nextVersion (number v) c = number (v ++ [c])) :
    Loop consume (fun v => ⟨.httpVersionMajor, { r with httpVersionMajor := number v }⟩)
      (fun c => isDigit (toChar c) = true) 46
      (fun v => ⟨.httpVersionMinorStart, { r with httpVersionMajor := number v }⟩) where
  stops _ := rfl
  takes v c hne hok := by
    simp only [consume, if_neg hne, if_pos hok, hnumber v c hok]
  rejects v c hne hok := by
    simp only [consume, if_neg hne, if_neg hok]

theorem minor_loop {number : List UInt8 → Int}
    (hnumber : ∀ v c, isDigit (toChar c) = true → nextVersion (number v) c = number (v ++ [c])) :
    Loop consume (fun v => ⟨.httpVersionMinor, { r with httpVersionMinor := number v }⟩)
      (fun c => isDigit (toChar c) = true) 13
      (fun v => ⟨.expectingNewline1, { r with httpVersionMinor := number v }⟩) where
  stops _ := rfl
  takes v c hne hok := by
    simp only [consume, if_neg hne, if_pos hok, hnumber v c hok]
  rejects v c hne hok := by
    simp only [consume, if_neg hne, if_neg hok]

theorem modifyBack_concat (f : Header → Header) :
    Request.modifyBack { r with headers := hs ++ [h] } f = { r with headers := hs ++ [f h] } := by
  rw [Request.modifyBack, List.modifyLast_concat]

theorem name_loop (value : List UInt8) :
    Loop consume (fun v => ⟨.headerName, { r with headers := hs ++ [⟨v, value⟩] }⟩) (fun c => tokenChar c = true) 58
      (fun v => ⟨.spaceBeforeHeaderValue, { r with headers := hs ++ [⟨v, value⟩] }⟩) where
  stops _ := rfl
  takes v c hne hok := by
    simp only [consume, if_neg hne, notToken_eq, hok, Bool.not_true, Bool.false_eq_true, if_false, modifyBack_concat]
  rejects v c hne hok := by
    simp only [consume, if_neg hne, notToken_eq, hok, Bool.not_false, if_true]

theorem value_loop (name : List UInt8) :
    Loop consume (fun v => ⟨.headerValue, { r with headers := hs ++ [⟨name, v⟩] }⟩) (fun c => textChar c = true) 13
      (fun v => ⟨.expectingNewline2, { r with headers := hs ++ [⟨name, v⟩] }⟩) where
  stops _ := rfl
  takes v c hne hok := by
    have hctl : isCtl (toChar c) = false := by simpa [textChar] using hok
    simp only [consume, if_neg hne, hctl, Bool.false_eq_true, if_false, modifyBack_concat]
  rejects v c hne hok := by
    have hctl : isCtl (toChar c) = true := by simpa [textChar] using hok
    simp only [consume, if_neg hne, hctl, if_true]

end Loops

/-! ## One header line -/

section Lines

variable {r : Request} {p' : Parser} {word : List UInt8}

theorem tokenChar_ne {c d : UInt8} (hc : tokenChar c = true) (hd : tokenChar d = false) : c ≠ d := by
  rintro rfl
  exact Bool.false_ne_true (hd.symm.trans hc)

theorem textChar_ne {c d : UInt8} (hc : textChar c = true) (hd : textChar d = false) : c ≠ d := by
  rintro rfl
  exact Bool.false_ne_true (hd.symm.trans hc)

/-- A name begins. -/
theorem consume_name {c : UInt8} (hc : tokenChar c = true) (r : Request) :
    consume ⟨.headerLineStart, r⟩ c =
      (.indeterminate, ⟨.headerName, { r with headers := r.headers ++ [⟨[c], []⟩] }⟩) := by
  have hblank : ¬ (r.headers ≠ [] ∧ (c = 32 ∨ c = 9)) := by
    rintro ⟨_, heq | heq⟩
    · exact tokenChar_ne hc (by decide) heq
    · exact tokenChar_ne hc (by decide) heq
  simp only [consume, if_neg (tokenChar_ne hc (show tokenChar 13 = false by decide)), if_neg hblank, notToken_eq, hc,
    Bool.not_true, Bool.false_eq_true, if_false]

/-- A line begins with a blank. -/
theorem consume_blank {c : UInt8} (hc : c = 32 ∨ c = 9) (hr : r.headers ≠ []) :
    consume ⟨.headerLineStart, r⟩ c = (.indeterminate, ⟨.headerLws, r⟩) := by
  have hcr : c ≠ 13 := by
    rcases hc with rfl | rfl
    · decide
    · decide
  simp only [consume, if_neg hcr]
  exact if_pos ⟨hr, hc⟩

theorem consume_lws_blank {c : UInt8} (hc : c = 32 ∨ c = 9) (r : Request) :
    consume ⟨.headerLws, r⟩ c = (.indeterminate, ⟨.headerLws, r⟩) := by
  rcases hc with rfl | rfl
  · rfl
  · rfl

/-- A value goes on. -/
theorem consume_lws_text {c : UInt8} (hc : textChar c = true) (hblank : ¬ (c = 32 ∨ c = 9)) (r : Request)
    (hs : List Header) (h : Header) :
    consume ⟨.headerLws, { r with headers := hs ++ [h] }⟩ c =
      (.indeterminate, ⟨.headerValue, { r with headers := hs ++ [⟨h.name, h.value ++ [c]⟩] }⟩) := by
  have hctl : isCtl (toChar c) = false := by simpa [textChar] using hc
  simp only [consume, if_neg (textChar_ne hc (show textChar 13 = false by decide)), if_neg hblank, hctl,
    Bool.false_eq_true, if_false, modifyBack_concat]

theorem lws_passes {blanks : List UInt8} (h : ∀ c ∈ blanks, c = 32 ∨ c = 9) (r : Request) :
    Passes consume ⟨.headerLws, r⟩ ⟨.headerLws, r⟩ blanks := by
  induction blanks with
  | nil => exact Passes.nil _
  | cons c blanks ih =>
      obtain ⟨hc, hblanks⟩ := List.forall_mem_cons.mp h
      exact Passes.cons (consume_lws_blank hc r) (ih hblanks)

theorem lws_split (h : Accepts consume ⟨.headerLws, r⟩ p' word) :
    ∃ blanks c rest, word = blanks ++ c :: rest ∧ (∀ b ∈ blanks, b = 32 ∨ b = 9) ∧ ¬ (c = 32 ∨ c = 9) ∧
      (c = 13 ∨ textChar c = true) ∧ Accepts consume ⟨.headerLws, r⟩ p' (c :: rest) := by
  induction word with
  | nil => exact ResultType.noConfusion (congrArg Prod.fst h)
  | cons c word ih =>
      by_cases hblank : c = 32 ∨ c = 9
      · obtain ⟨blanks, c', rest, rfl, hblanks, hrest⟩ := ih (h.tail (consume_lws_blank hblank r))
        exact ⟨c :: blanks, c', rest, rfl, List.forall_mem_cons.mpr ⟨hblank, hblanks⟩, hrest⟩
      · refine ⟨[], c, word, rfl, List.forall_mem_nil _, hblank, ?_, h⟩
        obtain ⟨c', rest, hcons, hok⟩ := @Accepts.head _ _ _ _ _ _
          (fun c => (c = 32 ∨ c = 9) ∨ c = 13 ∨ textChar c = true) h fun c hc => by
            obtain ⟨hblank, hcr, htext⟩ := not_or.mp hc |>.imp_right not_or.mp
            have hctl : isCtl (toChar c) = true := by simpa [textChar] using htext
            simp only [consume, if_neg hcr, if_neg hblank, hctl, if_true]
        obtain ⟨rfl, rfl⟩ := List.cons.inj hcons
        exact hok.resolve_left hblank

/-- The parser takes a header line, and has its header. -/
theorem Line.passes (l : Line) (r : Request) (hl : l.Follows r.headers) :
    Passes consume ⟨.headerLineStart, r⟩ ⟨.headerLineStart, { r with headers := l.addTo r.headers }⟩ l.bytes := by
  have hnewline : ∀ r' : Request, Passes consume ⟨.expectingNewline2, r'⟩ ⟨.headerLineStart, r'⟩ [10] :=
    fun r' => Passes.cons rfl (Passes.nil _)
  cases l with
  | field f =>
      obtain ⟨c, name, hname⟩ := List.exists_cons_of_ne_nil f.nonempty
      obtain ⟨hc, htoken⟩ := List.forall_mem_cons.mp (hname ▸ f.token)
      have hcolon := (name_loop r r.headers []).passes (v := [c]) (w := name)
        fun b hb => ⟨tokenChar_ne (htoken b hb) (by decide), htoken b hb⟩
      have hspace : Passes consume ⟨.spaceBeforeHeaderValue, { r with headers := r.headers ++ [⟨f.name, []⟩] }⟩
          ⟨.headerValue, { r with headers := r.headers ++ [⟨f.name, []⟩] }⟩ [32] := Passes.cons rfl (Passes.nil _)
      have hvalue := (value_loop r r.headers f.name).passes (v := []) (w := f.value)
        fun b hb => ⟨textChar_ne (f.text b hb) (by decide), f.text b hb⟩
      have hbytes : (Line.field f).bytes = c :: (name ++ [58] ++ ([32] ++ (f.value ++ [13] ++ [10]))) := by
        simp only [Line.bytes, hname, crlf, List.append_assoc, List.cons_append, List.nil_append]
      rw [show [c] ++ name = f.name from hname.symm] at hcolon
      rw [hbytes]
      exact Passes.cons (consume_name hc r) (hcolon.append (hspace.append (hvalue.append (hnewline _))))
  | fold f =>
      obtain ⟨hs, h, hr⟩ := (List.eq_nil_or_concat' r.headers).resolve_left hl
      obtain ⟨b, blanks, hblanks⟩ := List.exists_cons_of_ne_nil f.nonempty
      obtain ⟨hb, hblank⟩ := List.forall_mem_cons.mp (hblanks ▸ f.blank)
      have hself : { r with headers := hs ++ [h] } = r := by rw [← hr]
      have hadd : (Line.fold f).addTo r.headers = hs ++ [⟨h.name, h.value ++ f.value⟩] := by
        rw [Line.addTo, hr, List.modifyLast_concat]
      have hstart := Passes.cons (consume_blank hb hl) (lws_passes hblank r)
      rw [hadd]
      cases hvalue : f.value with
      | nil =>
          have hcr : Passes consume ⟨.headerLws, r⟩ ⟨.expectingNewline2, r⟩ [13] := Passes.cons rfl (Passes.nil _)
          have hbytes : (Line.fold f).bytes = b :: blanks ++ ([13] ++ [10]) := by
            simp only [Line.bytes, hblanks, hvalue, crlf, List.nil_append, List.cons_append]
          rw [hbytes, List.append_nil, hself]
          exact hstart.append (hcr.append (hnewline r))
      | cons c value =>
          obtain ⟨hc, htext⟩ := List.forall_mem_cons.mp (hvalue ▸ f.text)
          have hblank : ¬ (c = 32 ∨ c = 9) := by
            rintro (rfl | rfl)
            · exact f.begins (by rw [hvalue]; rfl)
            · exact textChar_ne hc (show textChar 9 = false by decide) rfl
          have hfirst := consume_lws_text hc hblank r hs h
          have hrest := (value_loop r hs h.name).passes (v := h.value ++ [c]) (w := value)
            fun b hb => ⟨textChar_ne (htext b hb) (by decide), htext b hb⟩
          have hbytes : (Line.fold f).bytes = b :: blanks ++ (c :: (value ++ [13] ++ [10])) := by
            simp only [Line.bytes, hblanks, hvalue, crlf, List.nil_append, List.cons_append, List.append_assoc]
          rw [hself] at hfirst
          rw [List.append_assoc, List.singleton_append] at hrest
          rw [hbytes]
          exact hstart.append (Passes.cons hfirst (hrest.append (hnewline _)))

/-- What the parser takes at the start of a line is the end of the header, or a line. -/
theorem line_split (h : Accepts consume ⟨.headerLineStart, r⟩ p' word) :
    (word = crlf ∧ p' = ⟨.expectingNewline3, r⟩) ∨
      ∃ (l : Line) (rest : List UInt8), l.Follows r.headers ∧ word = l.bytes ++ rest ∧
        Accepts consume ⟨.headerLineStart, { r with headers := l.addTo r.headers }⟩ p' rest := by
  have hnewline : ∀ (r' : Request) (word : List UInt8), Accepts consume ⟨.expectingNewline2, r'⟩ p' word →
      ∃ rest, word = 10 :: rest ∧ Accepts consume ⟨.headerLineStart, r'⟩ p' rest :=
    fun r' word hword => hword.expects rfl fun c hc => by simp only [consume, if_neg hc]
  obtain ⟨c, rest, rfl, hok⟩ := @Accepts.head _ _ _ _ _ _
    (fun c => c = 13 ∨ (r.headers ≠ [] ∧ (c = 32 ∨ c = 9)) ∨ tokenChar c = true) h fun c hc => by
      obtain ⟨hcr, hblank, htoken⟩ := not_or.mp hc |>.imp_right not_or.mp
      simp only [consume, if_neg hcr, if_neg hblank, notToken_eq, htoken, Bool.not_false, if_true]
  rcases hok with rfl | ⟨hr, hblank⟩ | htoken
  · have hend : Accepts consume ⟨.expectingNewline3, r⟩ p' rest := h.tail rfl
    obtain ⟨c', rest', rfl, rfl⟩ := @Accepts.head _ _ _ _ _ _ (fun c => c = 10) hend fun c hc => by
      simp only [consume, if_neg hc]
    have hparse : ((ResultType.good, (⟨.expectingNewline3, r⟩ : Parser), rest') :
        ResultType × Parser × List UInt8) = (.good, p', []) := hend
    cases hparse
    exact Or.inl ⟨rfl, rfl⟩
  · -- a line that goes on with the last value
    obtain ⟨hs, hd, hheaders⟩ := (List.eq_nil_or_concat' r.headers).resolve_left hr
    obtain ⟨blanks, c', rest', rfl, hblanks, hc', hend, hrest⟩ := lws_split (h.tail (consume_blank hblank hr))
    have hself : { r with headers := hs ++ [hd] } = r := by rw [← hheaders]
    rcases hend with rfl | htext
    · have hline : Accepts consume ⟨.expectingNewline2, r⟩ p' rest' := hrest.tail rfl
      obtain ⟨rest, rfl, hrest⟩ := hnewline _ _ hline
      refine Or.inr ⟨.fold ⟨c :: blanks, [], List.cons_ne_nil _ _, List.forall_mem_cons.mpr ⟨hblank, hblanks⟩,
        List.forall_mem_nil _, by simp⟩, rest, hr, ?_, ?_⟩
      · simp only [Line.bytes, crlf, List.nil_append, List.cons_append, List.append_assoc]
      · rw [Line.addTo, hheaders, List.modifyLast_concat, List.append_nil, hself]
        exact hrest
    · have hfirst := consume_lws_text htext hc' r hs hd
      rw [hself] at hfirst
      obtain ⟨value, rest, rfl, hvalue, hrest⟩ := (value_loop r hs hd.name).split (hrest.tail hfirst)
      obtain ⟨rest, rfl, hrest⟩ := hnewline _ _ hrest
      refine Or.inr ⟨.fold ⟨c :: blanks, c' :: value, List.cons_ne_nil _ _,
        List.forall_mem_cons.mpr ⟨hblank, hblanks⟩,
        List.forall_mem_cons.mpr ⟨htext, fun b hb => (hvalue b hb).2⟩, ?_⟩, rest, hr, ?_, ?_⟩
      · rintro ⟨⟩
        exact hc' (Or.inl rfl)
      · simp only [Line.bytes, crlf, List.nil_append, List.cons_append, List.append_assoc]
      · rw [List.append_assoc, List.singleton_append] at hrest
        rw [Line.addTo, hheaders, List.modifyLast_concat]
        exact hrest
  · -- a new field
    obtain ⟨name, rest, rfl, hname, hcolon⟩ :=
      (name_loop r r.headers []).split (v := [c]) (h.tail (consume_name htoken r))
    obtain ⟨rest, rfl, hspace⟩ := hcolon.expects (c := 32) rfl fun c hc => by simp only [consume, if_neg hc]
    obtain ⟨value, rest, rfl, hvalue, hrest⟩ := (value_loop r r.headers ([c] ++ name)).split (v := []) hspace
    obtain ⟨rest, rfl, hrest⟩ := hnewline _ _ hrest
    refine Or.inr ⟨.field ⟨c :: name, value, List.cons_ne_nil _ _,
      List.forall_mem_cons.mpr ⟨htoken, fun b hb => (hname b hb).2⟩, fun b hb => (hvalue b hb).2⟩, rest,
      trivial, ?_, hrest⟩
    simp only [Line.bytes, crlf, List.nil_append, List.cons_append, List.append_assoc]

/-- Behind a line there is a header. -/
theorem Line.addTo_ne_nil (l : Line) {headers : List Header} (hl : l.Follows headers) : l.addTo headers ≠ [] := by
  cases l with
  | field f => exact List.append_ne_nil_of_right_ne_nil _ (List.cons_ne_nil _ _)
  | fold f =>
      obtain ⟨hs, h, rfl⟩ := (List.eq_nil_or_concat' headers).resolve_left hl
      rw [Line.addTo, List.modifyLast_concat]
      exact List.append_ne_nil_of_right_ne_nil _ (List.cons_ne_nil _ _)

theorem Line.follows (l : Line) {headers : List Header} (h : headers ≠ []) : l.Follows headers := by
  cases l with
  | field f => exact trivial
  | fold f => exact h

theorem lines_passes {lines : List Line} (r : Request) (hlines : ∀ l, lines.head? = some l → l.Follows r.headers) :
    Passes consume ⟨.headerLineStart, r⟩ ⟨.headerLineStart, { r with headers := lines.foldl Line.addTo r.headers }⟩
      (lines.flatMap Line.bytes) := by
  induction lines generalizing r with
  | nil => exact Passes.nil _
  | cons l lines ih =>
      have hl := hlines l rfl
      have hrest := ih { r with headers := l.addTo r.headers } fun l' _ => l'.follows (l.addTo_ne_nil hl)
      exact (l.passes r hl).append hrest

theorem lines_split (h : Accepts consume ⟨.headerLineStart, r⟩ p' word) :
    ∃ lines : List Line, (∀ l, lines.head? = some l → l.Follows r.headers) ∧
      word = lines.flatMap Line.bytes ++ crlf ∧
      p' = ⟨.expectingNewline3, { r with headers := lines.foldl Line.addTo r.headers }⟩ := by
  induction hn : word.length using Nat.strongRecOn generalizing word r with
  | _ n ih =>
      rcases line_split h with ⟨rfl, rfl⟩ | ⟨l, rest, hl, rfl, hrest⟩
      · exact ⟨[], nofun, rfl, rfl⟩
      · have hpos : 0 < l.bytes.length := by
          cases l with
          | field f =>
              simp only [Line.bytes, List.length_append, List.length_cons]
              omega
          | fold f =>
              simp only [Line.bytes, crlf, List.length_append, List.length_cons]
              omega
        obtain ⟨lines, _, rfl, rfl⟩ := ih rest.length (by rw [← hn, List.length_append]; omega) hrest rfl
        refine ⟨l :: lines, ?_, ?_, rfl⟩
        · rintro l' ⟨⟩
          exact hl
        · rw [List.flatMap_cons, List.append_assoc]

end Lines

/-! ## The request line -/

section Messages

variable {p' : Parser} {word input : List UInt8}

theorem version_nil : version [] = 0 := Int.zero_bmod

theorem http_passes (r : Request) :
    Passes consume ⟨.httpVersionH, r⟩
      ⟨.httpVersionMajorStart, { r with httpVersionMajor := 0, httpVersionMinor := 0 }⟩ (ascii "HTTP/") :=
  Passes.cons rfl (Passes.cons rfl (Passes.cons rfl (Passes.cons rfl (Passes.cons rfl (Passes.nil _)))))

theorem consume_method {c : UInt8} (hc : tokenChar c = true) (r : Request) :
    consume ⟨.methodStart, r⟩ c = (.indeterminate, ⟨.method, { r with method := r.method ++ [c] }⟩) := by
  simp only [consume, notToken_eq, hc, Bool.not_true, Bool.false_eq_true, if_false]

/-- The version of a request line; `number` is `version`. -/
theorem version_passes {number : List UInt8 → Int}
    (hnumber : ∀ v c, isDigit (toChar c) = true → nextVersion (number v) c = number (v ++ [c]))
    (hzero : number [] = 0) {major minor : List UInt8} (hmajor : major ≠ []) (hminor : minor ≠ [])
    (hmajors : ∀ c ∈ major, isDigit (toChar c) = true) (hminors : ∀ c ∈ minor, isDigit (toChar c) = true)
    (r : Request) :
    Passes consume ⟨.httpVersionMajorStart, { r with httpVersionMajor := 0, httpVersionMinor := 0 }⟩
      ⟨.headerLineStart, { r with httpVersionMajor := number major, httpVersionMinor := number minor }⟩
      (major ++ 46 :: (minor ++ crlf)) := by
  have hstop : ∀ c : UInt8, isDigit (toChar c) = true → c ≠ 46 ∧ c ≠ 13 := by
    intro c hc
    constructor
    · rintro rfl
      exact absurd hc (by decide)
    · rintro rfl
      exact absurd hc (by decide)
  obtain ⟨a, major, rfl⟩ := List.exists_cons_of_ne_nil hmajor
  obtain ⟨b, minor, rfl⟩ := List.exists_cons_of_ne_nil hminor
  obtain ⟨ha, hmajors⟩ := List.forall_mem_cons.mp hmajors
  obtain ⟨hb, hminors⟩ := List.forall_mem_cons.mp hminors
  have hfirst : ∀ c, isDigit (toChar c) = true → nextVersion 0 c = number [c] := fun c hc => by
    rw [← hzero, hnumber [] c hc, List.nil_append]
  have hstart : consume ⟨.httpVersionMajorStart, { r with httpVersionMajor := 0, httpVersionMinor := 0 }⟩ a =
      (.indeterminate, ⟨.httpVersionMajor, { r with httpVersionMajor := number [a], httpVersionMinor := 0 }⟩) := by
    simp only [consume, ha, if_true, hfirst a ha]
  have hdot := (major_loop { r with httpVersionMinor := 0 } hnumber).passes (v := [a]) (w := major)
    fun c hc => ⟨(hstop c (hmajors c hc)).1, hmajors c hc⟩
  have hnext : consume ⟨.httpVersionMinorStart,
      { r with httpVersionMajor := number (a :: major), httpVersionMinor := 0 }⟩ b =
      (.indeterminate,
        ⟨.httpVersionMinor, { r with httpVersionMajor := number (a :: major), httpVersionMinor := number [b] }⟩) := by
    simp only [consume, hb, if_true, hfirst b hb]
  have hcr := (minor_loop { r with httpVersionMajor := number (a :: major) } hnumber).passes (v := [b]) (w := minor)
    fun c hc => ⟨(hstop c (hminors c hc)).2, hminors c hc⟩
  have hlf : Passes consume
      ⟨.expectingNewline1,
        { r with httpVersionMajor := number (a :: major), httpVersionMinor := number (b :: minor) }⟩
      ⟨.headerLineStart,
        { r with httpVersionMajor := number (a :: major), httpVersionMinor := number (b :: minor) }⟩ [10] :=
    Passes.cons rfl (Passes.nil _)
  have hbytes : a :: major ++ 46 :: (b :: minor ++ crlf) =
      a :: (major ++ [46] ++ (b :: (minor ++ [13] ++ [10]))) := by
    simp only [crlf, List.append_assoc, List.cons_append, List.nil_append]
  rw [hbytes]
  exact Passes.cons hstart (hdot.append (Passes.cons hnext (hcr.append hlf)))

theorem version_split {number : List UInt8 → Int}
    (hnumber : ∀ v c, isDigit (toChar c) = true → nextVersion (number v) c = number (v ++ [c]))
    (hzero : number [] = 0) {r : Request}
    (h : Accepts consume ⟨.httpVersionMajorStart, { r with httpVersionMajor := 0, httpVersionMinor := 0 }⟩ p' word) :
    ∃ major minor rest, word = major ++ 46 :: (minor ++ (crlf ++ rest)) ∧ major ≠ [] ∧ minor ≠ [] ∧
      (∀ c ∈ major, isDigit (toChar c) = true) ∧ (∀ c ∈ minor, isDigit (toChar c) = true) ∧
      Accepts consume ⟨.headerLineStart, { r with httpVersionMajor := number major, httpVersionMinor := number minor }⟩
        p' rest := by
  have hfirst : ∀ c, isDigit (toChar c) = true → nextVersion 0 c = number [c] := fun c hc => by
    rw [← hzero, hnumber [] c hc, List.nil_append]
  obtain ⟨a, rest, rfl, ha⟩ := @Accepts.head _ _ _ _ _ _ (fun c => isDigit (toChar c) = true) h fun c hc => by
    simp only [consume, if_neg hc]
  have hstart : consume ⟨.httpVersionMajorStart, { r with httpVersionMajor := 0, httpVersionMinor := 0 }⟩ a =
      (.indeterminate, ⟨.httpVersionMajor, { r with httpVersionMajor := number [a], httpVersionMinor := 0 }⟩) := by
    simp only [consume, ha, if_true, hfirst a ha]
  obtain ⟨major, rest, rfl, hmajor, hminor⟩ :=
    (major_loop { r with httpVersionMinor := 0 } hnumber).split (v := [a]) (h.tail hstart)
  obtain ⟨b, rest, rfl, hb⟩ := @Accepts.head _ _ _ _ _ _ (fun c => isDigit (toChar c) = true) hminor fun c hc => by
    simp only [consume, if_neg hc]
  have hnext : consume ⟨.httpVersionMinorStart,
      { r with httpVersionMajor := number ([a] ++ major), httpVersionMinor := 0 }⟩ b =
      (.indeterminate,
        ⟨.httpVersionMinor, { r with httpVersionMajor := number ([a] ++ major), httpVersionMinor := number [b] }⟩) := by
    simp only [consume, hb, if_true, hfirst b hb]
  obtain ⟨minor, rest, rfl, hminors, hlf⟩ :=
    (minor_loop { r with httpVersionMajor := number ([a] ++ major) } hnumber).split (v := [b]) (hminor.tail hnext)
  obtain ⟨rest, rfl, hrest⟩ := hlf.expects (c := 10) rfl fun c hc => by simp only [consume, if_neg hc]
  refine ⟨a :: major, b :: minor, rest, ?_, List.cons_ne_nil _ _, List.cons_ne_nil _ _,
    List.forall_mem_cons.mpr ⟨ha, fun c hc => (hmajor c hc).2⟩,
    List.forall_mem_cons.mpr ⟨hb, fun c hc => (hminors c hc).2⟩, hrest⟩
  simp only [crlf, List.cons_append, List.nil_append]

theorem Message.accepts_with {number : List UInt8 → Int}
    (hnumber : ∀ v c, isDigit (toChar c) = true → nextVersion (number v) c = number (v ++ [c]))
    (hzero : number [] = 0) (m : Message) (major minor : Int) :
    Accepts consume (init major minor)
      ⟨.expectingNewline3, ⟨m.method, m.uri, number m.major, number m.minor, m.lines.foldl Line.addTo []⟩⟩ m.bytes := by
  obtain ⟨c, method, hmethod⟩ := List.exists_cons_of_ne_nil m.method_ne_nil
  obtain ⟨hc, htoken⟩ := List.forall_mem_cons.mp (hmethod ▸ m.method_token)
  have hname := (method_loop (init major minor).req).passes (v := [c]) (w := method)
    fun b hb => ⟨tokenChar_ne (htoken b hb) (by decide), htoken b hb⟩
  rw [show [c] ++ method = m.method from hmethod.symm] at hname
  have huri := (uri_loop { (init major minor).req with method := m.method }).passes (v := []) (w := m.uri) m.uri_text
  have hversion := version_passes hnumber hzero m.major_ne_nil m.minor_ne_nil m.major_digits m.minor_digits
    ⟨m.method, m.uri, major, minor, []⟩
  have hlines := lines_passes ⟨m.method, m.uri, number m.major, number m.minor, []⟩ m.begins
  have hend : Accepts consume ⟨.headerLineStart,
      ⟨m.method, m.uri, number m.major, number m.minor, m.lines.foldl Line.addTo []⟩⟩
      ⟨.expectingNewline3, ⟨m.method, m.uri, number m.major, number m.minor, m.lines.foldl Line.addTo []⟩⟩ crlf := rfl
  have hbytes : m.bytes = c :: (method ++ [32] ++ (m.uri ++ [32] ++ (ascii "HTTP/" ++
      ((m.major ++ 46 :: (m.minor ++ crlf)) ++ (m.lines.flatMap Line.bytes ++ crlf))))) := by
    simp only [Message.bytes, hmethod, List.append_assoc, List.cons_append, List.nil_append]
  have hall := Accepts.of_passes hname (Accepts.of_passes huri (Accepts.of_passes (http_passes _)
    (Accepts.of_passes hversion (Accepts.of_passes hlines hend))))
  rw [hbytes]
  exact (parse_cons_of_more (consume_method hc _) _).trans hall

/-- **Requests are read back.** -/
theorem Message.accepts (m : Message) (major minor : Int) :
    Accepts consume (init major minor) ⟨.expectingNewline3, m.request⟩ m.bytes :=
  m.accepts_with nextVersion_version version_nil major minor

theorem accepts_split_with {number : List UInt8 → Int}
    (hnumber : ∀ v c, isDigit (toChar c) = true → nextVersion (number v) c = number (v ++ [c]))
    (hzero : number [] = 0) {major minor : Int} (h : Accepts consume (init major minor) p' word) :
    ∃ m : Message, word = m.bytes ∧
      p' = ⟨.expectingNewline3, ⟨m.method, m.uri, number m.major, number m.minor, m.lines.foldl Line.addTo []⟩⟩ := by
  obtain ⟨c, rest, rfl, hc⟩ := @Accepts.head _ _ _ _ _ _ (fun c => tokenChar c = true) h fun c hc => by
    simp only [consume, init, notToken_eq, hc, Bool.not_false, if_true]
  obtain ⟨method, rest, rfl, hmethod, hrest⟩ :=
    (method_loop (init major minor).req).split (v := [c]) (h.tail (consume_method hc _))
  obtain ⟨uri, rest, rfl, huri, hh⟩ := (uri_loop { (init major minor).req with method := [c] ++ method }).split
    (v := []) hrest
  obtain ⟨rest, rfl, ht₁⟩ := hh.expects (c := 72) rfl fun c hc => by simp only [consume, if_neg hc]
  obtain ⟨rest, rfl, ht₂⟩ := ht₁.expects (c := 84) rfl fun c hc => by simp only [consume, if_neg hc]
  obtain ⟨rest, rfl, hp⟩ := ht₂.expects (c := 84) rfl fun c hc => by simp only [consume, if_neg hc]
  obtain ⟨rest, rfl, hslash⟩ := hp.expects (c := 80) rfl fun c hc => by simp only [consume, if_neg hc]
  obtain ⟨rest, rfl, hversion⟩ := hslash.expects (c := 47) rfl fun c hc => by simp only [consume, if_neg hc]
  obtain ⟨ma, mi, rest, rfl, hma, hmi, hmas, hmis, hlines⟩ := version_split hnumber hzero
    (r := ⟨c :: method, uri, major, minor, []⟩) hversion
  obtain ⟨lines, hbegins, rfl, rfl⟩ := lines_split hlines
  exact ⟨⟨c :: method, uri, ma, mi, lines, List.cons_ne_nil _ _,
    List.forall_mem_cons.mpr ⟨hc, fun b hb => (hmethod b hb).2⟩, huri, hma, hmas, hmi, hmis, hbegins⟩, rfl, rfl⟩

/-- **Only requests are accepted.** -/
theorem accepts_iff {major minor : Int} :
    Accepts consume (init major minor) p' word ↔
      ∃ m : Message, word = m.bytes ∧ p' = ⟨.expectingNewline3, m.request⟩ := by
  constructor
  · exact accepts_split_with nextVersion_version version_nil
  · rintro ⟨m, rfl, rfl⟩
    exact m.accepts major minor

/-- **The verdict of the parser.** It is `good` on the inputs that begin with a request, and leaves what is behind it;
    it is `bad` as soon as no request begins so. The parser never asks for the last header where there is none. -/
theorem parse_spec (major minor : Int) (input : List UInt8) :
    (∀ p rest, parse consume (init major minor) input = (.good, p, rest) ↔
      ∃ m : Message, input = m.bytes ++ rest ∧ p = ⟨.expectingNewline3, m.request⟩) ∧
    ((parse consume (init major minor) input).1 = .indeterminate ↔
      ∃ m : Message, input <+: m.bytes ∧ input ≠ m.bytes) ∧
    ((parse consume (init major minor) input).1 = .bad ↔
      ∀ m : Message, ¬ m.bytes <+: input ∧ ¬ input <+: m.bytes) ∧
    HasBack (parse consume (init major minor) input).2.1 := by
  refine ⟨fun p rest => ⟨fun h => ?_, ?_⟩, ?_, ?_, parse_hasBack (hasBack_of_not_inHeader rfl) input⟩
  · obtain ⟨word, hinput, hword⟩ := exists_taken consume (init major minor) input
    rw [h] at hinput hword
    obtain ⟨m, rfl, hp⟩ := accepts_iff.mp hword
    exact ⟨m, hinput, hp⟩
  · rintro ⟨m, rfl, rfl⟩
    exact (m.accepts major minor).parse rest
  · rw [indeterminate_iff (live _)]
    constructor
    · rintro ⟨word, p, hword, hpre, hne⟩
      obtain ⟨m, rfl, _⟩ := accepts_iff.mp hword
      exact ⟨m, hpre, hne⟩
    · rintro ⟨m, hpre, hne⟩
      exact ⟨m.bytes, _, m.accepts major minor, hpre, hne⟩
  · rw [bad_iff (live _)]
    constructor
    · intro h m
      exact h m.bytes _ (m.accepts major minor)
    · intro h word p hword
      obtain ⟨m, rfl, _⟩ := accepts_iff.mp hword
      exact h m

end Messages

end RequestParser

end Mowang
