import Mowang.Base.CString

/-!
# `Share.IniFile` — reading a key from the text of an INI file

`ini_file` keeps the text in memory and an index of its section lines. A lookup moves a position from the section line
through the lines: to the next line, over a name up to what ends it, and again.

A position is known by the text from there on (`Rest`), so each scanner has one lemma that says what it reads of a given
text, and `find_data` is an induction over the lines.

## Contents
- `IniFile`, its scanners, `readTextIfExist`, `openBuffer` and `openFile`.
- `Line`, `IniText`, `IniText.lookup` — well-formed texts and what a lookup should find.
- `Rest`, with one lemma for each scanner; `findDataLoop_spec`, `initIndexFrom_eq`, `findIndex_spec`.
- `Holds`, `readTextIfExist_of_holds`, and `readTextIfExist_eq`.
-/

namespace Mowang

/-- `ini_file`: the memory of `m_data`, how much of it is text, and where the names of the sections begin. -/
structure IniFile where
  data : List UInt8
  dataLen : Nat
  indexList : List Nat := []

namespace IniFile

/-! ## The scanners

`none` is an access outside the memory of `m_data` or of a buffer. A loop over the text takes the number of the bytes
that are left. -/

/-- A zeroed buffer that holds the characters, as a C string. -/
def bufferText (size : Nat) (chars : List UInt8) : Option (List UInt8) :=
  if chars.length < size ∨ 0 ∈ chars then some (cstr chars) else none

/-- The loop of `init_index`, from the position `i`. -/
def initIndexFrom (data : List UInt8) : Nat → Nat → Option (List Nat)
  | 0, _     => some []
  | n + 1, i =>
    data[i]?.bind fun c => (initIndexFrom data n (i + 1)).map fun rest =>
      if c = 91 ∧ (i = 0 ∨ data[i - 1]? = some 10) then (i + 1) :: rest else rest

def initIndex (f : IniFile) : Option IniFile :=
  (initIndexFrom f.data f.dataLen 0).map fun indexList => { f with indexList := indexList }

def gotoNextLineFrom (data : List UInt8) : Nat → Nat → Option Nat
  | 0, i     => some i
  | n + 1, i => data[i]?.bind fun c => if c = 10 then some (i + 1) else gotoNextLineFrom data n (i + 1)

/-- `goto_next_line`. -/
def gotoNextLine (f : IniFile) (p : Nat) : Option Nat := gotoNextLineFrom f.data (f.dataLen - p) p

/-- What ends a name: a carriage return, `=` or `;`. -/
abbrev EndsName (c : UInt8) : Prop := c = 13 ∨ c = 61 ∨ c = 59

/-- What ends a value: `;`, a carriage return, a tabulator or `]`. -/
abbrev EndsText (c : UInt8) : Prop := c = 59 ∨ c = 13 ∨ c = 9 ∨ c = 93

/-- The loop of `read_data_name`: what is written to the buffer, and the new position where there is one. -/
def readDataNameFrom (data : List UInt8) : Nat → Nat → List UInt8 → Option (List UInt8 × Option Nat)
  | 0, _, ret     => some (ret, none)
  | n + 1, i, ret =>
    data[i]?.bind fun c =>
      if EndsName c then some (ret, some (i + 1))
      else if ret.length < 64 then readDataNameFrom data n (i + 1) (ret ++ [c])
      else none

/-- `read_data_name`; the position is left as it is where the text ends. -/
def readDataName (f : IniFile) (p : Nat) : Option (List UInt8 × Nat) :=
  (readDataNameFrom f.data (f.dataLen - p) p []).map fun (ret, p') => (ret, p'.getD p)

def readTextFrom (data : List UInt8) : Nat → Nat → List UInt8 → Option (List UInt8)
  | 0, _, ret     => some ret
  | n + 1, i, ret =>
    data[i]?.bind fun c =>
      if EndsText c then some ret
      else if ret.length < 1024 then readTextFrom data n (i + 1) (ret ++ [c])
      else none

/-- `read_text` at a position, as a C string. -/
def readText (f : IniFile) (p : Nat) : Option (List UInt8) :=
  (f.gotoNextLine p).bind fun _ => (readTextFrom f.data (f.dataLen - p) p []).bind (bufferText 1024)

/-- `find_index`. -/
def findIndex (f : IniFile) (string : List UInt8) : List Nat → Option (Option Nat)
  | []             => some none
  | i :: indexList =>
    (f.readText i).bind fun str => if str = string then some (some i) else f.findIndex string indexList

/-- The loop of `find_data`; `none` also if it takes more lines than the first number. -/
def findDataLoop (f : IniFile) (string : List UInt8) : Nat → Nat → Option (Option Nat)
  | 0, _        => none
  | lines + 1, p =>
    (f.gotoNextLine p).bind fun p => (f.readDataName p).bind fun (ret, p) => (bufferText 64 ret).bind fun name =>
      if name = string then some (some p)
      else if ret.head? = some 91 then some none
      else if f.dataLen ≤ p then some none
      else f.findDataLoop string lines p

/-- `find_data`. No line is shorter than a byte. -/
def findData (f : IniFile) (index : Nat) (string : List UInt8) : Option (Option Nat) :=
  f.findDataLoop string (f.dataLen + 1) index

/-- `read_text_if_exist` into a `std::string`; the inner `none` is `false`. -/
def readTextIfExist (f : IniFile) (section_ key : List UInt8) : Option (Option (List UInt8)) :=
  (f.findIndex section_ f.indexList).bind fun
    | none   => some none
    | some n =>
      (f.findData n key).bind fun
        | none   => some none
        | some m => (f.readText m).map some

/-- `strncpy` into a buffer of `size` bytes. -/
def strncpy (size : Nat) (text : List UInt8) : List UInt8 := (text ++ List.replicate size 0).take size

/-- `read_text_if_exist` into a buffer: what is found is copied there. -/
def readTextIfExistTo (f : IniFile) (section_ key : List UInt8) (size : Nat) : Option (Option (List UInt8)) :=
  (f.readTextIfExist section_ key).map (Option.map (strncpy size))

/-- `open` of a buffer. The size of the memory is computed in 32 bits. -/
def openBuffer (dataBuff : List UInt8) : Option IniFile :=
  if dataBuff.length + 1 < 2 ^ 31 then initIndex { data := dataBuff ++ [0], dataLen := dataBuff.length } else none

/-- `open` of a file; an empty or missing file gives a text of one NUL. -/
def openFile (contents : List UInt8) : Option IniFile :=
  if contents.length < 2 ^ 31 then
    if contents = [] then initIndex { data := [0], dataLen := 1 }
    else initIndex { data := contents, dataLen := contents.length }
  else none

/-! ## Well-formed texts -/

/-- None of the characters of the syntax. -/
def Plain (text : List UInt8) : Prop := ∀ c ∈ text, c ∉ [91, 93, 61, 59, 9, 13, 10, 0]

instance (text : List UInt8) : Decidable (Plain text) := inferInstanceAs (Decidable (∀ c ∈ text, _))

/-- A name of a section or a key. -/
abbrev Name (n : Nat) : Type := { text : List UInt8 // Plain text ∧ 1 ≤ text.length ∧ text.length ≤ n }

abbrev Value : Type := { text : List UInt8 // Plain text ∧ text.length < 1024 }

inductive Line
  | section_ (name : Name 60)
  | entry (key : Name 63) (value : Value)
  | blank
deriving DecidableEq

def Line.render : Line → List UInt8
  | .section_ name   => 91 :: name.val ++ [93, 13, 10]
  | .entry key value => key.val ++ 61 :: value.val ++ [13, 10]
  | .blank           => [13, 10]

def Line.isSection : Line → Bool
  | .section_ _ => true
  | _           => false

/-- Lines, and at the end maybe an entry whose line has no end. -/
structure IniText where
  lines : List Line
  tail : Option (Name 63 × Value) := none
deriving DecidableEq

def tailText : Option (Name 63 × Value) → List UInt8
  | none              => []
  | some (key, value) => key.val ++ 61 :: value.val

def IniText.render (t : IniText) : List UInt8 := t.lines.flatMap Line.render ++ tailText t.tail

/-- What comes behind the first section line with a name. -/
def behindSection (name : Name 60) : List Line → Option (List Line)
  | []                     => none
  | .section_ name' :: lines => if name' = name then some lines else behindSection name lines
  | _ :: lines             => behindSection name lines

/-- The entries before the next section line. -/
def entriesOf (tail : Option (Name 63 × Value)) : List Line → List (Name 63 × Value)
  | []                        => tail.toList
  | .section_ _ :: _          => []
  | .entry key value :: lines => (key, value) :: entriesOf tail lines
  | .blank :: lines           => entriesOf tail lines

/-- The value in the first line with the key, in the first section with the name. -/
def IniText.lookup (t : IniText) (name : Name 60) (key : Name 63) : Option Value :=
  (behindSection name t.lines).bind fun lines => (entriesOf t.tail lines).lookup key

/-- The first line with the key gets another value, in the lines before the next section line. -/
def setValue (key : Name 63) (value : Value) (tail : Option (Name 63 × Value)) : List Line → IniText
  | []                      => ⟨[], tail.map fun (key', value') => (key', if key' = key then value else value')⟩
  | .section_ name :: lines => ⟨.section_ name :: lines, tail⟩
  | .entry key' value' :: lines =>
    if key' = key then ⟨.entry key' value :: lines, tail⟩
    else { setValue key value tail lines with lines := .entry key' value' :: (setValue key value tail lines).lines }
  | .blank :: lines =>
    { setValue key value tail lines with lines := .blank :: (setValue key value tail lines).lines }

variable {f : IniFile} {p n : Nat} {s a b : List UInt8} {c : UInt8}

/-! ## Where the scanners stand -/

/-- The text from the position on. -/
def Rest (f : IniFile) (p : Nat) (s : List UInt8) : Prop :=
  ∃ before slack, f.data = before ++ s ++ slack ∧ before.length = p ∧ f.dataLen = p + s.length

theorem Rest.append (h : Rest f p (a ++ b)) : Rest f (p + a.length) b := by
  obtain ⟨before, slack, hdata, hp, hlen⟩ := h
  refine ⟨before ++ a, slack, ?_, ?_, ?_⟩
  · rw [hdata]
    simp only [List.append_assoc]
  · rw [List.length_append, hp]
  · rw [hlen, List.length_append, Nat.add_assoc]

theorem Rest.cons (h : Rest f p (c :: s)) : Rest f (p + 1) s := @Rest.append f p [c] s h

theorem Rest.head (h : Rest f p (c :: s)) : f.data[p]? = some c := by
  obtain ⟨before, slack, hdata, hp, _⟩ := h
  rw [hdata, List.append_assoc, List.getElem?_append_right (Nat.le_of_eq hp), hp, Nat.sub_self]
  rfl

theorem Rest.dataLen (h : Rest f p s) : f.dataLen = p + s.length := by
  obtain ⟨_, _, _, _, hlen⟩ := h
  exact hlen

theorem Rest.left (h : Rest f p s) : f.dataLen - p = s.length := by
  rw [h.dataLen, Nat.add_sub_cancel_left]

/-- A line that ends is left behind. -/
theorem gotoNextLine_line (ha : 10 ∉ a) (h : Rest f p (a ++ 10 :: b)) :
    f.gotoNextLine p = some (p + a.length + 1) ∧ Rest f (p + a.length + 1) b := by
  refine ⟨?_, h.append.cons⟩
  rw [gotoNextLine, h.left]
  induction a generalizing p with
  | nil =>
      rw [List.nil_append, List.length_cons, gotoNextLineFrom, h.head]
      rfl
  | cons c a ih =>
      obtain ⟨hc, ha⟩ := not_or.mp (mt List.mem_cons.mpr ha)
      have hc : c ≠ 10 := fun heq => hc heq.symm
      rw [List.cons_append, List.length_cons, gotoNextLineFrom, Rest.head h, Option.bind_some, if_neg hc,
        ih ha (Rest.cons h), List.length_cons, Nat.add_assoc p 1, Nat.add_comm 1]

/-- In the last line the position goes to the end of the text. -/
theorem gotoNextLine_last (ha : 10 ∉ a) (h : Rest f p a) :
    f.gotoNextLine p = some (p + a.length) ∧ Rest f (p + a.length) [] := by
  refine ⟨?_, Rest.append (by rwa [List.append_nil])⟩
  rw [gotoNextLine, h.left]
  induction a generalizing p with
  | nil => rfl
  | cons c a ih =>
      obtain ⟨hc, ha⟩ := not_or.mp (mt List.mem_cons.mpr ha)
      have hc : c ≠ 10 := fun heq => hc heq.symm
      rw [List.length_cons, gotoNextLineFrom, h.head, Option.bind_some, if_neg hc, ih ha h.cons, Nat.add_assoc p 1,
        Nat.add_comm 1]

/-- Characters that do not end a name go to the buffer. -/
theorem readDataNameFrom_append {ret : List UInt8} (ha : ∀ c ∈ a, ¬ EndsName c) (hlen : ret.length + a.length ≤ 64)
    (h : Rest f p (a ++ b)) (n : Nat) :
    readDataNameFrom f.data (a.length + n) p ret = readDataNameFrom f.data n (p + a.length) (ret ++ a) := by
  induction a generalizing p ret with
  | nil => simp
  | cons c a ih =>
      rw [List.length_cons] at hlen
      rw [List.length_cons, Nat.add_right_comm, readDataNameFrom, Rest.head h, Option.bind_some,
        if_neg (ha c List.mem_cons_self), if_pos (by omega),
        ih (fun c hc => ha c (List.mem_cons_of_mem _ hc)) (by rw [List.length_append, List.length_singleton]; omega)
          (Rest.cons h), List.append_assoc, Nat.add_assoc p 1, Nat.add_comm 1]
      rfl

/-- A name that ends is read, and the position is behind what ends it. -/
theorem readDataName_end (ha : ∀ c ∈ a, ¬ EndsName c) (hlen : a.length ≤ 64) (hc : EndsName c)
    (h : Rest f p (a ++ c :: b)) : f.readDataName p = some (a, p + a.length + 1) := by
  rw [readDataName, h.left, List.length_append, List.length_cons,
    readDataNameFrom_append ha (by simpa using hlen) h, readDataNameFrom, h.append.head, Option.bind_some, if_pos hc]
  rfl

/-- A name at the end of the text is read, and the position stays. -/
theorem readDataName_last (ha : ∀ c ∈ a, ¬ EndsName c) (hlen : a.length ≤ 64) (h : Rest f p a) :
    f.readDataName p = some (a, p) := by
  have hrest : Rest f p (a ++ []) := by rwa [List.append_nil]
  have hloop : readDataNameFrom f.data (a.length + 0) p [] = some ([] ++ a, none) :=
    readDataNameFrom_append ha (by simpa using hlen) hrest 0
  rw [readDataName, h.left, ← Nat.add_zero a.length, hloop]
  rfl

theorem readTextFrom_append {ret : List UInt8} (ha : ∀ c ∈ a, ¬ EndsText c) (hlen : ret.length + a.length ≤ 1024)
    (h : Rest f p (a ++ b)) (n : Nat) :
    readTextFrom f.data (a.length + n) p ret = readTextFrom f.data n (p + a.length) (ret ++ a) := by
  induction a generalizing p ret with
  | nil => simp
  | cons c a ih =>
      rw [List.length_cons] at hlen
      rw [List.length_cons, Nat.add_right_comm, readTextFrom, Rest.head h, Option.bind_some,
        if_neg (ha c List.mem_cons_self), if_pos (by omega),
        ih (fun c hc => ha c (List.mem_cons_of_mem _ hc)) (by rw [List.length_append, List.length_singleton]; omega)
          (Rest.cons h), List.append_assoc, Nat.add_assoc p 1, Nat.add_comm 1]
      rfl

theorem bufferText_eq {size : Nat} {chars : List UInt8} (h : chars.length < size) :
    bufferText size chars = some (cstr chars) := if_pos (Or.inl h)

theorem gotoNextLine_isSome (h : Rest f p s) : ∃ q, f.gotoNextLine p = some q := by
  by_cases hs : 10 ∈ s
  · obtain ⟨a, b, rfl, ha⟩ := List.eq_append_cons_of_mem hs
    exact ⟨_, (gotoNextLine_line ha h).1⟩
  · exact ⟨_, (gotoNextLine_last hs h).1⟩

/-- A value is read up to what ends it, or the end of the text. -/
theorem readText_eq (ha : ∀ c ∈ a, ¬ EndsText c) (hlen : a.length < 1024) (hb : ∀ c, b.head? = some c → EndsText c)
    (h : Rest f p (a ++ b)) : f.readText p = some (cstr a) := by
  obtain ⟨q, hq⟩ := gotoNextLine_isSome h
  have hloop : readTextFrom f.data (a ++ b).length p [] = some a := by
    rw [List.length_append, readTextFrom_append ha (by simp; omega) h, List.nil_append]
    cases b with
    | nil => rfl
    | cons c b => rw [List.length_cons, readTextFrom, h.append.head, Option.bind_some, if_pos (hb c rfl)]
  rw [readText, hq, Option.bind_some, h.left, hloop, Option.bind_some, bufferText_eq hlen]

/-! ## The lines -/

section Lines

variable {key : Name 63} {value : Value} {tail : Option (Name 63 × Value)} {lines : List Line}

theorem Plain.not_mem {text : List UInt8} (h : Plain text) {c : UInt8} (hc : c ∈ [91, 93, 61, 59, 9, 13, 10, 0]) :
    c ∉ text := fun hmem => h c hmem hc

theorem Plain.nulFree {text : List UInt8} (h : Plain text) : NulFree text := Plain.not_mem h (by decide)

theorem Plain.not_endsName {text : List UInt8} (h : Plain text) : ∀ c ∈ text, ¬ EndsName c := by
  rintro c hc (rfl | rfl | rfl)
  all_goals exact h _ hc (by decide)

theorem Plain.not_endsText {text : List UInt8} (h : Plain text) : ∀ c ∈ text, ¬ EndsText c := by
  rintro c hc (rfl | rfl | rfl | rfl)
  all_goals exact h _ hc (by decide)

/-- One line of `find_data`. -/
theorem findDataLoop_succ {string chars : List UInt8} {fuel p' p'' : Nat} (hnext : f.gotoNextLine p = some p')
    (hname : f.readDataName p' = some (chars, p'')) (hlen : chars.length < 64) (hnul : NulFree chars) :
    f.findDataLoop string (fuel + 1) p =
      if chars = string then some (some p'')
      else if chars.head? = some 91 then some none
      else if f.dataLen ≤ p'' then some none
      else f.findDataLoop string fuel p'' := by
  rw [findDataLoop, hnext, Option.bind_some, hname, Option.bind_some]
  show (bufferText 64 chars).bind _ = _
  rw [bufferText_eq hlen, Option.bind_some, cstr_eq_self hnul]

theorem render_cons (line : Line) (lines : List Line) (tail : Option (Name 63 × Value)) :
    IniText.render ⟨line :: lines, tail⟩ = line.render ++ IniText.render ⟨lines, tail⟩ := by
  rw [IniText.render, List.flatMap_cons, List.append_assoc]
  rfl

/-- At the end of the text no key is found. -/
theorem findDataLoop_end {p' fuel : Nat} (hnext : f.gotoNextLine p = some p') (hrest : Rest f p' []) :
    f.findDataLoop key.val (fuel + 1) p = some none := by
  have hne : key.val ≠ [] := List.ne_nil_of_length_pos key.2.2.1
  have hname : f.readDataName p' = some ([], p') := readDataName_last (by simp) (by simp) hrest
  rw [findDataLoop_succ hnext hname (by decide) (by decide), if_neg hne.symm, if_neg (by decide),
    if_pos (Nat.le_of_eq hrest.dataLen : f.dataLen ≤ p')]

/-- An entry with the key is found. -/
theorem findDataLoop_entry {key' : Name 63} {p' fuel : Nat} (hnext : f.gotoNextLine p = some p')
    (hrest : Rest f p' (key'.val ++ 61 :: b)) :
    f.findDataLoop key.val (fuel + 1) p =
      if key' = key then some (some (p' + key'.val.length + 1))
      else if b = [] then some none
      else f.findDataLoop key.val fuel (p' + key'.val.length + 1) := by
  have hplain := key'.2.1
  have hname := readDataName_end (Plain.not_endsName hplain) (Nat.le_trans key'.2.2.2 (by decide)) (by decide) hrest
  have hhead : key'.val.head? ≠ some 91 := fun h => Plain.not_mem hplain (by decide) (List.mem_of_mem_head? h)
  have hend : f.dataLen ≤ p' + key'.val.length + 1 ↔ b = [] := by
    rw [hrest.dataLen, List.length_append, List.length_cons, ← List.length_eq_zero_iff]
    omega
  rw [findDataLoop_succ hnext hname (Nat.lt_succ_of_le key'.2.2.2) (Plain.nulFree hplain), if_neg hhead]
  simp only [hend, Subtype.val_inj]

/-- Where the value of an entry stands in the text, and what is left if it is replaced. -/
def Placed (key : Name 63) (tail : Option (Name 63 × Value)) (lines : List Line) (value : Value) (x : List UInt8) :
    Prop :=
  ∃ e, IniText.render ⟨lines, tail⟩ = x ++ value.val ++ e ∧ (∀ c, e.head? = some c → EndsText c) ∧
    ∀ value', IniText.render (setValue key value' tail lines) = x ++ value'.val ++ e

theorem placed_tail (key : Name 63) (value : Value) : Placed key (some (key, value)) [] value (key.val ++ [61]) := by
  refine ⟨[], ?_, by simp, fun value' => ?_⟩
  · simp [IniText.render, tailText]
  · simp [IniText.render, tailText, setValue]

theorem placed_entry (key : Name 63) (value : Value) (lines : List Line) :
    Placed key tail (.entry key value :: lines) value (key.val ++ [61]) := by
  refine ⟨[13, 10] ++ IniText.render ⟨lines, tail⟩, ?_, ?_, fun value' => ?_⟩
  · simp [render_cons, Line.render]
  · rintro c hc
    cases hc
    decide
  · rw [setValue, if_pos rfl]
    simp [render_cons, Line.render]

/-- A line that is left as it is. -/
theorem Placed.cons {x : List UInt8} {line : Line} (h : Placed key tail lines value x)
    (hset : ∀ value', setValue key value' tail (line :: lines) =
      { setValue key value' tail lines with lines := line :: (setValue key value' tail lines).lines }) :
    Placed key tail (line :: lines) value (line.render ++ x) := by
  obtain ⟨e, htext, he, hvalue⟩ := h
  refine ⟨e, ?_, he, fun value' => ?_⟩
  · rw [render_cons, htext]
    simp only [List.append_assoc]
  · rw [hset, render_cons, hvalue]
    simp only [List.append_assoc]

/-- **`find_data`** finds the value in the first line with the key before the next section line. -/
theorem findDataLoop_spec (key : Name 63) (lines : List Line) {fuel : Nat} (hfuel : lines.length + 2 ≤ fuel)
    (ha : 10 ∉ a) (h : Rest f p (a ++ 10 :: IniText.render ⟨lines, tail⟩)) :
    ((entriesOf tail lines).lookup key = none → f.findDataLoop key.val fuel p = some none) ∧
      ∀ value, (entriesOf tail lines).lookup key = some value →
        ∃ x, f.findDataLoop key.val fuel p = some (some (p + a.length + 1 + x.length)) ∧
          Placed key tail lines value x := by
  induction lines generalizing p a fuel with
  | nil =>
      obtain ⟨hnext, hrest⟩ := gotoNextLine_line ha h
      obtain ⟨fuel, rfl⟩ : ∃ k, fuel = k + 2 := ⟨fuel - 2, by simp at hfuel; omega⟩
      cases tail with
      | none => exact ⟨fun _ => findDataLoop_end hnext hrest, nofun⟩
      | some e =>
          obtain ⟨key', value'⟩ := e
          have hrest : Rest f (p + a.length + 1) (key'.val ++ 61 :: value'.val) := hrest
          rw [findDataLoop_entry hnext hrest]
          show ([(key', value')].lookup key = none → _) ∧ ∀ _, [(key', value')].lookup key = _ → _
          by_cases hkey : key' = key
          · subst hkey
            rw [if_pos rfl, List.lookup_cons_self]
            refine ⟨nofun, fun value hvalue => ?_⟩
            obtain rfl := Option.some.inj hvalue
            refine ⟨_, ?_, placed_tail key' value'⟩
            rw [List.length_append, List.length_singleton, Nat.add_assoc _ _ 1]
          · rw [if_neg hkey, List.lookup_cons, beq_false_of_ne (Ne.symm hkey)]
            refine ⟨fun _ => ?_, nofun⟩
            split
            · rfl
            · -- behind the value the text ends
              have hvalue : Rest f (p + a.length + 1 + key'.val.length + 1) value'.val := hrest.append.cons
              obtain ⟨hlast, hend⟩ := gotoNextLine_last (Plain.not_mem value'.2.1 (by decide)) hvalue
              exact findDataLoop_end hlast hend
  | cons line lines ih =>
      obtain ⟨hnext, hrest⟩ := gotoNextLine_line ha h
      obtain ⟨fuel, rfl⟩ : ∃ k, fuel = k + 1 := ⟨fuel - 1, by omega⟩
      have hlines : lines.length + 2 ≤ fuel := by
        rw [List.length_cons] at hfuel
        omega
      rw [render_cons] at hrest
      cases line with
      | section_ name =>
          refine ⟨fun _ => ?_, nofun⟩
          have hplain := name.2.1
          have hline : Rest f (p + a.length + 1)
              ((91 :: name.val ++ [93]) ++ 13 :: 10 :: IniText.render ⟨lines, tail⟩) := by
            simpa [Line.render] using hrest
          have hlen : (91 :: name.val ++ [93]).length < 64 := by
            have := name.2.2.2
            simp only [List.cons_append, List.length_cons, List.length_append, List.length_nil]
            omega
          have hends : ∀ c ∈ 91 :: name.val ++ [93], ¬ EndsName c := by
            simp only [List.cons_append, List.forall_mem_cons, List.forall_mem_append]
            exact ⟨by decide, Plain.not_endsName hplain, by decide +kernel⟩
          have hnul : NulFree (91 :: name.val ++ [93]) := by
            have := Plain.nulFree hplain
            simpa [NulFree] using this
          have hname := readDataName_end hends (Nat.le_of_lt hlen) (by decide) hline
          have hkey : 91 :: name.val ++ [93] ≠ key.val := by
            intro heq
            exact key.2.1 91 (heq ▸ List.mem_cons_self) (by decide)
          rw [findDataLoop_succ hnext hname hlen hnul, if_neg hkey]
          exact if_pos rfl
      | entry key' value' =>
          have hline : Rest f (p + a.length + 1)
              (key'.val ++ 61 :: (value'.val ++ [13] ++ 10 :: IniText.render ⟨lines, tail⟩)) := by
            simpa [Line.render] using hrest
          rw [findDataLoop_entry hnext hline, if_neg (by simp : ¬ value'.val ++ [13] ++ 10 :: _ = [])]
          show (((key', value') :: entriesOf tail lines).lookup key = none → _) ∧
            ∀ _, ((key', value') :: entriesOf tail lines).lookup key = _ → _
          by_cases hkey : key' = key
          · subst hkey
            rw [if_pos rfl, List.lookup_cons_self]
            refine ⟨nofun, fun value hvalue => ?_⟩
            obtain rfl := Option.some.inj hvalue
            refine ⟨_, ?_, placed_entry key' value' lines⟩
            rw [List.length_append, List.length_singleton, Nat.add_assoc _ _ 1]
          · rw [if_neg hkey, List.lookup_cons, beq_false_of_ne (Ne.symm hkey)]
            have hfree : (10 : UInt8) ∉ value'.val ++ [13] := by
              have := Plain.not_mem value'.2.1 (by decide : (10 : UInt8) ∈ _)
              simp [this]
            obtain ⟨hnone, hsome⟩ := ih hlines hfree hline.append.cons
            refine ⟨hnone, fun value hvalue => ?_⟩
            obtain ⟨x, hx, hplaced⟩ := hsome value hvalue
            refine ⟨_, ?_, hplaced.cons fun value' => by rw [setValue, if_neg hkey]⟩
            rw [hx]
            simp [Line.render]
            omega
      | blank =>
          have hline : Rest f (p + a.length + 1) ([] ++ 13 :: 10 :: IniText.render ⟨lines, tail⟩) := hrest
          have hne : key.val ≠ [] := List.ne_nil_of_length_pos key.2.2.1
          have hname : f.readDataName (p + a.length + 1) = some ([], p + a.length + 1 + 1) :=
            readDataName_end (by simp) (by simp) (by decide) hline
          have hmore : ¬ f.dataLen ≤ p + a.length + 1 + 1 := by
            rw [hline.dataLen]
            simp only [List.nil_append, List.length_cons]
            omega
          rw [findDataLoop_succ hnext hname (by decide) (by decide), if_neg hne.symm, if_neg (by decide), if_neg hmore]
          have hnewline : Rest f (p + a.length + 1 + 1) ([] ++ 10 :: IniText.render ⟨lines, tail⟩) := Rest.cons hline
          obtain ⟨hnone, hsome⟩ := ih hlines (by simp) hnewline
          refine ⟨hnone, fun value hvalue => ?_⟩
          obtain ⟨x, hx, hplaced⟩ := hsome value hvalue
          refine ⟨_, ?_, hplaced.cons fun value' => rfl⟩
          refine hx.trans ?_
          simp [Line.render]
          omega

/-! ## The index -/

/-- Where the names of the sections begin, in lines from the position on. -/
def sectionsFrom : List Line → Nat → List Nat
  | [], _            => []
  | line :: lines, o =>
    if line.isSection then (o + 1) :: sectionsFrom lines (o + line.render.length)
    else sectionsFrom lines (o + line.render.length)

theorem sectionsFrom_section (name : Name 60) (lines : List Line) (o : Nat) :
    sectionsFrom (.section_ name :: lines) o =
      (o + 1) :: sectionsFrom lines (o + (Line.section_ name).render.length) := rfl

theorem initIndexFrom_cons (h : Rest f p (c :: s)) (n : Nat) :
    initIndexFrom f.data (n + 1) p =
      (initIndexFrom f.data n (p + 1)).map fun rest =>
        if c = 91 ∧ (p = 0 ∨ f.data[p - 1]? = some 10) then (p + 1) :: rest else rest := by
  rw [initIndexFrom, h.head, Option.bind_some]

/-- Inside a line there is no index. -/
theorem initIndexFrom_skip (h : Rest f p (a ++ b)) (ha : 10 ∉ a) (hp : p ≠ 0) (hprev : f.data[p - 1]? ≠ some 10)
    (n : Nat) : initIndexFrom f.data (a.length + n) p = initIndexFrom f.data n (p + a.length) := by
  induction a generalizing p with
  | nil => simp
  | cons c a ih =>
      obtain ⟨hc, ha⟩ := not_or.mp (mt List.mem_cons.mpr ha)
      have hprev' : f.data[p + 1 - 1]? ≠ some 10 := by
        rw [Nat.add_sub_cancel, Rest.head h]
        exact fun heq => hc (Option.some.inj heq).symm
      rw [List.length_cons, Nat.add_right_comm, initIndexFrom_cons h, ih (Rest.cons h) ha (Nat.succ_ne_zero p) hprev',
        Nat.add_assoc p 1, Nat.add_comm 1]
      simp [hp, hprev]

/-- A line, up to its end. -/
theorem render_line (line : Line) :
    ∃ c mid, line.render = c :: mid ++ [10] ∧ 10 ∉ c :: mid ∧ (c = 91 ↔ line.isSection = true) := by
  cases line with
  | section_ name =>
      refine ⟨91, name.val ++ [93, 13], ?_, ?_, by simp [Line.isSection]⟩
      · simp [Line.render]
      · have := Plain.not_mem name.2.1 (by decide : (10 : UInt8) ∈ _)
        simp [this]
  | entry key value =>
      obtain ⟨k, hkey⟩ := key
      obtain ⟨c, k, rfl⟩ := List.exists_cons_of_ne_nil (List.ne_nil_of_length_pos hkey.2.1)
      refine ⟨c, k ++ 61 :: value.val ++ [13], by simp [Line.render], ?_, ?_⟩
      · have hk := Plain.not_mem hkey.1 (by decide : (10 : UInt8) ∈ _)
        have hv := Plain.not_mem value.2.1 (by decide : (10 : UInt8) ∈ _)
        simp only [List.mem_cons, not_or] at hk
        simp [hv, hk]
      · have hc : c ≠ 91 := by
          rintro rfl
          exact hkey.1 91 List.mem_cons_self (by decide)
        simp [hc, Line.isSection]
  | blank => exact ⟨13, [], rfl, by decide, by decide⟩

theorem initIndexFrom_tail (h : Rest f p (tailText tail)) :
    initIndexFrom f.data (tailText tail).length p = some [] := by
  cases tail with
  | none => rfl
  | some e =>
      obtain ⟨⟨k, hkey⟩, value⟩ := e
      obtain ⟨c, k, rfl⟩ := List.exists_cons_of_ne_nil (List.ne_nil_of_length_pos hkey.2.1)
      have hk := Plain.not_mem hkey.1 (by decide : (10 : UInt8) ∈ _)
      have hv := Plain.not_mem value.2.1 (by decide : (10 : UInt8) ∈ _)
      obtain ⟨hc, hk⟩ := not_or.mp (mt List.mem_cons.mpr hk)
      have hhead : c ≠ 91 := by
        rintro rfl
        exact hkey.1 91 List.mem_cons_self (by decide)
      have hrest : Rest f p (c :: ((k ++ 61 :: value.val) ++ [])) := by
        rw [List.append_nil]
        exact h
      have hprev : f.data[p + 1 - 1]? ≠ some 10 := by
        rw [Nat.add_sub_cancel, hrest.head]
        exact fun heq => hc (Option.some.inj heq).symm
      have hskip := initIndexFrom_skip hrest.cons (by simp [hk, hv]) (Nat.succ_ne_zero p) hprev 0
      rw [Nat.add_zero] at hskip
      show initIndexFrom f.data ((k ++ 61 :: value.val).length + 1) p = some []
      rw [initIndexFrom_cons hrest, hskip]
      simp [initIndexFrom, hhead]

/-- **`init_index`** finds the section lines. -/
theorem initIndexFrom_eq (h : Rest f p (IniText.render ⟨lines, tail⟩)) (hp : p = 0 ∨ f.data[p - 1]? = some 10) :
    initIndexFrom f.data (IniText.render ⟨lines, tail⟩).length p = some (sectionsFrom lines p) := by
  induction lines generalizing p with
  | nil => exact initIndexFrom_tail h
  | cons line lines ih =>
      obtain ⟨c, mid, hline, hmid, hc⟩ := render_line line
      obtain ⟨hc10, hmid⟩ := not_or.mp (mt List.mem_cons.mpr hmid)
      have hlen : line.render.length = mid.length + 2 := by simp [hline]
      have hrest : Rest f p (c :: (mid ++ (10 :: IniText.render ⟨lines, tail⟩))) := by
        rw [render_cons, hline] at h
        simpa using h
      have hprev : f.data[p + 1 - 1]? ≠ some 10 := by
        rw [Nat.add_sub_cancel, hrest.head]
        exact fun heq => hc10 (Option.some.inj heq).symm
      have hend := hrest.cons.append
      have hnext : f.data[p + 1 + mid.length + 1 - 1]? = some 10 := by
        rw [Nat.add_sub_cancel]
        exact hend.head
      have hcount : (IniText.render ⟨line :: lines, tail⟩).length =
          mid.length + ((IniText.render ⟨lines, tail⟩).length + 1) + 1 := by
        rw [render_cons, List.length_append, hlen]
        omega
      have hpos : p + line.render.length = p + 1 + mid.length + 1 := by omega
      rw [hcount, initIndexFrom_cons hrest, initIndexFrom_skip hrest.cons hmid (Nat.succ_ne_zero p) hprev,
        initIndexFrom_cons hend, ih hend.cons (Or.inr hnext), sectionsFrom, hpos]
      simp [hc, hp]

theorem Plain.cstr_eq {text : List UInt8} (h : Plain text) : cstr text = text := cstr_eq_self (Plain.nulFree h)

/-- The name in a section line is read at its index. -/
theorem readText_section {name : Name 60} (h : Rest f p (name.val ++ 93 :: b)) : f.readText p = some name.val := by
  have hlen : name.val.length < 1024 := Nat.lt_of_le_of_lt name.2.2.2 (by decide)
  have hend : ∀ c, (93 :: b).head? = some c → EndsText c := by
    rintro c hc
    cases hc
    decide
  rw [readText_eq (Plain.not_endsText name.2.1) hlen hend h, Plain.cstr_eq name.2.1]

/-- **`find_index`** finds the first section line with the name. -/
theorem findIndex_spec (name : Name 60) (h : Rest f p (IniText.render ⟨lines, tail⟩)) :
    (behindSection name lines = none → f.findIndex name.val (sectionsFrom lines p) = some none) ∧
      ∀ rest, behindSection name lines = some rest →
        ∃ before, lines = before ++ .section_ name :: rest ∧ behindSection name before = none ∧
          f.findIndex name.val (sectionsFrom lines p) = some (some (p + (before.flatMap Line.render).length + 1)) := by
  induction lines generalizing p with
  | nil => exact ⟨fun _ => rfl, nofun⟩
  | cons line lines ih =>
      rw [render_cons] at h
      obtain ⟨hnone, hsome⟩ := ih h.append
      -- a line that does not have the name is passed over
      have hpass : (∀ lines, behindSection name (line :: lines) = behindSection name lines) →
          f.findIndex name.val (sectionsFrom (line :: lines) p) =
            f.findIndex name.val (sectionsFrom lines (p + line.render.length)) →
          (behindSection name (line :: lines) = none →
              f.findIndex name.val (sectionsFrom (line :: lines) p) = some none) ∧
            ∀ rest, behindSection name (line :: lines) = some rest →
              ∃ before, line :: lines = before ++ .section_ name :: rest ∧ behindSection name before = none ∧
                f.findIndex name.val (sectionsFrom (line :: lines) p) =
                  some (some (p + (before.flatMap Line.render).length + 1)) := by
        intro hbehind hfind
        rw [hbehind, hfind]
        refine ⟨hnone, fun rest hrest => ?_⟩
        obtain ⟨before, rfl, hbefore, hq⟩ := hsome rest hrest
        refine ⟨line :: before, rfl, (hbehind before).trans hbefore, ?_⟩
        rw [hq, List.flatMap_cons, List.length_append]
        congr 2
        omega
      cases line with
      | section_ name' =>
          have hat : Rest f (p + 1) (name'.val ++ 93 :: 13 :: 10 :: IniText.render ⟨lines, tail⟩) := by
            apply Rest.cons
            simpa [Line.render] using h
          by_cases hname : name' = name
          · subst hname
            refine ⟨fun h => ?_, fun rest hrest => ?_⟩
            · rw [behindSection, if_pos rfl] at h
              cases h
            · rw [behindSection, if_pos rfl] at hrest
              cases hrest
              refine ⟨[], rfl, rfl, ?_⟩
              rw [sectionsFrom_section, findIndex, readText_section hat, Option.bind_some, if_pos rfl]
              rfl
          · apply hpass
            · intro lines
              rw [behindSection, if_neg hname]
            · rw [sectionsFrom_section, findIndex, readText_section hat, Option.bind_some,
                if_neg fun heq => hname (Subtype.val_inj.mp heq)]
      | entry key value => exact hpass (fun _ => rfl) rfl
      | blank => exact hpass (fun _ => rfl) rfl

/-- The lines behind a section line. -/
theorem Rest.behind {name : Name 60} {before rest : List Line}
    (h : Rest f p (IniText.render ⟨before ++ .section_ name :: rest, tail⟩)) :
    Rest f (p + (before.flatMap Line.render).length + 1)
      (name.val ++ 93 :: 13 :: 10 :: IniText.render ⟨rest, tail⟩) := by
  have hrest : Rest f p
      (before.flatMap Line.render ++ 91 :: (name.val ++ 93 :: 13 :: 10 :: IniText.render ⟨rest, tail⟩)) := by
    simpa [IniText.render, Line.render] using h
  exact hrest.append.cons

theorem length_le_render (tail : Option (Name 63 × Value)) (lines : List Line) :
    lines.length ≤ (IniText.render ⟨lines, tail⟩).length := by
  induction lines with
  | nil => exact Nat.zero_le _
  | cons line lines ih =>
      obtain ⟨c, mid, hline, _⟩ := render_line line
      have hpos : 0 < line.render.length := by simp [hline]
      rw [render_cons, List.length_append, List.length_cons]
      omega

/-- **`find_data`** in the lines behind a section line. -/
theorem findData_spec (key : Name 63) {q : Nat} {name : Name 60} {rest : List Line}
    (h : Rest f q (name.val ++ 93 :: 13 :: 10 :: IniText.render ⟨rest, tail⟩)) :
    ((entriesOf tail rest).lookup key = none → f.findData q key.val = some none) ∧
      ∀ value, (entriesOf tail rest).lookup key = some value →
        ∃ x, f.findData q key.val = some (some (q + name.val.length + 3 + x.length)) ∧
          Placed key tail rest value x := by
  have hfuel : rest.length + 2 ≤ f.dataLen + 1 := by
    have := length_le_render tail rest
    rw [h.dataLen]
    simp only [List.length_append, List.length_cons]
    omega
  have hfree : (10 : UInt8) ∉ name.val ++ [93, 13] := by
    have := Plain.not_mem name.2.1 (by decide : (10 : UInt8) ∈ _)
    simp [this]
  have hline : Rest f q ((name.val ++ [93, 13]) ++ 10 :: IniText.render ⟨rest, tail⟩) := by simpa using h
  obtain ⟨hnone, hsome⟩ := findDataLoop_spec key rest hfuel hfree hline
  refine ⟨hnone, fun value hvalue => ?_⟩
  obtain ⟨x, hx, hplaced⟩ := hsome value hvalue
  refine ⟨x, ?_, hplaced⟩
  have hpos : q + (name.val ++ [93, 13]).length + 1 = q + name.val.length + 3 := by
    rw [List.length_append]
    rfl
  rw [findData, hx, hpos]

/-- A file that holds the text, with the index of its section lines. -/
structure Holds (f : IniFile) (t : IniText) : Prop where
  text : Rest f 0 t.render
  index : f.indexList = sectionsFrom t.lines 0

theorem readValue {value : Value} (h : Rest f p (value.val ++ b)) (hb : ∀ c, b.head? = some c → EndsText c) :
    f.readText p = some value.val := by
  rw [readText_eq (Plain.not_endsText value.2.1) value.2.2 hb h, Plain.cstr_eq value.2.1]

/-- **Reading.** A key is found in the first section with the name, with the value of its first line there. -/
theorem readTextIfExist_of_holds {t : IniText} (h : Holds f t) (name : Name 60) (key : Name 63) :
    f.readTextIfExist name.val key.val = some ((t.lookup name key).map Subtype.val) := by
  obtain ⟨hnone, hsome⟩ := findIndex_spec name h.text
  rw [readTextIfExist, h.index, IniText.lookup]
  cases hbehind : behindSection name t.lines with
  | none =>
      rw [hnone hbehind]
      rfl
  | some rest =>
      obtain ⟨before, hlines, _, hq⟩ := hsome rest hbehind
      have hat : Rest f (0 + (before.flatMap Line.render).length + 1)
          (name.val ++ 93 :: 13 :: 10 :: IniText.render ⟨rest, t.tail⟩) := Rest.behind (hlines ▸ h.text)
      generalize 0 + (before.flatMap Line.render).length + 1 = q at hq hat
      obtain ⟨hmissing, hfound⟩ := findData_spec key hat
      rw [hq, Option.bind_some]
      show (f.findData q key.val).bind _ = some (((entriesOf t.tail rest).lookup key).map _)
      cases hlookup : (entriesOf t.tail rest).lookup key with
      | none =>
          rw [hmissing hlookup]
          rfl
      | some value =>
          obtain ⟨x, hx, e, htext, he, _⟩ := hfound value hlookup
          have hvalue : Rest f (q + name.val.length + 3 + x.length) (value.val ++ e) := by
            have hlines : Rest f (q + (name.val ++ [93, 13, 10]).length) (x ++ (value.val ++ e)) := by
              apply Rest.append
              rw [List.append_assoc] at htext
              rw [← htext]
              simpa using hat
            have hvalue := hlines.append
            rwa [List.length_append, ← Nat.add_assoc] at hvalue
          rw [hx, Option.bind_some]
          show (f.readText _).map some = _
          rw [readValue hvalue he]
          rfl

/-- What `open` leaves. -/
theorem holds_of_init {t : IniText} {data : List UInt8} {slack : List UInt8}
    (hdata : data = t.render ++ slack)
    (h : initIndex { data := data, dataLen := t.render.length } = some f) : Holds f t := by
  have hrest : Rest { data := data, dataLen := t.render.length } 0 t.render := ⟨[], slack, hdata, rfl, by simp⟩
  rw [initIndex, initIndexFrom_eq hrest (Or.inl rfl), Option.map_some] at h
  cases h
  exact ⟨hrest, rfl⟩

end Lines

theorem render_eq_nil_iff {lines : List Line} : IniText.render ⟨lines, none⟩ = [] ↔ lines = [] := by
  cases lines with
  | nil => exact iff_of_true rfl rfl
  | cons line lines =>
      obtain ⟨c, mid, hline, _⟩ := render_line line
      simp [render_cons, hline]

/-- **Lookups are exact.** In a text of lines that was opened, a key is found exactly if the first section with the name
    has a line with it before the next section line, with the value of the first such line, and no lookup leaves the
    text or a buffer. -/
theorem readTextIfExist_eq {lines : List Line} {f : IniFile}
    (hopen : openBuffer (IniText.render ⟨lines, none⟩) = some f ∨ openFile (IniText.render ⟨lines, none⟩) = some f)
    (name : Name 60) (key : Name 63) :
    f.readTextIfExist name.val key.val = some ((IniText.lookup ⟨lines, none⟩ name key).map Subtype.val) ∧
      ∀ size, f.readTextIfExistTo name.val key.val size =
        some ((IniText.lookup ⟨lines, none⟩ name key).map fun value => strncpy size value.val) := by
  have hread : f.readTextIfExist name.val key.val = some ((IniText.lookup ⟨lines, none⟩ name key).map Subtype.val) := by
    rcases hopen with hopen | hopen
    · rw [openBuffer] at hopen
      split at hopen
      · exact readTextIfExist_of_holds (holds_of_init rfl hopen) name key
      · cases hopen
    · rw [openFile] at hopen
      split at hopen
      · split at hopen
        · rename_i hempty
          cases hopen
          rw [render_eq_nil_iff.mp hempty]
          rfl
        · exact readTextIfExist_of_holds (holds_of_init (List.append_nil _).symm hopen) name key
      · cases hopen
  refine ⟨hread, fun size => ?_⟩
  rw [readTextIfExistTo, hread, Option.map_some, Option.map_map]
  rfl

/-- Two sections with one key. -/
def twoSections : List Line :=
  [.section_ ⟨ascii "net", by decide +kernel⟩, .blank,
    .entry ⟨ascii "port", by decide +kernel⟩ ⟨ascii "80", by decide +kernel⟩,
    .section_ ⟨ascii "db", by decide +kernel⟩,
    .entry ⟨ascii "port", by decide +kernel⟩ ⟨ascii "81", by decide +kernel⟩]

theorem readTextIfExist_eq_port :
    ∃ f, openFile (IniText.render ⟨twoSections, none⟩) = some f ∧
      f.readTextIfExist (ascii "db") (ascii "port") = some (some (ascii "81")) := by
  have hopen : (openFile (IniText.render ⟨twoSections, none⟩)).isSome = true := by decide
  obtain ⟨f, hf⟩ := Option.isSome_iff_exists.mp hopen
  exact ⟨f, hf, (readTextIfExist_eq (Or.inr hf) ⟨ascii "db", by decide +kernel⟩
    ⟨ascii "port", by decide +kernel⟩).1.trans (by decide)⟩

end IniFile

end Mowang
