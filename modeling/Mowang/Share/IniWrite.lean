import Mowang.Base.Block
import Mowang.Base.Run
import Mowang.Share.IniFile

/-!
# `Share.IniWrite` — writing keys into the text of an INI file

`write` splices the text in place: another value where the old one stands, a new entry before the line behind the one
where `goto_last_line` stops. The index of the section lines is computed again only for a new section.

`Store.write` is what that should do to the lines of the text, for the writes that get there. The others lose an entry
or leave the memory: a new section is printed with its NUL behind the new memory; a shorter value is copied to memory
that is too small; a new entry brings no end of line; and with a section behind, the index is wrong afterwards.

## Contents
- `reallocArray`, `addIndex`, `addData`, `modityData`, `gotoLastLine`, `write`.
- `Store`, `Store.write`, and `lookup_write`, its laws.
- `moveText_eq`, `lastLineLoop_spec`, `write_matches` — one write.
- `write_reads` — runs; `new_keys_merge`.
-/

namespace Mowang.IniFile

/-! ## The writers

`none` is again an access outside of some memory. -/

/-- A write into memory. -/
def put (memory : List UInt8) (off : Nat) (bytes : List UInt8) : Option (List UInt8) :=
  ((Block.ofList memory).write? off bytes).map Block.cells

def get (memory : List UInt8) (off len : Nat) : Option (List UInt8) :=
  (Block.ofList memory).read? off len

section Writers

-- What new memory holds.
variable (fresh : Nat → UInt8)

/-- `realloc_array`. The `memset` clears as many bytes as the length itself has, and the old text is copied whatever the
    new length is. -/
def reallocArray (data : List UInt8) (srcLen destLen : Nat) : Option (List UInt8) :=
  if destLen < 2 ^ 31 then
    (put ((List.range destLen).map fresh) 0 [0, 0, 0, 0]).bind fun temp => (get data 0 srcLen).bind (put temp 0)
  else none

/-- `add_index`; `sprintf` also writes the NUL. -/
def addIndex (f : IniFile) (index : List UInt8) : Option IniFile :=
  (f.findIndex index f.indexList).bind fun
    | some _ => some f
    | none   =>
      let str := [13, 10, 91] ++ index ++ [93]
      if str.length < 256 then
        (reallocArray fresh f.data f.dataLen (f.dataLen + str.length)).bind fun data =>
        (put data f.dataLen (str ++ [0])).bind fun data =>
        initIndex { f with data := data, dataLen := f.dataLen + str.length }
      else none

/-- How `add_data` and `modity_data` end: the text from `p` on is moved behind the string, which is put to `n`. -/
def moveText (f : IniFile) (n p : Nat) (string : List UInt8) (destLen : Nat) : Option IniFile :=
  (reallocArray fresh f.data f.dataLen destLen).bind fun data =>
  (get data p (f.dataLen - p)).bind fun temp => (put data (n + string.length) temp).bind fun data =>
  (put data n string).map fun data => { f with data := data, dataLen := destLen }

/-- `add_data`: an entry before the next line. -/
def addData (f : IniFile) (p : Nat) (name string : List UInt8) : Option IniFile :=
  let str := name ++ 61 :: string
  if str.length < string.length + 256 then
    (f.gotoNextLine p).bind fun p => f.moveText fresh p p str (f.dataLen + str.length)
  else none

/-- `modity_data`: another value in place of the old one. -/
def modityData (f : IniFile) (p : Nat) (name string : List UInt8) : Option IniFile :=
  (f.findData p name).bind fun
    | none   => none
    | some n =>
      (f.readText n).bind fun t =>
        f.moveText fresh n (n + t.length) string (f.dataLen + string.length - t.length)

/-- Where `goto_last_line` stops: `\r`, `EOF`, -3, a blank, `/`, `\t` or `\n`. -/
abbrev StopsLine (c : UInt8) : Prop := c = 13 ∨ c = 255 ∨ c = 253 ∨ c = 32 ∨ c = 47 ∨ c = 9 ∨ c = 10

/-- The loop of `goto_last_line`, for so many lines at most. -/
def lastLineLoop (f : IniFile) : Nat → Nat → Option Nat
  | 0, _         => none
  | lines + 1, n =>
    f.data[n]?.bind fun c =>
      if StopsLine c then some n
      else (f.gotoNextLine n).bind fun n => if f.dataLen ≤ n then some n else f.lastLineLoop lines n

/-- `goto_last_line`. -/
def gotoLastLine (f : IniFile) (index : List UInt8) : Option Nat :=
  (f.findIndex index f.indexList).bind fun
    | none   => none
    | some n => (f.gotoNextLine n).bind (f.lastLineLoop (f.dataLen + 1))

/-- `write`. -/
def write (f : IniFile) (index name string : List UInt8) : Option IniFile :=
  (f.findIndex index f.indexList).bind fun
    | none   =>
      (f.addIndex fresh index).bind fun f => (f.gotoLastLine index).bind fun n => f.addData fresh n name string
    | some n =>
      (f.findData n name).bind fun
        | none   => (f.gotoLastLine index).bind fun n => f.addData fresh n name string
        | some _ => f.modityData fresh n name string

end Writers

/-! ## What a write should do

The lines of a text with one more entry or another value, where `write` gets there: a section that exists; a value that
is not shorter than the old one, and as long if a section follows; a new entry only in the last section, and only where
it comes to stand on a line of its own. -/

structure Write where
  section_ : Name 60
  key : Name 63
  value : Value
deriving DecidableEq

/-- `goto_last_line` stops at this line. -/
def Line.stops (line : Line) : Bool := line.render.head?.any fun c => decide (StopsLine c)

def consLine (line : Line) (t : IniText) : IniText := { t with lines := line :: t.lines }

/-- A new entry behind the first line where `goto_last_line` stops, or at the end; it takes the line of a blank one. -/
def insertEntry (key : Name 63) (value : Value) (tail : Option (Name 63 × Value)) : List Line → Option IniText
  | []            => if tail = none then some ⟨[], some (key, value)⟩ else none
  | line :: lines =>
    if line.stops then
      match lines with
      | []              => if tail = none then some ⟨[line], some (key, value)⟩ else none
      | .blank :: lines => some ⟨line :: .entry key value :: lines, tail⟩
      | _               => none
    else (insertEntry key value tail lines).map (consLine line)

/-- The text of a file, and whether a byte behind it is allocated. -/
structure Store where
  text : IniText
  spare : Bool
deriving DecidableEq

/-- The lines behind the section line after a write. -/
def Store.update (st : Store) (key : Name 63) (value : Value) (rest : List Line) : Option IniText :=
  match (entriesOf st.text.tail rest).lookup key with
  | some old =>
    if old.val.length = value.val.length ∨ (old.val.length < value.val.length ∧ ¬ rest.any Line.isSection) then
      some (setValue key value st.text.tail rest)
    else none
  | none     =>
    if rest.any Line.isSection ∨ (rest = [] ∧ st.spare = false) then none
    else insertEntry key value st.text.tail rest

/-- The lines behind the first section line with the name are replaced. -/
def updateBehind (name : Name 60) (update : List Line → Option IniText) : List Line → Option IniText
  | []                       => none
  | .section_ name' :: lines =>
    if name' = name then (update lines).map (consLine (.section_ name'))
    else (updateBehind name update lines).map (consLine (.section_ name'))
  | line :: lines            => (updateBehind name update lines).map (consLine line)

def Store.write (st : Store) (w : Write) : Option Store :=
  (updateBehind w.section_ (st.update w.key w.value) st.text.lines).bind fun text =>
    if text.render.length < 2 ^ 31 then some ⟨text, false⟩ else none

/-! ## Memory -/

section Memory

variable {memory a b mid bytes : List UInt8} {off : Nat}

theorem put_eq (hmemory : memory = a ++ mid ++ b) (hoff : a.length = off) (hlen : mid.length = bytes.length) :
    put memory off bytes = some (a ++ bytes ++ b) := by
  subst hmemory hoff
  have hfit : a.length + bytes.length ≤ (a ++ mid ++ b).length := by
    simp only [List.length_append]
    omega
  rw [put, Block.write?_eq hfit, Option.map_some, Block.write]
  simp [← hlen]

theorem get_eq (hmemory : memory = a ++ mid ++ b) (hoff : a.length = off) :
    get memory off mid.length = some mid := by
  subst hmemory hoff
  rw [get, Block.read?_eq (by simp only [List.length_append]; omega), Block.slice]
  simp

/-- A list in two parts. -/
theorem exists_append {n : Nat} (h : n ≤ memory.length) : ∃ a b, memory = a ++ b ∧ a.length = n :=
  ⟨memory.take n, memory.drop n, (List.take_append_drop n memory).symm, List.length_take_of_le h⟩

variable {fresh : Nat → UInt8} {before old new after slack : List UInt8}

/-- The text is copied to the front of the new memory. -/
theorem reallocArray_eq {text : List UInt8} {destLen : Nat} (hle : text.length ≤ destLen) (hmin : 4 ≤ destLen)
    (hmax : destLen < 2 ^ 31) :
    ∃ junk, reallocArray fresh (text ++ slack) text.length destLen = some (text ++ junk) ∧
      text.length + junk.length = destLen := by
  have hnew : ((List.range destLen).map fresh).length = destLen := by simp
  obtain ⟨cleared, rest, hcleared, hfour⟩ := exists_append (hnew.symm ▸ hmin : 4 ≤ _)
  have hput : put ((List.range destLen).map fresh) 0 [0, 0, 0, 0] = some ([] ++ [0, 0, 0, 0] ++ rest) :=
    put_eq (by rw [hcleared, List.nil_append]) rfl hfour
  have htemp : ([] ++ [0, 0, 0, 0] ++ rest : List UInt8).length = destLen := by
    have hlen := congrArg List.length hcleared
    rw [hnew, List.length_append, hfour] at hlen
    rw [hlen, List.length_append, List.nil_append]
    rfl
  obtain ⟨under, junk, hunder, hlen⟩ := exists_append (htemp.symm ▸ hle)
  refine ⟨junk, ?_, ?_⟩
  · have hget : get (text ++ slack) 0 text.length = some text := @get_eq _ [] slack text 0 rfl rfl
    rw [reallocArray, if_pos hmax, hput, Option.bind_some, hget, Option.bind_some,
      @put_eq _ [] junk under text 0 (by rw [hunder, List.nil_append]) rfl hlen, List.nil_append]
  · rw [← htemp, hunder, List.length_append, hlen]

/-- **Splicing.** What stands between two parts of the text is replaced by something that is not shorter. -/
theorem moveText_eq {f : IniFile} (hdata : f.data = before ++ old ++ after ++ slack)
    (hdataLen : f.dataLen = (before ++ old ++ after).length) (hle : old.length ≤ new.length)
    (hmin : 4 ≤ (before ++ new ++ after).length) (hmax : (before ++ new ++ after).length < 2 ^ 31) :
    f.moveText fresh before.length (before.length + old.length) new (before ++ new ++ after).length =
      some { f with data := before ++ new ++ after, dataLen := (before ++ new ++ after).length } := by
  have hshorter : (before ++ old ++ after).length ≤ (before ++ new ++ after).length := by
    simp only [List.length_append]
    omega
  obtain ⟨junk, hrealloc, hjunk⟩ := @reallocArray_eq fresh slack _ _ hshorter hmin hmax
  have hget : get (before ++ old ++ after ++ junk) (before.length + old.length) after.length = some after :=
    get_eq rfl (by rw [List.length_append])
  -- the new value and the moved text fill the new memory
  have hlen : new.length ≤ (old ++ after ++ junk).length := by
    simp only [List.length_append] at hjunk ⊢
    omega
  obtain ⟨under, rest, hunder, hnew⟩ := exists_append hlen
  have hrest : rest.length = after.length := by
    have h := congrArg List.length hunder
    simp only [List.length_append] at h hjunk
    omega
  have hmove : put (before ++ old ++ after ++ junk) (before.length + new.length) after =
      some (before ++ under ++ after ++ []) := by
    refine @put_eq _ _ _ rest _ _ ?_ (by rw [List.length_append, hnew]) hrest
    have h := congrArg (before ++ ·) hunder
    simpa only [List.append_assoc, List.append_nil] using h
  have hwrite : put (before ++ under ++ after ++ []) before.length new = some (before ++ new ++ (after ++ [])) :=
    @put_eq _ _ _ under _ _ (by simp only [List.append_assoc]) rfl hnew
  have hafter : f.dataLen - (before.length + old.length) = after.length := by
    rw [hdataLen]
    simp only [List.length_append]
    omega
  rw [moveText, hafter, hdata, hdataLen, hrealloc, Option.bind_some, hget, Option.bind_some, hmove, Option.bind_some,
    hwrite, List.append_nil]
  rfl

end Memory

/-! ## The lines of the new text -/

section Lines

variable {name : Name 60} {key : Name 63} {value : Value} {tail : Option (Name 63 × Value)} {lines rest : List Line}

/-- A line that does not have the name is kept. -/
theorem updateBehind_cons {update : List Line → Option IniText} {line : Line} (h : behindSection name [line] = none) :
    (∀ lines, behindSection name (line :: lines) = behindSection name lines) ∧
      updateBehind name update (line :: lines) = (updateBehind name update lines).map (consLine line) := by
  cases line with
  | section_ name' =>
      have hname : name' ≠ name := by
        rintro rfl
        rw [behindSection, if_pos rfl] at h
        cases h
      exact ⟨fun lines => if_neg hname, if_neg hname⟩
  | entry key value => exact ⟨fun _ => rfl, rfl⟩
  | blank => exact ⟨fun _ => rfl, rfl⟩

theorem behindSection_singleton {line : Line} (h : behindSection name (line :: lines) = none) :
    behindSection name [line] = none := by
  cases line with
  | section_ name' =>
      rw [behindSection] at h ⊢
      split at h
      · cases h
      · rename_i hname
        rw [if_neg hname]
        rfl
  | entry key value => rfl
  | blank => rfl

theorem updateBehind_none {update : List Line → Option IniText} (h : behindSection name lines = none) :
    updateBehind name update lines = none := by
  induction lines with
  | nil => rfl
  | cons line lines ih =>
      obtain ⟨hbehind, hupdate⟩ := @updateBehind_cons name _ update _ (behindSection_singleton h)
      rw [hupdate, ih ((hbehind lines).symm.trans h)]
      rfl

/-- The first section line with the name, and what is replaced behind it. -/
theorem updateBehind_eq {update : List Line → Option IniText} {before : List Line}
    (h : behindSection name before = none) :
    updateBehind name update (before ++ .section_ name :: rest) =
      (update rest).map fun t => ⟨before ++ .section_ name :: t.lines, t.tail⟩ := by
  induction before with
  | nil => exact if_pos rfl
  | cons line before ih =>
      obtain ⟨hbehind, hupdate⟩ := @updateBehind_cons name _ update _ (behindSection_singleton h)
      rw [List.cons_append, hupdate, ih ((hbehind before).symm.trans h), Option.map_map]
      rfl

theorem behindSection_append {before : List Line} (h : behindSection name before = none) (lines : List Line) :
    behindSection name (before ++ lines) = behindSection name lines := by
  induction before with
  | nil => rfl
  | cons line before ih =>
      have hbehind := (@updateBehind_cons name [] (fun _ => none) line (behindSection_singleton h)).1
      rw [List.cons_append, hbehind, ih ((hbehind before).symm.trans h)]

/-- The entries before a section line do not depend on what is behind it. -/
theorem entriesOf_append_section (before rest : List Line) :
    entriesOf tail (before ++ .section_ name :: rest) = entriesOf none before := by
  induction before with
  | nil => rfl
  | cons line before ih =>
      cases line with
      | section_ name'   => rfl
      | entry key' value => exact congrArg _ ih
      | blank            => exact ih

/-- Lookups in a text whose lines behind a section line are replaced. -/
theorem lookup_replace_self {before : List Line} (hbefore : behindSection name before = none) :
    IniText.lookup ⟨before ++ .section_ name :: rest, tail⟩ name key = (entriesOf tail rest).lookup key := by
  show (behindSection name (before ++ .section_ name :: rest)).bind _ = _
  rw [behindSection_append hbefore, behindSection, if_pos rfl]
  rfl

theorem lookup_replace_ne {before rest' : List Line} {tail' : Option (Name 63 × Value)} {name' : Name 60}
    (hname : name' ≠ name) (h : IniText.lookup ⟨rest', tail'⟩ name' key = IniText.lookup ⟨rest, tail⟩ name' key) :
    IniText.lookup ⟨before ++ .section_ name :: rest', tail'⟩ name' key =
      IniText.lookup ⟨before ++ .section_ name :: rest, tail⟩ name' key := by
  induction before with
  | nil =>
      show (behindSection name' (.section_ name :: rest')).bind _ =
        (behindSection name' (.section_ name :: rest)).bind _
      rw [behindSection, if_neg hname.symm, behindSection, if_neg hname.symm]
      exact h
  | cons line before ih =>
      cases line with
      | section_ name₁ =>
          show (behindSection name' (.section_ name₁ :: (before ++ _))).bind _ =
            (behindSection name' (.section_ name₁ :: (before ++ _))).bind _
          rw [behindSection, behindSection]
          split
          · rw [Option.bind_some, Option.bind_some, entriesOf_append_section, entriesOf_append_section]
          · exact ih
      | entry key' value => exact ih
      | blank => exact ih

/-! ## Another value -/

theorem lookup_cons_ite (key key' : Name 63) (value : Value) (entries : List (Name 63 × Value)) :
    ((key', value) :: entries).lookup key = if key' = key then some value else entries.lookup key := by
  by_cases hkey : key' = key
  · rw [if_pos hkey, hkey, List.lookup_cons_self]
  · rw [if_neg hkey, List.lookup_cons, beq_false_of_ne (Ne.symm hkey)]

/-- The first line with the key has the new value; the others are as they were. -/
theorem lookup_setValue (key' : Name 63) :
    (entriesOf (setValue key value tail lines).tail (setValue key value tail lines).lines).lookup key' =
      if key' = key then ((entriesOf tail lines).lookup key).map fun _ => value
      else (entriesOf tail lines).lookup key' := by
  induction lines with
  | nil =>
      cases tail with
      | none => simp [setValue, entriesOf]
      | some e =>
          obtain ⟨key₁, value₁⟩ := e
          show [(key₁, if key₁ = key then value else value₁)].lookup key' =
            if key' = key then ([(key₁, value₁)].lookup key).map _ else [(key₁, value₁)].lookup key'
          simp only [lookup_cons_ite, List.lookup_nil]
          grind
  | cons line lines ih =>
      cases line with
      | section_ name => simp [setValue, entriesOf]
      | entry key₁ value₁ =>
          rw [setValue]
          by_cases hkey : key₁ = key
          · rw [if_pos hkey]
            show ((key₁, value) :: entriesOf tail lines).lookup key' =
              if key' = key then (((key₁, value₁) :: entriesOf tail lines).lookup key).map _
              else ((key₁, value₁) :: entriesOf tail lines).lookup key'
            simp only [lookup_cons_ite]
            grind
          · rw [if_neg hkey]
            show ((key₁, value₁) :: entriesOf _ _).lookup key' =
              if key' = key then (((key₁, value₁) :: entriesOf tail lines).lookup key).map _
              else ((key₁, value₁) :: entriesOf tail lines).lookup key'
            simp only [lookup_cons_ite, ih]
            grind
      | blank => exact ih

/-- The sections behind are the same, and their entries. -/
theorem behindSection_setValue :
    behindSection name (setValue key value tail lines).lines = behindSection name lines ∧
      ((behindSection name lines).isSome → (setValue key value tail lines).tail = tail) := by
  induction lines with
  | nil => exact ⟨rfl, nofun⟩
  | cons line lines ih =>
      cases line with
      | section_ name' => exact ⟨rfl, fun _ => rfl⟩
      | entry key₁ value₁ =>
          rw [setValue]
          split
          · exact ⟨rfl, fun _ => rfl⟩
          · exact ih
      | blank => exact ih

theorem lookup_setValue_ne {key' : Name 63} :
    IniText.lookup (setValue key value tail lines) name key' = IniText.lookup ⟨lines, tail⟩ name key' := by
  obtain ⟨hlines, htail⟩ := @behindSection_setValue name key value tail lines
  rw [IniText.lookup, IniText.lookup, hlines]
  cases hbehind : behindSection name lines with
  | none => rfl
  | some rest => rw [htail (by rw [hbehind]; rfl)]

/-- A value of the same length moves no section line. -/
theorem sectionsFrom_setValue {old : Value} (h : (entriesOf tail lines).lookup key = some old)
    (hlen : old.val.length = value.val.length) (o : Nat) :
    sectionsFrom (setValue key value tail lines).lines o = sectionsFrom lines o := by
  induction lines generalizing o with
  | nil => rfl
  | cons line lines ih =>
      cases line with
      | section_ name => rfl
      | entry key₁ value₁ =>
          rw [setValue]
          rw [entriesOf, lookup_cons_ite] at h
          by_cases hkey : key₁ = key
          · rw [if_pos hkey] at h ⊢
            obtain rfl := Option.some.inj h
            show sectionsFrom lines _ = sectionsFrom lines _
            simp [Line.render, hlen]
          · rw [if_neg hkey] at h ⊢
            exact ih h _
      | blank => exact ih h _

theorem sectionsFrom_of_none (h : ¬ lines.any Line.isSection = true) (o : Nat) : sectionsFrom lines o = [] := by
  induction lines generalizing o with
  | nil => rfl
  | cons line lines ih =>
      rw [List.any_cons, Bool.or_eq_true, not_or] at h
      rw [sectionsFrom, if_neg h.1]
      exact ih h.2 _

theorem sectionsFrom_append (before lines : List Line) (o : Nat) :
    sectionsFrom (before ++ lines) o =
      sectionsFrom before o ++ sectionsFrom lines (o + (before.flatMap Line.render).length) := by
  induction before generalizing o with
  | nil => rfl
  | cons line before ih =>
      rw [List.cons_append, sectionsFrom, sectionsFrom, ih, List.flatMap_cons, List.length_append, Nat.add_assoc]
      split <;> rfl

/-- Without a section behind it, a section has all entries that follow. -/
theorem any_setValue : (setValue key value tail lines).lines.any Line.isSection = lines.any Line.isSection := by
  induction lines with
  | nil => rfl
  | cons line lines ih =>
      cases line with
      | section_ name => rfl
      | entry key₁ value₁ =>
          rw [setValue]
          split
          · rfl
          · exact ih
      | blank => exact ih

/-! ## A new entry -/

def Line.entries : Line → List (Name 63 × Value)
  | .entry key value => [(key, value)]
  | _                => []

theorem entriesOf_cons {line : Line} (h : ¬ line.isSection = true) (lines : List Line) :
    entriesOf tail (line :: lines) = line.entries ++ entriesOf tail lines := by
  cases line with
  | section_ name => exact absurd rfl h
  | entry key' value' => rfl
  | blank => rfl

/-- An entry somewhere behind those without its key. -/
theorem lookup_insert {entries entries' : List (Name 63 × Value)} (h : entries.lookup key = none) (key' : Name 63) :
    (entries ++ (key, value) :: entries').lookup key' =
      if key' = key then some value else (entries ++ entries').lookup key' := by
  rw [List.lookup_append, List.lookup_append, lookup_cons_ite]
  by_cases hkey : key' = key
  · rw [if_pos hkey, if_pos hkey.symm, hkey, h]
    rfl
  · rw [if_neg hkey, if_neg fun heq => hkey heq.symm]

/-- Where `insertEntry` puts an entry. -/
theorem insertEntry_cases {line : Line} {t : IniText} (h : insertEntry key value tail (line :: lines) = some t) :
    (line.stops = true ∧ lines = [] ∧ tail = none ∧ t = ⟨[line], some (key, value)⟩) ∨
      (∃ lines', line.stops = true ∧ lines = .blank :: lines' ∧ t = ⟨line :: .entry key value :: lines', tail⟩) ∨
      (line.stops = false ∧ ∃ t', insertEntry key value tail lines = some t' ∧ t = consLine line t') := by
  rw [insertEntry.eq_def] at h
  dsimp only at h
  cases hstops : line.stops with
  | false =>
      rw [hstops, if_neg Bool.false_ne_true] at h
      obtain ⟨t', ht', rfl⟩ := Option.map_eq_some_iff.mp h
      exact Or.inr (Or.inr ⟨rfl, t', ht', rfl⟩)
  | true =>
      rw [hstops, if_pos rfl] at h
      split at h
      · split at h
        · rename_i htail
          cases h
          exact Or.inl ⟨rfl, rfl, htail, rfl⟩
        · cases h
      · rename_i lines'
        cases h
        exact Or.inr (Or.inl ⟨lines', rfl, rfl, rfl⟩)
      · cases h

/-- A new entry, without a section behind it: the entries are found that were, and the new one. -/
theorem insertEntry_spec {t : IniText} (hsections : ¬ lines.any Line.isSection = true)
    (hmissing : (entriesOf tail lines).lookup key = none) (h : insertEntry key value tail lines = some t) :
    ¬ t.lines.any Line.isSection = true ∧
      ∀ key', (entriesOf t.tail t.lines).lookup key' =
        if key' = key then some value else (entriesOf tail lines).lookup key' := by
  induction lines generalizing t with
  | nil =>
      rw [insertEntry] at h
      split at h
      · rename_i htail
        cases h
        rw [htail]
        exact ⟨hsections, @lookup_insert key value [] [] rfl⟩
      · cases h
  | cons line lines ih =>
      rw [List.any_cons, Bool.or_eq_true, not_or] at hsections
      obtain ⟨hline, hlines⟩ := hsections
      rw [entriesOf_cons hline, List.lookup_append, Option.or_eq_none_iff] at hmissing
      rcases insertEntry_cases h with ⟨_, rfl, rfl, rfl⟩ | ⟨lines', _, rfl, rfl⟩ | ⟨_, t', ht', rfl⟩
      · refine ⟨by simpa using hline, fun key' => ?_⟩
        rw [entriesOf_cons hline, entriesOf_cons hline]
        exact lookup_insert hmissing.1 key'
      · refine ⟨?_, fun key' => ?_⟩
        · rw [List.any_cons, Bool.or_eq_true, not_or]
          exact ⟨hline, hlines⟩
        · rw [entriesOf_cons hline, entriesOf_cons hline]
          exact lookup_insert hmissing.1 key'
      · obtain ⟨hnone, hlookup⟩ := ih hlines hmissing.2 ht'
        refine ⟨?_, fun key' => ?_⟩
        · show ¬ (line :: t'.lines).any Line.isSection = true
          rw [List.any_cons, Bool.or_eq_true, not_or]
          exact ⟨hline, hnone⟩
        · show (entriesOf t'.tail (line :: t'.lines)).lookup key' = _
          rw [entriesOf_cons hline, entriesOf_cons hline, List.lookup_append, List.lookup_append, hlookup]
          by_cases hkey : key' = key
          · rw [if_pos hkey, if_pos hkey, hkey, hmissing.1]
            rfl
          · rw [if_neg hkey, if_neg hkey]

/-! ## The position of a new entry -/

variable {f : IniFile} {p : Nat}

theorem gotoNextLine_render {line : Line} (h : Rest f p (IniText.render ⟨line :: lines, tail⟩)) :
    f.gotoNextLine p = some (p + line.render.length) ∧
      Rest f (p + line.render.length) (IniText.render ⟨lines, tail⟩) ∧
      ∃ c, f.data[p]? = some c ∧ line.stops = decide (StopsLine c) := by
  obtain ⟨c, mid, hline, hmid, _⟩ := render_line line
  have hlen : p + line.render.length = p + (c :: mid).length + 1 := by
    rw [hline, List.length_append]
    rfl
  have hrest : Rest f p ((c :: mid) ++ 10 :: IniText.render ⟨lines, tail⟩) := by
    rw [render_cons, hline] at h
    simpa using h
  rw [hlen]
  obtain ⟨hnext, hbehind⟩ := gotoNextLine_line hmid hrest
  refine ⟨hnext, hbehind, c, Rest.head hrest, ?_⟩
  rw [Line.stops, hline]
  rfl

/-- What a new entry is in the text, and where it stands. -/
def Inserted (key : Name 63) (value : Value) (tail : Option (Name 63 × Value)) (lines : List Line) (t : IniText)
    (x : List UInt8) : Prop :=
  ∃ e, IniText.render ⟨lines, tail⟩ = x ++ e ∧ t.render = x ++ (key.val ++ 61 :: value.val) ++ e

theorem Inserted.cons {line : Line} {t : IniText} {x : List UInt8} (h : Inserted key value tail lines t x) :
    Inserted key value tail (line :: lines) (consLine line t) (line.render ++ x) := by
  obtain ⟨e, hold, hnew⟩ := h
  refine ⟨e, ?_, ?_⟩
  · rw [render_cons, hold, List.append_assoc]
  · rw [consLine, render_cons, hnew]
    simp only [List.append_assoc]

/-- **`goto_last_line` and the next line** are where `insertEntry` puts the entry. -/
theorem lastLineLoop_spec {line : Line} {t : IniText} {fuel : Nat} (hfuel : lines.length < fuel)
    (h : Rest f p (IniText.render ⟨line :: lines, tail⟩))
    (ht : insertEntry key value tail (line :: lines) = some t) :
    ∃ n x, f.lastLineLoop fuel p = some n ∧ f.gotoNextLine n = some (p + x.length) ∧
      Inserted key value tail (line :: lines) t x := by
  -- the induction is on the lines behind the one that the loop stands at
  induction lines generalizing line t fuel p with
  | nil =>
      obtain ⟨fuel, rfl⟩ : ∃ k, fuel = k + 1 := ⟨fuel - 1, by omega⟩
      obtain ⟨hnext, hrest, c, hc, hstops⟩ := gotoNextLine_render h
      rcases insertEntry_cases ht with ⟨hline, _, rfl, rfl⟩ | ⟨_, _, hlines, _⟩ | ⟨hline, t', ht', rfl⟩
      · have hstop : StopsLine c := of_decide_eq_true (hstops.symm.trans hline)
        refine ⟨p, line.render, ?_, hnext, [], ?_, ?_⟩
        · rw [lastLineLoop, hc, Option.bind_some, if_pos hstop]
        · rw [render_cons]
          rfl
        · rw [render_cons, List.append_nil]
          rfl
      · cases hlines
      · have hgo : ¬ StopsLine c := of_decide_eq_false (hstops.symm.trans hline)
        rw [insertEntry] at ht'
        split at ht'
        · rename_i htail
          cases ht'
          subst htail
          have hend : Rest f (p + line.render.length) [] := hrest
          refine ⟨p + line.render.length, line.render ++ [], ?_, ?_,
            Inserted.cons ⟨[], rfl, by simp [IniText.render, tailText]⟩⟩
          · rw [lastLineLoop, hc, Option.bind_some, if_neg hgo, hnext, Option.bind_some,
              if_pos (Nat.le_of_eq hend.dataLen : f.dataLen ≤ p + line.render.length)]
          · rw [List.append_nil]
            exact (gotoNextLine_last List.not_mem_nil hend).1
        · cases ht'
  | cons line' lines ih =>
      obtain ⟨fuel, rfl⟩ : ∃ k, fuel = k + 1 := ⟨fuel - 1, by omega⟩
      obtain ⟨hnext, hrest, c, hc, hstops⟩ := gotoNextLine_render h
      rcases insertEntry_cases ht with ⟨_, hlines, _⟩ | ⟨lines', hline, hlines, rfl⟩ | ⟨hline, t', ht', rfl⟩
      · cases hlines
      · cases hlines
        have hstop : StopsLine c := of_decide_eq_true (hstops.symm.trans hline)
        refine ⟨p, line.render, ?_, hnext, [13, 10] ++ IniText.render ⟨lines, tail⟩, ?_, ?_⟩
        · rw [lastLineLoop, hc, Option.bind_some, if_pos hstop]
        · rw [render_cons, render_cons]
          rfl
        · rw [render_cons, render_cons, Line.render]
          simp only [List.append_assoc, List.cons_append]
      · have hgo : ¬ StopsLine c := of_decide_eq_false (hstops.symm.trans hline)
        -- there is a next line, so the end of the data is not reached
        have hmore : ¬ f.dataLen ≤ p + line.render.length := by
          have := length_le_render tail (line' :: lines)
          rw [List.length_cons] at this
          rw [hrest.dataLen]
          omega
        have hfuel : lines.length < fuel := by simpa using hfuel
        obtain ⟨n, x, hn, hx, hinserted⟩ := ih hfuel hrest ht'
        refine ⟨n, line.render ++ x, ?_, ?_, hinserted.cons⟩
        · rw [lastLineLoop, hc, Option.bind_some, if_neg hgo, hnext, Option.bind_some, if_neg hmore, hn]
        · rw [hx, List.length_append, Nat.add_assoc]

end Lines

/-! ## What a write keeps -/

section Store

variable {st st' : Store} {w : Write} {name : Name 60} {key : Name 63} {value : Value} {lines rest : List Line}

theorem behindSection_of_none (h : ¬ lines.any Line.isSection = true) : behindSection name lines = none := by
  induction lines with
  | nil => rfl
  | cons line lines ih =>
      rw [List.any_cons, Bool.or_eq_true, not_or] at h
      cases line with
      | section_ name'   => exact absurd rfl h.1
      | entry key' value => exact ih h.2
      | blank            => exact ih h.2

theorem exists_before (h : behindSection name lines = some rest) :
    ∃ before, lines = before ++ .section_ name :: rest ∧ behindSection name before = none := by
  induction lines with
  | nil => cases h
  | cons line lines ih =>
      by_cases hline : behindSection name [line] = none
      · have hbehind := (@updateBehind_cons name [] (fun _ => none) line hline).1
        obtain ⟨before, rfl, hbefore⟩ := ih ((hbehind lines).symm.trans h)
        exact ⟨line :: before, rfl, (hbehind before).trans hbefore⟩
      · cases line with
        | section_ name' =>
            rw [behindSection] at hline h
            split at hline
            · rename_i hname
              rw [if_pos hname] at h
              cases h
              exact ⟨[], by rw [hname]; rfl, rfl⟩
            · exact absurd rfl hline
        | entry key' value => exact absurd rfl hline
        | blank => exact absurd rfl hline

/-- The lines behind the section line, after a write: the entries there, the sections behind them, and where they
    are. -/
theorem update_spec {t : IniText} (h : st.update key value rest = some t) :
    (∀ key', (entriesOf t.tail t.lines).lookup key' =
        if key' = key then some value else (entriesOf st.text.tail rest).lookup key') ∧
      (∀ name' key', IniText.lookup t name' key' = IniText.lookup ⟨rest, st.text.tail⟩ name' key') ∧
      ∀ o, sectionsFrom t.lines o = sectionsFrom rest o := by
  rw [Store.update] at h
  split at h
  · rename_i old hold
    split at h
    · rename_i hlen
      cases h
      refine ⟨fun key' => ?_, fun name' key' => lookup_setValue_ne, fun o => ?_⟩
      · rw [lookup_setValue, hold]
        rfl
      · rcases hlen with hlen | ⟨_, hsections⟩
        · exact sectionsFrom_setValue hold hlen o
        · rw [sectionsFrom_of_none hsections, sectionsFrom_of_none (by rw [any_setValue]; exact hsections)]
    · cases h
  · rename_i hmissing
    split at h
    · cases h
    · rename_i hrest
      obtain ⟨hsections, _⟩ := not_or.mp hrest
      obtain ⟨hnone, hlookup⟩ := insertEntry_spec hsections hmissing h
      refine ⟨hlookup, fun name' key' => ?_, fun o => ?_⟩
      · rw [IniText.lookup, IniText.lookup, behindSection_of_none hnone, behindSection_of_none hsections]
        rfl
      · rw [sectionsFrom_of_none hnone, sectionsFrom_of_none hsections]

theorem write_cases (h : st.write w = some st') :
    ∃ before rest t, st.text.lines = before ++ .section_ w.section_ :: rest ∧
      behindSection w.section_ before = none ∧ st.update w.key w.value rest = some t ∧
      st' = ⟨⟨before ++ .section_ w.section_ :: t.lines, t.tail⟩, false⟩ ∧ st'.text.render.length < 2 ^ 31 := by
  obtain ⟨text, htext, h⟩ := Option.bind_eq_some_iff.mp h
  split at h
  · rename_i hlen
    cases h
    cases hbehind : behindSection w.section_ st.text.lines with
    | none =>
        rw [updateBehind_none hbehind] at htext
        cases htext
    | some rest =>
        obtain ⟨before, hlines, hbefore⟩ := exists_before hbehind
        rw [hlines, updateBehind_eq hbefore] at htext
        obtain ⟨t, ht, rfl⟩ := Option.map_eq_some_iff.mp htext
        exact ⟨before, rest, t, hlines, hbefore, ht, rfl, hlen⟩
  · cases h

/-- **The laws of a store.** -/
theorem lookup_write (h : st.write w = some st') :
    st'.text.lookup w.section_ w.key = some w.value ∧
      ∀ name key, (name, key) ≠ (w.section_, w.key) → st'.text.lookup name key = st.text.lookup name key := by
  obtain ⟨before, rest, t, hlines, hbefore, ht, rfl, _⟩ := write_cases h
  obtain ⟨hentries, hbehind, _⟩ := update_spec ht
  have htext : st.text = ⟨before ++ .section_ w.section_ :: rest, st.text.tail⟩ := by rw [← hlines]
  constructor
  · rw [lookup_replace_self hbefore, hentries, if_pos rfl]
  · intro name key hne
    rw [htext]
    by_cases hname : name = w.section_
    · subst hname
      have hkey : key ≠ w.key := fun heq => hne (by rw [heq])
      rw [lookup_replace_self hbefore, lookup_replace_self hbefore, hentries, if_neg hkey]
    · exact lookup_replace_ne hname (hbehind name key)

/-- A file with the text of the store. -/
structure Matches (f : IniFile) (st : Store) : Prop where
  data : f.data = st.text.render ++ if st.spare then [0] else []
  dataLen : f.dataLen = st.text.render.length
  index : f.indexList = sectionsFrom st.text.lines 0

theorem Matches.holds {f : IniFile} (h : Matches f st) : Holds f st.text :=
  ⟨⟨[], _, h.data, rfl, by rw [h.dataLen, Nat.zero_add]⟩, h.index⟩

variable {fresh : Nat → UInt8} {f : IniFile} {x e slack : List UInt8}

/-- `modity_data`, where `find_data` finds the value behind `x`. -/
theorem modityData_eq {q : Nat} {old : Value} (hdata : f.data = x ++ old.val ++ e ++ slack)
    (hdataLen : f.dataLen = (x ++ old.val ++ e).length) (hfind : f.findData q key.val = some (some x.length))
    (he : ∀ c, e.head? = some c → EndsText c) (hle : old.val.length ≤ value.val.length)
    (hmin : 4 ≤ (x ++ value.val ++ e).length) (hmax : (x ++ value.val ++ e).length < 2 ^ 31) :
    f.modityData fresh q key.val value.val =
      some { f with data := x ++ value.val ++ e, dataLen := (x ++ value.val ++ e).length } := by
  have hrest : Rest f x.length (old.val ++ e) := by
    refine ⟨x, slack, by rw [hdata]; simp only [List.append_assoc], rfl, ?_⟩
    rw [hdataLen]
    simp only [List.length_append]
    omega
  have hlen : f.dataLen + value.val.length - old.val.length = (x ++ value.val ++ e).length := by
    rw [hdataLen]
    simp only [List.length_append]
    omega
  rw [modityData, hfind, Option.bind_some]
  show (f.readText x.length).bind _ = _
  rw [readValue hrest he, Option.bind_some, hlen]
  exact moveText_eq hdata hdataLen hle hmin hmax

/-- `add_data`, where the next line is behind `x`. -/
theorem addData_eq {n : Nat} (hdata : f.data = x ++ e ++ slack) (hdataLen : f.dataLen = (x ++ e).length)
    (hnext : f.gotoNextLine n = some x.length)
    (hmin : 4 ≤ (x ++ (key.val ++ 61 :: value.val) ++ e).length)
    (hmax : (x ++ (key.val ++ 61 :: value.val) ++ e).length < 2 ^ 31) :
    f.addData fresh n key.val value.val =
      some { f with
        data := x ++ (key.val ++ 61 :: value.val) ++ e
        dataLen := (x ++ (key.val ++ 61 :: value.val) ++ e).length } := by
  have hfits : (key.val ++ 61 :: value.val).length < value.val.length + 256 := by
    have := key.2.2.2
    simp only [List.length_append, List.length_cons]
    omega
  have hlen : f.dataLen + (key.val ++ 61 :: value.val).length = (x ++ (key.val ++ 61 :: value.val) ++ e).length := by
    rw [hdataLen]
    simp only [List.length_append, List.length_cons]
    omega
  rw [addData, if_pos hfits, hnext, Option.bind_some, hlen]
  exact @moveText_eq _ x [] _ e _ _ (by simpa using hdata) (by simpa using hdataLen) (Nat.zero_le _) hmin hmax

theorem render_behind (before rest : List Line) (tail : Option (Name 63 × Value)) :
    IniText.render ⟨before ++ .section_ name :: rest, tail⟩ =
      before.flatMap Line.render ++ (Line.section_ name).render ++ IniText.render ⟨rest, tail⟩ := by
  simp [IniText.render]

/-- `goto_last_line` in the last section, also where the section line is the last one and a byte is left behind it. -/
theorem lastLine_eq {p : Nat} {tail : Option (Name 63 × Value)} {t : IniText}
    (hrest : Rest f p (IniText.render ⟨rest, tail⟩)) (hspare : rest = [] → tail = none → f.data[p]? = some 0)
    (ht : insertEntry key value tail rest = some t) :
    ∃ n x, f.lastLineLoop (f.dataLen + 1) p = some n ∧ f.gotoNextLine n = some (p + x.length) ∧
      Inserted key value tail rest t x := by
  cases rest with
  | nil =>
      rw [insertEntry] at ht
      split at ht
      · rename_i htail
        cases ht
        subst htail
        have hend : Rest f p [] := hrest
        obtain ⟨hnext, _⟩ := gotoNextLine_last List.not_mem_nil hend
        refine ⟨p, [], ?_, hnext, [], rfl, by simp [IniText.render, tailText]⟩
        rw [lastLineLoop, hspare rfl rfl, Option.bind_some, if_neg (by decide), hnext, Option.bind_some,
          if_pos (Nat.le_of_eq hend.dataLen)]
        rfl
      · cases ht
  | cons line lines =>
      have hfuel : lines.length < f.dataLen + 1 := by
        have := length_le_render tail (line :: lines)
        rw [List.length_cons] at this
        rw [hrest.dataLen]
        omega
      exact lastLineLoop_spec hfuel hrest ht

/-- **A write** does to the text what it should do. -/
theorem write_matches (hf : Matches f st) (h : st.write w = some st') :
    ∃ f', f.write fresh w.section_.val w.key.val w.value.val = some f' ∧ Matches f' st' := by
  obtain ⟨before, rest, t, hlines, hbefore, ht, rfl, hmax⟩ := write_cases h
  obtain ⟨_, _, hsections⟩ := update_spec ht
  have hbehind : behindSection w.section_ st.text.lines = some rest := by
    rw [hlines, behindSection_append hbefore, behindSection, if_pos rfl]
  -- the section line
  obtain ⟨before', hlines', _, hfind⟩ := (findIndex_spec _ hf.holds.text).2 rest hbehind
  obtain rfl : before' = before := List.append_cancel_right (hlines'.symm.trans hlines)
  have heq : st.text = ⟨before' ++ .section_ w.section_ :: rest, st.text.tail⟩ := by rw [← hlines]
  have hat := Rest.behind (heq ▸ hf.holds.text)
  generalize hq : 0 + (before'.flatMap Line.render).length + 1 = q at hfind hat
  -- the text before and behind the end of that line
  have htext : st.text.render = _ ++ IniText.render ⟨rest, st.text.tail⟩ :=
    (congrArg IniText.render heq).trans (render_behind before' rest _)
  have htext' : IniText.render ⟨before' ++ .section_ w.section_ :: t.lines, t.tail⟩ = _ ++ t.render :=
    render_behind before' t.lines t.tail
  have hlen : (before'.flatMap Line.render ++ (Line.section_ w.section_).render).length =
      q + w.section_.val.length + 3 := by
    rw [← hq]
    simp [Line.render]
    omega
  generalize before'.flatMap Line.render ++ (Line.section_ w.section_).render = x at htext htext' hlen
  have hindex : sectionsFrom st.text.lines 0 = sectionsFrom (before' ++ .section_ w.section_ :: t.lines) 0 := by
    rw [hlines, sectionsFrom_append, sectionsFrom_append, sectionsFrom_section, sectionsFrom_section, hsections]
  -- the new text goes to new memory
  have hmatches : ∀ {y : List UInt8}, x ++ t.render = y → Matches { f with data := y, dataLen := y.length }
      ⟨⟨before' ++ .section_ w.section_ :: t.lines, t.tail⟩, false⟩ := by
    rintro y rfl
    refine ⟨?_, ?_, hf.index.trans hindex⟩
    · rw [htext']
      exact (List.append_nil _).symm
    · rw [htext']
  have hmax : (x ++ t.render).length < 2 ^ 31 := htext' ▸ hmax
  have hmin : 4 ≤ (x ++ t.render).length := by
    have := w.section_.2.2.1
    rw [List.length_append, hlen]
    omega
  obtain ⟨hmissing, hfound⟩ := findData_spec w.key hat
  rw [IniFile.write, hf.index, hfind, Option.bind_some]
  show ∃ f', (f.findData q w.key.val).bind _ = some f' ∧ _
  rw [Store.update] at ht
  split at ht
  · rename_i old hold
    obtain ⟨x', hx', e, hrest, he, hset⟩ := hfound old hold
    split at ht
    · rename_i hle
      cases ht
      have hfind' : f.findData q w.key.val = some (some (x ++ x').length) := by
        rw [hx', List.length_append, hlen]
      have hnew : x ++ (setValue w.key w.value st.text.tail rest).render = x ++ x' ++ w.value.val ++ e := by
        rw [hset]
        simp only [List.append_assoc]
      have hold' : st.text.render = x ++ x' ++ old.val ++ e := by
        rw [htext, hrest]
        simp only [List.append_assoc]
      have hdata : f.data = x ++ x' ++ old.val ++ e ++ if st.spare then [0] else [] := by rw [hf.data, hold']
      refine ⟨_, ?_, hmatches hnew⟩
      rw [hfind', Option.bind_some]
      exact modityData_eq hdata (hold' ▸ hf.dataLen) hfind' he (by omega) (hnew ▸ hmin) (hnew ▸ hmax)
    · cases ht
  · rename_i hnone
    split at ht
    · cases ht
    · rename_i hallowed
      -- the lines behind the section line
      have hfree : (10 : UInt8) ∉ w.section_.val ++ [93, 13] := by
        have := Plain.not_mem w.section_.2.1 (by decide : (10 : UInt8) ∈ _)
        simp [this]
      have hline : Rest f q ((w.section_.val ++ [93, 13]) ++ 10 :: IniText.render ⟨rest, st.text.tail⟩) := by
        simpa using hat
      obtain ⟨hnext, hrest⟩ := gotoNextLine_line hfree hline
      have hpos : q + (w.section_.val ++ [93, 13]).length + 1 = x.length := by
        rw [List.length_append, hlen]
        rfl
      rw [hpos] at hnext hrest
      have hspare : rest = [] → st.text.tail = none → f.data[x.length]? = some 0 := by
        rintro rfl htail
        have hspare : st.spare = true := by simpa using hallowed
        have hx : x.length = st.text.render.length := by
          rw [htext, htail]
          exact congrArg List.length (List.append_nil x).symm
        rw [hf.data, hspare, hx, if_pos rfl, List.getElem?_append_right (Nat.le_refl _), Nat.sub_self]
        rfl
      obtain ⟨n, x', hn, hbehind, e, hold, hnew⟩ := lastLine_eq hrest hspare ht
      have hnew : x ++ t.render = x ++ x' ++ (w.key.val ++ 61 :: w.value.val) ++ e := by
        rw [hnew]
        simp only [List.append_assoc]
      have hold : st.text.render = x ++ x' ++ e := by
        rw [htext, hold, List.append_assoc]
      have hdata : f.data = x ++ x' ++ e ++ if st.spare then [0] else [] := by rw [hf.data, hold]
      have hlast : f.gotoLastLine w.section_.val = some n := by
        rw [gotoLastLine, hf.index, hfind, Option.bind_some]
        show (f.gotoNextLine q).bind _ = _
        rw [hnext, Option.bind_some, hn]
      refine ⟨_, ?_, hmatches hnew⟩
      rw [hmissing hnone, Option.bind_some]
      show (f.gotoLastLine w.section_.val).bind _ = _
      rw [hlast, Option.bind_some]
      exact addData_eq hdata (hold ▸ hf.dataLen) (by rw [hbehind, List.length_append]) (hnew ▸ hmin) (hnew ▸ hmax)

/-- What `open` leaves of a text with lines. -/
theorem matches_of_open {spare : Bool} (hne : lines ≠ [])
    (hopen : (openBuffer (IniText.render ⟨lines, none⟩) = some f ∧ spare = true) ∨
      (openFile (IniText.render ⟨lines, none⟩) = some f ∧ spare = false)) : Matches f ⟨⟨lines, none⟩, spare⟩ := by
  rcases hopen with ⟨hopen, rfl⟩ | ⟨hopen, rfl⟩
  · rw [openBuffer] at hopen
    split at hopen
    · have hholds : Holds f ⟨lines, none⟩ := holds_of_init rfl hopen
      obtain ⟨_, _, rfl⟩ := Option.map_eq_some_iff.mp hopen
      exact ⟨rfl, rfl, hholds.index⟩
    · cases hopen
  · rw [openFile] at hopen
    split at hopen
    · rw [if_neg (mt render_eq_nil_iff.mp hne)] at hopen
      have hholds : Holds f ⟨lines, none⟩ := holds_of_init (List.append_nil _).symm hopen
      obtain ⟨_, _, rfl⟩ := Option.map_eq_some_iff.mp hopen
      exact ⟨(List.append_nil _).symm, rfl, hholds.index⟩
    · cases hopen

/-- An empty text has no section to write to. -/
theorem lines_ne_nil {spare : Bool} {before after : List Write}
    (h : (run Store.write ⟨⟨lines, none⟩, spare⟩ (before ++ w :: after)).isSome) : lines ≠ [] := by
  rintro rfl
  cases before with
  | nil => cases h
  | cons w' before => cases h

/-- Calls of `write`, one after the other. -/
def writeStep (fresh : Nat → UInt8) (f : IniFile) (w : Write) : Option IniFile :=
  f.write fresh w.section_.val w.key.val w.value.val

/-- **Runs.** Where the text stays one that `Store.write` makes, every call of `write` is read back, and all other keys
    keep their values. -/
theorem write_reads {lines : List Line} {spare : Bool}
    (hopen : (openBuffer (IniText.render ⟨lines, none⟩) = some f ∧ spare = true) ∨
      (openFile (IniText.render ⟨lines, none⟩) = some f ∧ spare = false))
    {before after : List Write}
    (hwrites : (run Store.write ⟨⟨lines, none⟩, spare⟩ (before ++ w :: after)).isSome) :
    ∃ f₁ f₂, run (writeStep fresh) f before = some f₁ ∧ writeStep fresh f₁ w = some f₂ ∧
      f₂.readTextIfExist w.section_.val w.key.val = some (some w.value.val) ∧
      ∀ (name : Name 60) (key : Name 63), (name, key) ≠ (w.section_, w.key) →
        f₂.readTextIfExist name.val key.val = f₁.readTextIfExist name.val key.val := by
  obtain ⟨st₃, hrun⟩ := Option.isSome_iff_exists.mp hwrites
  rw [run_append] at hrun
  obtain ⟨st₁, hbefore, hrun⟩ := Option.bind_eq_some_iff.mp hrun
  obtain ⟨st₂, hw, _⟩ := Option.bind_eq_some_iff.mp hrun
  have hsimulates : ∀ {f : IniFile} {st : Store} {w : Write} {st' : Store}, Matches f st → Store.write st w = some st' →
      True → ∃ f', writeStep fresh f w = some f' ∧ Matches f' st' := fun hf h _ => write_matches hf h
  obtain ⟨f₁, hf₁, hmatches₁⟩ :=
    simulates_along hsimulates (matches_of_open (lines_ne_nil hwrites) hopen) hbefore (along_true _ _ _)
  obtain ⟨f₂, hf₂, hmatches₂⟩ := write_matches hmatches₁ hw
  obtain ⟨hself, hother⟩ := lookup_write hw
  refine ⟨f₁, f₂, hf₁, hf₂, ?_, fun name key hne => ?_⟩
  · rw [readTextIfExist_of_holds hmatches₂.holds, hself]
    rfl
  · rw [readTextIfExist_of_holds hmatches₂.holds, readTextIfExist_of_holds hmatches₁.holds, hother name key hne]

end Store

/-! ## The defects -/

/-- A section with one key. -/
def oneSection : List Line :=
  [.section_ ⟨ascii "a", by decide +kernel⟩, .entry ⟨ascii "k", by decide +kernel⟩ ⟨ascii "1", by decide +kernel⟩]

def writeX : Write :=
  ⟨⟨ascii "a", by decide +kernel⟩, ⟨ascii "x", by decide +kernel⟩, ⟨ascii "2", by decide +kernel⟩⟩

/-- A second value for the first key. -/
def writeLonger : Write :=
  ⟨⟨ascii "a", by decide +kernel⟩, ⟨ascii "k", by decide +kernel⟩, ⟨ascii "10", by decide +kernel⟩⟩

theorem write_reads_two :
    ∃ f f₁ f₂, openBuffer (IniText.render ⟨oneSection, none⟩) = some f ∧
      run (writeStep fun _ => 0) f [writeLonger] = some f₁ ∧ writeStep (fun _ => 0) f₁ writeX = some f₂ ∧
      f₂.readTextIfExist (ascii "a") (ascii "x") = some (some (ascii "2")) ∧
      f₂.readTextIfExist (ascii "a") (ascii "k") = f₁.readTextIfExist (ascii "a") (ascii "k") := by
  have hopen : (openBuffer (IniText.render ⟨oneSection, none⟩)).isSome = true := by decide
  obtain ⟨f, hf⟩ := Option.isSome_iff_exists.mp hopen
  obtain ⟨f₁, f₂, hbefore, hwrite, hself, hother⟩ :=
    write_reads (Or.inl ⟨hf, rfl⟩) (by decide : (run Store.write _ ([writeLonger] ++ writeX :: [])).isSome = true)
  exact ⟨f, f₁, f₂, hf, hbefore, hwrite, hself, hother writeLonger.section_ writeLonger.key (by decide)⟩

/-- Two new keys come to stand on one line, so the first one does not keep its value; a new section is written behind
    the memory. -/
theorem new_keys_merge :
    ((openBuffer (IniText.render ⟨oneSection, none⟩)).bind fun f => (writeStep (fun _ => 0) f writeX).bind fun f₁ =>
        (f₁.write (fun _ => 0) (ascii "a") (ascii "y") (ascii "3")).map fun f₂ =>
          (f₁.readTextIfExist (ascii "a") (ascii "x"), f₂.readTextIfExist (ascii "a") (ascii "x"))) =
      some (some (some (ascii "2")), some (some (ascii "2y=3"))) ∧
    ((openBuffer (IniText.render ⟨oneSection, none⟩)).bind fun f =>
        f.write (fun _ => 0) (ascii "b") (ascii "x") (ascii "2")).isNone = true := by
  decide

end Mowang.IniFile
