import Mathlib.Logic.Function.Basic
import Mowang.Base.CString
import Mowang.Base.Run
import Mowang.Share.BinaryString

/-!
# `Share.Log` — the log of a process

Lines are queued by any thread and written by the log thread. When the file has grown to ten megabytes it is renamed to
the first numbered name that is free, and a new file is begun. The loop that looks for the name goes on behind the rename,
and tries to rename a file that is not there any more.

## Contents
- `LogType`, `parseFilename`, `logLine`.
- `LogDirectory`, `checkRenameFile`, `checkRenameFile_spec`; `Rotated`, `Rotated.check`.
- `LogWrapper`, `LogWrapper.step`.
- `Kept`, `step_kept`; `log_kept` — all lines are in the files, in their order.
-/

namespace Mowang

/-- `ELogType`. -/
inductive LogType
  | error | warning | info | debug
deriving DecidableEq

/-- `LogTypeString`. -/
def LogType.text : LogType → List UInt8
  | .error   => ascii "ERROR"
  | .warning => ascii "WARNING"
  | .info    => ascii "INFO"
  | .debug   => ascii "DEBUG"

/-- What comes behind the last `c`. -/
def behindLast (c : UInt8) (s : List UInt8) : List UInt8 := (s.reverse.takeWhile (· ≠ c)).reverse

/-- `parse_filename`: the last `/` counts, or the last backslash, or the last `@`. -/
def parseFilename (filename : List UInt8) : List UInt8 :=
  if 47 ∈ filename then behindLast 47 filename
  else if 92 ∈ filename then behindLast 92 filename
  else behindLast 64 filename

/-- The line of `display`, where `cstime` is the time and `text` what the format gives; `none` where the part before the
    text leaves its buffer. -/
def logLine (type : LogType) (filename funcname : List UInt8) (line : Int) (threadInfo : Nat) (cstime text : List UInt8) :
    Option (List UInt8) :=
  let buf := cstime ++ 32 :: type.text ++ ascii " ThreadID: [" ++ decimal threadInfo ++ ascii "] " ++
    parseFilename filename ++ 58 :: decimalInt line ++ 32 :: funcname ++ ascii "() "
  if buf.length < 2048 then some (buf ++ mwToString text ++ [10]) else none

/-! ## Files -/

/-- The files of a log: `name.log`, and the `name_i.log`. -/
structure LogDirectory where
  current : Option (List UInt8)
  numbered : Nat → Option (List UInt8)

namespace LogDirectory

/-- `fopen` for appending. -/
def fopen (d : LogDirectory) : LogDirectory := { d with current := some (d.current.getD []) }

/-- `fwrite`. -/
def write (d : LogDirectory) (bytes : List UInt8) : LogDirectory := { d with current := d.current.map (· ++ bytes) }

/-- `rename` of the current file; it fails if there is none. -/
def rename (d : LogDirectory) (i : Nat) : LogDirectory :=
  match d.current with
  | some bytes => ⟨none, Function.update d.numbered i (some bytes)⟩
  | none       => d

/-- The loop of `check_rename_file`, over `n` numbers from `i` on. -/
def renameLoop : Nat → Nat → LogDirectory → LogDirectory
  | 0, _, d     => d
  | n + 1, i, d => renameLoop n (i + 1) (if (d.numbered i).isSome then d else d.rename i)

def maxLogSize : Nat := 10485760

/-- How many numbered files there can be. -/
def maxLogCount : Nat := 9999

/-- `check_rename_file`. -/
def checkRenameFile (d : LogDirectory) : LogDirectory :=
  if (d.current.getD []).length < maxLogSize then d else (renameLoop maxLogCount 0 d).fopen

variable {d : LogDirectory} {bytes : List UInt8}

theorem renameLoop_none (h : d.current = none) (n i : Nat) : renameLoop n i d = d := by
  induction n generalizing i with
  | zero => rfl
  | succ n ih =>
      have hrename : d.rename i = d := by rw [rename, h]
      rw [renameLoop, hrename, ite_self, ih]

/-- The loop renames the file to the first free number, if there is one. -/
theorem renameLoop_spec (h : d.current = some bytes) (n i : Nat) :
    (∀ k, i ≤ k → k < i + n → (d.numbered k).isSome) ∧ renameLoop n i d = d ∨
    ∃ j, i ≤ j ∧ j < i + n ∧ d.numbered j = none ∧ (∀ k, i ≤ k → k < j → (d.numbered k).isSome) ∧
      renameLoop n i d = ⟨none, Function.update d.numbered j (some bytes)⟩ := by
  induction n generalizing i with
  | zero => exact .inl ⟨fun k hle hlt => absurd hle (by omega), rfl⟩
  | succ n ih =>
      rw [renameLoop]
      by_cases hi : (d.numbered i).isSome = true
      · rw [if_pos hi]
        have hnext : ∀ {k}, i ≤ k → k ≠ i → i + 1 ≤ k := fun hle hne => by omega
        rcases ih (i + 1) with ⟨hall, hloop⟩ | ⟨j, hle, hlt, hfree, hbelow, hloop⟩
        · refine .inl ⟨fun k hk hlt => ?_, hloop⟩
          by_cases hki : k = i
          · exact hki ▸ hi
          · exact hall k (hnext hk hki) (by omega)
        · refine .inr ⟨j, by omega, by omega, hfree, fun k hk hlt => ?_, hloop⟩
          by_cases hki : k = i
          · exact hki ▸ hi
          · exact hbelow k (hnext hk hki) hlt
      · rw [if_neg hi]
        refine .inr ⟨i, le_rfl, by omega, Option.not_isSome_iff_eq_none.mp hi, fun k hk hlt => absurd hk (by omega), ?_⟩
        rw [rename, h]
        exact renameLoop_none rfl n (i + 1)

/-- A file that is large is renamed to the first free number, and a new one begun; if no number is free it stays. -/
theorem checkRenameFile_spec (h : d.current = some bytes) :
    d.checkRenameFile = d ∧ (bytes.length < maxLogSize ∨ ∀ k < maxLogCount, (d.numbered k).isSome) ∨
    ∃ j < maxLogCount, d.numbered j = none ∧ (∀ k < j, (d.numbered k).isSome) ∧ maxLogSize ≤ bytes.length ∧
      d.checkRenameFile = ⟨some [], Function.update d.numbered j (some bytes)⟩ := by
  rw [checkRenameFile, h, Option.getD_some]
  by_cases hsize : bytes.length < maxLogSize
  · exact .inl ⟨if_pos hsize, .inl hsize⟩
  · rw [if_neg hsize]
    rcases renameLoop_spec h maxLogCount 0 with ⟨hall, hloop⟩ | ⟨j, _, hlt, hfree, hbelow, hloop⟩
    · refine .inl ⟨?_, .inr fun k hk => hall k (Nat.zero_le k) (by omega)⟩
      rw [hloop, fopen, h]
      cases d
      cases h
      rfl
    · refine .inr ⟨j, by omega, hfree, fun k hk => hbelow k (Nat.zero_le k) hk, Nat.le_of_not_lt hsize, ?_⟩
      rw [hloop]
      rfl

end LogDirectory

/-! ## The log -/

structure LogWrapper where
  directory : LogDirectory
  /-- `m_logs`. -/
  logs : List (List UInt8) := []
  /-- All lines. Read by the theorems only. -/
  lines : List (List UInt8) := []

inductive LogLabel
  | display (type : LogType) (filename funcname : List UInt8) (line : Int) (threadInfo : Nat) (cstime text : List UInt8)
  | flush

namespace LogWrapper

open LogDirectory

/-- `init`, on the files that are there. -/
def init (d : LogDirectory) : LogWrapper := { directory := d.fopen.checkRenameFile }

/-- `flush`. -/
def flush (s : LogWrapper) : LogWrapper :=
  if s.logs = [] then s
  else { s with directory := (s.directory.write s.logs.flatten).checkRenameFile, logs := [] }

def step (s : LogWrapper) : LogLabel → Option LogWrapper
  | .display type filename funcname line threadInfo cstime text =>
    (logLine type filename funcname line threadInfo cstime text).map fun str =>
      { s with logs := s.logs ++ [str], lines := s.lines ++ [str] }
  | .flush => some s.flush

end LogWrapper

/-! ## Nothing is lost -/

namespace LogDirectory

/-- What a numbered file has. -/
def content (d : LogDirectory) (i : Nat) : List UInt8 := (d.numbered i).getD []

/-- The files `rotated` have been renamed since `d`, in this order, and nothing else has happened to numbered files. -/
structure Rotated (d d' : LogDirectory) (rotated : List Nat) : Prop where
  ascending : rotated.Pairwise (· < ·)
  free : ∀ i ∈ rotated, i < maxLogCount ∧ d.numbered i = none
  full : ∀ i ∈ rotated, ∀ k ≤ i, (d'.numbered k).isSome
  large : ∀ i ∈ rotated, maxLogSize ≤ (d'.content i).length
  others : ∀ i ∉ rotated, d'.numbered i = d.numbered i

/-- The current file is smaller than the limit, or no number is free. -/
def Settled (d : LogDirectory) : Prop :=
  (d.current.getD []).length < maxLogSize ∨ ∀ k < maxLogCount, (d.numbered k).isSome

variable {d d' : LogDirectory} {rotated : List Nat} {bytes : List UInt8}

/-- A check keeps the bytes, in the files and in their order. -/
theorem Rotated.check (h : Rotated d d' rotated) (hfile : d'.current = some bytes) :
    ∃ rotated' current, Rotated d d'.checkRenameFile rotated' ∧ d'.checkRenameFile.current = some current ∧
      d'.checkRenameFile.Settled ∧
      rotated'.flatMap d'.checkRenameFile.content ++ current = rotated.flatMap d'.content ++ bytes := by
  rcases checkRenameFile_spec hfile with ⟨hcheck, hsettled⟩ | ⟨j, hj, hfree, hbelow, hsize, hcheck⟩
  · refine ⟨rotated, bytes, hcheck.symm ▸ h, hcheck.symm ▸ hfile, hcheck.symm ▸ ?_, by rw [hcheck]⟩
    rwa [Settled, hfile, Option.getD_some]
  · -- the number is behind all others, because all below it are taken
    have hbehind : ∀ i ∈ rotated, i < j := by
      intro i hi
      by_contra hle
      have htaken := h.full i hi j (Nat.le_of_not_lt hle)
      rw [hfree] at htaken
      cases htaken
    have hnew : j ∉ rotated := fun hmem => Nat.lt_irrefl j (hbehind j hmem)
    have hsame : ∀ i ∈ rotated, d'.checkRenameFile.numbered i = d'.numbered i := by
      intro i hi
      rw [hcheck]
      exact Function.update_of_ne (Nat.ne_of_lt (hbehind i hi)) _ _
    have hself : d'.checkRenameFile.numbered j = some bytes := by
      rw [hcheck]
      exact Function.update_self ..
    refine ⟨rotated ++ [j], [], ⟨?_, ?_, ?_, ?_, ?_⟩, by rw [hcheck], ?_, ?_⟩
    · refine List.pairwise_append.mpr ⟨h.ascending, List.pairwise_singleton _ _, fun i hi k hk => ?_⟩
      obtain rfl := List.mem_singleton.mp hk
      exact hbehind i hi
    · intro i hi
      rcases List.mem_append.mp hi with hi | hi
      · exact h.free i hi
      · obtain rfl := List.mem_singleton.mp hi
        exact ⟨hj, (h.others i hnew).symm.trans hfree⟩
    · have htaken : ∀ k ≤ j, (d'.checkRenameFile.numbered k).isSome := by
        intro k hk
        by_cases hkj : k = j
        · rw [hkj, hself]
          rfl
        · rw [hcheck]
          show (Function.update d'.numbered j _ k).isSome
          rw [Function.update_of_ne hkj]
          exact hbelow k (by omega)
      intro i hi k hk
      rcases List.mem_append.mp hi with hi | hi
      · exact htaken k (Nat.le_trans hk (Nat.le_of_lt (hbehind i hi)))
      · obtain rfl := List.mem_singleton.mp hi
        exact htaken k hk
    · intro i hi
      rcases List.mem_append.mp hi with hi | hi
      · rw [content, hsame i hi]
        exact h.large i hi
      · obtain rfl := List.mem_singleton.mp hi
        rw [content, hself]
        exact hsize
    · intro i hi
      obtain ⟨hi, hij⟩ := not_or.mp (mt List.mem_append.mpr hi)
      rw [hcheck, ← h.others i hi]
      exact Function.update_of_ne (fun heq => hij (List.mem_singleton.mpr heq)) _ _
    · rw [hcheck]
      exact .inl (show 0 < maxLogSize by decide)
    · have hmap : rotated.flatMap d'.checkRenameFile.content = rotated.flatMap d'.content :=
        List.flatMap_congr fun i hi => by rw [content, content, hsame i hi]
      rw [List.flatMap_append, hmap, List.append_nil, List.flatMap_singleton, content, hself, Option.getD_some]

end LogDirectory

namespace LogWrapper

open LogDirectory

/-- Since `init`, all lines are in the files in their order, or wait for the log thread. -/
def Kept (d : LogDirectory) (s : LogWrapper) : Prop :=
  ∃ rotated current, Rotated d s.directory rotated ∧ s.directory.current = some current ∧ s.directory.Settled ∧
    rotated.flatMap s.directory.content ++ current ++ s.logs.flatten = d.current.getD [] ++ s.lines.flatten

variable {d : LogDirectory} {s s' : LogWrapper} {label : LogLabel}

theorem kept_init (d : LogDirectory) : Kept d (init d) := by
  have h : Rotated d d.fopen [] :=
    ⟨.nil, List.forall_mem_nil _, List.forall_mem_nil _, List.forall_mem_nil _, fun _ _ => rfl⟩
  obtain ⟨rotated, current, hrotated, hcurrent, hsettled, hbytes⟩ := h.check rfl
  refine ⟨rotated, current, hrotated, hcurrent, hsettled, ?_⟩
  show rotated.flatMap d.fopen.checkRenameFile.content ++ current ++ [] = _ ++ []
  rw [hbytes]
  rfl

theorem step_kept (h : Kept d s) (hstep : s.step label = some s') : Kept d s' := by
  obtain ⟨rotated, current, hrotated, hcurrent, hsettled, hbytes⟩ := h
  cases label with
  | display type filename funcname line threadInfo cstime text =>
      obtain ⟨str, _, rfl⟩ := Option.map_eq_some_iff.mp hstep
      refine ⟨rotated, current, hrotated, hcurrent, hsettled, ?_⟩
      show _ ++ (s.logs ++ [str]).flatten = _ ++ (s.lines ++ [str]).flatten
      rw [List.flatten_append, List.flatten_append, ← List.append_assoc, ← List.append_assoc, hbytes]
  | flush =>
      cases hstep
      rw [flush]
      split
      · exact ⟨rotated, current, hrotated, hcurrent, hsettled, hbytes⟩
      · have hwrite : (s.directory.write s.logs.flatten).current = some (current ++ s.logs.flatten) := by
          rw [write, hcurrent]
          rfl
        have hrotated' : Rotated d (s.directory.write s.logs.flatten) rotated :=
          ⟨hrotated.ascending, hrotated.free, hrotated.full, hrotated.large, hrotated.others⟩
        obtain ⟨rotated', current', hrotated', hcurrent', hsettled', hbytes'⟩ := hrotated'.check hwrite
        refine ⟨rotated', current', hrotated', hcurrent', hsettled', ?_⟩
        show _ ++ [] = _
        rw [List.append_nil, hbytes', ← hbytes, List.append_assoc]
        rfl

/-- **The log keeps every line.** Over any run of lines and flushes, the files that were renamed since `init`, in the
    order of their numbers, and then the current file have what the current file had and then the lines in their order;
    a renamed file took a number that was free, is as large as the limit, and no other numbered file has changed; and the
    current file is smaller than the limit as long as a number is free. -/
theorem log_kept {labels : List LogLabel} (hrun : run step (init d) labels = some s) : Kept d s :=
  run_invariant (fun h hstep => step_kept h hstep) (kept_init d) hrun

/-- A log that is one byte below the limit, and a file that was renamed before. -/
def nearlyFull : LogDirectory := ⟨some (List.replicate (maxLogSize - 1) 65), fun i => if i = 0 then some [66] else none⟩

/-- The first line makes it too large. -/
def renamedRun : List LogLabel :=
  [.display .info (ascii "src/service.cpp") (ascii "start") 52 7 (ascii "2019/01/01 00:00:00") (ascii "ok"), .flush,
    .display .error (ascii "src/service.cpp") (ascii "stop") 60 7 (ascii "2019/01/01 00:00:01") (ascii "bye"), .flush]

def startLine : List UInt8 := ascii "2019/01/01 00:00:00 INFO ThreadID: [7] service.cpp:52 start() ok\n"

def stopLine : List UInt8 := ascii "2019/01/01 00:00:01 ERROR ThreadID: [7] service.cpp:60 stop() bye\n"

theorem init_nearlyFull : init nearlyFull = ⟨nearlyFull, [], []⟩ := by
  have hsmall : (nearlyFull.fopen.current.getD []).length < maxLogSize := by
    show (List.replicate (maxLogSize - 1) (65 : UInt8)).length < maxLogSize
    rw [List.length_replicate]
    decide
  rw [init, checkRenameFile, if_pos hsmall]
  rfl

/-- It is renamed to the number 1, the first that is free. -/
theorem check_nearlyFull : (nearlyFull.write startLine).checkRenameFile =
    ⟨some [], Function.update nearlyFull.numbered 1 (some (List.replicate (maxLogSize - 1) 65 ++ startLine))⟩ := by
  have hlen : (List.replicate (maxLogSize - 1) (65 : UInt8) ++ startLine).length = maxLogSize - 1 + 65 := by
    rw [List.length_append, List.length_replicate]
    rfl
  have hcurrent : (nearlyFull.write startLine).current = some (List.replicate (maxLogSize - 1) 65 ++ startLine) := rfl
  rcases checkRenameFile_spec hcurrent with ⟨_, hsmall | hfull⟩ | ⟨j, _, hfree, hbelow, _, hcheck⟩
  · rw [hlen] at hsmall
    omega
  · exact absurd (hfull 1 (by decide)) (by decide)
  · have hfirst : j ≠ 0 := by
      rintro rfl
      cases hfree
    have hsecond : ¬ 1 < j := fun hlt => absurd (hbelow 1 hlt) (by decide)
    obtain rfl : j = 1 := by omega
    exact hcheck

theorem flush_line (d : LogDirectory) (line : List UInt8) (lines : List (List UInt8)) :
    flush ⟨d, [line], lines⟩ = ⟨(d.write line).checkRenameFile, [], lines⟩ := by
  rw [flush, if_neg (List.cons_ne_nil _ _), List.flatten_singleton]

theorem check_stopLine (numbered : Nat → Option (List UInt8)) :
    (write ⟨some [], numbered⟩ stopLine).checkRenameFile = ⟨some stopLine, numbered⟩ := by
  have hsmall : ((write ⟨some [], numbered⟩ stopLine).current.getD []).length < maxLogSize := by
    show stopLine.length < maxLogSize
    decide
  rw [checkRenameFile, if_pos hsmall]
  rfl

theorem log_kept_renamed : ∃ s, run step (init nearlyFull) renamedRun = some s ∧ s.logs = [] ∧
    s.directory.numbered 1 = some (List.replicate (maxLogSize - 1) 65 ++ startLine) ∧
    s.directory.current = some stopLine ∧ Kept nearlyFull s := by
  have hstart : logLine .info (ascii "src/service.cpp") (ascii "start") 52 7 (ascii "2019/01/01 00:00:00") (ascii "ok") =
      some startLine := by decide
  have hstop : logLine .error (ascii "src/service.cpp") (ascii "stop") 60 7 (ascii "2019/01/01 00:00:01") (ascii "bye") =
      some stopLine := by decide
  have hrun : run step (init nearlyFull) renamedRun = some ⟨⟨some stopLine, Function.update nearlyFull.numbered 1
      (some (List.replicate (maxLogSize - 1) 65 ++ startLine))⟩, [], [startLine, stopLine]⟩ := by
    rw [init_nearlyFull]
    simp only [renamedRun, run, step, hstart, hstop, Option.map_some, Option.bind_some, List.nil_append, flush_line,
      check_nearlyFull, check_stopLine, List.singleton_append]
  exact ⟨_, hrun, rfl, Function.update_self 1 _ nearlyFull.numbered, rfl, log_kept hrun⟩

end LogWrapper

end Mowang
