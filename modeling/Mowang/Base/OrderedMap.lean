import Mathlib.Data.List.Sort
import Mowang.Base.Lists

/-!
# `Base.OrderedMap` — maps that are gone through in the order of their keys

## Contents
- `OrderedMap`, `OrderedMap.lookup`, `OrderedMap.insertEntry`.
- `OrderedMap.sorted_insertEntry`, `OrderedMap.mem_iff`.
-/

/-- `std::map`: its entries in the order of the keys, each key once. -/
structure OrderedMap (K V : Type) [LinearOrder K] where
  entries : List (K × V)
  sorted : entries.Pairwise fun e e' => e.1 < e'.1

namespace OrderedMap

variable {K V : Type} [LinearOrder K]

def lookup (m : OrderedMap K V) (k : K) : Option V := m.entries.lookup k

/-- `m[k] = v`, on the entries. -/
def insertEntry (k : K) (v : V) : List (K × V) → List (K × V)
  | []           => [(k, v)]
  | e :: entries =>
    if k < e.1 then (k, v) :: e :: entries else if e.1 < k then e :: insertEntry k v entries else (k, v) :: entries

theorem mem_insertEntry {k : K} {v : V} {e : K × V} {entries : List (K × V)} (h : e ∈ insertEntry k v entries) :
    e = (k, v) ∨ e ∈ entries := by
  induction entries with
  | nil => exact .inl (List.mem_singleton.mp h)
  | cons e' entries ih =>
      rw [insertEntry] at h
      split at h
      · exact List.mem_cons.mp h
      · split at h
        · rcases List.mem_cons.mp h with rfl | h
          · exact .inr List.mem_cons_self
          · exact (ih h).imp_right (List.mem_cons_of_mem _)
        · exact (List.mem_cons.mp h).imp_right (List.mem_cons_of_mem _)

theorem sorted_insertEntry (k : K) (v : V) {entries : List (K × V)} (h : entries.Pairwise fun e e' => e.1 < e'.1) :
    (insertEntry k v entries).Pairwise fun e e' => e.1 < e'.1 := by
  induction entries with
  | nil => exact List.pairwise_singleton _ _
  | cons e entries ih =>
      obtain ⟨hfirst, hrest⟩ := List.pairwise_cons.mp h
      rw [insertEntry]
      split
      · rename_i hlt
        refine List.pairwise_cons.mpr ⟨fun e' he' => ?_, h⟩
        rcases List.mem_cons.mp he' with rfl | he'
        · exact hlt
        · exact hlt.trans (hfirst e' he')
      · split
        · rename_i hgt
          refine List.pairwise_cons.mpr ⟨fun e' he' => ?_, ih hrest⟩
          rcases mem_insertEntry he' with rfl | he'
          · exact hgt
          · exact hfirst e' he'
        · rename_i hle hge
          obtain rfl : e.1 = k := le_antisymm (not_lt.mp hle) (not_lt.mp hge)
          exact List.pairwise_cons.mpr ⟨hfirst, hrest⟩

theorem nodup_keys (m : OrderedMap K V) : (m.entries.map Prod.fst).Nodup :=
  (List.pairwise_map.mpr m.sorted).imp fun h => h.ne

theorem mem_iff {m : OrderedMap K V} {k : K} {v : V} : (k, v) ∈ m.entries ↔ m.lookup k = some v :=
  ⟨fun h => lookup_of_mem m.nodup_keys h, fun h => mem_of_lookup h⟩

end OrderedMap
