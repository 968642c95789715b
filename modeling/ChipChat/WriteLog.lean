import Mathlib.Data.List.AList
import Mathlib.Data.List.Induction
import Mathlib.Data.List.Nodup
import Mathlib.Data.List.Perm.Basic

/-!
# Tables written by a log

A log is a list of key-value writes, each replacing what its key held. The table
it leaves keeps the last write of every key; on keys written at most once it is
a permutation of the log itself.
-/

namespace WriteLog

set_option autoImplicit false

universe u v

abbrev Table (κ : Type u) (ν : Type v) := AList fun _ : κ => ν

variable {κ : Type u} {ν : Type v}

def pairs (t : Table κ ν) : List (κ × ν) :=
  t.entries.map fun e => (e.1, e.2)

theorem pairs_keys_nodup (t : Table κ ν) : ((pairs t).map Prod.fst).Nodup := by
  simpa [pairs, List.map_map, Function.comp_def, AList.keys, List.keys] using t.keys_nodup

theorem pairs_nodup (t : Table κ ν) : (pairs t).Nodup := (pairs_keys_nodup t).of_map

section Values
variable {μ : Type*} (f : ν → μ)

def mapValues (t : Table κ ν) : Table κ μ where
  entries := t.entries.map fun e => ⟨e.1, f e.2⟩
  nodupKeys := by
    have h := t.nodupKeys
    simp only [List.NodupKeys, List.keys, List.map_map] at h ⊢
    exact h

variable [DecidableEq κ]

@[simp] theorem lookup_mapValues (t : Table κ ν) (k : κ) :
    (mapValues f t).lookup k = (t.lookup k).map f := by
  obtain ⟨entries, h⟩ := t
  simp only [AList.lookup, mapValues]
  clear h
  induction entries with
  | nil => rfl
  | cons e entries ih =>
    obtain ⟨k', x⟩ := e
    by_cases hk : k' = k
    · subst hk
      simp
    · rw [List.map_cons, List.dlookup_cons_ne _ _ (Ne.symm hk),
        List.dlookup_cons_ne _ _ (Ne.symm hk), ih]

theorem mapValues_insert (t : Table κ ν) (k : κ) (x : ν) :
    mapValues f (t.insert k x) = (mapValues f t).insert k (f x) := by
  apply AList.ext
  simp only [mapValues, AList.insert, List.kinsert, List.kerase, List.map_cons, List.eraseP_map]
  rfl

end Values

variable [DecidableEq κ]

def replayFrom (t : Table κ ν) (log : List (κ × ν)) : Table κ ν :=
  log.foldl (fun t w => t.insert w.1 w.2) t

def replay (log : List (κ × ν)) : Table κ ν := replayFrom ∅ log

/-- The value of the last write of `k`, if there is one. -/
def lastAt (log : List (κ × ν)) (k : κ) : Option ν :=
  (log.filter fun w => decide (w.1 = k)).getLast?.map Prod.snd

@[simp] theorem replayFrom_nil (t : Table κ ν) : replayFrom t [] = t := rfl

@[simp] theorem replayFrom_append (t : Table κ ν) (log more : List (κ × ν)) :
    replayFrom t (log ++ more) = replayFrom (replayFrom t log) more := by
  simp [replayFrom, List.foldl_append]

@[simp] theorem replayFrom_singleton (t : Table κ ν) (w : κ × ν) :
    replayFrom t [w] = t.insert w.1 w.2 := rfl

@[simp] theorem lastAt_nil (k : κ) : lastAt ([] : List (κ × ν)) k = none := rfl

theorem lastAt_concat_self (log : List (κ × ν)) (k : κ) (x : ν) :
    lastAt (log ++ [(k, x)]) k = some x := by
  simp [lastAt, List.filter_append]

theorem lastAt_concat_ne (log : List (κ × ν)) {w : κ × ν} {k : κ} (h : w.1 ≠ k) :
    lastAt (log ++ [w]) k = lastAt log k := by
  simp [lastAt, List.filter_append, h]

theorem lookup_replayFrom (t : Table κ ν) (log : List (κ × ν)) (k : κ) :
    (replayFrom t log).lookup k = (lastAt log k).or (t.lookup k) := by
  induction log using List.reverseRecOn with
  | nil => simp
  | append_singleton log w ih =>
    rw [replayFrom_append, replayFrom_singleton]
    by_cases hw : w.1 = k
    · subst hw
      rw [AList.lookup_insert, lastAt_concat_self log w.1 w.2]
      rfl
    · rw [AList.lookup_insert_ne (Ne.symm hw), lastAt_concat_ne log hw, ih]

theorem lookup_replay (log : List (κ × ν)) (k : κ) :
    (replay log).lookup k = lastAt log k := by
  simp [replay, lookup_replayFrom]

theorem lastAt_mem {log : List (κ × ν)} {k : κ} {x : ν} (h : lastAt log k = some x) :
    (k, x) ∈ log := by
  obtain ⟨w, hw, rfl⟩ := Option.map_eq_some_iff.mp h
  have hm := List.mem_filter.mp (List.mem_of_getLast? hw)
  have hk : w.1 = k := by simpa using hm.2
  subst hk
  exact hm.1

theorem lastAt_map_values {μ : Type*} (f : ν → μ) (log : List (κ × ν)) (k : κ) :
    lastAt (log.map fun w => (w.1, f w.2)) k = (lastAt log k).map f := by
  simp [lastAt, List.filter_map, List.getLast?_map, Function.comp_def]

theorem lastAt_isSome_iff (log : List (κ × ν)) (k : κ) :
    (lastAt log k).isSome ↔ k ∈ log.map Prod.fst := by
  simp [lastAt]

@[simp] theorem mem_pairs_iff (t : Table κ ν) (k : κ) (x : ν) :
    (k, x) ∈ pairs t ↔ t.lookup k = some x := by
  rw [← Option.mem_def, AList.mem_lookup_iff]
  constructor
  · intro h
    obtain ⟨⟨k', x'⟩, he, heq⟩ := List.mem_map.mp h
    cases heq
    exact he
  · exact fun h => List.mem_map.mpr ⟨⟨k, x⟩, h, rfl⟩

theorem lookup_replay_filter (t : Table κ ν) (p : κ × ν → Bool) (k : κ) :
    (replay ((pairs t).filter p)).lookup k = (t.lookup k).filter fun x => p (k, x) := by
  rw [lookup_replay]
  apply Option.ext
  intro x
  rw [Option.filter_eq_some_iff, ← mem_pairs_iff]
  constructor
  · exact fun h => List.mem_filter.mp (lastAt_mem h)
  · intro h
    have hsome := (lastAt_isSome_iff _ k).mpr (List.mem_map_of_mem (List.mem_filter.mpr h))
    obtain ⟨y, hy⟩ := Option.isSome_iff_exists.mp hsome
    have hsame := (List.mem_filter.mp (lastAt_mem hy)).1
    rw [mem_pairs_iff, (mem_pairs_iff t k x).mp h.1] at hsame
    rw [hy, hsame]

/-- A log replayed over a table already written by all but its last write. -/
theorem lastAt_concat_or (log : List (κ × ν)) (w : κ × ν) (k : κ) :
    (lastAt (log ++ [w]) k).or (lastAt log k) = lastAt (log ++ [w]) k := by
  by_cases hw : w.1 = k
  · subst hw
    rw [lastAt_concat_self log w.1 w.2]
    rfl
  · rw [lastAt_concat_ne log hw, Option.or_self]

/-- Where a key is written at most once its last write is its only one. -/
theorem lastAt_eq_some_of_mem {log : List (κ × ν)} {w : κ × ν} (p : κ → Bool)
    (once : ((log.filter fun w => p w.1).map Prod.fst).Nodup) (hp : p w.1) (hw : w ∈ log) :
    lastAt log w.1 = some w.2 := by
  have hsome : (lastAt log w.1).isSome :=
    (lastAt_isSome_iff log w.1).mpr (List.mem_map.mpr ⟨w, hw, rfl⟩)
  obtain ⟨x, hx⟩ := Option.isSome_iff_exists.mp hsome
  have hmem := lastAt_mem hx
  have heq := List.inj_on_of_nodup_map once (List.mem_filter.mpr ⟨hmem, hp⟩)
    (List.mem_filter.mpr ⟨hw, hp⟩) rfl
  rw [hx, ← heq]

/-- On keys written at most once the table holds the log, in some order. -/
theorem pairs_replay_perm (log : List (κ × ν)) (p : κ → Bool)
    (once : ((log.filter fun w => p w.1).map Prod.fst).Nodup) :
    ((pairs (replay log)).filter fun w => p w.1).Perm (log.filter fun w => p w.1) := by
  apply (List.perm_ext_iff_of_nodup ((pairs_nodup _).filter _) once.of_map).mpr
  rintro ⟨k, x⟩
  simp only [List.mem_filter, mem_pairs_iff, lookup_replay, and_congr_left_iff]
  intro hp
  exact ⟨lastAt_mem, fun h => lastAt_eq_some_of_mem p once hp h⟩

end WriteLog
