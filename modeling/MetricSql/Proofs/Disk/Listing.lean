import Mathlib.Data.List.Nodup
import MetricSql.Disk.Basic

namespace MetricSql.Disk

variable {d : Disk} {p q : Path} {n : String} {names : List String}

theorem isSome_entry?_iff (hp : p ≠ []) :
    (d.entry? p).isSome = true ↔ p ∈ d.entries.map Prod.fst := by
  have hentry : d.entry? p = d.entries.lookup p := by
    cases p with
    | nil => exact absurd rfl hp
    | cons a p => rfl
  rw [hentry, Option.isSome_iff_ne_none, ne_eq, List.lookup_eq_none_iff]
  simp

def nameIn? (p q : Path) : Option String := if q.dropLast = p then q.getLast? else none

theorem nameIn?_eq_some_iff : nameIn? p q = some n ↔ q = p ++ [n] := by
  unfold nameIn?
  constructor
  · intro h
    split at h
    · next hp => rw [← hp, List.dropLast_append_getLast? n h]
    · cases h
  · rintro rfl
    simp

theorem children_eq (d : Disk) (p : Path) :
    d.children p =
      ((d.entries.map Prod.fst).filterMap (nameIn? p)).mergeSort fun a b => decide (a ≤ b) := by
  rw [children, List.filterMap_map]
  rfl

theorem mem_children : n ∈ d.children p ↔ (d.entry? (p ++ [n])).isSome = true := by
  rw [children_eq, List.mem_mergeSort, List.mem_filterMap, isSome_entry?_iff (by simp)]
  simp only [nameIn?_eq_some_iff, exists_eq_right]

theorem sorted_children (d : Disk) (p : Path) : (d.children p).Pairwise (· < ·) := by
  have hle : (d.children p).Pairwise fun a b => decide (a ≤ b) = true := by
    refine List.pairwise_mergeSort (fun a b c hab hbc => ?_) (fun a b => ?_) _
    · rw [decide_eq_true_iff] at *
      exact String.le_trans hab hbc
    · rw [Bool.or_eq_true, decide_eq_true_iff, decide_eq_true_iff]
      exact String.le_total a b
  have hnodup : (d.children p).Nodup := by
    rw [children_eq, List.nodup_mergeSort]
    refine d.distinct.filterMap fun a b n ha hb => ?_
    rw [nameIn?_eq_some_iff.1 ha, nameIn?_eq_some_iff.1 hb]
  refine hle.imp₂ (fun a b hab hne => ?_) hnodup
  rw [decide_eq_true_iff] at hab
  exact String.not_le.1 fun hba => hne (String.le_antisymm hab hba)

theorem isDirectory_iff : d.isDirectory p = true ↔ d.entry? p = some .directory := by
  unfold isDirectory
  split
  · next h => simp [h]
  · next h => simpa using h

theorem walk_cons (p : Path) (n : String) (names : List String) :
    d.walk p (n :: names) = (d.walk p [n]).bind (d.walk · names) := by
  rw [walk, walk]
  split
  · rfl
  · rfl
  · split
    · rw [walk]
      rfl
    · split
      · split
        · rfl
        · rw [walk]
          rfl
      · rw [walk]
        rfl

theorem isSome_of_walk (h : d.walk p names = .ok q) (hq : d.isDirectory q = true) :
    (d.entry? p).isSome = true := by
  cases names with
  | nil =>
    obtain rfl := Except.ok.inj h
    rw [isDirectory_iff.1 hq]
    rfl
  | cons n names =>
    rw [walk] at h
    split at h
    · cases h
    · cases h
    · next hp => rw [hp]; rfl

end MetricSql.Disk
