import MetricSql.Disk.Glob
import MetricSql.Proofs.Disk.Listing
import MetricSql.Proofs.Text.Runs

namespace MetricSql.Glob

open Disk

def wildcards : List Char := ['*', '?', '[']

def fixedPart (name : String) : GlobPart := .name (name.toList.map .char)

def endingTokens (ending : List Char) : List GlobToken := .anySequence :: ending.map .char

variable {d : Disk} {s t : List Char} {n : String} {names : List String} {p q : Path}
  {parts : List GlobPart}

theorem readTokens?_plain (hs : ∀ c ∈ s, c ∉ wildcards) {fuel : Nat} (hfuel : s.length < fuel) :
    readTokens? fuel s = some (s.map .char) := by
  induction s generalizing fuel with
  | nil =>
    obtain ⟨fuel, rfl⟩ := Nat.exists_eq_add_of_lt hfuel
    rfl
  | cons c s ih =>
    obtain ⟨fuel, rfl⟩ := Nat.exists_eq_succ_of_ne_zero (Nat.ne_of_gt (Nat.zero_lt_of_lt hfuel))
    obtain ⟨hc, hs⟩ := List.forall_mem_cons.1 hs
    simp only [wildcards, List.mem_cons, List.not_mem_nil, or_false, not_or] at hc
    rw [readTokens?, ih hs (by simpa using hfuel)]
    · rfl
    all_goals simp [hc]

theorem readPart?_plain (hs : ∀ c ∈ n.toList, c ∉ wildcards) :
    readPart? n.toList = some (fixedPart n) := by
  have hne : n.toList ≠ ['*', '*'] := by
    intro h
    rw [h] at hs
    exact hs '*' List.mem_cons_self (by decide)
  rw [readPart?, if_neg hne, readTokens?_plain hs (Nat.lt_succ_self _)]
  rfl

theorem mapM_readPart?_plain (h : ∀ n ∈ names, ∀ c ∈ n.toList, c ∉ wildcards) :
    names.mapM (fun part => readPart? part.toList) = some (names.map fixedPart) :=
  Text.mapM_eq_some fun n hn => readPart?_plain (h n hn)

theorem readPart?_ending (hs : ∀ c ∈ s, c ∉ wildcards) :
    readPart? ('*' :: s) = some (.name (endingTokens s)) := by
  have hne : '*' :: s ≠ ['*', '*'] := by
    intro h
    rw [(List.cons.inj h).2] at hs
    exact hs '*' List.mem_cons_self (by decide)
  rw [readPart?, if_neg hne, readTokens?, readTokens?_plain hs (by simp)]
  · rfl
  · rintro r rfl
    exact hs '*' List.mem_cons_self (by decide)

theorem accepts_map_char_iff : accepts (t.map .char) s = true ↔ s = t := by
  induction t generalizing s with
  | nil => rw [List.map_nil, accepts, List.isEmpty_iff]
  | cons a t ih =>
    cases s with
    | nil => simp [accepts]
    | cons c s =>
      rw [List.map_cons, accepts, Bool.and_eq_true, ih, beq_iff_eq, List.cons.injEq, eq_comm (a := a)]

/-- A star and a text are matched by what ends in the text. -/
theorem accepts_endingTokens_iff : accepts (endingTokens t) s = true ↔ t <:+ s := by
  induction s with
  | nil => rw [endingTokens, accepts, accepts_map_char_iff, List.suffix_nil, eq_comm]
  | cons c s ih =>
    rw [endingTokens, accepts, Bool.or_eq_true, accepts_map_char_iff, ← endingTokens, ih,
      List.suffix_cons_iff, eq_comm (a := t)]

theorem fixedName?_map_char (s : List Char) : fixedName? (s.map .char) = some (.ofList s) := by
  have hread : (s.map GlobToken.char).mapM fixedChar? = some s := by
    rw [List.mapM_map]
    refine (Text.mapM_eq_some (g := id) fun _ _ => rfl).trans ?_
    rw [List.map_id]
  rw [fixedName?, hread]
  rfl

theorem fixedName?_endingTokens (s : List Char) : fixedName? (endingTokens s) = none := by
  rw [fixedName?, endingTokens, List.mapM_cons]
  rfl

theorem search_fixedParts (h : d.walk p names = .ok q) (hq : d.isDirectory q = true) (fuel : Nat) :
    search d (names.length + fuel) (names.map fixedPart ++ parts) p = search d fuel parts q := by
  induction names generalizing p with
  | nil =>
    obtain rfl := Except.ok.inj h
    rw [List.length_nil, Nat.zero_add, List.map_nil, List.nil_append]
  | cons n names ih =>
    rw [walk_cons] at h
    cases hn : d.walk p [n] with
    | error e =>
      rw [hn] at h
      cases h
    | ok p' =>
      rw [hn] at h
      have hfollow : follow? d p n = some p' := by
        rw [follow?, hn]
        dsimp only
        rw [if_pos (isSome_of_walk h hq)]
      rw [List.length_cons, Nat.add_right_comm, List.map_cons, List.cons_append, fixedPart, search,
        fixedName?_map_char, String.ofList_toList]
      dsimp only
      rw [hfollow]
      exact ih h

def namesEnding (d : Disk) (p : Path) (ending : List Char) : List String :=
  (d.children p).filter fun n => accepts (endingTokens ending) n.toList

theorem search_endingTokens (hp : d.isDirectory p = true) (ending : List Char) (fuel : Nat) :
    search d (fuel + 2) [.name (endingTokens ending)] p =
      (namesEnding d p ending).map fun n => p ++ [n] := by
  have hdots : dotNames (endingTokens ending) = [] := rfl
  rw [search, fixedName?_endingTokens]
  dsimp only
  rw [if_pos hp, hdots, List.filterMap_nil, List.flatMap_nil, List.nil_append, namesEnding]
  simp only [search]
  exact List.map_eq_flatMap.symm

theorem mem_namesEnding {ending : List Char} :
    n ∈ namesEnding d p ending ↔ (d.entry? (p ++ [n])).isSome = true ∧ ending <:+ n.toList := by
  rw [namesEnding, List.mem_filter, mem_children, accepts_endingTokens_iff]

theorem sorted_namesEnding (d : Disk) (p : Path) (ending : List Char) :
    (namesEnding d p ending).Pairwise (· < ·) := (sorted_children d p).filter _

end MetricSql.Glob
