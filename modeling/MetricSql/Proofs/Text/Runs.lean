import Mathlib.Data.List.TakeWhile

namespace MetricSql.Text

theorem takeWhile_run {p : Char → Bool} {w s : List Char} (hw : ∀ c ∈ w, p c = true)
    (hs : ∀ c ∈ s.head?, p c = false) :
    (w ++ s).takeWhile p = w ∧ (w ++ s).dropWhile p = s := by
  rw [List.takeWhile_append_of_pos hw, List.dropWhile_append_of_pos hw]
  cases s with
  | nil => simp
  | cons c s => simp [hs c rfl]

section Separators

variable {α : Type} {sep s : List α} {l m : List (List α)} {ls : List (List (List α))} {a : α}

theorem mem_intercalate (hs : s ∈ l) (ha : a ∈ s) : a ∈ sep.intercalate l := by
  induction l with
  | nil => cases hs
  | cons t l ih =>
    cases l with
    | nil =>
      rw [List.intercalate_singleton]
      rwa [← List.mem_singleton.1 hs]
    | cons u l =>
      rw [List.intercalate_cons_cons]
      obtain rfl | hs := List.mem_cons.1 hs
      · simp [ha]
      · simp [ih hs]

theorem intercalate_append (hl : l ≠ []) (hm : m ≠ []) :
    sep.intercalate (l ++ m) = sep.intercalate l ++ sep ++ sep.intercalate m := by
  induction l with
  | nil => exact absurd rfl hl
  | cons s l ih =>
    cases l with
    | nil =>
      rw [List.singleton_append, List.intercalate_cons_of_ne_nil hm, List.intercalate_singleton]
    | cons t l =>
      rw [List.cons_append, List.intercalate_cons_of_ne_nil (by simp), ih (by simp),
        List.intercalate_cons_cons]
      simp only [List.append_assoc]

theorem intercalate_flatten (h : ∀ l ∈ ls, l ≠ []) :
    sep.intercalate (ls.map sep.intercalate) = sep.intercalate ls.flatten := by
  induction ls with
  | nil => rfl
  | cons l ls ih =>
    obtain ⟨hl, hls⟩ := List.forall_mem_cons.1 h
    cases ls with
    | nil => simp
    | cons l' ls =>
      have hne : (l' :: ls).flatten ≠ [] := by
        obtain ⟨s, t, rfl⟩ := List.exists_cons_of_ne_nil (hls l' List.mem_cons_self)
        simp
      rw [List.map_cons, List.intercalate_cons_of_ne_nil (by simp), ih hls,
        List.flatten_cons (l := l), intercalate_append hl hne]

/-- A splitter that cuts at each separator gives back the texts between them. -/
theorem split_intercalate {split : List α → List (List α)} (hne : l ≠ [])
    (hlast : ∀ s ∈ l, split s = [s])
    (hnext : ∀ s ∈ l, ∀ rest, split (s ++ a :: rest) = s :: split rest) :
    split ([a].intercalate l) = l := by
  induction l with
  | nil => exact absurd rfl hne
  | cons s l ih =>
    obtain ⟨hs, hl⟩ := List.forall_mem_cons.1 hlast
    obtain ⟨hs', hl'⟩ := List.forall_mem_cons.1 hnext
    cases l with
    | nil => rw [List.intercalate_singleton, hs]
    | cons t l =>
      rw [List.intercalate_cons_cons, List.append_assoc, List.singleton_append, hs',
        ih (by simp) hl hl']

end Separators

theorem mapM_eq_some {α β : Type} {f : α → Option β} {g : α → β} {l : List α}
    (h : ∀ x ∈ l, f x = some (g x)) : l.mapM f = some (l.map g) := by
  induction l with
  | nil => rfl
  | cons x l ih =>
    obtain ⟨hx, hl⟩ := List.forall_mem_cons.1 h
    rw [List.mapM_cons, hx, ih hl]
    rfl

end MetricSql.Text
