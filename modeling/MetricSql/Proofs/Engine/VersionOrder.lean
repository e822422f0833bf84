import Mathlib
import MetricSql.Engine.Version
import MetricSql.Proofs.Text.Runs

namespace MetricSql.Version

open Text

variable {l m : List Nat} {s t : List Char} {a b c : String}

/-- The components as a sequence that goes on with zeros. Sequences are ordered by their first
difference. -/
def sequence (l : List Nat) : Lex (ℕ → ℕ) := toLex fun i => l.getD i 0

theorem sequence_zero (l : List Nat) : sequence l 0 = l.headD 0 := by
  cases l <;> rfl

theorem sequence_succ (l : List Nat) (i : ℕ) : sequence l (i + 1) = sequence l.tail i := by
  cases l <;> rfl

theorem sequence_lt_iff : sequence l < sequence m ↔
    l.headD 0 < m.headD 0 ∨ l.headD 0 = m.headD 0 ∧ sequence l.tail < sequence m.tail := by
  simp only [← sequence_zero]
  constructor
  · rintro ⟨i, hbefore, hlt⟩
    cases i with
    | zero => exact .inl hlt
    | succ i =>
      refine .inr ⟨hbefore 0 i.succ_pos, i, fun j hj => ?_, ?_⟩
      · have h := hbefore (j + 1) (Nat.succ_lt_succ hj)
        rwa [sequence_succ, sequence_succ] at h
      · rwa [sequence_succ, sequence_succ] at hlt
  · rintro (hlt | ⟨heq, i, hbefore, hlt⟩)
    · exact ⟨0, fun j hj => absurd hj j.not_lt_zero, hlt⟩
    · refine ⟨i + 1, fun j hj => ?_, ?_⟩
      · cases j with
        | zero => exact heq
        | succ j =>
          rw [sequence_succ, sequence_succ]
          exact hbefore j (Nat.lt_of_succ_lt_succ hj)
      · rwa [sequence_succ, sequence_succ]

theorem sequence_eq_iff : sequence l = sequence m ↔
    l.headD 0 = m.headD 0 ∧ sequence l.tail = sequence m.tail := by
  simp only [← sequence_zero]
  constructor
  · intro h
    refine ⟨congrFun h 0, funext fun i => ?_⟩
    rw [← sequence_succ, ← sequence_succ, h]
  · rintro ⟨hzero, htail⟩
    refine funext fun i => ?_
    cases i with
    | zero => exact hzero
    | succ i => rw [sequence_succ, sequence_succ, htail]

theorem compares_then {o : Ordering} (h : o.Compares (sequence l.tail) (sequence m.tail)) :
    ((Ord.compare (l.headD 0) (m.headD 0)).then o).Compares (sequence l) (sequence m) := by
  have hhead := cmp_compares (l.headD 0) (m.headD 0)
  rw [cmp_eq_compare] at hhead
  cases hcmp : Ord.compare (l.headD 0) (m.headD 0) with
  | lt =>
    rw [hcmp] at hhead
    exact sequence_lt_iff.2 (.inl hhead)
  | gt =>
    rw [hcmp] at hhead
    exact sequence_lt_iff.2 (.inl hhead)
  | eq =>
    rw [hcmp] at hhead
    cases o with
    | lt => exact sequence_lt_iff.2 (.inr ⟨hhead, h⟩)
    | gt => exact sequence_lt_iff.2 (.inr ⟨Eq.symm hhead, h⟩)
    | eq => exact sequence_eq_iff.2 ⟨hhead, h⟩

/-- Versions are compared as the sequences of their components. -/
theorem compares_sequence (l m : List Nat) :
    (compareComponents l m).Compares (sequence l) (sequence m) := by
  induction l, m using compareComponents.induct with
  | case1 =>
    rw [compareComponents]
    exact (rfl : sequence [] = sequence [])
  | case2 y ys ih =>
    rw [compareComponents]
    exact compares_then (l := []) (m := y :: ys) ih
  | case3 x xs ih =>
    rw [compareComponents]
    exact compares_then (l := x :: xs) (m := []) ih
  | case4 x xs y ys ih =>
    rw [compareComponents]
    exact compares_then (l := x :: xs) (m := y :: ys) ih

theorem sequence_append_zero (l : List Nat) : sequence (l ++ [0]) = sequence l := by
  induction l with
  | nil => exact sequence_eq_iff.2 ⟨rfl, rfl⟩
  | cons x l ih => exact sequence_eq_iff.2 ⟨rfl, ih⟩

def compareTexts (a b : String) : Ordering := (ofText a).compare (ofText b)

theorem compareTexts_compares (a b : String) :
    (compareTexts a b).Compares (sequence (ofText a).components) (sequence (ofText b).components) :=
  compares_sequence _ _

section Components

theorem splitDots_ne_nil (s : List Char) : splitDots s ≠ [] := by
  cases s with
  | nil => exact List.cons_ne_nil _ _
  | cons c s =>
    rw [splitDots]
    split
    · exact List.cons_ne_nil _ _
    · split <;> exact List.cons_ne_nil _ _

theorem splitDots_append (s t : List Char) :
    splitDots (s ++ '.' :: t) = splitDots s ++ splitDots t := by
  induction s with
  | nil => rfl
  | cons c s ih =>
    obtain ⟨piece, pieces, hs⟩ := List.exists_cons_of_ne_nil (splitDots_ne_nil s)
    rw [List.cons_append, splitDots, splitDots, ih, hs]
    split <;> rfl

theorem splitDots_of_notMem (h : '.' ∉ s) : splitDots s = [s] := by
  induction s with
  | nil => rfl
  | cons c s ih =>
    rw [List.mem_cons, not_or] at h
    rw [splitDots, if_neg (Ne.symm h.1), ih h.2]

theorem components_single (ha : '.' ∉ a.toList) :
    (ofText a).components = [leadingNumber a.toList] := by
  rw [ofText, splitDots_of_notMem ha, List.map_singleton]

theorem components_append_dot (a b : String) :
    (ofText (a ++ "." ++ b)).components = (ofText a).components ++ (ofText b).components := by
  have hchars : (a ++ "." ++ b).toList = a.toList ++ '.' :: b.toList := by
    rw [String.toList_append, String.toList_append, List.append_assoc]
    rfl
  simp only [ofText, hchars, splitDots_append, List.map_append]

/-- A component that begins with no digit, or is made of zeros, between blanks. -/
def CountsAsZero (x : List Char) : Prop :=
  (∀ c ∈ (trim x).head?, c.isDigit = false) ∨ ∀ c ∈ trim x, c = '0'

theorem leadingNumber_eq_zero (h : CountsAsZero s) : leadingNumber s = 0 := by
  have hzeros : ∀ c ∈ (trim s).takeWhile Char.isDigit, c = '0' := by
    obtain h | h := h
    · have hnone : (trim s).takeWhile Char.isDigit = [] := (takeWhile_run (w := []) (by simp) h).1
      simp [hnone]
    · exact fun c hc => h c ((List.takeWhile_prefix _).subset hc)
  rw [leadingNumber, List.eq_replicate_of_mem hzeros, Nat.ofDigitChars_replicate_zero]
  rfl

def addComponents (a : String) (xs : List String) : String := xs.foldl (fun s x => s ++ "." ++ x) a

theorem sequence_addComponents {xs : List String}
    (h : ∀ x ∈ xs, '.' ∉ x.toList ∧ CountsAsZero x.toList) :
    sequence (ofText (addComponents a xs)).components = sequence (ofText a).components := by
  induction xs generalizing a with
  | nil => rfl
  | cons x xs ih =>
    obtain ⟨⟨hdot, hzero⟩, hxs⟩ := List.forall_mem_cons.1 h
    have hx : (ofText x).components = [0] := by
      rw [components_single hdot, leadingNumber_eq_zero hzero]
    rw [addComponents, List.foldl_cons, ← addComponents, ih hxs, components_append_dot, hx,
      sequence_append_zero]

end Components

theorem compareTexts_eq_lt_iff : compareTexts a b = .lt ↔
    ∃ i, (∀ j < i, (ofText a).components.getD j 0 = (ofText b).components.getD j 0) ∧
      (ofText a).components.getD i 0 < (ofText b).components.getD i 0 :=
  (compareTexts_compares a b).eq_lt

/-- Texts of versions are compared by the first difference of their components, as in a total
preorder. Components that count as zero make no difference at the end. -/
theorem compareTexts_preorder (a b c : String) :
    (compareTexts a b = .lt ↔
        ∃ i, (∀ j < i, (ofText a).components.getD j 0 = (ofText b).components.getD j 0) ∧
          (ofText a).components.getD i 0 < (ofText b).components.getD i 0) ∧
      compareTexts b a = (compareTexts a b).swap ∧
      (compareTexts a b ≠ .gt → compareTexts b c ≠ .gt → compareTexts a c ≠ .gt ∧
        (compareTexts a b = .lt ∨ compareTexts b c = .lt → compareTexts a c = .lt)) ∧
      compareTexts a a = .eq ∧
      (∀ xs : List String, (∀ x ∈ xs, '.' ∉ x.toList ∧ CountsAsZero x.toList) →
        compareTexts a (addComponents a xs) = .eq) ∧
      (compareTexts a b = .eq →
        compareTexts a c = compareTexts b c ∧ compareTexts c a = compareTexts c b) := by
  have hab := compareTexts_compares a b
  have hbc := compareTexts_compares b c
  have hac := compareTexts_compares a c
  refine ⟨compareTexts_eq_lt_iff, (compareTexts_compares b a).inj (Ordering.compares_swap.2 hab),
    fun h k => ?_, ?_, fun xs hxs => ?_, fun h => ?_⟩
  · rw [hab.ne_gt] at h
    rw [hbc.ne_gt] at k
    rw [hac.ne_gt, hab.eq_lt, hbc.eq_lt, hac.eq_lt]
    refine ⟨h.trans k, ?_⟩
    rintro (hlt | hlt)
    · exact hlt.trans_le k
    · exact h.trans_lt hlt
  · exact (compareTexts_compares a a).eq_eq.2 rfl
  · rw [(compareTexts_compares a _).eq_eq, sequence_addComponents hxs]
  · rw [hab.eq_eq] at h
    have hca := compareTexts_compares c a
    rw [h] at hac hca
    exact ⟨hac.inj hbc, hca.inj (compareTexts_compares c b)⟩

theorem compareTexts_preorder_releases :
    compareTexts "20.3-lts" "20.4" = .lt ∧ compareTexts "20.4" "20.4.beta" = .eq ∧
      compareTexts "20.3-lts" "20.4.beta" = .lt ∧
      compareTexts "20.4" "20.3-lts" = compareTexts "20.4.beta" "20.3-lts" ∧
      (∀ x ∈ [" 00 ", "beta"], '.' ∉ x.toList ∧ CountsAsZero x.toList) ∧
      compareTexts "20.3-lts" (addComponents "20.3-lts" [" 00 ", "beta"]) = .eq := by
  have h3 : ofText "20.3-lts" = ⟨[20, 3]⟩ := by decide +kernel
  have h4 : ofText "20.4" = ⟨[20, 4]⟩ := by decide +kernel
  have hbeta : ofText "20.4.beta" = ⟨[20, 4, 0]⟩ := by decide +kernel
  have hold : compareTexts "20.3-lts" "20.4" = .lt := by
    rw [compareTexts, h3, h4]
    cbv
  have hsame : compareTexts "20.4" "20.4.beta" = .eq := by
    rw [compareTexts, h4, hbeta]
    cbv
  have hblank : trim [' ', '0', '0', ' '] = ['0', '0'] := by decide
  have hword : trim ['b', 'e', 't', 'a'] = ['b', 'e', 't', 'a'] := by decide
  have hzeros : ∀ x ∈ [" 00 ", "beta"], '.' ∉ x.toList ∧ CountsAsZero x.toList := by
    simp [CountsAsZero, hblank, hword]
  obtain ⟨-, -, htrans, -, hadd, -⟩ := compareTexts_preorder "20.3-lts" "20.4" "20.4.beta"
  obtain ⟨-, -, -, -, -, hcongr⟩ := compareTexts_preorder "20.4" "20.4.beta" "20.3-lts"
  exact ⟨hold, hsame, (htrans (by simp [hold]) (by simp [hsame])).2 (.inl hold), (hcongr hsame).1,
    hzeros, hadd _ hzeros⟩

end MetricSql.Version
