import MetricSql.Engine.Basic
import MetricSql.Proofs.Engine.Components
import MetricSql.Proofs.Text.Digits

namespace MetricSql

open Text

namespace Version

variable {l m : List Nat} {n x : Nat}

theorem sequence_nil_le (l : List Nat) : sequence [] ≤ sequence l := by
  refine not_lt.1 ?_
  rintro ⟨i, -, h⟩
  exact absurd h (Nat.not_lt_zero _)

theorem sequence_le_iff : sequence l ≤ sequence m ↔
    l.headD 0 < m.headD 0 ∨ l.headD 0 = m.headD 0 ∧ sequence l.tail ≤ sequence m.tail := by
  refine not_lt.symm.trans ((not_congr sequence_lt_iff).trans ?_)
  rw [not_or, not_and, not_lt, le_iff_lt_or_eq]
  constructor
  · rintro ⟨hlt | heq, htail⟩
    · exact .inl hlt
    · exact .inr ⟨heq, not_lt.1 (htail heq.symm)⟩
  · rintro (hlt | ⟨heq, htail⟩)
    · exact ⟨.inl hlt, fun heq => absurd heq hlt.ne'⟩
    · exact ⟨.inr heq, fun _ => not_lt.2 htail⟩

theorem sequence_append_lt {y : Nat} (l r r' : List Nat) (h : x < y) :
    sequence (l ++ x :: r) < sequence (l ++ y :: r') := by
  induction l with
  | nil => exact sequence_lt_iff.2 (.inl h)
  | cons z l ih => exact sequence_lt_iff.2 (.inr ⟨rfl, ih⟩)

theorem sequence_le_append (h : sequence m < sequence (l ++ [x + 1])) :
    sequence m ≤ sequence (l ++ x :: m.drop (l.length + 1)) := by
  induction l generalizing m with
  | nil =>
    obtain hlt | ⟨-, htail⟩ := sequence_lt_iff.1 h
    · rw [sequence_le_iff, List.length_nil, List.drop_one]
      exact (Nat.lt_succ_iff_lt_or_eq.1 hlt).imp_right fun heq => ⟨heq, le_rfl⟩
    · exact absurd htail (not_lt.2 (sequence_nil_le _))
  | cons y l ih =>
    rw [sequence_le_iff]
    refine (sequence_lt_iff.1 h).imp_right fun ⟨heq, htail⟩ => ⟨heq, ?_⟩
    have hdrop : m.drop ((y :: l).length + 1) = m.tail.drop (l.length + 1) := by
      rw [List.length_cons, ← List.drop_one, List.drop_drop, Nat.add_comm 1]
    rw [hdrop]
    exact ih htail

theorem sequence_lt_append_iff (hm : ∀ n ∈ m, n ≤ componentLimit) :
    sequence m < sequence (l ++ [x, componentLimit + 1]) ↔ sequence m < sequence (l ++ [x + 1]) := by
  refine ⟨fun h => h.trans (sequence_append_lt l _ _ x.lt_succ_self), fun h => ?_⟩
  refine (sequence_le_append h).trans_lt ?_
  have hdrop : ∀ n ∈ m.drop (l.length + 1), n < componentLimit + 1 := fun n hn =>
    Nat.lt_succ_of_le (hm n (List.mem_of_mem_drop hn))
  rw [List.append_cons l x (m.drop _), List.append_cons l x [componentLimit + 1]]
  cases hd : m.drop (l.length + 1) with
  | nil =>
    rw [List.append_nil, ← sequence_append_zero]
    exact sequence_append_lt _ _ _ componentLimit.succ_pos
  | cons n d =>
    rw [hd] at hdrop
    exact sequence_append_lt _ _ _ (hdrop n List.mem_cons_self)

theorem dot_notMem_toDigits (n : Nat) : '.' ∉ Nat.toDigits 10 n :=
  dot_notMem_of_digits fun _ => isDigit_of_mem_toDigits

theorem leadingNumber_toDigits (h : n ≤ componentLimit) :
    leadingNumber (Nat.toDigits 10 n) = n := by
  rw [leadingNumber_of_digits fun _ => isDigit_of_mem_toDigits, Nat.ofDigitChars_ten_toDigits]
  exact if_pos h

theorem leadingNumber_le (s : List Char) : leadingNumber s ≤ componentLimit := by
  rw [leadingNumber]
  split
  · assumption
  · exact Nat.zero_le _

theorem components_le (a : String) : ∀ n ∈ (ofText a).components, n ≤ componentLimit :=
  List.forall_mem_map.2 fun s _ => leadingNumber_le s

def dotted (l : List Nat) : List Char := ['.'].intercalate (l.map (Nat.toDigits 10))

theorem splitDots_dotted (hne : l ≠ []) : splitDots (dotted l) = l.map (Nat.toDigits 10) := by
  have hpiece : ∀ s ∈ l.map (Nat.toDigits 10), splitDots s = [s] :=
    List.forall_mem_map.2 fun n _ => splitDots_of_notMem (dot_notMem_toDigits n)
  refine split_intercalate (by simpa using hne) hpiece fun s hs rest => ?_
  rw [splitDots_append, hpiece s hs, List.singleton_append]

theorem map_leadingNumber_toDigits (h : ∀ n ∈ l, n ≤ componentLimit) :
    (l.map (Nat.toDigits 10)).map leadingNumber = l := by
  rw [List.map_map]
  exact (List.map_congr_left fun n hn => leadingNumber_toDigits (h n hn)).trans (List.map_id' l)

section Beginnings

variable {q s t : List Char} {k : List (List Char)}

theorem splitDots_append_of_eq (h : splitDots t = k ++ [q]) :
    '.' ∉ q ∧ ∀ s, splitDots (t ++ s) = k ++ splitDots (q ++ s) := by
  have hex : ∃ k q, '.' ∉ q ∧ ∀ s, splitDots (t ++ s) = k ++ splitDots (q ++ s) := by
    clear h
    induction t with
    | nil => exact ⟨[], [], List.not_mem_nil, fun _ => rfl⟩
    | cons c t ih =>
      obtain ⟨k, q, hq, h⟩ := ih
      by_cases hc : c = '.'
      · refine ⟨[] :: k, q, hq, fun s => ?_⟩
        rw [List.cons_append, splitDots, if_pos hc, h, List.cons_append]
      · cases k with
        | nil =>
          refine ⟨[], c :: q, ?_, fun s => ?_⟩
          · simp [hq, Ne.symm hc]
          · rw [List.cons_append, splitDots, h, List.nil_append, List.nil_append, List.cons_append,
              splitDots]
        | cons p k =>
          refine ⟨(c :: p) :: k, q, hq, fun s => ?_⟩
          rw [List.cons_append, splitDots, if_neg hc, h]
          rfl
  obtain ⟨k', q', hq, h'⟩ := hex
  have hnil := h' []
  rw [List.append_nil, List.append_nil, splitDots_of_notMem hq, h] at hnil
  obtain ⟨rfl, hqq⟩ := List.append_inj' hnil rfl
  obtain rfl := List.singleton_inj.1 hqq
  exact ⟨hq, h'⟩

def readings (q : List Char) : Set Nat := {n | ∃ s, '.' ∉ s ∧ leadingNumber (q ++ s) = n}

theorem exists_isGreatest_readings (q : List Char) : ∃ n, IsGreatest (readings q) n := by
  have hbound : BddAbove (readings q) := by
    refine ⟨componentLimit, ?_⟩
    rintro n ⟨s, -, rfl⟩
    exact leadingNumber_le _
  exact hbound.exists_isGreatest_of_nonempty ⟨_, [], List.not_mem_nil, rfl⟩

theorem isGreatest_readings_nil : IsGreatest (readings []) componentLimit := by
  refine ⟨⟨Nat.toDigits 10 componentLimit, dot_notMem_toDigits _, leadingNumber_toDigits le_rfl⟩, ?_⟩
  rintro n ⟨s, -, rfl⟩
  exact leadingNumber_le _

theorem exists_splitDots_append (hq : '.' ∉ q) (s : List Char) :
    ∃ t pieces, '.' ∉ t ∧ splitDots (q ++ s) = (q ++ t) :: pieces := by
  by_cases hs : '.' ∈ s
  · obtain ⟨t, u, rfl, ht⟩ := List.eq_append_cons_of_mem hs
    refine ⟨t, splitDots u, ht, ?_⟩
    rw [← List.append_assoc, splitDots_append, splitDots_of_notMem (by simp [hq, ht]),
      List.singleton_append]
  · exact ⟨s, [], hs, splitDots_of_notMem (by simp [hq, hs])⟩

/-- The texts that begin with a piece are all before a version exactly if it is not before the one
with a component there that is greater by one than the piece can stand for. -/
theorem forall_lt_iff (hq : '.' ∉ q) (hn : IsGreatest (readings q) n)
    (hm : ∀ n ∈ m, n ≤ componentLimit) :
    (∀ s, sequence (l ++ (splitDots (q ++ s)).map leadingNumber) < sequence m) ↔
      ¬sequence m < sequence (l ++ [n + 1]) := by
  constructor
  · intro h hlt
    obtain ⟨⟨s, hs, rfl⟩, -⟩ := hn
    have hd : ∀ n ∈ m.drop (l.length + 1) ++ [0], n ≤ componentLimit := by
      refine List.forall_mem_append.2 ⟨fun n hn => hm n (List.mem_of_mem_drop hn), ?_⟩
      simp
    have hs' := h (s ++ '.' :: dotted (m.drop (l.length + 1) ++ [0]))
    rw [← List.append_assoc, splitDots_append, splitDots_of_notMem (by simp [hq, hs]),
      List.map_append, splitDots_dotted (by simp),
      map_leadingNumber_toDigits hd, List.map_singleton, ← List.append_assoc,
      ← List.append_assoc, sequence_append_zero, List.append_assoc, List.singleton_append] at hs'
    exact absurd hs' (not_lt.2 (sequence_le_append hlt))
  · intro h s
    obtain ⟨t, pieces, ht, hsplit⟩ := exists_splitDots_append hq s
    have hle : leadingNumber (q ++ t) < n + 1 := Nat.lt_succ_of_le (hn.2 ⟨t, ht, rfl⟩)
    rw [hsplit, List.map_cons]
    exact (sequence_append_lt l _ _ hle).trans_le (not_lt.1 h)

end Beginnings

end Version

namespace EngineVersions

open Version

variable {v : EngineVersions} {engine : Engine} {a b : String} {l : List Nat} {n : Nat}
  {k : List (List Char)} {q : List Char}

def KeepsWith (v : EngineVersions) (engine : Engine) (a : String) : Prop :=
  ∀ b, compareTexts a b ≠ .gt → v.supportsWith engine (some b) = true

theorem supportsWith_mysql :
    v.supportsWith .mysql (some b) = true ↔ ¬v.mysqlLow.toList <+: b.toList := by
  simp [supportsWith, ← List.isPrefixOf_iff_prefix]

theorem supportsWith_clickhouse :
    v.supportsWith .clickhouse (some b) = true ↔ compareTexts b v.clickhouseLow ≠ .lt := by
  simp [supportsWith, compareTexts]

theorem keepsWith_clickhouse_iff :
    v.KeepsWith .clickhouse a ↔ compareTexts a v.clickhouseLow ≠ .lt := by
  constructor
  · have hself : compareTexts a a ≠ .gt := (compareTexts_compares a a).ne_gt.2 le_rfl
    exact fun h => supportsWith_clickhouse.1 (h a hself)
  · intro ha b hle
    rw [Ne, (compareTexts_compares a v.clickhouseLow).eq_lt] at ha
    rw [(compareTexts_compares a b).ne_gt] at hle
    rw [supportsWith_clickhouse, Ne, (compareTexts_compares b v.clickhouseLow).eq_lt]
    exact fun hlt => ha (hle.trans_lt hlt)

theorem keepsWith_of_ne_mysql (hne : engine ≠ .mysql)
    (ha : v.supportsWith engine (some a) = true) : v.KeepsWith engine a := by
  cases engine with
  | mysql => exact absurd rfl hne
  | clickhouse => exact keepsWith_clickhouse_iff.2 (supportsWith_clickhouse.1 ha)
  | _ => exact fun _ _ => rfl

theorem compareTexts_empty_ne_gt (b : String) : compareTexts "" b ≠ .gt := by
  have hzero : sequence (ofText "").components = sequence [] := sequence_append_zero []
  rw [(compareTexts_compares "" b).ne_gt, hzero]
  exact sequence_nil_le _

theorem not_keepsWith_empty (hlow : v.mysqlLow ≠ "") :
    v.supportsWith .mysql (some "") = true ∧ ¬v.KeepsWith .mysql "" := by
  constructor
  · rw [supportsWith_mysql]
    intro h
    exact hlow (String.toList_injective (List.prefix_nil.1 h))
  · exact fun h => supportsWith_mysql.1 (h _ (compareTexts_empty_ne_gt _)) List.prefix_rfl

theorem keepsWith_mysql_iff_forall : v.KeepsWith .mysql a ↔
    ∀ s, sequence (ofText (String.ofList (v.mysqlLow.toList ++ s))).components <
      sequence (ofText a).components := by
  constructor
  · intro h s
    by_contra hlt
    refine supportsWith_mysql.1 (h (String.ofList (v.mysqlLow.toList ++ s)) ?_) ?_
    · rw [(compareTexts_compares _ _).ne_gt]
      exact not_lt.1 hlt
    · rw [String.toList_ofList]
      exact List.prefix_append _ _
  · intro h b hle
    rw [supportsWith_mysql]
    rintro ⟨s, hs⟩
    obtain rfl : b = String.ofList (v.mysqlLow.toList ++ s) := by rw [hs, String.ofList_toList]
    rw [(compareTexts_compares _ _).ne_gt] at hle
    exact absurd (h s) (not_lt.2 hle)

theorem keepsWith_mysql_iff (hlow : splitDots v.mysqlLow.toList = k ++ [q])
    (hn : IsGreatest (readings q) n) : v.KeepsWith .mysql a ↔
      (ofText a).compare ⟨k.map leadingNumber ++ [n + 1]⟩ ≠ .lt := by
  obtain ⟨hq, hsplit⟩ := splitDots_append_of_eq hlow
  have hcomponents : ∀ s, (ofText (String.ofList (v.mysqlLow.toList ++ s))).components =
      k.map leadingNumber ++ (splitDots (q ++ s)).map leadingNumber := fun s => by
    rw [ofText, String.toList_ofList, hsplit, List.map_append]
  simp only [keepsWith_mysql_iff_forall, hcomponents]
  rw [forall_lt_iff hq hn (components_le a)]
  exact not_congr (compares_sequence _ _).eq_lt.symm

theorem keepsWith_mysql_dotted (hlim : ∀ i ∈ l ++ [n], i < componentLimit)
    (hlow : v.mysqlLow = String.ofList (dotted (l ++ [n])) ++ ".") : v.KeepsWith .mysql a ↔
      compareTexts a (String.ofList (dotted (l ++ [n + 1]))) ≠ .lt := by
  have hsplit : splitDots v.mysqlLow.toList = (l ++ [n]).map (Nat.toDigits 10) ++ [[]] := by
    rw [hlow, String.toList_append, String.toList_ofList]
    refine (splitDots_append _ []).trans ?_
    rw [splitDots_dotted (by simp)]
    rfl
  have hlim' : ∀ i ∈ l ++ [n + 1], i ≤ componentLimit := by
    simp only [List.forall_mem_append, List.forall_mem_singleton] at hlim ⊢
    exact ⟨fun i hi => (hlim.1 i hi).le, hlim.2⟩
  have hend : (ofText (String.ofList (dotted (l ++ [n + 1])))).components = l ++ [n + 1] := by
    rw [ofText, String.toList_ofList, splitDots_dotted (by simp), map_leadingNumber_toDigits hlim']
  rw [keepsWith_mysql_iff hsplit isGreatest_readings_nil,
    map_leadingNumber_toDigits fun i hi => (hlim i hi).le]
  refine not_congr ((compares_sequence _ _).eq_lt.trans ?_)
  refine Iff.trans ?_ (compareTexts_compares a _).eq_lt.symm
  rw [hend, List.append_assoc]
  exact sequence_lt_append_iff (components_le a)

/-- Engines other than MySQL never lose `WITH` in a later version. MySQL keeps it from the first
version on that is after all those that begin with the given text. -/
theorem supportsWith_upgrade (v : EngineVersions) (engine : Engine) :
    ((∀ a, v.supportsWith engine (some a) = true → v.KeepsWith engine a) ↔
      engine ≠ .mysql ∨ v.mysqlLow = "") ∧
    (∀ a, v.KeepsWith .clickhouse a ↔ compareTexts a v.clickhouseLow ≠ .lt) ∧
    (∃ k q n, splitDots v.mysqlLow.toList = k ++ [q] ∧ IsGreatest (readings q) n ∧
      ∀ a, v.KeepsWith .mysql a ↔
        (ofText a).compare ⟨k.map leadingNumber ++ [n + 1]⟩ ≠ .lt) ∧
    ∀ l n, (∀ i ∈ l ++ [n], i < componentLimit) →
      v.mysqlLow = String.ofList (dotted (l ++ [n])) ++ "." →
      ∀ a, v.KeepsWith .mysql a ↔ compareTexts a (String.ofList (dotted (l ++ [n + 1]))) ≠ .lt := by
  refine ⟨⟨fun h => ?_, ?_⟩, fun a => keepsWith_clickhouse_iff, ?_,
    fun l n hlim hlow a => keepsWith_mysql_dotted hlim hlow⟩
  · by_contra hne
    rw [not_or, not_not] at hne
    obtain ⟨rfl, hlow⟩ := hne
    obtain ⟨hempty, hnot⟩ := not_keepsWith_empty hlow
    exact hnot (h "" hempty)
  · rintro (hne | hlow) a ha
    · exact keepsWith_of_ne_mysql hne ha
    · cases engine with
      | mysql =>
        rw [supportsWith_mysql, hlow] at ha
        exact absurd List.nil_prefix ha
      | _ => exact keepsWith_of_ne_mysql (by decide) ha
  · have hne := splitDots_ne_nil v.mysqlLow.toList
    obtain ⟨n, hn⟩ := exists_isGreatest_readings ((splitDots v.mysqlLow.toList).getLast hne)
    have hlow := (List.dropLast_append_getLast hne).symm
    exact ⟨_, _, n, hlow, hn, fun a => keepsWith_mysql_iff hlow hn⟩

theorem supportsWith_upgrade_five :
    ({} : EngineVersions).KeepsWith .mysql "8.0.1" ∧
      ¬({} : EngineVersions).KeepsWith .mysql "5.7.44" := by
  obtain ⟨-, -, -, hfrom⟩ := supportsWith_upgrade {} .mysql
  have hlimit : ∀ i ∈ [] ++ [5], i < componentLimit := by decide
  have hsix := hfrom [] 5 hlimit (by decide)
  have h8 : ofText "8.0.1" = ⟨[8, 0, 1]⟩ := by decide +kernel
  have h5 : ofText "5.7.44" = ⟨[5, 7, 44]⟩ := by decide +kernel
  have h6 : ofText (String.ofList (dotted ([] ++ [5 + 1]))) = ⟨[6]⟩ := by decide +kernel
  have hnew : compareTexts "8.0.1" (String.ofList (dotted ([] ++ [5 + 1]))) = .gt := by
    rw [compareTexts, h8, h6]
    cbv
  have hold : compareTexts "5.7.44" (String.ofList (dotted ([] ++ [5 + 1]))) = .lt := by
    rw [compareTexts, h5, h6]
    cbv
  rw [hsix, hsix, hnew, hold]
  simp

/-- A version before the given text has `WITH`, which the next release is without. -/
theorem supportsWith_lost :
    compareTexts "4.1.22" "5.7" = .lt ∧
      ({} : EngineVersions).supportsWith .mysql (some "4.1.22") = true ∧
      ({} : EngineVersions).supportsWith .mysql (some "5.7") = false := by
  have h4 : ofText "4.1.22" = ⟨[4, 1, 22]⟩ := by decide +kernel
  have h5 : ofText "5.7" = ⟨[5, 7]⟩ := by decide +kernel
  refine ⟨?_, by decide, by decide⟩
  rw [compareTexts, h4, h5]
  cbv

end EngineVersions

end MetricSql
