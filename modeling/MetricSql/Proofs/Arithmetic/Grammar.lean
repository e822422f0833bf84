import MetricSql.Expr.Token

namespace MetricSql.Expr.Arithmetic

/-- The binary operators. The comma joins the arguments of a call and stands nowhere else. -/
inductive Op
  | comma
  | eq
  | ne
  | lt
  | gt
  | le
  | ge
  | add
  | sub
  | mul
  | div
  | mod
  deriving DecidableEq

/-- Operators of a higher level bind tighter, and those of one level group to the left. -/
def Op.level : Op → Nat
  | comma => 0
  | eq | ne | lt | gt | le | ge => 1
  | add | sub => 2
  | mul | div | mod => 3

def signLevel : Nat := 4

inductive Lexeme
  | number (text : List Char)
  | word (text : List Char)
  | op (o : Op)
  | opening
  | closing
  deriving DecidableEq

inductive Tree
  | number (text : List Char)
  | name (n : String)
  | call (f : String) (args : Tree)
  | neg (t : Tree)
  | binary (o : Op) (left right : Tree)
  deriving DecidableEq

/-- Puts trees in the place of names; the names of calls stay. -/
def Tree.subst (σ : String → Option Tree) : Tree → Tree
  | number s => number s
  | name n => (σ n).getD (name n)
  | call f args => call f (args.subst σ)
  | neg t => neg (t.subst σ)
  | binary o t u => binary o (t.subst σ) (u.subst σ)

/-- The grammar: the lexemes form an operand of operators of lower levels than `k`, with the given
tree. Keywords can name calls only. -/
inductive Derives : Nat → List Lexeme → Tree → Prop
  | number {k s} : Derives k [.number s] (.number s)
  | name {k s} : isKeyword s = false → Derives k [.word s] (.name (.ofList s))
  | call {k f ts t} : Derives 0 ts t →
      Derives k (.word f :: .opening :: (ts ++ [.closing])) (.call (.ofList f) t)
  | paren {k ts t} : Derives 1 ts t → Derives k (.opening :: (ts ++ [.closing])) t
  | neg {k ts t} : k ≤ signLevel → Derives signLevel ts t → Derives k (.op .sub :: ts) (.neg t)
  | binary {k o ts us t u} : k ≤ o.level → Derives o.level ts t → Derives (o.level + 1) us u →
      Derives k (ts ++ .op o :: us) (.binary o t u)

mutual

def operand : (fuel k : Nat) → List Lexeme → Option (Tree × List Lexeme)
  | 0, _, _ => none
  | n + 1, k, .number s :: ts => climb n k (.number s) ts
  | n + 1, k, .word f :: .opening :: ts =>
    match operand n 0 ts with
    | some (t, .closing :: ts) => climb n k (.call (.ofList f) t) ts
    | _ => none
  | n + 1, k, .word s :: ts =>
    if isKeyword s then none else climb n k (.name (.ofList s)) ts
  | n + 1, k, .opening :: ts =>
    match operand n 1 ts with
    | some (t, .closing :: ts) => climb n k t ts
    | _ => none
  | n + 1, k, .op .sub :: ts =>
    if k ≤ signLevel then
      match operand n signLevel ts with
      | some (t, ts) => climb n k (.neg t) ts
      | none => none
    else none
  | _ + 1, _, _ => none

/-- Goes on after the operand `t`, as long as operators of level `k` or higher follow. -/
def climb : (fuel k : Nat) → Tree → List Lexeme → Option (Tree × List Lexeme)
  | 0, _, _, _ => none
  | n + 1, k, t, .op o :: ts =>
    if k ≤ o.level then
      match operand n (o.level + 1) ts with
      | some (u, ts) => climb n k (.binary o t u) ts
      | none => none
    else some (t, .op o :: ts)
  | _ + 1, _, t, ts => some (t, ts)

end

def parseLexemes (ts : List Lexeme) : Option Tree :=
  match operand (2 * ts.length + 1) 1 ts with
  | some (t, []) => some t
  | _ => none

def Stops (k : Nat) (ts : List Lexeme) : Prop := ∀ o, ts.head? = some (.op o) → o.level < k

theorem Stops.mono {j k : Nat} {ts : List Lexeme} (h : Stops j ts) (hk : j ≤ k) : Stops k ts :=
  fun o ho => Nat.lt_of_lt_of_le (h o ho) hk

theorem stops_signLevel (ts : List Lexeme) : Stops signLevel ts := by
  intro o _
  cases o <;> decide

theorem stops_closing (k : Nat) (ts : List Lexeme) : Stops k (.closing :: ts) := by
  simp [Stops]

theorem stops_nil (k : Nat) : Stops k [] := by
  simp [Stops]

theorem climb_stop {k n : Nat} {t : Tree} {ts : List Lexeme} (h : Stops k ts) (hn : 0 < n) :
    climb n k t ts = some (t, ts) := by
  obtain ⟨n, rfl⟩ := Nat.exists_eq_add_of_le' hn
  match ts with
  | .op o :: us =>
    have : ¬k ≤ o.level := Nat.not_le.2 (h o rfl)
    rw [climb, if_neg this]
  | [] | .number _ :: _ | .word _ :: _ | .opening :: _ | .closing :: _ => simp [climb]

theorem climb_op {n k : Nat} {o : Op} {t u : Tree} {ts us : List Lexeme} (h : k ≤ o.level)
    (hu : operand n (o.level + 1) ts = some (u, us)) :
    climb (n + 1) k t (.op o :: ts) = climb n k (.binary o t u) us := by
  rw [climb, if_pos h, hu]

theorem operand_name {n k : Nat} {s : List Char} {ts : List Lexeme} (h : ts.head? ≠ some .opening)
    (hs : isKeyword s = false) :
    operand (n + 1) k (.word s :: ts) = climb n k (.name (.ofList s)) ts := by
  rw [operand]
  · simp [hs]
  · rintro us rfl
    exact h rfl

theorem operand_call {n k : Nat} {f : List Char} {t : Tree} {ts us : List Lexeme}
    (h : operand n 0 ts = some (t, .closing :: us)) :
    operand (n + 1) k (.word f :: .opening :: ts) = climb n k (.call (.ofList f) t) us := by
  rw [operand, h]

theorem operand_paren {n k : Nat} {t : Tree} {ts us : List Lexeme}
    (h : operand n 1 ts = some (t, .closing :: us)) :
    operand (n + 1) k (.opening :: ts) = climb n k t us := by
  rw [operand, h]

theorem operand_neg {n k : Nat} {t : Tree} {ts us : List Lexeme} (hk : k ≤ signLevel)
    (h : operand n signLevel ts = some (t, us)) :
    operand (n + 1) k (.op .sub :: ts) = climb n k (.neg t) us := by
  rw [operand, if_pos hk, h]

/-- The reader takes in a derivable text and goes on with what follows. -/
theorem operand_append {k : Nat} {ts : List Lexeme} {t : Tree} (h : Derives k ts t) :
    ∀ {j m rest r}, j ≤ k → Stops (k + 1) rest → rest.head? ≠ some .opening →
      (∀ n, m ≤ n → climb n j t rest = some r) →
      ∀ n, m + 2 * ts.length ≤ n → operand n j (ts ++ rest) = some r := by
  induction h with
  | number =>
    intro j m rest r _ _ _ hr n hn
    rw [List.length_singleton] at hn
    obtain ⟨n, rfl⟩ := Nat.exists_eq_add_of_le' (show 1 ≤ n by omega)
    rw [List.singleton_append, operand]
    exact hr n (by omega)
  | name hk =>
    intro j m rest r _ _ ho hr n hn
    rw [List.length_singleton] at hn
    obtain ⟨n, rfl⟩ := Nat.exists_eq_add_of_le' (show 1 ≤ n by omega)
    rw [List.singleton_append, operand_name ho hk]
    exact hr n (by omega)
  | @call k f ts t _ ih =>
    intro j m rest r _ _ _ hr n hn
    simp only [List.length_cons, List.length_append, List.length_nil] at hn
    obtain ⟨n, rfl⟩ := Nat.exists_eq_add_of_le' (show 1 ≤ n by omega)
    have hargs : operand n 0 (ts ++ .closing :: rest) = some (t, .closing :: rest) :=
      ih (Nat.le_refl 0) (stops_closing 1 rest) (by simp)
        (fun i (hi : 1 ≤ i) => climb_stop (stops_closing 0 rest) hi) n (by omega)
    simp only [List.cons_append, List.append_assoc, List.nil_append]
    rw [operand_call hargs]
    exact hr n (by omega)
  | @paren k ts t _ ih =>
    intro j m rest r _ _ _ hr n hn
    simp only [List.length_cons, List.length_append, List.length_nil] at hn
    obtain ⟨n, rfl⟩ := Nat.exists_eq_add_of_le' (show 1 ≤ n by omega)
    have hinner : operand n 1 (ts ++ .closing :: rest) = some (t, .closing :: rest) :=
      ih (Nat.le_refl 1) (stops_closing 2 rest) (by simp)
        (fun i (hi : 1 ≤ i) => climb_stop (stops_closing 1 rest) hi) n (by omega)
    simp only [List.cons_append, List.append_assoc, List.nil_append]
    rw [operand_paren hinner]
    exact hr n (by omega)
  | @neg k ts t hk _ ih =>
    intro j m rest r hj _ ho hr n hn
    rw [List.length_cons] at hn
    obtain ⟨n, rfl⟩ := Nat.exists_eq_add_of_le' (show 1 ≤ n by omega)
    have hinner : operand n signLevel (ts ++ rest) = some (t, rest) :=
      ih (Nat.le_refl _) ((stops_signLevel rest).mono (Nat.le_succ _)) ho
        (fun i (hi : 1 ≤ i) => climb_stop (stops_signLevel rest) hi) n (by omega)
    rw [List.cons_append, operand_neg (Nat.le_trans hj hk) hinner]
    exact hr n (by omega)
  | @binary k o ts us t u hk _ _ iht ihu =>
    intro j m rest r hj hs ho hr n hn
    simp only [List.length_append, List.length_cons] at hn
    -- what follows binds no tighter than `o`, so the right operand ends before it
    have hso : Stops (o.level + 1) rest := hs.mono (Nat.succ_le_succ hk)
    have hright : ∀ n, 1 + 2 * us.length ≤ n →
        operand n (o.level + 1) (us ++ rest) = some (u, rest) :=
      ihu (Nat.le_refl _) (hso.mono (Nat.le_succ _)) ho
        (fun i (hi : 1 ≤ i) => climb_stop hso hi)
    have hgo : ∀ n, m + 2 * us.length + 2 ≤ n →
        climb n j t (.op o :: (us ++ rest)) = some r := by
      intro n hn
      obtain ⟨n, rfl⟩ := Nat.exists_eq_add_of_le' (show 1 ≤ n by omega)
      rw [climb_op (Nat.le_trans hj hk) (hright n (by omega))]
      exact hr n (by omega)
    rw [List.append_assoc, List.cons_append]
    refine iht (Nat.le_trans hj hk) ?_ (by simp) hgo n (by omega)
    intro o' ho'
    cases ho'
    exact Nat.lt_succ_self _

def OperandSound (n : Nat) : Prop :=
  ∀ ⦃k ts t rest⦄, operand n k ts = some (t, rest) →
    ∃ us, ts = us ++ rest ∧ Derives k us t ∧ Stops k rest

def ClimbSound (n : Nat) : Prop :=
  ∀ ⦃k u us ts t rest⦄, climb n k u ts = some (t, rest) → Derives k us u →
    (∀ o, ts.head? = some (.op o) → k ≤ o.level → Derives o.level us u) →
    ∃ vs, ts = vs ++ rest ∧ Derives k (us ++ vs) t ∧ Stops k rest

theorem operandSound_succ {n : Nat} (iho : OperandSound n) (ihc : ClimbSound n) :
    OperandSound (n + 1) := by
  intro k ts t rest h
  have after {us u ts} (hu : Derives k us u) (hop : ∀ o : Op, Derives o.level us u)
      (h : climb n k u ts = some (t, rest)) :
      ∃ vs, us ++ ts = vs ++ rest ∧ Derives k vs t ∧ Stops k rest := by
    obtain ⟨vs, rfl, hvs⟩ := ihc h hu fun o _ _ => hop o
    exact ⟨us ++ vs, by simp, hvs⟩
  have enclosed {j us u us'} (h : operand n j us = some (u, .closing :: us')) :
      ∃ vs, us = vs ++ .closing :: us' ∧ Derives j vs u := by
    obtain ⟨vs, rfl, hvs, _⟩ := iho h
    exact ⟨vs, rfl, hvs⟩
  match ts with
  | .number s :: ts => exact after .number (fun _ => .number) h
  | .word s :: ts =>
    by_cases ho : ts.head? = some .opening
    · obtain ⟨us, rfl⟩ := List.head?_eq_some_iff.1 ho
      rw [operand] at h
      split at h
      · next hargs =>
        obtain ⟨vs, rfl, hvs⟩ := enclosed hargs
        simpa using after (.call hvs) (fun _ => .call hvs) h
      · cases h
    · by_cases hs : isKeyword s = true
      · rw [operand, if_pos hs] at h
        · cases h
        · rintro us rfl
          exact ho rfl
      · rw [Bool.not_eq_true] at hs
        rw [operand_name ho hs] at h
        exact after (.name hs) (fun _ => .name hs) h
  | .opening :: ts =>
    rw [operand] at h
    split at h
    · next hargs =>
      obtain ⟨vs, rfl, hvs⟩ := enclosed hargs
      simpa using after (.paren hvs) (fun _ => .paren hvs) h
    · cases h
  | .op o :: ts =>
    cases o with
    | sub =>
      rw [operand] at h
      split at h
      · next hk =>
        split at h
        · next hv =>
          obtain ⟨vs, rfl, hvs, _⟩ := iho hv
          have hneg : ∀ j, j ≤ signLevel → Derives j (.op .sub :: vs) _ := fun j hj => .neg hj hvs
          refine after (hneg k hk) (fun o => hneg o.level ?_) h
          cases o <;> decide
        · cases h
      · cases h
    | _ => simp [operand] at h
  | [] | .closing :: _ => simp [operand] at h

theorem climbSound_succ {n : Nat} (iho : OperandSound n) (ihc : ClimbSound n) :
    ClimbSound (n + 1) := by
  intro k u us ts t rest h hu hnext
  match ts with
  | .op o :: ts =>
    by_cases hk : k ≤ o.level
    · rw [climb, if_pos hk] at h
      cases hv : operand n (o.level + 1) ts with
      | none => simp [hv] at h
      | some p =>
        obtain ⟨v, rest'⟩ := p
        rw [hv] at h
        obtain ⟨vs, rfl, hvs, hstop⟩ := iho hv
        -- the operator after `v` binds no tighter than `o`, so all that was read is its left operand
        have hb : ∀ j, j ≤ o.level → Derives j (us ++ .op o :: vs) (.binary o u v) :=
          fun j hj => .binary hj (hnext o rfl hk) hvs
        obtain ⟨ws, rfl, hws, hrest⟩ := ihc h (hb k hk) fun o' ho' _ =>
          hb o'.level (Nat.le_of_lt_succ (hstop o' ho'))
        refine ⟨.op o :: (vs ++ ws), by simp, ?_, hrest⟩
        simpa using hws
    · rw [climb, if_neg hk] at h
      cases h
      refine ⟨[], rfl, by simpa using hu, ?_⟩
      intro o' ho'
      cases ho'
      omega
  | [] | .number _ :: _ | .word _ :: _ | .opening :: _ | .closing :: _ =>
    simp only [climb, Option.some.injEq, Prod.mk.injEq] at h
    obtain ⟨rfl, rfl⟩ := h
    exact ⟨[], rfl, by simpa using hu, by simp [Stops]⟩

theorem sound (n : Nat) : OperandSound n ∧ ClimbSound n := by
  induction n with
  | zero => simp [OperandSound, ClimbSound, operand, climb]
  | succ n ih => exact ⟨operandSound_succ ih.1 ih.2, climbSound_succ ih.1 ih.2⟩

theorem parseLexemes_eq_some {ts : List Lexeme} {t : Tree} :
    parseLexemes ts = some t ↔ Derives 1 ts t := by
  constructor
  · intro h
    unfold parseLexemes at h
    split at h
    · next h' =>
      cases h
      obtain ⟨us, rfl, hus, _⟩ := (sound _).1 h'
      simpa using hus
    · cases h
  · intro h
    have h' : operand (2 * ts.length + 1) 1 (ts ++ []) = some (t, []) :=
      operand_append h (Nat.le_refl 1) (stops_nil 2) (by simp)
        (fun n (hn : 1 ≤ n) => climb_stop (stops_nil 1) hn) _ (by omega)
    rw [List.append_nil] at h'
    rw [parseLexemes, h']

end MetricSql.Expr.Arithmetic
