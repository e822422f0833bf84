namespace MetricSql

/-- A finite set of names, kept in increasing order without repetition. -/
structure NameSet where
  names : List String
  sorted : names.Pairwise (· < ·)
  deriving DecidableEq

namespace NameSet

def insertName (x : String) : List String → List String
  | [] => [x]
  | y :: r => if x < y then x :: y :: r else if y < x then y :: insertName x r else y :: r

theorem mem_insertName {x z : String} {s : List String} :
    z ∈ insertName x s ↔ z = x ∨ z ∈ s := by
  induction s with
  | nil => simp [insertName]
  | cons y r ih =>
    unfold insertName
    split
    · simp
    · next h =>
      split
      · simp only [List.mem_cons, ih]
        grind
      · next k =>
        have hxy : x = y := String.le_antisymm (String.not_lt.mp k) (String.not_lt.mp h)
        subst hxy
        simp

theorem sorted_insertName {x : String} {s : List String} (h : s.Pairwise (· < ·)) :
    (insertName x s).Pairwise (· < ·) := by
  induction s with
  | nil => simp [insertName]
  | cons y r ih =>
    rw [List.pairwise_cons] at h
    unfold insertName
    split
    · next k =>
      refine List.pairwise_cons.mpr ⟨fun z hz => ?_, List.pairwise_cons.mpr h⟩
      rcases List.mem_cons.mp hz with rfl | hz
      · exact k
      · exact String.lt_trans k (h.1 z hz)
    · split
      · next k =>
        refine List.pairwise_cons.mpr ⟨fun z hz => ?_, ih h.2⟩
        rcases mem_insertName.mp hz with rfl | hz
        · exact k
        · exact h.1 z hz
      · exact List.pairwise_cons.mpr h

def empty : NameSet := ⟨[], .nil⟩

def insert (s : NameSet) (x : String) : NameSet :=
  ⟨insertName x s.names, sorted_insertName s.sorted⟩

def insertAll (s : NameSet) (xs : List String) : NameSet := xs.foldl insert s

def ofList (xs : List String) : NameSet := empty.insertAll xs

def contains (s : NameSet) (x : String) : Bool := s.names.contains x

instance : Membership String NameSet := ⟨fun s x => x ∈ s.names⟩

theorem mem_def {s : NameSet} {x : String} : x ∈ s ↔ x ∈ s.names := Iff.rfl

@[simp] theorem not_mem_empty (x : String) : x ∉ empty := by simp [mem_def, empty]

@[simp] theorem mem_insert {s : NameSet} {x z : String} : z ∈ s.insert x ↔ z = x ∨ z ∈ s :=
  mem_insertName

@[simp] theorem mem_insertAll {s : NameSet} {xs : List String} {z : String} :
    z ∈ s.insertAll xs ↔ z ∈ s ∨ z ∈ xs := by
  induction xs generalizing s with
  | nil => simp [insertAll]
  | cons x xs ih =>
    rw [show s.insertAll (x :: xs) = (s.insert x).insertAll xs from rfl, ih]
    simp only [mem_insert, List.mem_cons]
    grind

@[simp] theorem mem_ofList {xs : List String} {z : String} : z ∈ ofList xs ↔ z ∈ xs := by
  simp [ofList]

@[simp] theorem contains_iff {s : NameSet} {x : String} : s.contains x = true ↔ x ∈ s := by
  simp [contains, mem_def]

end NameSet

end MetricSql
