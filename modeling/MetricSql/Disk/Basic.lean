import MetricSql.Error

namespace MetricSql

abbrev Path := List String

inductive DiskEntry
  | directory
  | file (bytes : ByteArray)

/-- Files and directories, and where each of them is. No two are at the same place, and the root is a
directory. -/
structure Disk where
  entries : List (Path × DiskEntry) := []
  distinct : (entries.map Prod.fst).Nodup := by decide

namespace Disk

variable (d : Disk)

def entry? : Path → Option DiskEntry
  | [] => some .directory
  | p => d.entries.lookup p

def isDirectory (p : Path) : Bool :=
  match d.entry? p with
  | some .directory => true
  | _ => false

def children (p : Path) : List String :=
  let inside := d.entries.filterMap fun e => if e.1.dropLast = p then e.1.getLast? else none
  inside.mergeSort fun a b => decide (a ≤ b)

def add (p : Path) (e : DiskEntry) (h : p ∉ d.entries.map Prod.fst) : Disk where
  entries := d.entries ++ [(p, e)]
  distinct := by
    rw [List.map_append, List.map_singleton, List.nodup_append]
    refine ⟨d.distinct, by simp, fun a ha b hb hab => h ?_⟩
    rw [hab, List.mem_singleton.mp hb] at ha
    exact ha

def remove (p : Path) : Disk where
  entries := d.entries.filter (·.1 != p)
  distinct := d.distinct.sublist (List.filter_sublist.map _)

theorem not_mem_remove (p : Path) : p ∉ (d.remove p).entries.map Prod.fst := by
  simp [remove]

def makeDirectory (p : Path) : Disk :=
  (List.range p.length).foldl
    (fun d n =>
      let q := p.take (n + 1)
      if h : q ∈ d.entries.map Prod.fst then d else d.add q .directory h)
    d

def writeFile (p : Path) (bytes : ByteArray) : Disk :=
  let made := d.makeDirectory p.dropLast
  (made.remove p).add p (.file bytes) (made.not_mem_remove p)

/-- Goes along names from a place. An empty name or a dot stays there, and two dots go back. -/
def walk : (start : Path) → List String → Except FileError Path
  | p, [] => .ok p
  | p, name :: names =>
    match d.entry? p with
    | none => .error .notFound
    | some (.file _) => .error .notDirectory
    | some .directory =>
      if name = "" ∨ name = "." then walk p names
      else if name = ".." then if p = [] then .error .notFound else walk p.dropLast names
      else walk (p ++ [name]) names

def splitPath (s : String) : List String := (s.toList.splitOn '/').map String.ofList

def find (path : String) : Except FileError DiskEntry :=
  if path = "" then .error .notFound
  else do
    let p ← d.walk [] (splitPath path)
    match d.entry? p with
    | some e => .ok e
    | none => .error .notFound

def exists? (path : String) : Bool := (d.find path).isOk

def entryText : DiskEntry → Except FileError String
  | .directory => .error .isDirectory
  | .file bytes =>
    match String.fromUTF8? bytes with
    | some s => .ok s
    | none => .error .notText

def readText (path : String) : Except FileError String := do entryText (← d.find path)

def readPlace (p : Path) : Except FileError String :=
  match d.entry? p with
  | some e => entryText e
  | none => .error .notFound

end Disk

end MetricSql
