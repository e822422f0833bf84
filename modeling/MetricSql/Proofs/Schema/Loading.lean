import MetricSql.Proofs.Disk.Matching
import MetricSql.Proofs.Schema.Merged
import MetricSql.Proofs.Text.Runs
import MetricSql.Schema.Load

namespace MetricSql

open Disk Glob

structure Disk.LeadsTo (d : Disk) (path : String) (p : Path) : Prop where
  nonempty : path ≠ ""
  walk : d.walk [] (splitPath path) = .ok p
  directory : d.isDirectory p = true

/-- A path that stands for itself in a pattern: it has no wildcards, and no empty name follows the
dots that it may start with. -/
structure PlainPath (path : String) : Prop where
  fixed : ∀ c ∈ path.toList, c ∉ wildcards
  start : ∀ k names, splitPath path ≠ List.replicate (k + 1) "." ++ "" :: names

structure ListsEnding (d : Disk) (p : Path) (ending : String) (names : List String) : Prop where
  mem : ∀ n, n ∈ names ↔ (d.entry? (p ++ [n])).isSome = true ∧ ending.toList <:+ n.toList
  sorted : names.Pairwise (· < ·)

def Disk.document (d : Disk) (p : Path) : Except Failure Document :=
  match d.readPlace p with
  | .error e => .error (.schemaFile e)
  | .ok text =>
    match Document.ofText? text with
    | some doc => .ok doc
    | none => .error .schema

variable {d other : Disk} {p : Path} {dir n : String} {names : List String} {ending : List Char}

theorem Disk.exists?_of_leadsTo (h : d.LeadsTo dir p) : d.exists? dir = true := by
  have hfind : d.find dir = .ok .directory := by
    simp only [find, h.nonempty, if_false, h.walk, bind, Except.bind, isDirectory_iff.1 h.directory]
  rw [exists?, hfind]
  rfl

theorem Disk.entryText_file (s : String) : entryText (.file s.toUTF8) = .ok s := by
  have hread : String.fromUTF8? s.toUTF8 = some s := dif_pos s.isValidUTF8
  rw [entryText, hread]

theorem Disk.document_congr (h : other.entry? p = d.entry? p) : other.document p = d.document p := by
  rw [document, document, readPlace, readPlace, h]

theorem ListsEnding.unique {ending : String} {others : List String}
    (h : ListsEnding d p ending names) (hothers : ListsEnding d p ending others) :
    names = others :=
  h.sorted.eq_of_mem_iff hothers.sorted fun n => by rw [h.mem, hothers.mem]

theorem Disk.document_ofText {s : String} {doc : Document}
    (hfile : d.entry? p = some (.file s.toUTF8)) (hdoc : Document.ofText? s = some doc) :
    d.document p = .ok doc := by
  rw [document, readPlace, hfile]
  dsimp only
  rw [entryText_file]
  dsimp only
  rw [hdoc]

namespace Glob

theorem fixedPart_eq_iff {s : List Char} :
    fixedPart n = .name (s.map .char) ↔ n = String.ofList s := by
  have hinj : Function.Injective (List.map GlobToken.char) :=
    List.map_injective_iff.2 fun a b h => GlobToken.char.inj h
  rw [fixedPart, GlobPart.name.injEq, hinj.eq_iff, ← String.toList_inj, String.toList_ofList]

theorem startsEmpty_fixedParts
    (h : startsEmpty (names.map fixedPart ++ [.name (endingTokens ending)]) = true) :
    ∃ k rest, names = List.replicate (k + 1) "." ++ "" :: rest := by
  induction names with
  | nil => cases h
  | cons n names ih =>
    rw [List.map_cons, List.cons_append] at h
    unfold startsEmpty at h
    split at h
    · next r hparts =>
      obtain ⟨hn, hrest⟩ := List.cons.inj hparts
      obtain rfl := (fixedPart_eq_iff (s := ['.'])).1 hn
      cases names with
      | nil => cases hrest
      | cons m names =>
        obtain rfl := (fixedPart_eq_iff (s := [])).1 (List.cons.inj hrest).1
        exact ⟨0, names, rfl⟩
    · next r _ hparts =>
      obtain ⟨hn, rfl⟩ := List.cons.inj hparts
      obtain rfl := (fixedPart_eq_iff (s := ['.'])).1 hn
      obtain ⟨k, rest, rfl⟩ := ih h
      exact ⟨k + 1, rest, rfl⟩
    · cases h

end Glob

theorem mem_of_mem_splitPath {c : Char} (hn : n ∈ splitPath dir) (hc : c ∈ n.toList) :
    c ∈ dir.toList := by
  obtain ⟨s, hs, rfl⟩ := List.mem_map.1 hn
  rw [String.toList_ofList] at hc
  have hjoin : ['/'].intercalate (dir.toList.splitOn '/') = dir.toList :=
    List.intercalate_splitOn '/'
  rw [← hjoin]
  exact Text.mem_intercalate hs hc

theorem splitPath_append (dir : String) {last : String} (hlast : '/' ∉ last.toList) :
    splitPath (dir ++ "/" ++ last) = splitPath dir ++ [last] := by
  have htext : (dir ++ "/" ++ last).toList = dir.toList ++ '/' :: last.toList := by simp
  rw [splitPath, htext, List.splitOn_append_cons_self, List.splitOn_eq_singleton hlast,
    List.map_append, List.map_singleton, String.ofList_toList, splitPath]

namespace Registry

theorem loadFile_eq (d : Disk) (r : Registry) (p : Path) :
    loadFile d r p = (d.document p).map r.merge := by
  rw [loadFile, Disk.document]
  cases d.readPlace p with
  | error e => rfl
  | ok text =>
    dsimp only
    cases Document.ofText? text with
    | some doc => rfl
    | none => rfl

theorem foldlM_loadFile_ok {places : List Path} {docs : List Document} (r : Registry)
    (h : List.Forall₂ (fun q doc => d.document q = .ok doc) places docs) :
    places.foldlM (loadFile d) r = .ok (docs.foldl merge r) := by
  induction h generalizing r with
  | nil => rfl
  | cons hdoc _ ih =>
    rw [List.foldlM_cons, loadFile_eq, hdoc]
    exact ih _

theorem foldlM_loadFile_error {before : List Path} {q : Path} {e : Failure} (after : List Path)
    (r : Registry) (hbefore : ∀ k ∈ before, ∃ doc, d.document k = .ok doc)
    (hq : d.document q = .error e) : (before ++ q :: after).foldlM (loadFile d) r = .error e := by
  induction before generalizing r with
  | nil =>
    rw [List.nil_append, List.foldlM_cons, loadFile_eq, hq]
    rfl
  | cons k before ih =>
    obtain ⟨⟨doc, hdoc⟩, hbefore⟩ := List.forall_mem_cons.1 hbefore
    rw [List.cons_append, List.foldlM_cons, loadFile_eq, hdoc]
    exact ih _ hbefore

theorem foldlM_loadFile_congr {places : List Path} (r : Registry)
    (h : ∀ q ∈ places, other.document q = d.document q) :
    places.foldlM (loadFile other) r = places.foldlM (loadFile d) r := by
  induction places generalizing r with
  | nil => rfl
  | cons q places ih =>
    rw [List.foldlM_cons, List.foldlM_cons, loadFile_eq, loadFile_eq, h q List.mem_cons_self]
    exact bind_congr fun r' => ih r' fun k hk => h k (List.mem_cons_of_mem q hk)

def schemaNames (d : Disk) (p : Path) : List String :=
  extensions.flatMap fun e => namesEnding d p ('.' :: e.toList)

theorem read?_schemaPattern (hplain : PlainPath dir) {e : String} (he : e ∈ extensions) :
    Glob.read? (dir ++ "/*." ++ e) =
      some ((splitPath dir).map fixedPart ++ [.name (endingTokens ('.' :: e.toList))]) := by
  have hends : ∀ e ∈ extensions, ∀ c ∈ '.' :: e.toList, c ∉ wildcards ∧ c ≠ '/' := by
    simp [extensions, wildcards]
  have hsplit : splitPath (dir ++ "/*." ++ e) = splitPath dir ++ ["*." ++ e] := by
    have hslash : '/' ∉ ("*." ++ e).toList := by
      have hall := fun h => (hends e he '/' h).2 rfl
      simpa using hall
    rw [← splitPath_append dir hslash]
    simp [splitPath]
  have hdir : (splitPath dir).mapM (fun part => readPart? part.toList) =
      some ((splitPath dir).map fixedPart) :=
    mapM_readPart?_plain fun n hn c hc => hplain.fixed c (mem_of_mem_splitPath hn hc)
  have hlast : readPart? ("*." ++ e).toList = some (.name (endingTokens ('.' :: e.toList))) := by
    have htext : ("*." ++ e).toList = '*' :: '.' :: e.toList := by simp
    rw [htext, readPart?_ending fun c hc => (hends e he c hc).1]
  rw [Glob.read?, hsplit, List.mapM_append, hdir, List.mapM_cons, hlast]
  rfl

theorem expand_schemaPattern (hdir : d.LeadsTo dir p) (hplain : PlainPath dir)
    (ending : List Char) :
    Glob.expand d ((splitPath dir).map fixedPart ++ [.name (endingTokens ending)]) =
      (namesEnding d p ending).map fun n => p ++ [n] := by
  have hstart : startsEmpty ((splitPath dir).map fixedPart ++ [.name (endingTokens ending)]) ≠
      true := by
    intro h
    obtain ⟨k, rest, hnames⟩ := startsEmpty_fixedParts h
    exact hplain.start k rest hnames
  have hlength : ((splitPath dir).map fixedPart ++
      [GlobPart.name (endingTokens ending)]).length = (splitPath dir).length + 1 := by
    rw [List.length_append, List.length_map, List.length_singleton]
  have hfuel : (splitPath dir).length + 2 ≤
      ((splitPath dir).length + 1 + 2) * (d.entries.length + 2) :=
    Nat.le_trans (by omega) (Nat.le_mul_of_pos_right _ (Nat.succ_pos _))
  obtain ⟨k, hk⟩ := Nat.exists_eq_add_of_le hfuel
  rw [Nat.add_assoc _ 2 k, Nat.add_comm 2 k] at hk
  rw [Glob.expand, if_neg hstart, hlength, hk, search_fixedParts hdir.walk hdir.directory,
    search_endingTokens hdir.directory]

theorem schemaPlaces_eq (hdir : d.LeadsTo dir p) (hplain : PlainPath dir) {es : List String}
    (hes : ∀ e ∈ es, e ∈ extensions) : schemaPlaces d dir es =
      .ok ((es.flatMap fun e => namesEnding d p ('.' :: e.toList)).map fun n => p ++ [n]) := by
  induction es with
  | nil => rfl
  | cons e es ih =>
    obtain ⟨he, hes⟩ := List.forall_mem_cons.1 hes
    rw [schemaPlaces, read?_schemaPattern hplain he]
    dsimp only
    rw [ih hes, expand_schemaPattern hdir hplain, List.flatMap_cons, List.map_append]
    rfl

theorem load_eq (hdir : d.LeadsTo dir p) (hplain : PlainPath dir) :
    load d dir = ((schemaNames d p).map fun n => p ++ [n]).foldlM (loadFile d) {} := by
  rw [load, if_pos (exists?_of_leadsTo hdir), schemaPlaces_eq hdir hplain fun e he => he]
  rfl

theorem listsEnding_namesEnding (d : Disk) (p : Path) (ending : String) :
    ListsEnding d p ending (namesEnding d p ending.toList) :=
  ⟨fun _ => mem_namesEnding, sorted_namesEnding d p ending.toList⟩

theorem schemaNames_eq (d : Disk) (p : Path) :
    schemaNames d p = namesEnding d p ".yml".toList ++ namesEnding d p ".yaml".toList := by
  simp [schemaNames, extensions]

/-- A path without wildcards is loaded from the directory it leads to: the files whose names end in
`.yml`, in order, and after them those whose names end in `.yaml`. All their documents are merged, or
the first that holds none fails. Nothing else on the disk has to do with it. -/
theorem load_plainPath (hdir : d.LeadsTo dir p) (hplain : PlainPath dir) :
    ∃ yml yaml, ListsEnding d p ".yml" yml ∧ ListsEnding d p ".yaml" yaml ∧
      (∀ docs, List.Forall₂ (fun n doc => d.document (p ++ [n]) = .ok doc) (yml ++ yaml) docs →
        load d dir = .ok (ofDocuments docs)) ∧
      (∀ before n after e, yml ++ yaml = before ++ n :: after →
        (∀ k ∈ before, ∃ doc, d.document (p ++ [k]) = .ok doc) →
        d.document (p ++ [n]) = .error e → load d dir = .error e) ∧
      ∀ other : Disk, other.LeadsTo dir p →
        (∀ n : String, ".yml".toList <:+ n.toList ∨ ".yaml".toList <:+ n.toList →
          other.entry? (p ++ [n]) = d.entry? (p ++ [n])) →
        load other dir = load d dir := by
  refine ⟨_, _, listsEnding_namesEnding d p ".yml", listsEnding_namesEnding d p ".yaml",
    fun docs hdocs => ?_, fun before n after e hnames hbefore hn => ?_, fun other hother hsame => ?_⟩
  · rw [load_eq hdir hplain, schemaNames_eq]
    exact foldlM_loadFile_ok {} (List.forall₂_map_left_iff.2 hdocs)
  · rw [load_eq hdir hplain, schemaNames_eq, hnames, List.map_append, List.map_cons]
    exact foldlM_loadFile_error _ {} (List.forall_mem_map.2 hbefore) hn
  · have hending (ending : String)
        (hends : ∀ n : String, ending.toList <:+ n.toList →
          other.entry? (p ++ [n]) = d.entry? (p ++ [n])) :
        namesEnding other p ending.toList = namesEnding d p ending.toList := by
      refine ListsEnding.unique ⟨fun n => ?_, sorted_namesEnding other p _⟩
        (listsEnding_namesEnding d p ending)
      rw [mem_namesEnding]
      exact and_congr_left fun hn => by rw [hends n hn]
    rw [load_eq hdir hplain, load_eq hother hplain, schemaNames_eq, schemaNames_eq,
      hending _ fun n hn => hsame n (.inl hn), hending _ fun n hn => hsame n (.inr hn)]
    refine foldlM_loadFile_congr {} (List.forall_mem_map.2 fun n hn => document_congr (hsame n ?_))
    obtain hn | hn := List.mem_append.1 hn
    · exact .inl (mem_namesEnding.1 hn).2
    · exact .inr (mem_namesEnding.1 hn).2

def shopDisk (yml yaml other : ByteArray) : Disk where
  entries := [(["shop"], .directory), (["shop", "b.yml"], .file yml),
    (["shop", "a.yaml"], .file yaml), (["shop", "notes"], .file other),
    (["shop", "old"], .directory), (["shop", "old", "c.yml"], .file other)]
  distinct := by
    simp only [List.map_cons, List.map_nil]
    decide

theorem leadsTo_shop (yml yaml other : ByteArray) :
    (shopDisk yml yaml other).LeadsTo "./shop" ["shop"] := ⟨by decide, by rfl, by rfl⟩

theorem plainPath_shop : PlainPath "./shop" := by
  refine ⟨by simp [wildcards], fun k names h => ?_⟩
  have hsplit : splitPath "./shop" = [".", "shop"] := by decide +kernel
  rw [hsplit] at h
  cases k <;> simp [List.replicate_succ] at h

theorem mem_shop (yml yaml other : ByteArray) :
    (Disk.entry? (shopDisk yml yaml other) (["shop"] ++ [n])).isSome = true ↔
      n = "b.yml" ∨ n = "a.yaml" ∨ n = "notes" ∨ n = "old" := by
  rw [isSome_entry?_iff (by simp)]
  simp [shopDisk]

theorem listsEnding_shop (yml yaml other : ByteArray) :
    ListsEnding (shopDisk yml yaml other) ["shop"] ".yml" ["b.yml"] ∧
      ListsEnding (shopDisk yml yaml other) ["shop"] ".yaml" ["a.yaml"] := by
  refine ⟨⟨fun n => ?_, List.pairwise_singleton ..⟩, ⟨fun n => ?_, List.pairwise_singleton ..⟩⟩
  all_goals
    rw [mem_shop, List.mem_singleton]
    constructor
    · rintro rfl
      decide
    · rintro ⟨rfl | rfl | rfl | rfl, h⟩
      all_goals first | rfl | exact absurd h (by decide)

theorem ofText?_pv : Document.ofText? "fields: [pv]" = some { fields := ["pv"] } := by cbv

theorem ofText?_uv : Document.ofText? "fields: [uv]" = some { fields := ["uv"] } := by cbv

theorem load_plainPath_shop :
    let d := shopDisk "fields: [pv]".toUTF8 "fields: [uv]".toUTF8 "[".toUTF8
    d.LeadsTo "./shop" ["shop"] ∧ PlainPath "./shop" ∧
      load d "./shop" = .ok (ofDocuments [{ fields := ["pv"] }, { fields := ["uv"] }]) := by
  intro d
  have hdir : d.LeadsTo "./shop" ["shop"] := leadsTo_shop ..
  obtain ⟨hb, ha⟩ := listsEnding_shop "fields: [pv]".toUTF8 "fields: [uv]".toUTF8 "[".toUTF8
  obtain ⟨yml, yaml, hyml, hyaml, hload, -⟩ := load_plainPath hdir plainPath_shop
  obtain rfl := hyml.unique hb
  obtain rfl := hyaml.unique ha
  refine ⟨hdir, plainPath_shop, hload _ (.cons ?_ (.cons ?_ .nil))⟩
  · exact document_ofText (by rfl) ofText?_pv
  · exact document_ofText (by rfl) ofText?_uv

/-- The schema file of a directory whose name is a pattern is not found, or the loading fails since
the pattern is malformed, and none is found after a dot and a slash. -/
theorem load_misses_files :
    let disk (p : Path) := ({} : Disk).writeFile p "fields: [pv]".toUTF8
    ((disk ["shop[1]", "m.yml"]).document ["shop[1]", "m.yml"] = .ok { fields := ["pv"] } ∧
      load (disk ["shop[1]", "m.yml"]) "shop[1]" = .ok {}) ∧
    ((disk ["shop**", "m.yml"]).document ["shop**", "m.yml"] = .ok { fields := ["pv"] } ∧
      load (disk ["shop**", "m.yml"]) "shop**" = .error .badPattern) ∧
    (disk ["m.yml"]).document ["m.yml"] = .ok { fields := ["pv"] } ∧
      load (disk ["m.yml"]) "./" = .ok {} := by
  generalize hbytes : "fields: [pv]".toUTF8 = bytes
  have hdocument {p : Path} (h : Disk.entry? (({} : Disk).writeFile p bytes) p = some (.file bytes)) :
      (({} : Disk).writeFile p bytes).document p = .ok { fields := ["pv"] } := by
    subst hbytes
    exact document_ofText h ofText?_pv
  exact ⟨⟨hdocument (by rfl), by cbv⟩, ⟨hdocument (by rfl), by cbv⟩, hdocument (by rfl), by cbv⟩

end Registry

end MetricSql
