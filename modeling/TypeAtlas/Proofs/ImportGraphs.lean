import TypeAtlas.Proofs.PackageLists
import TypeAtlas.Registry.ImportGraph

/-!
# The two graphs of imports

A registry has a graph of all imports of its packages and one of the imports that are registered.  Both have the registered
packages as nodes, in order.

A package may be imported more than once, under different names.  Each graph has one edge for it, with the name of its first
occurrence (`Package.ImportsAre`).  The graph of registered imports leaves out the others before it looks for the first, and
still it is the graph of all imports without the edges to packages that are not registered
(`Registry.importsOf_importGraph_false`).
-/

namespace TypeAtlas

/-- Whether edges are the imports of a package: in order of the paths, one edge for each path that is imported, with the
name of its first import. -/
structure Package.ImportsAre (p : Package) (edges : List PackageRef) : Prop where
  increasing : edges.Pairwise fun q s => q.path < s.path
  once : ∀ target, target ∈ p.imports.map PackageRef.path ↔ ∃! q, q ∈ edges ∧ q.path = target
  first : ∀ q ∈ edges, p.imports.find? (fun s => decide (s.path = q.path)) = some q

/-- **Sorted, and each path once: these are the imports of a package.** -/
theorem Package.importsAre_sortUnique (p : Package) : p.ImportsAre (PackageRef.sortUnique p.imports) where
  increasing := PackageRef.pairwise_sortUnique p.imports
  once target := by
    constructor
    · intro h
      obtain ⟨s, hs, hpath⟩ := List.mem_map.1 h
      obtain ⟨q, hq⟩ : ∃ q, p.imports.find? (fun s => decide (s.path = target)) = some q :=
        Option.isSome_iff_exists.1 (List.find?_isSome.2 ⟨s, hs, decide_eq_true hpath⟩)
      have hqpath : q.path = target := by simpa using List.find?_some hq
      refine ⟨q, ⟨PackageRef.mem_sortUnique_iff.2 (hqpath ▸ hq), hqpath⟩, ?_⟩
      rintro q' ⟨hq', rfl⟩
      exact Option.some.inj ((PackageRef.mem_sortUnique_iff.1 hq').symm.trans hq)
    · rintro ⟨q, ⟨hq, rfl⟩, -⟩
      exact List.mem_map_of_mem (List.mem_of_find?_eq_some (PackageRef.mem_sortUnique_iff.1 hq))
  first _ hq := PackageRef.mem_sortUnique_iff.1 hq

namespace Registry

variable {r : Registry} {path : String} {p : Package}

/-- What a graph says that a registered package imports. -/
theorem importsOf_importGraph (h : r.packages.get? path = some p) (external : Bool) :
    (r.importGraph external).importsOf path =
      PackageRef.sortUnique (p.imports.filter fun q => external || r.packages.contains q.path) := by
  rw [ImportGraph.importsOf, importGraph, Table.get?_map, h]
  rfl

theorem importsOf_importGraph_true (h : r.packages.get? path = some p) :
    (r.importGraph true).importsOf path = PackageRef.sortUnique p.imports := by
  rw [importsOf_importGraph h]
  simp only [Bool.true_or, List.filter_true]

/-- **Of the imports, the registered ones stay,** under the same names and in the same order. -/
theorem importsOf_importGraph_false (h : r.packages.get? path = some p) :
    (r.importGraph false).importsOf path =
      ((r.importGraph true).importsOf path).filter fun q => r.packages.contains q.path := by
  rw [importsOf_importGraph h, importsOf_importGraph_true h, ← PackageRef.sortUnique_filter]
  simp only [Bool.false_or]

/-- A graph has the registered packages as nodes, in order. -/
theorem keys_imports_importGraph (external : Bool) : (r.importGraph external).imports.keys = r.packages.keys :=
  Table.keys_map _ r.packages

/-- **What the graphs of imports show.**  Their nodes are the registered paths in increasing order.  The graph of all imports
has for each registered package one edge for each path that it imports, in increasing order; the other graph has those of
them that lead to registered packages. -/
theorem importGraph_shows (r : Registry) :
    (∀ external, (r.importGraph external).imports.keys.Pairwise (· < ·) ∧
      ∀ path, path ∈ (r.importGraph external).imports.keys ↔ r.packages.contains path = true) ∧
    ∀ path p, r.packages.get? path = some p →
      p.ImportsAre ((r.importGraph true).importsOf path) ∧
      (r.importGraph false).importsOf path =
        ((r.importGraph true).importsOf path).filter (fun q => r.packages.contains q.path) ∧
      ∀ q ∈ (r.importGraph false).importsOf path, r.packages.contains q.path = true := by
  refine ⟨fun external => ?_, fun path p h => ⟨?_, importsOf_importGraph_false h, fun q hq => ?_⟩⟩
  · rw [keys_imports_importGraph]
    exact ⟨r.packages.pairwise_keys.imp compareOfLessAndEq_eq_lt.1, fun path => Table.mem_keys_iff⟩
  · rw [importsOf_importGraph_true h]
    exact p.importsAre_sortUnique
  · rw [importsOf_importGraph_false h] at hq
    exact (List.mem_filter.1 hq).2

/-- A package that imports two others, both twice and under different names. -/
def importer : Package :=
  ⟨⟨"app", "app"⟩, [⟨"sql", "s"⟩, ⟨"db", "d"⟩, ⟨"sql", "sql"⟩, ⟨"db", "db"⟩], [], [], [], []⟩

/-- A registry of this package and of one that it imports. -/
def importing : Registry :=
  { Registry.empty with packages := (Table.empty.insert "db" ⟨⟨"db", "db"⟩, [], [], [], [], []⟩).insert "app" importer }

/-- Both graphs name an imported package as its first import does. -/
theorem importing_shows :
    importing.packages.get? "app" = some importer ∧
      (importing.importGraph true).importsOf "app" = [⟨"db", "d"⟩, ⟨"sql", "s"⟩] ∧
      importer.ImportsAre [⟨"db", "d"⟩, ⟨"sql", "s"⟩] ∧ (importing.importGraph false).importsOf "app" = [⟨"db", "d"⟩] := by
  have happ : importing.packages.get? "app" = some importer := rfl
  have hall : (importing.importGraph true).importsOf "app" = [⟨"db", "d"⟩, ⟨"sql", "s"⟩] := by
    rw [importsOf_importGraph_true happ]
    refine PackageRef.eq_of_pairwise_lt (PackageRef.pairwise_sortUnique _) (by decide) fun q => ?_
    rw [PackageRef.mem_sortUnique_iff]
    obtain ⟨path, name⟩ := q
    by_cases hsql : path = "sql"
    · simp [importer, hsql, eq_comm]
    · by_cases hdb : path = "db" <;> simp [importer, hsql, hdb, eq_comm]
  obtain ⟨himports, hinternal, -⟩ := (importGraph_shows importing).2 "app" importer happ
  rw [hall] at himports hinternal
  exact ⟨happ, hall, himports, hinternal.trans (by decide)⟩

end Registry

end TypeAtlas
