import Mathlib.Data.List.Basic
import TypeAtlas.Proofs.Pruning
import TypeAtlas.Proofs.RootOrder

/-!
# Files that repeat a package

Of the export files that a load reads, the first one with a package path counts.  A file that comes after another one with
the same path repeats the package, and its package is skipped.  One might take such files out of the tree
(`LoadRequest.withoutRepeats`) and expect no difference.

There is one in two cases (`Workspace.load_withoutRepeats_iff`).

* All exports of a directory are checked into one universe, and a package that is not skipped hands over its names as they
  stand there.  A file that repeats the package of another file *of its directory* adds its own definitions to them, and
  replaces those that the first file gave.
* A root may lead to a file.  The walk of a file goes through no directory, but a file that is not there cannot be walked.

Files that repeat a package of another directory or another root are indeed without effect: an export that is the only one
of its path in its directory says alone what the directory says (`definitionIn_of_unique`).
-/

namespace TypeAtlas

/-- An export file: its place, and the export in it. -/
structure ExportFile where
  place : List String
  content : PackageExport

/-- The package path of an export file. -/
def ExportFile.path (f : ExportFile) : String := f.content.ref.path

/-! ## First files -/

/-- Whether the file at a place repeats a package: of the files with its package path, another one comes first. -/
def repeats (files : List ExportFile) (place : List String) : Bool :=
  files.any fun f => f.place == place && (files.find? fun g => g.path == f.path).any fun g => g.place != place

/-- The files that do not repeat a package. -/
def withoutRepeats (files : List ExportFile) : List ExportFile := files.filter fun f => !repeats files f.place

section First

variable {files : List ExportFile} (hsame : ∀ f ∈ files, ∀ g ∈ files, f.place = g.place → f = g)
include hsame

/-- A file that does not repeat a package is the first one with its path. -/
theorem repeats_eq_false_iff {f : ExportFile} (hf : f ∈ files) :
    repeats files f.place = false ↔ (files.find? fun g => g.path == f.path) = some f := by
  obtain ⟨first, hfirst⟩ : ∃ g, (files.find? fun g => g.path == f.path) = some g :=
    Option.isSome_iff_exists.1 (List.find?_isSome.2 ⟨f, hf, beq_self_eq_true _⟩)
  unfold repeats
  rw [List.any_eq_false]
  constructor
  · intro h
    have hplace : first.place = f.place := by simpa [hfirst] using h f hf
    rw [hfirst, hsame first (List.mem_of_find?_eq_some hfirst) f hf hplace]
  · intro h g hg hrep
    obtain ⟨hplace, hother⟩ := Bool.and_eq_true_iff.1 hrep
    obtain rfl : g = f := hsame g hg f hf (beq_iff_eq.1 hplace)
    rw [h] at hother
    simp at hother

/-- **The first file with a path is kept.** -/
theorem find?_withoutRepeats (path : String) :
    ((withoutRepeats files).find? fun f => f.path == path) = files.find? fun f => f.path == path := by
  rw [withoutRepeats, List.find?_filter]
  cases hfirst : files.find? fun f => f.path == path with
  | none =>
    refine List.find?_eq_none.2 fun f hf => ?_
    have hpath := List.find?_eq_none.1 hfirst f hf
    simp [hpath]
  | some first =>
    have hmem := List.mem_of_find?_eq_some hfirst
    have hpath : first.path = path := by simpa using List.find?_some hfirst
    have hkept : repeats files first.place = false := (repeats_eq_false_iff hsame hmem).2 (hpath.symm ▸ hfirst)
    obtain ⟨-, before, after, hfiles, hbefore⟩ := List.find?_eq_some_iff_append.1 hfirst
    refine List.find?_eq_some_iff_append.2 ⟨by simp [hkept, hpath], before, after, hfiles, fun f hf => ?_⟩
    have hne := hbefore f hf
    simp_all

/-- **A path has one file among those that are kept.** -/
theorem eq_of_mem_withoutRepeats {f g : ExportFile} (hf : f ∈ withoutRepeats files) (hg : g ∈ withoutRepeats files)
    (hpath : f.path = g.path) : f = g := by
  obtain ⟨hf, hkept⟩ := List.mem_filter.1 hf
  obtain ⟨hg, hkept'⟩ := List.mem_filter.1 hg
  have hfirst := (repeats_eq_false_iff hsame hf).1 (by simpa using hkept)
  have hfirst' := (repeats_eq_false_iff hsame hg).1 (by simpa using hkept')
  rw [hpath, hfirst'] at hfirst
  exact (Option.some.inj hfirst).symm

end First

/-! ## The files of a load -/

/-- The export files of a directory. -/
def FileTree.filesIn (tree : FileTree) (dir : String) : List ExportFile :=
  (tree.exportFiles dir).map fun f => ⟨tree.placeOf dir ++ [f.1], f.2⟩

/-- An export file of a directory stands at its place. -/
theorem FileTree.at?_of_mem_filesIn {tree : FileTree} (ho : tree.Ordered) {dir : String}
    {entries : List (String × FileNode)} (hl : tree.list dir = .ok entries) {f : ExportFile}
    (hf : f ∈ tree.filesIn dir) :
    f.place ≠ [] ∧ ∃ text, tree.top.at? f.place = some (.file text) ∧ text.bind PackageExport.parse? = some f.content := by
  have hresolve := FileTree.resolve_of_list hl
  obtain ⟨above, hstands⟩ := FileTree.stands_of_resolve hresolve
  rw [FileTree.filesIn, FileTree.exportFiles, hl] at hf
  obtain ⟨g, hmem, rfl⟩ := List.mem_map.1 hf
  obtain ⟨⟨name, t⟩, hentry, hg⟩ := List.mem_filterMap.1 hmem
  cases t with
  | dir es => cases hg
  | file text =>
    obtain ⟨read, hread, hg⟩ := Option.bind_eq_some_iff.1 hg
    obtain ⟨e, he, rfl⟩ := Option.map_eq_some_iff.1 hg
    rw [exportText?] at hread
    split at hread
    case isFalse => cases hread
    case isTrue =>
      obtain rfl := Option.some.inj hread
      refine ⟨by simp, text, ?_, he⟩
      have hlookup : entries.lookup name = some (.file text) := by
        rw [FileNode.lookup_eq_find?]
        exact Table.find?_of_mem (FileNode.ordered_entries (hstands.ordered ho)).1 hentry
      exact (hstands.enter hlookup).at?_eq

namespace LoadRequest

/-- The export files that a load reads, in order. -/
def files (o : LoadRequest) (tree : FileTree) : List ExportFile := (o.directories tree).flatMap tree.filesIn

/-- A tree without the files that repeat a package in a load. -/
def withoutRepeats (o : LoadRequest) (tree : FileTree) : FileTree := tree.prune (repeats (o.files tree))

theorem map_content_files (o : LoadRequest) (tree : FileTree) :
    (o.files tree).map ExportFile.content = (o.readings tree).map Reading.found := by
  simp [files, readings, FileTree.filesIn, FileTree.readings, FileTree.exportsIn, List.map_flatMap, Function.comp_def]

variable {o : LoadRequest} {tree : FileTree}

section Admitted

variable (ho : tree.Ordered) (h : ∀ root ∈ o.roots, o.Admits tree root)
include ho h

theorem at?_of_mem_files {f : ExportFile} (hf : f ∈ o.files tree) :
    f.place ≠ [] ∧ ∃ text, tree.top.at? f.place = some (.file text) ∧ text.bind PackageExport.parse? = some f.content := by
  obtain ⟨dir, hdir, hf⟩ := List.mem_flatMap.1 hf
  obtain ⟨entries, hl, -⟩ := checkExports_isOk_iff.1 (isOk_of_mem_directories h hdir)
  exact FileTree.at?_of_mem_filesIn ho hl hf

/-- There is one file at a place. -/
theorem eq_of_place_eq {f g : ExportFile} (hf : f ∈ o.files tree) (hg : g ∈ o.files tree) (hplace : f.place = g.place) :
    f = g := by
  obtain ⟨-, text, hat, hf⟩ := at?_of_mem_files ho h hf
  obtain ⟨-, text', hat', hg⟩ := at?_of_mem_files ho h hg
  rw [hplace, hat'] at hat
  cases hat
  cases f
  cases g
  cases hplace
  rw [hf] at hg
  cases hg
  rfl

/-- The files that repeat a package can be taken out. -/
theorem removable : tree.Removable (repeats (o.files tree)) := by
  have hmem : ∀ place, repeats (o.files tree) place = true → ∃ f ∈ o.files tree, f.place = place := by
    intro place hrep
    obtain ⟨f, hf, hand⟩ := List.any_eq_true.1 hrep
    exact ⟨f, hf, beq_iff_eq.1 (Bool.and_eq_true_iff.1 hand).1⟩
  refine ⟨ho, Bool.eq_false_iff.2 fun hrep => ?_, fun place hrep => ?_⟩
  · obtain ⟨f, hf, hplace⟩ := hmem [] hrep
    exact (at?_of_mem_files ho h hf).1 hplace
  · obtain ⟨f, hf, rfl⟩ := hmem place hrep
    obtain ⟨-, text, hat, -⟩ := at?_of_mem_files ho h hf
    exact ⟨text, hat⟩

/-- The directories of a root are the same afterwards, unless the root is a file that is taken out. -/
theorem directoriesOf_withoutRepeats {root : String} (hroot : root ∈ o.roots) :
    o.directoriesOf (o.withoutRepeats tree) root =
      if repeats (o.files tree) (tree.placeOf root) then .error .notFound else o.directoriesOf tree root := by
  have hrem := removable ho h
  obtain ⟨dirs, hdirs, hok⟩ := h root hroot
  rw [hdirs]
  unfold directoriesOf at hdirs ⊢
  split at hdirs
  case isTrue hrec => rw [if_pos hrec, withoutRepeats, hrem.walk_prune hdirs]
  case isFalse hrec =>
    obtain rfl := Except.ok.inj hdirs
    obtain ⟨entries, hl, -⟩ := checkExports_isOk_iff.1 (hok root List.mem_cons_self)
    rw [if_neg hrec, hrem.out_of_list hl, if_neg Bool.false_ne_true]

/-- **A root is admitted afterwards unless it is a file that is taken out.** -/
theorem admits_withoutRepeats_iff {root : String} (hroot : root ∈ o.roots) :
    o.Admits (o.withoutRepeats tree) root ↔ repeats (o.files tree) (tree.placeOf root) = false := by
  have hdirs := directoriesOf_withoutRepeats ho h hroot
  constructor
  · rintro ⟨dirs, hdirs', -⟩
    refine Bool.eq_false_iff.2 fun hrep => ?_
    rw [hdirs, if_pos hrep] at hdirs'
    cases hdirs'
  · intro hrep
    obtain ⟨dirs, hdirs', hok⟩ := h root hroot
    rw [if_neg (Bool.eq_false_iff.1 hrep), hdirs'] at hdirs
    exact ⟨dirs, hdirs, fun dir hdir => (removable ho h).checkExports_prune (hok dir hdir)⟩

variable (hroots : ∀ root ∈ o.roots, repeats (o.files tree) (tree.placeOf root) = false)
include hroots

/-- **A load reads the same files afterwards, less those that repeat a package.** -/
theorem files_withoutRepeats : o.files (o.withoutRepeats tree) = TypeAtlas.withoutRepeats (o.files tree) := by
  have hdirectories : o.directories (o.withoutRepeats tree) = o.directories tree := by
    refine List.flatMap_congr fun root hroot => ?_
    rw [directoriesOf_withoutRepeats ho h hroot, if_neg (Bool.eq_false_iff.1 (hroots root hroot))]
  rw [files, hdirectories, TypeAtlas.withoutRepeats]
  conv => rhs; rw [files, List.filter_flatMap]
  refine List.flatMap_congr fun dir hdir => ?_
  obtain ⟨entries, hl, -⟩ := checkExports_isOk_iff.1 (isOk_of_mem_directories h hdir)
  rw [FileTree.filesIn, withoutRepeats, (removable ho h).exportFiles_prune hl, FileTree.filesIn, List.filter_map]
  rfl

/-- **Afterwards a path has one export only.** -/
theorem unambiguous_withoutRepeats : o.Unambiguous (o.withoutRepeats tree) := by
  have hfile : ∀ r ∈ o.readings (o.withoutRepeats tree),
      ∃ f ∈ TypeAtlas.withoutRepeats (o.files tree), f.content = r.found := by
    intro r hr
    rw [← files_withoutRepeats ho h hroots, ← List.mem_map, map_content_files]
    exact List.mem_map.2 ⟨r, hr, rfl⟩
  intro r hr s hs hpath
  obtain ⟨f, hf, hfr⟩ := hfile r hr
  obtain ⟨g, hg, hgs⟩ := hfile s hs
  rw [← hfr, ← hgs] at hpath ⊢
  rw [eq_of_mem_withoutRepeats (fun _ ha _ hb => eq_of_place_eq ho h ha hb) hf hg hpath]

/-- **Afterwards the same exports come first.** -/
theorem find?_found_withoutRepeats (path : String) :
    ((o.readings (o.withoutRepeats tree)).find? fun r => r.found.ref.path == path).map Reading.found =
      ((o.readings tree).find? fun r => r.found.ref.path == path).map Reading.found := by
  have hfiles : ∀ t, ((o.readings t).find? fun r => r.found.ref.path == path).map Reading.found =
      ((o.files t).find? fun f => f.path == path).map ExportFile.content := by
    intro t
    have hmap := congrArg (List.find? fun e : PackageExport => e.ref.path == path) (map_content_files o t)
    rw [List.find?_map, List.find?_map] at hmap
    exact hmap.symm
  rw [hfiles, hfiles, files_withoutRepeats ho h hroots,
    find?_withoutRepeats (fun _ ha _ hb => eq_of_place_eq ho h ha hb)]

end Admitted

end LoadRequest

/-! ## When they are without effect -/

/-- An export as it would be read if its directory had no other. -/
def Reading.alone (r : Reading) : Reading := ⟨r.found, [r.found]⟩

theorem Reading.meaning_alone (r : Reading) (n : TypeName) :
    r.alone.meaning n = (r.found.definition? n).or (Universe.initial.lookup n) := by
  rw [meaning, alone, definitionIn_cons]
  rfl

namespace Workspace

/-- **Afterwards a name stands for what the first export of its package says alone.** -/
theorem Loaded.lookup_withoutRepeats {tree : FileTree} (ho : tree.Ordered) {o : LoadRequest}
    (h : ∀ root ∈ o.roots, o.Admits tree root)
    (hroots : ∀ root ∈ o.roots, repeats (o.files tree) (tree.placeOf root) = false) {u : Universe} {v : Workspace}
    (hv : Loaded u (o.readings (o.withoutRepeats tree)) v) (n : TypeName) :
    v.registry.types.lookup n =
      (((o.readings tree).find? fun r => r.found.ref.path == n.package).bind fun r => r.alone.meaning n).or
        (u.lookup n) := by
  have huniq := LoadRequest.unambiguous_withoutRepeats ho h hroots
  rw [hv.lookup, huniq.handedOver_eq (fun r hr => hr), LoadRequest.find?_found_withoutRepeats ho h hroots,
    Option.bind_map]
  simp only [Reading.meaning_alone, Function.comp_def]

/-- **When files that repeat a package are without effect.**  If a load into a registry without packages succeeds, take the
files out of the tree that repeat a package.  The load of what is left succeeds and gives the same answers exactly if no
root leads to a file that was taken out, and the first export of each package says of its names, alone, what its directory
says of them. -/
theorem load_withoutRepeats_iff {tree : FileTree} (ho : tree.Ordered) {o : LoadRequest} {u : Universe} {w v : Workspace}
    (hw : w.registry = .ofUniverse u) (hv : w.load tree o = (.ok (), v)) :
    (∃ v', w.load (o.withoutRepeats tree) o = (.ok (), v') ∧ v.SameAnswers v') ↔
      (∀ root ∈ o.roots, repeats (o.files tree) (tree.placeOf root) = false) ∧
        ∀ n r, ((o.readings tree).find? fun r => r.found.ref.path == n.package) = some r →
          (r.meaning n).or (u.lookup n) = (r.alone.meaning n).or (u.lookup n) := by
  have h := admits_of_load hv
  have hloaded := loaded_of_load hw hv
  have hbefore : ∀ n, v.registry.types.lookup n =
      (((o.readings tree).find? fun r => r.found.ref.path == n.package).bind fun r => r.meaning n).or (u.lookup n) := by
    intro n
    rw [hloaded.lookup, handedOver, if_neg Bool.false_ne_true]
  constructor
  · rintro ⟨v', hv', hsame⟩
    have hroots : ∀ root ∈ o.roots, repeats (o.files tree) (tree.placeOf root) = false :=
      fun root hroot => (LoadRequest.admits_withoutRepeats_iff ho h hroot).1 (admits_of_load hv' root hroot)
    refine ⟨hroots, fun n r hr => ?_⟩
    have hlookup := congrArg (Universe.lookup · n) hsame.agrees.types
    rwa [hbefore, (loaded_of_load hw hv').lookup_withoutRepeats ho h hroots, hr] at hlookup
  · rintro ⟨hroots, hmeaning⟩
    obtain ⟨v', hv', hloaded'⟩ := loaded_of_admits (o := o) hw fun root hroot =>
      (LoadRequest.admits_withoutRepeats_iff ho h hroot).2 (hroots root hroot)
    refine ⟨v', hv', hloaded.sameAnswers hloaded' (Universe.ext_lookup fun n => ?_)
      fun path => (LoadRequest.find?_found_withoutRepeats ho h hroots path).symm⟩
    rw [hbefore, hloaded'.lookup_withoutRepeats ho h hroots]
    cases hr : (o.readings tree).find? fun r => r.found.ref.path == n.package with
    | none => rfl
    | some r => exact hmeaning n r hr

/-- A package with one type. -/
def early : PackageExport where
  ref := ⟨"p", "p"⟩
  imports := []
  decls := [.type "T" .unknown (.basic .int) [] false]
  errors := []

/-- The package once more, with another definition of its type and a type besides. -/
def late : PackageExport where
  ref := ⟨"p", "p"⟩
  imports := []
  decls := [.type "T" .unknown (.basic .string) [] false, .type "S" .unknown (.struct []) [] false]
  errors := []

/-- Both exports in one directory. -/
def clashTree : FileTree := ⟨.dir [("d", .dir [("a.symbols.json", early.file), ("b.symbols.json", late.file)])], []⟩

/-- The type of the later export replaces that of the earlier one, although its package is skipped.  So it makes a
difference to take it out. -/
theorem clashTree_load :
    clashTree.Ordered ∧ ∃ v, load clashTree ⟨["d"], [], false⟩ ⟨.empty, .empty, 0⟩ = (.ok (), v) ∧
      v.registry.types.lookup ⟨"p", "T"⟩ = some ⟨.basic .string, []⟩ ∧
      ¬ ∃ v', load (LoadRequest.withoutRepeats ⟨["d"], [], false⟩ clashTree) ⟨["d"], [], false⟩ ⟨.empty, .empty, 0⟩ =
        (.ok (), v') ∧ v.SameAnswers v' := by
  have ho : clashTree.Ordered := by
    simp only [clashTree, FileTree.Ordered, FileNode.Ordered, FileNode.OrderedIn, PackageExport.file]
    decide
  obtain ⟨hfiles, hcheck⟩ : clashTree.exportFiles "d" = [("a.symbols.json", early), ("b.symbols.json", late)] ∧
      ∃ r, (checkExports clashTree "d").result = .ok r := by
    refine exportFiles_of_written rfl fun f hf => ?_
    rcases List.mem_cons.1 hf with rfl | hf
    · exact ⟨by decide +kernel, by decide +kernel⟩
    · rw [List.mem_singleton.1 hf]
      exact ⟨by decide +kernel, by decide +kernel⟩
  have hreadings : LoadRequest.readings ⟨["d"], [], false⟩ clashTree =
      [⟨early, [early, late]⟩, ⟨late, [early, late]⟩] := by
    simp [LoadRequest.readings, LoadRequest.directories, LoadRequest.directoriesOf, Except.toOption, FileTree.readings,
      FileTree.exportsIn, hfiles]
  have hadmits : ∀ root ∈ ["d"], LoadRequest.Admits ⟨["d"], [], false⟩ clashTree root := by
    intro root hroot
    refine ⟨[root], rfl, fun dir hdir => ?_⟩
    rw [List.mem_singleton.1 hdir, List.mem_singleton.1 hroot]
    exact hcheck
  obtain ⟨v, hv, hloaded⟩ := loaded_of_admits (w := ⟨.empty, .empty, 0⟩) (o := ⟨["d"], [], false⟩) rfl hadmits
  refine ⟨ho, v, hv, ?_, fun hsame => ?_⟩
  · rw [hloaded.lookup, hreadings]
    rfl
  · obtain ⟨-, hmeaning⟩ := (load_withoutRepeats_iff ho rfl hv).1 hsame
    rw [hreadings] at hmeaning
    have hT := hmeaning ⟨"p", "T"⟩ ⟨early, [early, late]⟩ (by decide +kernel)
    revert hT
    decide +kernel

end Workspace

end TypeAtlas
