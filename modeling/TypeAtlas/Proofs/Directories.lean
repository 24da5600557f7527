import TypeAtlas.Export.Directory
import TypeAtlas.Proofs.CheckedExports

/-!
# What checking a directory gives

The check of a directory reads its export files in order.  It succeeds exactly if every one of them holds an export that
passes (`checkExports_isOk_iff`); then it gives their packages (`checkExports_eq_ok`), and a universe in which a name
stands for what the last export that defines it says (`lookup_foldl_check`).

All exports of a directory are checked into one universe.  Two of them with the same package path therefore define names
of the same package, and the later one wins whichever of the packages is used.
-/

namespace TypeAtlas

/-- The export in a file of a name and a text. -/
def exportIn? (file : String × Option String) : Option PackageExport := file.2.bind PackageExport.parse?

/-- The name and the export of an entry of a directory, if it is a file that holds an export. -/
def exportFile? (entry : String × FileNode) : Option (String × PackageExport) :=
  (exportText? entry).bind fun f => (exportIn? f).map fun e => (f.1, e)

/-- The export files of a directory with their exports, in order. -/
def FileTree.exportFiles (tree : FileTree) (dir : String) : List (String × PackageExport) :=
  match tree.list dir with
  | .ok entries => entries.filterMap exportFile?
  | .error _ => []

/-- The exports of a directory, in order. -/
def FileTree.exportsIn (tree : FileTree) (dir : String) : List PackageExport := (tree.exportFiles dir).map Prod.snd

/-- What exports that are checked in turn make of a name: the last of them counts. -/
def definitionIn (es : List PackageExport) (n : TypeName) : Option Definition :=
  es.reverse.findSome? (·.definition? n)

/-- The universe after exports are checked in turn. -/
def checkedUniverse (es : List PackageExport) : Universe := es.foldl (fun u e => (e.check u).2) .initial

/-- Whether an export passes the check. -/
def PackageExport.Passes (e : PackageExport) : Prop := ∃ pkg, (e.check .initial).1 = .ok pkg

/-- Whether a file holds an export that passes the check. -/
def HoldsExport (file : String × Option String) : Prop :=
  ∃ e, exportIn? file = some e ∧ e.Passes

theorem definitionIn_cons (e : PackageExport) (es : List PackageExport) (n : TypeName) :
    definitionIn (e :: es) n = (definitionIn es n).or (e.definition? n) := by
  rw [definitionIn, List.reverse_cons, List.findSome?_append, List.findSome?_singleton]
  rfl

/-- An export that is the only one of its path tells what its names stand for. -/
theorem definitionIn_of_unique {n : TypeName} {e : PackageExport} {es : List PackageExport}
    (h : ∀ f ∈ es, f.ref.path = n.package → f = e) (he : e ∈ es) : definitionIn es n = e.definition? n := by
  have hdef : ∀ f ∈ es, f.definition? n = none ∨ f.definition? n = e.definition? n := by
    intro f hf
    by_cases hp : f.ref.path = n.package
    · exact .inr (by rw [h f hf hp])
    · exact .inl (PackageExport.definition?_of_package_ne (Ne.symm hp))
  cases hd : definitionIn es n with
  | none => exact (List.findSome?_eq_none_iff.1 hd e (List.mem_reverse.2 he)).symm
  | some d =>
    obtain ⟨f, hf, hfd⟩ := List.exists_of_findSome?_eq_some hd
    rcases hdef f (List.mem_reverse.1 hf) with hnone | hsame
    · rw [hnone] at hfd
      cases hfd
    · rw [← hfd, hsame]

theorem exportOf_eq_ok_iff (path name : String) {text : Option String} {e : PackageExport} :
    exportOf path text = .ok e ↔ exportIn? (name, text) = some e := by
  unfold exportOf exportIn?
  cases text with
  | none => simp
  | some text => cases h : PackageExport.parse? text <;> simp [h]

/-- **What a name stands for after exports that pass.** -/
theorem lookup_foldl_check {es : List PackageExport} (h : ∀ e ∈ es, e.Passes) (u : Universe) (n : TypeName) :
    (es.foldl (fun u e => (e.check u).2) u).lookup n = (definitionIn es n).or (u.lookup n) := by
  induction es generalizing u with
  | nil => rfl
  | cons e es ih =>
    obtain ⟨pkg, hpkg⟩ := h e List.mem_cons_self
    have hc : e.check u = (.ok pkg, (e.check u).2) := by rw [← hpkg, e.check_fst .initial u]
    have hlookup : (e.check u).2.lookup n = (e.definition? n).or (u.lookup n) := (PackageExport.check_eq_ok hc).2 n
    rw [List.foldl_cons, ih (fun f hf => h f (List.mem_cons_of_mem e hf)), definitionIn_cons, Option.or_assoc, hlookup]

/-- What a successful check of files gives. -/
theorem checkFiles_eq_ok {dir : String} {u v : Universe} {done pkgs : List CheckedPackage} {k : Nat}
    {files : List (String × Option String)} (h : (checkFiles dir u done k files).result = .ok (pkgs, v)) :
    (∀ f ∈ files, HoldsExport f) ∧
      pkgs = done ++ (files.filterMap exportIn?).map PackageExport.package ∧
      v = (files.filterMap exportIn?).foldl (fun u e => (e.check u).2) u ∧
      (checkFiles dir u done k files).filesRead = k + (files.filterMap exportIn?).length := by
  induction files generalizing u done k with
  | nil =>
    obtain ⟨rfl, rfl⟩ : done = pkgs ∧ u = v := by simpa [checkFiles] using h
    exact ⟨fun f hf => absurd hf List.not_mem_nil, by simp, rfl, rfl⟩
  | cons f files ih =>
    obtain ⟨name, text⟩ := f
    rw [checkFiles] at h ⊢
    split at h
    · cases h
    case h_2 e he =>
      have hin := (exportOf_eq_ok_iff _ name).1 he
      split at h
      · cases h
      case h_2 pkg w hc =>
        obtain ⟨rfl, -⟩ := PackageExport.check_eq_ok hc
        obtain ⟨hall, rfl, rfl, hread⟩ := ih h
        have hpass : e.Passes := ⟨e.package, by rw [e.check_fst .initial u, hc]⟩
        rw [List.filterMap_cons_some hin]
        refine ⟨fun f hf => ?_, ?_, ?_, ?_⟩
        · rcases List.mem_cons.1 hf with rfl | hf
          · exact ⟨e, hin, hpass⟩
          · exact hall f hf
        · rw [List.map_cons, List.append_assoc]
          rfl
        · rw [List.foldl_cons, hc]
        · rw [hread, List.length_cons]
          omega

/-- Files that all hold exports which pass are checked with success. -/
theorem checkFiles_isOk (dir : String) {files : List (String × Option String)} (h : ∀ f ∈ files, HoldsExport f) :
    ∀ (u : Universe) (done : List CheckedPackage) (k : Nat),
      ∃ pkgs v, (checkFiles dir u done k files).result = .ok (pkgs, v) := by
  induction files with
  | nil => exact fun u done k => ⟨done, u, rfl⟩
  | cons f files ih =>
    intro u done k
    obtain ⟨name, text⟩ := f
    obtain ⟨e, he, pkg, hpkg⟩ := h (name, text) List.mem_cons_self
    have hc : e.check u = (.ok pkg, (e.check u).2) := by
      rw [← hpkg, e.check_fst .initial u]
    obtain ⟨pkgs, v, hrest⟩ := ih (fun f hf => h f (List.mem_cons_of_mem _ hf)) (e.check u).2 (done ++ [pkg]) (k + 1)
    refine ⟨pkgs, v, ?_⟩
    rw [checkFiles, (exportOf_eq_ok_iff _ name).2 he]
    dsimp only
    rw [hc]
    exact hrest

theorem filterMap_exportFile? (entries : List (String × FileNode)) :
    entries.filterMap exportFile? =
      (entries.filterMap exportText?).filterMap fun f => (exportIn? f).map fun e => (f.1, e) := by
  rw [List.filterMap_filterMap]
  rfl

theorem map_snd_filterMap_exportFile? (entries : List (String × FileNode)) :
    (entries.filterMap exportFile?).map Prod.snd = (entries.filterMap exportText?).filterMap exportIn? := by
  rw [filterMap_exportFile?, List.map_filterMap]
  simp only [Option.map_map, Function.comp_def, Option.map_id']

/-- **A directory is checked with success exactly if it can be listed and its export files hold exports that pass.** -/
theorem checkExports_isOk_iff {tree : FileTree} {dir : String} :
    (∃ r, (checkExports tree dir).result = .ok r) ↔
      ∃ entries, tree.list dir = .ok entries ∧ ∀ f ∈ entries.filterMap exportText?, HoldsExport f := by
  unfold checkExports
  constructor
  · rintro ⟨⟨pkgs, v⟩, h⟩
    split at h
    · cases h
    case h_2 entries he => exact ⟨entries, he, (checkFiles_eq_ok h).1⟩
  · rintro ⟨entries, he, hall⟩
    obtain ⟨pkgs, v, h⟩ := checkFiles_isOk dir hall .initial [] 0
    exact ⟨(pkgs, v), by rw [he]; exact h⟩

/-- **What a successful check of a directory gives:** its exports pass, and their packages and definitions are there. -/
theorem checkExports_eq_ok {tree : FileTree} {dir : String} {pkgs : List CheckedPackage} {v : Universe}
    (h : (checkExports tree dir).result = .ok (pkgs, v)) :
    (∀ e ∈ tree.exportsIn dir, e.Passes) ∧
      pkgs = (tree.exportsIn dir).map PackageExport.package ∧
      v = checkedUniverse (tree.exportsIn dir) ∧
      (checkExports tree dir).filesRead = (tree.exportsIn dir).length := by
  unfold checkExports at h ⊢
  unfold FileTree.exportsIn FileTree.exportFiles
  split at h
  · cases h
  case h_2 entries he =>
    obtain ⟨hall, hp, hv, hread⟩ := checkFiles_eq_ok h
    rw [he]
    dsimp only
    rw [map_snd_filterMap_exportFile?]
    refine ⟨fun e hin => ?_, hp, hv, by rw [hread, Nat.zero_add]⟩
    obtain ⟨f, hf, hfe⟩ := List.mem_filterMap.1 hin
    obtain ⟨e', he', hpass⟩ := hall f hf
    exact Option.some.inj (he'.symm.trans hfe) ▸ hpass

/-! ## Written exports -/

namespace PackageExport

/-- The file that an export is written to. -/
def file (e : PackageExport) : FileNode := .file (some e.render)

/-- The export in a text, character by character. -/
def ofChars? (cs : List Char) : Option PackageExport :=
  ((Json.tokenize cs).bind Json.ofTokens?).bind (decode Json.depthLimit)

/-- Whether an export can be read back once it is written, and passes the check. -/
def Loadable (e : PackageExport) : Prop := ofChars? e.encode.text = some e ∧ (e.check .initial).1.isOk = true

instance (e : PackageExport) : Decidable e.Loadable := inferInstanceAs (Decidable (_ ∧ _))

theorem Loadable.exportIn?_render {e : PackageExport} (h : e.Loadable) (name : String) :
    exportIn? (name, some e.render) = some e := by
  have hparse : parse? e.render = ofChars? e.encode.text := by
    rw [parse?, Json.parse?, render, Json.render, String.toList_ofList, ofChars?]
  rw [exportIn?, Option.bind_some, hparse, h.1]

theorem Loadable.passes {e : PackageExport} (h : e.Loadable) : e.Passes := by
  have hok := h.2
  cases hc : (e.check .initial).1 with
  | ok pkg => exact ⟨pkg, hc⟩
  | error cause =>
    rw [hc] at hok
    cases hok

end PackageExport

/-- **Exports that are written to a directory are what is read there.** -/
theorem exportFiles_of_written {tree : FileTree} {dir : String} {files : List (String × PackageExport)}
    (hlist : tree.list dir = .ok (files.map fun f => (f.1, f.2.file)))
    (hfiles : ∀ f ∈ files, isExportName f.1 = true ∧ f.2.Loadable) :
    tree.exportFiles dir = files ∧ ∃ r, (checkExports tree dir).result = .ok r := by
  have htext : ∀ f ∈ files, exportText? (f.1, f.2.file) = some (f.1, some f.2.render) :=
    fun f hf => if_pos (hfiles f hf).1
  constructor
  · rw [FileTree.exportFiles, hlist]
    dsimp only
    clear hlist
    induction files with
    | nil => rfl
    | cons f files ih =>
      have hf : exportFile? (f.1, f.2.file) = some f := by
        rw [exportFile?, htext f List.mem_cons_self, Option.bind_some,
          (hfiles f List.mem_cons_self).2.exportIn?_render f.1]
        rfl
      rw [List.map_cons, List.filterMap_cons_some hf, ih (fun g hg => hfiles g (List.mem_cons_of_mem f hg))
        fun g hg => htext g (List.mem_cons_of_mem f hg)]
  · refine checkExports_isOk_iff.2 ⟨_, hlist, fun f hf => ?_⟩
    obtain ⟨entry, hentry, hf⟩ := List.mem_filterMap.1 hf
    obtain ⟨g, hg, rfl⟩ := List.mem_map.1 hentry
    obtain rfl : (g.1, some g.2.render) = f := Option.some.inj ((htext g hg).symm.trans hf)
    exact ⟨g.2, (hfiles g hg).2.exportIn?_render g.1, (hfiles g hg).2.passes⟩

end TypeAtlas
