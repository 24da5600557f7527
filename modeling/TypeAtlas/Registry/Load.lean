import TypeAtlas.Export.Directory
import TypeAtlas.Files.Walk
import TypeAtlas.Registry.Basic

/-!
# Loading directories into a registry

A load goes through the directories of its roots in order, and then registers what it found.  Each directory is
checked against a universe of its own; the packages that are neither registered nor waiting to be registered hand
their definitions over to the universe of the registry and wait.  Only when all directories are checked are the
waiting packages extracted, so every type sees the definitions of all.

The first failure ends the load.  Definitions handed over before it stay.
-/

namespace TypeAtlas

/-- What to load. -/
structure LoadRequest where
  /-- Directories, in order. -/
  roots : List String
  /-- Directories to leave out of a recursive load. -/
  ignored : List String
  /-- Whether to load the directories below the roots too. -/
  recursive : Bool
deriving DecidableEq

namespace LoadRequest

/-- Nothing to load. -/
def empty : LoadRequest := ⟨[], [], false⟩

/-- One more root. -/
def withRoot (o : LoadRequest) (dir : String) : LoadRequest := { o with roots := o.roots ++ [dir] }

/-- One more directory to leave out. -/
def ignoring (o : LoadRequest) (dir : String) : LoadRequest := { o with ignored := o.ignored ++ [dir] }

/-- Options from their record; every part may be left out. -/
def decode : Nat → Json → Option LoadRequest
  | 0, _ => none
  | room + 1, j => do
    match ← j.fields? ["roots", "ignored", "recursive"] with
    | [roots, ignored, recursive] =>
      return {
        roots := ← Json.optional [] (Json.asList? (fun _ => Json.asString?) room) roots
        ignored := ← Json.optional [] (Json.asList? (fun _ => Json.asString?) room) ignored
        recursive := ← Json.optional false Json.asBool? recursive }
    | _ => none

end LoadRequest

/-- A registry with the ledger it shares and the number of exports read so far. -/
structure Workspace where
  registry : Registry
  ledger : Ledger
  filesRead : Nat
deriving DecidableEq

/-- A load under way: the packages checked so far wait to be registered. -/
structure Loading where
  workspace : Workspace
  pending : List CheckedPackage
deriving DecidableEq

namespace Loading

/-- Whether a package is registered or waiting. -/
def knows (l : Loading) (path : String) : Bool :=
  l.workspace.registry.packages.contains path || l.pending.any fun p => p.ref.path == path

/-- Let a package wait, and take over its definitions. -/
def enqueue (l : Loading) (scratch : Universe) (pkg : CheckedPackage) : Loading :=
  if l.knows pkg.ref.path then l
  else
    let registry := l.workspace.registry
    { workspace := { l.workspace with
        registry := { registry with types := registry.types.adopt scratch pkg.ref.path } }
      pending := l.pending ++ [pkg] }

/-- Check a directory, and let its packages wait. -/
def visit (tree : FileTree) (dir : String) (l : Loading) : Except RegistryError Unit × Loading :=
  let check := checkExports tree dir
  let l := { l with workspace := { l.workspace with filesRead := l.workspace.filesRead + check.filesRead } }
  match check.result with
  | .error e => (.error (.load dir e), l)
  | .ok (pkgs, scratch) => (.ok (), pkgs.foldl (fun l pkg => l.enqueue scratch pkg) l)

/-- Check a root: the directory alone, or all directories at and below it that the rules do not skip. -/
def visitRoot (tree : FileTree) (options : LoadRequest) (root : String) (l : Loading) :
    Except RegistryError Unit × Loading :=
  if options.recursive then
    tree.visitDirectories (Exclusions.excludes ⟨options.ignored⟩) root (.traversal root) (visit tree) l
  else visit tree root l

end Loading

namespace Workspace

/-- Extract and register packages in turn, each as an extraction of its own. -/
def registerAll (w : Workspace) : List CheckedPackage → Except RegistryError Unit × Workspace
  | [] => (.ok (), w)
  | pkg :: pkgs =>
    let ledger := w.ledger.advance
    match w.registry.add w.ledger.next (Package.extract pkg.outline w.registry.types) with
    | .error e => (.error e, { w with ledger })
    | .ok registry => registerAll { w with registry, ledger } pkgs

/-- Register what waits, unless the check of the directories failed. -/
def registerFound (found : Except RegistryError Unit × Loading) : Except RegistryError Unit × Workspace :=
  match found with
  | (.error e, l) => (.error e, l.workspace)
  | (.ok (), l) => registerAll l.workspace l.pending

/-- Load the roots of the options. -/
def load (tree : FileTree) (options : LoadRequest) (w : Workspace) : Except RegistryError Unit × Workspace :=
  if w.registry.finalized then (.error (.finalized (options.roots.head?.getD ".")), w)
  else registerFound (visitEach (Loading.visitRoot tree options) options.roots ⟨w, []⟩)

/-- Load one directory. -/
def loadDirectory (tree : FileTree) (dir : String) (w : Workspace) : Except RegistryError Unit × Workspace :=
  if w.registry.finalized then (.error (.finalized dir), w)
  else registerFound (Loading.visit tree dir ⟨w, []⟩)

/-- Record what every aggregate implements, and close the registry. -/
def finalize (w : Workspace) : Except RegistryError Unit × Workspace :=
  match w.registry.finalize w.ledger with
  | .error e => (.error e, w)
  | .ok (registry, ledger) => (.ok (), { w with registry, ledger })

/-- Load the roots of the options and close the registry. -/
def loadAndFinalize (tree : FileTree) (options : LoadRequest) (w : Workspace) : Except RegistryError Unit × Workspace :=
  match w.load tree options with
  | (.error e, w) => (.error e, w)
  | (.ok (), w) => w.finalize

end Workspace

end TypeAtlas
