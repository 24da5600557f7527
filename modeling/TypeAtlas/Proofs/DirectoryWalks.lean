import TypeAtlas.Proofs.FileNames

/-!
# What a walk visits

A walk visits the directories at and below a path that are not cut off: neither they nor a directory on the way to them is
skipped (`FileTree.Shows`).  It visits each of them once, in the order of their paths (`FileNode.mem_directories_iff`,
`FileNode.pairwise_directories`).

The visitor is called on them in turn until it fails, and its failure is the outcome (`Calls`).  That it is called on
nothing else is seen with a visitor that writes down its calls (`recording`).

`FileTree.visitDirectories_calls` has all this in one statement.  With the rules of a load, a directory is shown exactly if
it is not below an ignored path and no name after those of the root is hidden or `vendor`
(`Exclusions.forall_excludes_eq_false_iff`).
-/

namespace TypeAtlas

namespace FileNode

mutual

/-- What holds of files, and of a directory if it holds of its entries, holds of all trees. -/
theorem induction_on {P : FileNode → Prop} (file : ∀ text, P (.file text))
    (dir : ∀ es, (∀ e ∈ es, P e.2) → P (.dir es)) : ∀ t : FileNode, P t
  | .file text => file text
  | .dir es => dir es (induction_entries file dir es)

theorem induction_entries {P : FileNode → Prop} (file : ∀ text, P (.file text))
    (dir : ∀ es, (∀ e ∈ es, P e.2) → P (.dir es)) : ∀ (es : List (String × FileNode)), ∀ e ∈ es, P e.2
  | [], _, he => absurd he List.not_mem_nil
  | (_, t) :: es, e, he => by
    rcases List.mem_cons.1 he with rfl | he
    · exact induction_on file dir t
    · exact induction_entries file dir es e he

end

variable {skip : String → Nat → Bool} {path : String} {depth : Nat} {t : FileNode}

theorem directoriesIn_eq_flatMap (es : List (String × FileNode)) :
    directoriesIn skip path depth es = es.flatMap fun e => e.2.directories skip (Path.join path e.1) depth := by
  induction es with
  | nil => rw [directoriesIn, List.flatMap_nil]
  | cons e es ih => rw [directoriesIn, List.flatMap_cons, ih]

/-! ## Which directories are listed -/

/-- Whether names lead from a tree at `path` to a directory, past nothing that is skipped. -/
def ShowsAt (skip : String → Nat → Bool) (path : String) (depth : Nat) (t : FileNode) (ns : List String) : Prop :=
  (∃ es, t.at? ns = some (dir es)) ∧ ∀ ms, ms <+: ns → skip (Path.below path ms) (depth + ms.length) = false

theorem showsAt_nil : ShowsAt skip path depth t [] ↔ (∃ es, t = dir es) ∧ skip path depth = false := by
  unfold ShowsAt
  simp only [at?, Option.some.injEq, List.prefix_nil, forall_eq, List.length_nil, Nat.add_zero]
  rfl

theorem showsAt_cons {n : String} {ns : List String} :
    ShowsAt skip path depth t (n :: ns) ↔ skip path depth = false ∧
      ∃ c, t.entries.lookup n = some c ∧ ShowsAt skip (Path.join path n) (depth + 1) c ns := by
  have hskip : (∀ ms, ms <+: n :: ns → skip (Path.below path ms) (depth + ms.length) = false) ↔
      skip path depth = false ∧
        ∀ ms, ms <+: ns → skip (Path.below (Path.join path n) ms) (depth + 1 + ms.length) = false := by
    constructor
    · intro h
      refine ⟨h [] List.nil_prefix, fun ms hms => ?_⟩
      have hn := h (n :: ms) (List.cons_prefix_cons.2 ⟨rfl, hms⟩)
      rwa [List.length_cons, Nat.add_comm ms.length, ← Nat.add_assoc] at hn
    · rintro ⟨hpath, h⟩ ms hms
      rcases List.prefix_cons_iff.1 hms with rfl | ⟨ks, rfl, hks⟩
      · exact hpath
      · rw [List.length_cons, Nat.add_comm ks.length, ← Nat.add_assoc]
        exact h ks hks
  unfold ShowsAt
  rw [hskip, at?]
  cases t.entries.lookup n with
  | none => simp
  | some c => simp [and_left_comm]

/-- The entries of an ordered directory are found by their names. -/
theorem lookup_eq_some_iff_of_ordered {es : List (String × FileNode)} (h : (dir es).Ordered) {n : String} {c : FileNode} :
    es.lookup n = some c ↔ (n, c) ∈ es := by
  rw [lookup_eq_find?]
  exact ⟨Table.find?_eq_some_mem, Table.find?_of_mem (ordered_entries h).1⟩

/-- **The listed directories are those that names lead to, past nothing that is skipped.** -/
theorem mem_directories_iff {d : String} (h : t.Ordered) :
    d ∈ t.directories skip path depth ↔ ∃ ns, ShowsAt skip path depth t ns ∧ d = Path.below path ns := by
  induction t using induction_on generalizing path depth with
  | file text =>
    rw [directories]
    refine iff_of_false List.not_mem_nil ?_
    rintro ⟨ns, hns, -⟩
    cases ns with
    | nil => obtain ⟨⟨es, hes⟩, -⟩ := showsAt_nil.1 hns; cases hes
    | cons n ns => obtain ⟨-, c, hc, -⟩ := showsAt_cons.1 hns; cases hc
  | dir es ih =>
    rw [directories]
    split
    case isTrue hskip =>
      refine iff_of_false List.not_mem_nil ?_
      rintro ⟨ns, hns, -⟩
      cases hskip.symm.trans (hns.2 [] List.nil_prefix)
    case isFalse hskip =>
      have hskip : skip path depth = false := by simpa using hskip
      have hentries : d ∈ directoriesIn skip path (depth + 1) es ↔ ∃ n ns, ShowsAt skip path depth (dir es) (n :: ns) ∧
          d = Path.below path (n :: ns) := by
        rw [directoriesIn_eq_flatMap, List.mem_flatMap]
        constructor
        · rintro ⟨⟨n, c⟩, he, hd⟩
          obtain ⟨ns, hns, rfl⟩ := (ih (n, c) he ((ordered_entries h).2 _ he)).1 hd
          exact ⟨n, ns, showsAt_cons.2 ⟨hskip, c, (lookup_eq_some_iff_of_ordered h).2 he, hns⟩, rfl⟩
        · rintro ⟨n, ns, hns, rfl⟩
          obtain ⟨-, c, hc, hns⟩ := showsAt_cons.1 hns
          have he := (lookup_eq_some_iff_of_ordered h).1 hc
          exact ⟨(n, c), he, (ih (n, c) he ((ordered_entries h).2 _ he)).2 ⟨ns, hns, rfl⟩⟩
      rw [List.mem_cons, hentries]
      constructor
      · rintro (rfl | ⟨n, ns, hns, rfl⟩)
        · exact ⟨[], showsAt_nil.2 ⟨⟨es, rfl⟩, hskip⟩, rfl⟩
        · exact ⟨n :: ns, hns, rfl⟩
      · rintro ⟨ns, hns, rfl⟩
        cases ns with
        | nil => exact .inl rfl
        | cons n ns => exact .inr ⟨n, ns, hns, rfl⟩

/-! ## In which order -/

/-- Names that lead somewhere in a tree are possible ones, and so are those that go on from there. -/
theorem WellNamed.of_at? {c : FileNode} {ns : List String} (h : t.WellNamed) (hat : t.at? ns = some c) :
    (∀ n ∈ ns, Path.IsFileName n) ∧ c.WellNamed := by
  induction ns generalizing t with
  | nil =>
    obtain rfl : t = c := Option.some.inj hat
    exact ⟨fun n hn => absurd hn List.not_mem_nil, h⟩
  | cons n ns ih =>
    obtain ⟨child, hchild, hat⟩ := Option.bind_eq_some_iff.1 hat
    obtain ⟨front, rest, hes, -⟩ := List.lookup_eq_some_iff.1 hchild
    obtain ⟨hn, hnamed⟩ := h.entries (n, child) (by simp [hes])
    obtain ⟨hns, hc⟩ := ih hnamed hat
    exact ⟨List.forall_mem_cons.2 ⟨hn, hns⟩, hc⟩

/-- What is listed below an entry of a directory. -/
theorem Regular.exists_below {es : List (String × FileNode)} (h : (dir es).Regular) {e : String × FileNode} (he : e ∈ es)
    {d : String} (hd : d ∈ e.2.directories skip (Path.join path e.1) depth) :
    ∃ ns, (∀ n ∈ e.1 :: ns, Path.IsFileName n) ∧ d = Path.below path (e.1 :: ns) := by
  obtain ⟨ns, ⟨⟨fs, hat⟩, -⟩, rfl⟩ := (mem_directories_iff ((ordered_entries h.ordered).2 e he)).1 hd
  obtain ⟨hname, hnamed⟩ := h.named.entries e he
  exact ⟨ns, List.forall_mem_cons.2 ⟨hname, (hnamed.of_at? hat).1⟩, rfl⟩

/-- **Directories are listed in the order of their paths:** each before what is below it, and that before its next
sibling. -/
theorem pairwise_directories (h : t.Regular) : (t.directories skip path depth).Pairwise Path.Before := by
  induction t using induction_on generalizing path depth with
  | file text =>
    rw [directories]
    exact .nil
  | dir es ih =>
    rw [directories, directoriesIn_eq_flatMap]
    split
    case isTrue => exact .nil
    case isFalse =>
      refine List.pairwise_cons.2 ⟨fun d hd => ?_, List.pairwise_flatMap.2 ⟨fun e he => ?_, ?_⟩⟩
      · obtain ⟨e, he, hd⟩ := List.mem_flatMap.1 hd
        obtain ⟨ns, hns, rfl⟩ := h.exists_below he hd
        exact Path.before_below hns path
      · exact ih e he ⟨(ordered_entries h.ordered).2 e he, (h.named.entries e he).2⟩
      · refine (ordered_entries h.ordered).1.imp_of_mem fun {e f} he hf hlt c hc d hd => ?_
        obtain ⟨ms, hms, rfl⟩ := h.exists_below he hc
        obtain ⟨ns, hns, rfl⟩ := h.exists_below hf hd
        exact Path.below_before_below hms hns (compareOfLessAndEq_eq_lt.1 hlt) path

end FileNode

/-! ## Calls of a visitor -/

section Visitors

variable {σ ε : Type} {visit : String → σ → Except ε Unit × σ}

/-- `Calls visit s dirs r s'`: the visitor is called on `dirs` in turn, beginning in the state `s`; every call succeeds
except perhaps the last one, the outcome is `r`, and the state becomes `s'`. -/
inductive Calls (visit : String → σ → Except ε Unit × σ) : σ → List String → Except ε Unit → σ → Prop where
  | done (s : σ) : Calls visit s [] (.ok ()) s
  | next {dir : String} {dirs : List String} {r : Except ε Unit} {s m s' : σ} :
    visit dir s = (.ok (), m) → Calls visit m dirs r s' → Calls visit s (dir :: dirs) r s'
  | fails {dir : String} {e : ε} {s s' : σ} : visit dir s = (.error e, s') → Calls visit s [dir] (.error e) s'

/-- A visitor that also writes down on which directories it is called. -/
def recording (visit : String → σ → Except ε Unit × σ) (dir : String) (s : σ × List String) :
    Except ε Unit × σ × List String :=
  ((visit dir s.1).1, (visit dir s.1).2, s.2 ++ [dir])

/-- What the calls on `dirs` come to: the visitor is called on the first of them until it fails, on all if it does not. -/
structure CallsFirst (visit : String → σ → Except ε Unit × σ) (dirs : List String) (s : σ) (called : List String)
    (r : Except ε Unit) (s' : σ) : Prop where
  calls : Calls visit s called r s'
  first : called <+: dirs
  all : r = .ok () → called = dirs

/-- **Visiting directories calls the visitor on the first of them, until it fails,** and on nothing else. -/
theorem visitEach_callsFirst (visit : String → σ → Except ε Unit × σ) (dirs : List String) (s : σ) (before : List String) :
    ∃ called r s', CallsFirst visit dirs s called r s' ∧ visitEach visit dirs s = (r, s') ∧
      visitEach (recording visit) dirs (s, before) = (r, s', before ++ called) := by
  induction dirs generalizing s before with
  | nil => exact ⟨[], .ok (), s, ⟨.done s, List.prefix_rfl, fun _ => rfl⟩, rfl, by rw [List.append_nil]; rfl⟩
  | cons dir dirs ih =>
    rw [visitEach, visitEach]
    rcases hv : visit dir s with ⟨e | ⟨⟩, m⟩
    · refine ⟨[dir], .error e, m, ⟨.fails hv, List.cons_prefix_cons.2 ⟨rfl, List.nil_prefix⟩, fun hr => ?_⟩, rfl, ?_⟩
      · cases hr
      · simp only [recording, hv]
    · obtain ⟨called, r, s', h, hplain, hrecorded⟩ := ih m (before ++ [dir])
      refine ⟨dir :: called, r, s', ⟨.next hv h.calls, List.cons_prefix_cons.2 ⟨rfl, h.first⟩, fun hr => ?_⟩, hplain, ?_⟩
      · rw [h.all hr]
      · simp only [recording, hv]
        rw [hrecorded, List.append_assoc, List.singleton_append]

end Visitors

/-! ## The rules of a load -/

namespace Exclusions

variable {rules : Exclusions} {root : String} {ns : List String}

theorem excludesName_eq_false_iff {n : String} :
    excludesName n = false ↔ n.toList.head? ≠ some '.' ∧ n ≠ "vendor" := by
  simp [excludesName]

/-- The rules look at the path as a whole, and below the root at its last name. -/
theorem excludes_below_eq_false_iff (h : ∀ n ∈ ns, Path.IsFileName n) :
    rules.excludes (Path.below root ns) ns.length = false ↔
      (∀ p ∈ rules.ignored, Path.components p ≠ Path.components root ++ ns.map .name) ∧
        ∀ n, ns.getLast? = some n → n.toList.head? ≠ some '.' ∧ n ≠ "vendor" := by
  have hcomponents := Path.components_below h root
  have hignored : rules.ignored.any (samePath (Path.below root ns)) = false ↔
      ∀ p ∈ rules.ignored, Path.components p ≠ Path.components root ++ ns.map .name := by
    simp only [List.any_eq_false, samePath, decide_eq_true_eq, hcomponents]
    exact forall₂_congr fun p _ => not_congr eq_comm
  have hname : ∀ n, ns.getLast? = some n → Path.fileName? (Path.below root ns) = some n := by
    intro n hn
    obtain ⟨ms, rfl⟩ := List.getLast?_eq_some_iff.1 hn
    rw [Path.fileName?, hcomponents, List.map_append, ← List.append_assoc]
    simp
  rw [excludes, Bool.or_eq_false_iff, hignored]
  refine and_congr_right fun _ => ?_
  cases hlast : ns.getLast? with
  | none =>
    rw [List.getLast?_eq_none_iff.1 hlast]
    simp
  | some n =>
    have hpos : 0 < ns.length := List.length_pos_of_mem (List.mem_of_getLast? hlast)
    rw [hname n hlast, decide_eq_true hpos, Bool.true_and]
    dsimp only
    rw [excludesName_eq_false_iff]
    simp

/-- **What the rules let pass:** no directory on the way is ignored, and no name after those of the root is hidden or
`vendor`. -/
theorem forall_excludes_eq_false_iff (h : ∀ n ∈ ns, Path.IsFileName n) :
    (∀ ms, ms <+: ns → rules.excludes (Path.below root ms) ms.length = false) ↔
      (∀ ms, ms <+: ns → ∀ p ∈ rules.ignored, Path.components p ≠ Path.components root ++ ms.map .name) ∧
        ∀ n ∈ ns, n.toList.head? ≠ some '.' ∧ n ≠ "vendor" := by
  have hinit : ∀ ms, ms <+: ns → ∀ n ∈ ms, Path.IsFileName n := fun ms hms n hn => h n (hms.subset hn)
  constructor
  · intro hall
    refine ⟨fun ms hms => ((excludes_below_eq_false_iff (hinit ms hms)).1 (hall ms hms)).1, fun n hn => ?_⟩
    obtain ⟨front, rest, rfl⟩ := List.append_of_mem hn
    have hms : front ++ [n] <+: front ++ n :: rest := ⟨rest, by simp⟩
    exact ((excludes_below_eq_false_iff (hinit _ hms)).1 (hall _ hms)).2 n (by simp)
  · rintro ⟨hignored, hplain⟩ ms hms
    refine (excludes_below_eq_false_iff (hinit ms hms)).2 ⟨hignored ms hms, fun n hn => ?_⟩
    exact hplain n (hms.subset (List.mem_of_getLast? hn))

end Exclusions

/-! ## Walks -/

namespace FileTree

/-- What a path leads to in a regular tree is regular. -/
theorem Regular.of_resolve {tree : FileTree} {root : String} {t : FileNode} (h : tree.Regular)
    (hroot : tree.resolve root = .ok t) : t.Regular := by
  obtain ⟨above, hstands⟩ := stands_of_resolve hroot
  exact ⟨hstands.ordered h.top.ordered, (h.top.named.of_at? hstands.at?_eq).2⟩

/-- Whether a walk from `root` is to visit the directory at `d`: names lead to it from the root, and neither it nor a
directory on the way, the root included, is skipped. -/
def Shows (tree : FileTree) (skip : String → Nat → Bool) (root d : String) : Prop :=
  ∃ start ns es, tree.resolve root = .ok start ∧ start.at? ns = some (.dir es) ∧ d = Path.below root ns ∧
    ∀ ms, ms <+: ns → skip (Path.below root ms) ms.length = false

variable {σ ε : Type} {tree : FileTree} {start : FileNode} {root : String} {skip : String → Nat → Bool}

theorem shows_iff (hroot : tree.resolve root = .ok start) {d : String} :
    tree.Shows skip root d ↔ ∃ ns, FileNode.ShowsAt skip root 0 start ns ∧ d = Path.below root ns := by
  unfold Shows FileNode.ShowsAt
  simp only [hroot, Except.ok.injEq, Nat.zero_add]
  constructor
  · rintro ⟨_, ns, es, rfl, hat, rfl, hskip⟩
    exact ⟨ns, ⟨⟨es, hat⟩, hskip⟩, rfl⟩
  · rintro ⟨ns, ⟨⟨es, hat⟩, hskip⟩, rfl⟩
    exact ⟨start, ns, es, rfl, hat, rfl, hskip⟩

/-- What a walk with a visitor amounts to: `dirs` are the directories to visit, and `called` those on which the visitor is
called. -/
structure Walked (tree : FileTree) (skip : String → Nat → Bool) (root : String) (fail : FileError → ε)
    (visit : String → σ → Except ε Unit × σ) (s : σ) (dirs called : List String) (r : Except ε Unit) (s' : σ) :
    Prop where
  shown : ∀ d, d ∈ dirs ↔ tree.Shows skip root d
  increasing : dirs.Pairwise Path.Before
  once : dirs.Nodup
  outcome : tree.visitDirectories skip root fail visit s = (r, s')
  recorded : tree.visitDirectories skip root fail (recording visit) (s, []) = (r, s', called)
  calls : ∀ start, tree.resolve root = .ok start → CallsFirst visit dirs s called r s'
  missing : ∀ e, tree.resolve root = .error e → called = [] ∧ r = .error (fail e) ∧ s' = s

section

variable {fail : FileError → ε} {visit : String → σ → Except ε Unit × σ} {s : σ}

/-- From a root that leads nowhere, nothing is visited. -/
theorem walked_of_error {e : FileError} (hroot : tree.resolve root = .error e) :
    Walked tree skip root fail visit s [] [] (.error (fail e)) s where
  shown d := by
    refine iff_of_false List.not_mem_nil ?_
    rintro ⟨start, -, -, hstart, -⟩
    cases hroot.symm.trans hstart
  increasing := .nil
  once := .nil
  outcome := by rw [visitDirectories, walk, hroot]
  recorded := by rw [visitDirectories, walk, hroot]
  calls start hstart := by cases hroot.symm.trans hstart
  missing e' he' := by
    cases hroot.symm.trans he'
    exact ⟨rfl, rfl, rfl⟩

/-- From any other root, the directories that are listed are visited. -/
theorem Regular.exists_walked (h : tree.Regular) (hroot : tree.resolve root = .ok start) :
    ∃ called r s', Walked tree skip root fail visit s (start.directories skip root 0) called r s' := by
  have hstart := h.of_resolve hroot
  obtain ⟨called, r, s', hcalls, hplain, hrecorded⟩ :=
    visitEach_callsFirst visit (start.directories skip root 0) s []
  refine ⟨called, r, s', ⟨fun d => ?_, FileNode.pairwise_directories hstart, ?_, ?_, ?_, fun _ _ => hcalls, fun e he => ?_⟩⟩
  · rw [FileNode.mem_directories_iff hstart.ordered, shows_iff hroot]
  · exact (FileNode.pairwise_directories hstart).imp Path.Before.ne
  · rw [visitDirectories, walk, hroot]
    exact hplain
  · rw [visitDirectories, walk, hroot]
    exact hrecorded
  · cases hroot.symm.trans he

end

/-- What the rules of a load show. -/
theorem Regular.shows_excludes_iff (h : tree.Regular) (rules : Exclusions) (d : String) :
    tree.Shows rules.excludes root d ↔
      ∃ start ns es, tree.resolve root = .ok start ∧ start.at? ns = some (.dir es) ∧ d = Path.below root ns ∧
        Path.components d = Path.components root ++ ns.map .name ∧
        (∀ n ∈ ns, n.toList.head? ≠ some '.' ∧ n ≠ "vendor") ∧
        ∀ ms, ms <+: ns → ∀ p ∈ rules.ignored, Path.components p ≠ Path.components root ++ ms.map .name := by
  refine exists_congr fun start => exists_congr fun ns => exists_congr fun es => ?_
  refine and_congr_right fun hroot => and_congr_right fun hat => and_congr_right fun hd => ?_
  have hns := ((h.of_resolve hroot).named.of_at? hat).1
  rw [Exclusions.forall_excludes_eq_false_iff hns, hd, and_iff_right (Path.components_below hns root), and_comm]

/-- **A walk calls its visitor once on each directory that is shown, in the order of the paths, until the visitor fails.**
With the rules of a load, the directories that are shown are those whose names after the root are neither hidden nor
`vendor`, unless a directory on the way, the root included, is the same as an ignored path. -/
theorem visitDirectories_calls (h : tree.Regular) (root : String) (skip : String → Nat → Bool) (fail : FileError → ε)
    (visit : String → σ → Except ε Unit × σ) (s : σ) :
    (∃ dirs called r s', Walked tree skip root fail visit s dirs called r s') ∧
      ∀ (rules : Exclusions) (d : String), tree.Shows rules.excludes root d ↔
        ∃ start ns es, tree.resolve root = .ok start ∧ start.at? ns = some (.dir es) ∧ d = Path.below root ns ∧
          Path.components d = Path.components root ++ ns.map .name ∧
          (∀ n ∈ ns, n.toList.head? ≠ some '.' ∧ n ≠ "vendor") ∧
          ∀ ms, ms <+: ns → ∀ p ∈ rules.ignored, Path.components p ≠ Path.components root ++ ms.map .name := by
  refine ⟨?_, h.shows_excludes_iff⟩
  cases hroot : tree.resolve root with
  | error e => exact ⟨[], [], _, s, walked_of_error hroot⟩
  | ok start => exact ⟨_, h.exists_walked hroot⟩

/-- A project with a hidden directory, the packages of others, and a file beside its directories. -/
def projectTree : FileTree :=
  ((((((empty.makeDir "p/a/inner").makeDir "p/a.old").makeDir "p/b").makeDir "p/.git/objects").makeDir
    "p/vendor").makeDir "p/gen/deep").put "p/a/file.txt" (.file (some "text"))

/-- A visitor that counts its calls, and fails on one directory. -/
def countUntil (last dir : String) (n : Nat) : Except String Unit × Nat :=
  (if dir = last then .error "enough" else .ok (), n + 1)

/-- The walk starts from the top, by a path with a slash in front.  The visitor fails on its fifth call: what is below a
directory comes before its next sibling, and what is hidden, of others or ignored is left out. -/
theorem projectTree_walked :
    projectTree.Regular ∧ ∃ dirs,
      Walked projectTree (Exclusions.excludes ⟨["/work/p/./gen/"]⟩) "/work/p" FileError.message (countUntil "/work/p/b") 0
        dirs ["/work/p", "/work/p/a", "/work/p/a/inner", "/work/p/a.old", "/work/p/b"] (.error "enough") 5 := by
  have hregular : projectTree.Regular :=
    ((((((regular_empty.makeDir _).makeDir _).makeDir _).makeDir _).makeDir _).makeDir _).put _ _
  have hvisited : projectTree.visitDirectories (Exclusions.excludes ⟨["/work/p/./gen/"]⟩) "/work/p" FileError.message
      (recording (countUntil "/work/p/b")) (0, []) =
        (.error "enough", 5, ["/work/p", "/work/p/a", "/work/p/a/inner", "/work/p/a.old", "/work/p/b"]) := by
    decide +kernel
  obtain ⟨dirs, called, r, s', hwalked⟩ := (visitDirectories_calls hregular "/work/p"
    (Exclusions.excludes ⟨["/work/p/./gen/"]⟩) FileError.message (countUntil "/work/p/b") 0).1
  obtain ⟨rfl, rfl, rfl⟩ : r = .error "enough" ∧ s' = 5 ∧
      called = ["/work/p", "/work/p/a", "/work/p/a/inner", "/work/p/a.old", "/work/p/b"] := by
    simpa using hwalked.recorded.symm.trans hvisited
  exact ⟨hregular, dirs, hwalked⟩

end FileTree

end TypeAtlas
