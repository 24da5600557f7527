import TypeAtlas.Proofs.Loading

/-!
# Trees from which files are taken out

`FileTree.prune` takes files out of a tree.  A file is told by its place, the list of names that lead to it from the top.

A path leads to a place whatever stands there (`FileTree.placeOf`), and what it leads to stands at that place
(`FileTree.at?_of_resolve`).  So a path that leads to a file which is taken out leads nowhere afterwards, and any other path
leads to what is left of what it led to before (`FileTree.Removable.resolve_prune`).  The directories of a walk remain
(`FileTree.Removable.walk_prune`), and a directory has the export files that are not taken out
(`FileTree.Removable.exportFiles_prune`).

All this is about trees whose directories have their entries in the order of their names (`FileTree.Ordered`), as those have
that are made by file operations (`FileTree.ordered_put`, `FileTree.ordered_makeDir`).
-/

namespace TypeAtlas

/-! ## Places -/

namespace Path

/-- Where a part of a path leads from a place. -/
def followPart (place : List String) (s : List Char) : List String :=
  match component? s with
  | some c => c.follow place
  | none => place

/-- A part of a path is nothing, a pair of dots, or a name. -/
theorem component?_cases (s : List Char) :
    component? s = none ∨ component? s = some .up ∨ ∃ n, component? s = some (.name n) := by
  unfold component?
  split
  · exact .inl rfl
  · split
    · exact .inr (.inl rfl)
    · exact .inr (.inr ⟨_, rfl⟩)

end Path

namespace FileNode

/-- What stands at a place. -/
def at? (t : FileNode) : List String → Option FileNode
  | [] => some t
  | n :: ns => (t.entries.lookup n).bind fun c => c.at? ns

theorem at?_append (ns ms : List String) (t : FileNode) : t.at? (ns ++ ms) = (t.at? ns).bind fun c => c.at? ms := by
  induction ns generalizing t with
  | nil => rfl
  | cons n ns ih =>
    rw [List.cons_append, at?, at?]
    cases t.entries.lookup n with
    | none => rfl
    | some c => exact ih c

/-- Whether `current` stands at a place below `top`, with the directories `above` on the way, the nearest first. -/
inductive Stands (top : FileNode) : List String → List FileNode → FileNode → Prop where
  | top : Stands top [] [] top
  | enter {place : List String} {above : List FileNode} {es : List (String × FileNode)} {n : String} {t : FileNode} :
    Stands top place above (dir es) → es.lookup n = some t → Stands top (place ++ [n]) (dir es :: above) t

theorem Stands.at?_eq {top current : FileNode} {place : List String} {above : List FileNode}
    (h : Stands top place above current) : top.at? place = some current := by
  induction h with
  | top => rfl
  | enter _ hn ih =>
    rw [at?_append, ih, Option.bind_some, at?, entries, hn]
    rfl

/-- One part of a path leads nowhere else, up, or to an entry. -/
theorem descend_cons (above : List FileNode) (es : List (String × FileNode)) (s : List Char) (ss : List (List Char)) :
    descend above (dir es) (s :: ss) =
      match Path.component? s with
      | none => descend above (dir es) ss
      | some (.name n) =>
        match es.lookup n with
        | some t => descend (dir es :: above) t ss
        | none => .error .notFound
      | some _ =>
        match above with
        | t :: ts => descend ts t ss
        | [] => descend [] (dir es) ss := by
  unfold Path.component?
  conv => lhs; unfold descend
  dsimp only
  split
  · rfl
  · split
    · rfl
    · rfl

/-- **Going on along a path, one stands where the path leads.** -/
theorem Stands.descend {top t : FileNode} (ss : List (List Char)) {place : List String} {above : List FileNode}
    {current : FileNode} (h : Stands top place above current) (hd : descend above current ss = .ok t) :
    ∃ above', Stands top (ss.foldl Path.followPart place) above' t := by
  induction ss generalizing place above current with
  | nil =>
    obtain rfl : current = t := Except.ok.inj hd
    exact ⟨above, h⟩
  | cons s ss ih =>
    cases current with
    | file text => cases hd
    | dir es =>
      rw [descend_cons] at hd
      rw [List.foldl_cons, Path.followPart]
      rcases Path.component?_cases s with hs | hs | ⟨n, hs⟩
      · rw [hs] at hd ⊢
        exact ih h hd
      · rw [hs] at hd ⊢
        cases h with
        | top => exact ih .top hd
        | enter h' _ =>
          dsimp only [Path.Component.follow]
          rw [List.dropLast_concat]
          exact ih h' hd
      · rw [hs] at hd ⊢
        dsimp only at hd
        split at hd
        case h_1 c hc => exact ih (h.enter hc) hd
        case h_2 => cases hd

/-! ## Ordered trees -/

mutual

/-- Whether all directories have their entries in the order of their names. -/
def Ordered : FileNode → Prop
  | file _ => True
  | dir es => (es.Pairwise fun x y => compare x.1 y.1 = .lt) ∧ OrderedIn es

/-- Whether all entries are ordered trees. -/
def OrderedIn : List (String × FileNode) → Prop
  | [] => True
  | (_, t) :: es => Ordered t ∧ OrderedIn es

end

theorem orderedIn_iff : ∀ {es : List (String × FileNode)}, OrderedIn es ↔ ∀ e ∈ es, e.2.Ordered
  | [] => by simp [OrderedIn]
  | (n, t) :: es => by rw [OrderedIn, orderedIn_iff, List.forall_mem_cons]

theorem ordered_entries {t : FileNode} (h : t.Ordered) :
    (t.entries.Pairwise fun x y => compare x.1 y.1 = .lt) ∧ ∀ e ∈ t.entries, e.2.Ordered := by
  cases t with
  | file text => exact ⟨.nil, fun e he => absurd he List.not_mem_nil⟩
  | dir es =>
    rw [Ordered, orderedIn_iff] at h
    exact h

theorem ordered_of_lookup {t c : FileNode} {n : String} (h : t.Ordered) (hn : t.entries.lookup n = some c) :
    c.Ordered := by
  obtain ⟨front, rest, hes, -⟩ := List.lookup_eq_some_iff.1 hn
  exact (ordered_entries h).2 (n, c) (by simp [hes])

/-- Changing what stands at a place keeps a tree ordered. -/
theorem ordered_graft {change : FileNode → FileNode} (hc : ∀ t, t.Ordered → (change t).Ordered) (ns : List String)
    {t : FileNode} (h : t.Ordered) : (graft change ns t).Ordered := by
  induction ns generalizing t with
  | nil => exact hc t h
  | cons n ns ih =>
    obtain ⟨hsorted, hes⟩ := ordered_entries h
    have hchild : ((t.entries.lookup n).getD empty).Ordered := by
      cases hn : t.entries.lookup n with
      | none =>
        rw [Option.getD_none, empty, Ordered, orderedIn_iff]
        exact ⟨.nil, fun e he => absurd he List.not_mem_nil⟩
      | some c => exact ordered_of_lookup h hn
    rw [graft, Ordered, orderedIn_iff]
    refine ⟨Table.sorted_place n _ hsorted, fun e he => ?_⟩
    rcases Table.eq_or_mem_of_mem_place he with rfl | he
    · exact ih hchild
    · exact hes e he

theorem ordered_graftAlong {change : FileNode → FileNode} (hc : ∀ t, t.Ordered → (change t).Ordered)
    (cs : List Path.Component) {place : List String} {t : FileNode} (h : t.Ordered) :
    (graftAlong change place t cs).Ordered := by
  induction cs generalizing place t with
  | nil => exact ordered_graft hc place h
  | cons c cs ih => exact ih (ordered_graft (fun _ ht => ht) place h)

theorem Stands.ordered {top current : FileNode} {place : List String} {above : List FileNode}
    (h : Stands top place above current) (ho : top.Ordered) : current.Ordered := by
  induction h with
  | top => exact ho
  | enter _ hn ih => exact ordered_of_lookup ih hn

/-! ## Taking files out -/

/-- Whether a tree is a file. -/
def isFile : FileNode → Bool
  | file _ => true
  | dir _ => false

mutual

/-- A tree that stands at a place, without the files at the places `out`. -/
def prune (out : List String → Bool) (place : List String) : FileNode → FileNode
  | file text => file text
  | dir es => dir (pruneIn out place es)

/-- The entries of the directory at a place, without the files at the places `out`. -/
def pruneIn (out : List String → Bool) (place : List String) : List (String × FileNode) → List (String × FileNode)
  | [] => []
  | (n, t) :: es =>
    if t.isFile && out (place ++ [n]) then pruneIn out place es
    else (n, prune out (place ++ [n]) t) :: pruneIn out place es

end

variable {out : List String → Bool}

/-- Entries are looked up as the bindings of a table are. -/
theorem lookup_eq_find? (n : String) : ∀ es : List (String × FileNode), es.lookup n = Table.find? n es
  | [] => rfl
  | (m, t) :: es => by
    rw [List.lookup_cons, Table.find?, lookup_eq_find? n es]
    by_cases hn : n = m
    · rw [if_pos (Std.compare_eq_iff_eq.2 hn), beq_iff_eq.2 hn]
    · rw [if_neg fun h => hn (Std.compare_eq_iff_eq.1 h), beq_eq_false_iff_ne.2 hn]

theorem lt_of_mem_pruneIn {n : String} (place : List String) :
    ∀ {es : List (String × FileNode)}, (∀ e ∈ es, compare n e.1 = .lt) → ∀ e ∈ pruneIn out place es, compare n e.1 = .lt
  | [], _, _, he => by
    rw [pruneIn] at he
    cases he
  | (m, t) :: es, h, e, he => by
    have ih : ∀ e ∈ pruneIn out place es, compare n e.1 = .lt :=
      lt_of_mem_pruneIn place fun d hd => h d (List.mem_cons_of_mem _ hd)
    rw [pruneIn] at he
    split at he
    · exact ih e he
    · rcases List.mem_cons.1 he with rfl | he
      · exact h (m, t) List.mem_cons_self
      · exact ih e he

/-- **What is left under a name.** -/
theorem lookup_pruneIn (n : String) (place : List String) :
    ∀ {es : List (String × FileNode)}, (es.Pairwise fun x y => compare x.1 y.1 = .lt) →
      (pruneIn out place es).lookup n =
        (es.lookup n).bind fun t =>
          if t.isFile && out (place ++ [n]) then none else some (t.prune out (place ++ [n]))
  | [], _ => rfl
  | (m, t) :: es, h => by
    obtain ⟨hm, hes⟩ := List.pairwise_cons.1 h
    have ih := lookup_pruneIn n place hes
    rw [pruneIn, List.lookup_cons]
    by_cases hn : n = m
    · subst hn
      rw [beq_self_eq_true]
      dsimp only [Option.bind_some]
      split
      · rw [lookup_eq_find?]
        exact Table.find?_eq_none_of_lt (lt_of_mem_pruneIn place hm)
      · rw [List.lookup_cons, beq_self_eq_true]
    · rw [beq_eq_false_iff_ne.2 hn]
      dsimp only
      split
      · exact ih
      · rw [List.lookup_cons, beq_eq_false_iff_ne.2 hn]
        exact ih

/-- The directories above a place, each without the files that are taken out. -/
def pruneAbove (out : List String → Bool) : List String → List FileNode → List FileNode
  | _, [] => []
  | place, t :: ts => t.prune out place.dropLast :: pruneAbove out place.dropLast ts

/-- What a path to a place leads to once files are taken out, if it led to `t` before. -/
def remains (out : List String → Bool) (place : List String) (t : FileNode) : Except FileError FileNode :=
  if t.isFile && out place then .error .notFound else .ok (t.prune out place)

/-- **Going on along a path in what is left.**  The way is the same, and only its end may be taken out. -/
theorem descend_prune {top t : FileNode} (ho : top.Ordered) (ss : List (List Char)) {place : List String}
    {above : List FileNode} {current : FileNode} (h : Stands top place above current)
    (hkept : (current.isFile && out place) = false) (hd : descend above current ss = .ok t) :
    descend (pruneAbove out place above) (current.prune out place) ss =
      remains out (ss.foldl Path.followPart place) t := by
  induction ss generalizing place above current with
  | nil =>
    obtain rfl : current = t := Except.ok.inj hd
    rw [List.foldl_nil, remains, if_neg (Bool.not_eq_true _ ▸ hkept)]
    rfl
  | cons s ss ih =>
    cases current with
    | file text => cases hd
    | dir es =>
      rw [descend_cons] at hd
      rw [List.foldl_cons, prune, descend_cons]
      rcases Path.component?_cases s with hs | hs | ⟨n, hs⟩
      · have hfollow : Path.followPart place s = place := by rw [Path.followPart, hs]
        rw [hs] at hd ⊢
        rw [hfollow, ← ih h hkept hd, prune]
      · have hfollow : Path.followPart place s = place.dropLast := by rw [Path.followPart, hs]; rfl
        rw [hs] at hd ⊢
        rw [hfollow]
        cases h with
        | top => exact ih .top hkept hd
        | enter h' _ =>
          rw [List.dropLast_concat, ← ih h' rfl hd, pruneAbove, List.dropLast_concat]
      · have hfollow : Path.followPart place s = place ++ [n] := by rw [Path.followPart, hs]; rfl
        have horder := h.ordered ho
        rw [Ordered] at horder
        rw [hs] at hd ⊢
        dsimp only at hd ⊢
        rw [hfollow, lookup_pruneIn n place horder.1]
        split at hd
        case h_2 => cases hd
        case h_1 c hc =>
          rw [hc, Option.bind_some]
          by_cases hout : (c.isFile && out (place ++ [n])) = true
          · -- A file can only be the end of a path.
            cases c with
            | dir _ => cases hout
            | file text =>
              cases ss with
              | cons _ _ => cases hd
              | nil =>
                obtain rfl : file text = t := Except.ok.inj hd
                rw [if_pos hout, List.foldl_nil, remains, if_pos hout]
          · rw [if_neg hout, ← ih (h.enter hc) (Bool.not_eq_true _ ▸ hout) hd, pruneAbove, List.dropLast_concat, prune]

mutual

theorem directories_prune (skip : String → Nat → Bool) (path : String) (depth : Nat) (place : List String) :
    ∀ t : FileNode, directories skip path depth (t.prune out place) = directories skip path depth t
  | file _ => by rw [prune]
  | dir es => by rw [prune, directories, directories, directoriesIn_prune skip path (depth + 1) place es]

theorem directoriesIn_prune (skip : String → Nat → Bool) (path : String) (depth : Nat) (place : List String) :
    ∀ es : List (String × FileNode), directoriesIn skip path depth (pruneIn out place es) =
      directoriesIn skip path depth es
  | [] => by rw [pruneIn]
  | (n, t) :: es => by
    have ih := directoriesIn_prune skip path depth place es
    rw [pruneIn]
    split
    case isTrue h =>
      cases t with
      | dir _ => cases h
      | file text => rw [ih, directoriesIn, directories, List.nil_append]
    case isFalse =>
      rw [directoriesIn, directoriesIn, ih, directories_prune skip (Path.join path n) depth (place ++ [n]) t]

end

/-- The export files that are not taken out are left. -/
theorem filterMap_exportText?_pruneIn (place : List String) :
    ∀ es : List (String × FileNode), (pruneIn out place es).filterMap exportText? =
      (es.filterMap exportText?).filter fun f => !out (place ++ [f.1])
  | [] => by
    rw [pruneIn]
    rfl
  | (n, dir ds) :: es => by
    have hnone : ∀ ds, exportText? (n, dir ds) = none := fun _ => rfl
    rw [pruneIn, isFile, Bool.false_and, if_neg Bool.false_ne_true, prune, List.filterMap_cons_none (hnone _),
      List.filterMap_cons_none (hnone _), filterMap_exportText?_pruneIn place es]
  | (n, file text) :: es => by
    have ih := filterMap_exportText?_pruneIn place es
    have htext : exportText? (n, file text) = if isExportName n then some (n, text) else none := rfl
    rw [pruneIn, isFile, Bool.true_and, prune]
    by_cases hname : isExportName n = true
    · rw [if_pos hname] at htext
      rw [List.filterMap_cons_some htext, List.filter_cons]
      by_cases hout : out (place ++ [n]) = true
      · rw [if_pos hout, ih, hout]
        rfl
      · rw [if_neg hout, List.filterMap_cons_some htext, ih, Bool.eq_false_iff.2 hout]
        rfl
    · rw [if_neg hname] at htext
      rw [List.filterMap_cons_none htext, ← ih]
      split
      · rfl
      · rw [List.filterMap_cons_none htext]

end FileNode

/-! ## Paths -/

namespace FileTree

/-- Where a path leads, by the names that lead there from the top. -/
def placeOf (t : FileTree) (path : String) : List String := ((t.way path).getD []).foldl Path.followPart []

/-- Whether all directories have their entries in the order of their names. -/
def Ordered (t : FileTree) : Prop := t.top.Ordered

/-- **Making directories keeps a tree ordered.** -/
theorem ordered_makeDir {t : FileTree} (h : t.Ordered) (path : String) : (t.makeDir path).Ordered :=
  FileNode.ordered_graftAlong (fun _ ht => ht) _ h

/-- **Putting a file keeps a tree ordered.** -/
theorem ordered_put {t : FileTree} (h : t.Ordered) (path : String) (text : Option String) :
    (t.put path (.file text)).Ordered :=
  FileNode.ordered_graftAlong (fun _ _ => by rw [FileNode.Ordered]; trivial) _ h

variable {tree : FileTree} {t : FileNode} {path : String} {es : List (String × FileNode)}

theorem stands_of_resolve (h : tree.resolve path = .ok t) :
    ∃ above, FileNode.Stands tree.top (tree.placeOf path) above t := by
  unfold resolve at h
  split at h
  case h_1 => cases h
  case h_2 ss hway =>
    rw [placeOf, hway]
    exact FileNode.Stands.top.descend ss h

/-- **What a path leads to stands at its place.** -/
theorem at?_of_resolve (h : tree.resolve path = .ok t) : tree.top.at? (tree.placeOf path) = some t := by
  obtain ⟨above, hs⟩ := stands_of_resolve h
  exact hs.at?_eq

theorem resolve_of_list (h : tree.list path = .ok es) : tree.resolve path = .ok (.dir es) := by
  unfold list at h
  split at h
  case h_1 hr => rw [hr, Except.ok.inj h]
  case h_2 => cases h
  case h_3 => cases h

/-- A tree without the files at the places `out`. -/
def prune (out : List String → Bool) (t : FileTree) : FileTree := { t with top := t.top.prune out [] }

/-- Whether files can be taken out: the tree is ordered, and there are files at the places. -/
structure Removable (tree : FileTree) (out : List String → Bool) : Prop where
  ordered : tree.Ordered
  below : out [] = false
  files : ∀ place, out place = true → ∃ text, tree.top.at? place = some (.file text)

namespace Removable

variable {out : List String → Bool} (h : tree.Removable out)
include h

/-- **Where a path leads in what is left.** -/
theorem resolve_prune (hr : tree.resolve path = .ok t) :
    (tree.prune out).resolve path =
      if out (tree.placeOf path) then .error .notFound else .ok (t.prune out (tree.placeOf path)) := by
  have hkept : (tree.top.isFile && out []) = false := by rw [h.below, Bool.and_false]
  have hremains : (tree.prune out).resolve path = FileNode.remains out (tree.placeOf path) t := by
    have hway : (tree.prune out).way path = tree.way path := rfl
    unfold resolve at hr ⊢
    rw [hway, placeOf]
    split at hr
    case h_1 => cases hr
    case h_2 ss hss =>
      rw [hss]
      exact FileNode.descend_prune h.ordered ss .top hkept hr
  rw [hremains, FileNode.remains]
  split
  case isTrue hgone => rw [if_pos (Bool.and_eq_true_iff.1 hgone).2]
  case isFalse hleft =>
    refine (if_neg fun hout => hleft ?_).symm
    obtain ⟨text, htext⟩ := h.files _ hout
    rw [at?_of_resolve hr] at htext
    rw [Option.some.inj htext, hout]
    rfl

/-- There are no files to take out at the place of a directory. -/
theorem out_of_list (hl : tree.list path = .ok es) : out (tree.placeOf path) = false := by
  refine Bool.eq_false_iff.2 fun hout => ?_
  obtain ⟨text, htext⟩ := h.files _ hout
  rw [at?_of_resolve (resolve_of_list hl)] at htext
  cases htext

theorem list_prune (hl : tree.list path = .ok es) :
    (tree.prune out).list path = .ok (FileNode.pruneIn out (tree.placeOf path) es) := by
  rw [list, h.resolve_prune (resolve_of_list hl), h.out_of_list hl, if_neg Bool.false_ne_true, FileNode.prune]

/-- **A walk goes through the same directories,** if its start is left. -/
theorem walk_prune {skip : String → Nat → Bool} {root : String} {dirs : List String}
    (hw : tree.walk skip root = .ok dirs) :
    (tree.prune out).walk skip root = if out (tree.placeOf root) then .error .notFound else .ok dirs := by
  unfold walk at hw ⊢
  split at hw
  case h_2 => cases hw
  case h_1 start hr =>
    rw [h.resolve_prune hr, ← hw]
    by_cases hout : out (tree.placeOf root) = true
    · rw [if_pos hout, if_pos hout]
    · rw [if_neg hout, if_neg hout]
      exact congrArg Except.ok (FileNode.directories_prune skip root 0 (tree.placeOf root) start)

/-- **A directory has the export files that are not taken out.** -/
theorem exportFiles_prune (hl : tree.list path = .ok es) :
    (tree.prune out).exportFiles path = (tree.exportFiles path).filter fun f => !out (tree.placeOf path ++ [f.1]) := by
  unfold exportFiles
  rw [h.list_prune hl, hl]
  dsimp only
  rw [filterMap_exportFile?, filterMap_exportFile?, FileNode.filterMap_exportText?_pruneIn]
  generalize es.filterMap exportText? = files
  rw [List.filterMap_filter, List.filter_filterMap]
  congr 1
  funext f
  cases exportIn? f with
  | none => simp
  | some e => cases hout : out (tree.placeOf path ++ [f.1]) <;> simp [Option.filter, hout]

/-- A directory that passes its check still does. -/
theorem checkExports_prune (hc : ∃ r, (checkExports tree path).result = .ok r) :
    ∃ r, (checkExports (tree.prune out) path).result = .ok r := by
  obtain ⟨entries, hl, hfiles⟩ := checkExports_isOk_iff.1 hc
  refine checkExports_isOk_iff.2 ⟨_, h.list_prune hl, fun f hf => hfiles f ?_⟩
  rw [FileNode.filterMap_exportText?_pruneIn] at hf
  exact (List.mem_filter.1 hf).1

end Removable

end FileTree

end TypeAtlas
