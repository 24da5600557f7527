import Mathlib.Data.List.Lex
import TypeAtlas.Proofs.Pruning

/-!
# The names of files, and the order of paths

What stands below a path has the components of the path and then the names that lead to it (`Path.components_below`).  This
is so for names that files can have (`Path.IsFileName`), however the path is written: with slashes at its end, with dots
inside, or with a slash in front.

Paths are ordered component by component (`Path.Before`).  So a directory comes before all that is below it, and all that is
below it comes before its next sibling, which is not the order of the texts: `a/b` comes before `a.b`.

Trees that are made by file operations have such names only, in order (`FileTree.Regular.put`, `FileTree.Regular.makeDir`).
-/

namespace TypeAtlas

namespace Path

/-- Whether a file or a directory can have a name. -/
def IsFileName (n : String) : Prop := n ≠ "" ∧ n ≠ "." ∧ n ≠ ".." ∧ '/' ∉ n.toList

instance (n : String) : Decidable (IsFileName n) := inferInstanceAs (Decidable (_ ∧ _))

theorem component?_of_isFileName {n : String} (h : IsFileName n) : component? n.toList = some (.name n) := by
  obtain ⟨hempty, hdot, hdots, -⟩ := h
  have hne : ∀ {m : String}, n ≠ m → n.toList ≠ m.toList := fun hm h => hm (String.toList_inj.1 h)
  have hplain : ¬ (n.toList = [] ∨ n.toList = ['.']) := not_or.2 ⟨hne hempty, hne hdot⟩
  have hup : ¬ n.toList = ['.', '.'] := hne hdots
  rw [component?, if_neg hplain, if_neg hup, String.ofList_toList]

/-- A part of a path without slashes that is a name is one that files can have. -/
theorem isFileName_of_component? {s : List Char} {n : String} (hs : '/' ∉ s) (h : component? s = some (.name n)) :
    IsFileName n := by
  unfold component? at h
  split at h
  · cases h
  case isFalse hplain =>
    split at h
    · cases h
    case isFalse hup =>
      cases h
      have hne : ∀ {m : String}, s ≠ m.toList → String.ofList s ≠ m := by
        rintro m hm rfl
        exact hm String.toList_ofList.symm
      rw [not_or] at hplain
      exact ⟨hne hplain.1, hne hplain.2, hne hup, by rwa [String.toList_ofList]⟩

/-! ## The parts of a path -/

theorem segments_ne_nil (cs : List Char) : segments cs ≠ [] := by
  cases cs with
  | nil => exact List.cons_ne_nil _ _
  | cons c cs =>
    rw [segments]
    split
    · exact List.cons_ne_nil _ _
    · split <;> exact List.cons_ne_nil _ _

theorem segments_of_not_mem {cs : List Char} (h : '/' ∉ cs) : segments cs = [cs] := by
  induction cs with
  | nil => rfl
  | cons c cs ih =>
    rw [List.mem_cons, not_or] at h
    rw [segments, if_neg (Ne.symm h.1), ih h.2]

theorem segments_append_slash (xs ys : List Char) : segments (xs ++ '/' :: ys) = segments xs ++ segments ys := by
  induction xs with
  | nil => rfl
  | cons c xs ih =>
    rw [List.cons_append, segments, segments, ih]
    split
    · rfl
    · obtain ⟨s, ss, hs⟩ := List.exists_cons_of_ne_nil (segments_ne_nil xs)
      rw [hs]
      rfl

/-- No part of a path has a slash. -/
theorem slash_not_mem_segments {cs : List Char} : ∀ s ∈ segments cs, '/' ∉ s := by
  induction cs with
  | nil => simp [segments]
  | cons c cs ih =>
    obtain ⟨s, ss, hs⟩ := List.exists_cons_of_ne_nil (segments_ne_nil cs)
    rw [hs, List.forall_mem_cons] at ih
    rw [segments, hs]
    split
    case isTrue => exact List.forall_mem_cons.2 ⟨List.not_mem_nil, List.forall_mem_cons.2 ih⟩
    case isFalse hc =>
      refine List.forall_mem_cons.2 ⟨fun h => ?_, ih.2⟩
      rcases List.mem_cons.1 h with h | h
      · exact hc h.symm
      · exact ih.1 h

/-- The components that parts give. -/
def componentsOf : List (List Char) → List Component
  | [] :: s :: ss => .root :: (s :: ss).filterMap component?
  | ['.'] :: ss => .here :: ss.filterMap component?
  | ss => ss.filterMap component?

theorem components_eq (p : String) : components p = componentsOf (segments p.toList) := rfl

/-- What the first of several parts gives. -/
def leading (s : List Char) : List Component :=
  if s = [] then [.root] else if s = ['.'] then [.here] else (component? s).toList

theorem componentsOf_cons {s : List Char} {ss : List (List Char)} (h : s = [] → ss ≠ []) :
    componentsOf (s :: ss) = leading s ++ ss.filterMap component? := by
  unfold componentsOf
  split
  case h_1 t ts heq =>
    cases heq
    rfl
  case h_2 ts heq =>
    cases heq
    rfl
  case h_3 hroot hhere =>
    have hs : s ≠ [] := by
      rintro rfl
      obtain ⟨t, ts, rfl⟩ := List.exists_cons_of_ne_nil (h rfl)
      exact hroot t ts rfl
    have hdot : s ≠ ['.'] := by
      rintro rfl
      exact hhere ss rfl
    rw [leading, if_neg hs, if_neg hdot, List.filterMap_cons]
    cases component? s <;> rfl

/-- After a slash, a part gives its component. -/
theorem componentsOf_append {ss : List (List Char)} (h : ss ≠ []) (s : List Char) :
    componentsOf (ss ++ [s]) = componentsOf (ss ++ [[]]) ++ (component? s).toList := by
  obtain ⟨t, ts, rfl⟩ := List.exists_cons_of_ne_nil h
  have hmore : ∀ r : List Char, t = [] → ts ++ [r] ≠ [] := fun r _ => List.append_ne_nil_of_right_ne_nil ts (by simp)
  have hlast : [s].filterMap component? = (component? s).toList := by
    cases hs : component? s <;> simp [hs]
  have hempty : [[]].filterMap component? = [] := rfl
  rw [List.cons_append, componentsOf_cons (hmore s), List.cons_append, componentsOf_cons (hmore []),
    List.filterMap_append, List.filterMap_append, hlast, hempty, List.append_nil, List.append_assoc]

/-- A slash at the end says nothing, unless it is all there is. -/
theorem componentsOf_append_nil {ss : List (List Char)} (h : ss ≠ []) (hempty : ss ≠ [[]]) :
    componentsOf (ss ++ [[]]) = componentsOf ss := by
  obtain ⟨t, ts, rfl⟩ := List.exists_cons_of_ne_nil h
  have hts : t = [] → ts ≠ [] := by
    rintro rfl rfl
    exact hempty rfl
  have hmore : t = [] → ts ++ [[]] ≠ [] := fun _ => List.append_ne_nil_of_right_ne_nil ts (by simp)
  rw [List.cons_append, componentsOf_cons hmore, componentsOf_cons hts, List.filterMap_append]
  exact congrArg _ (List.append_nil _)

theorem eq_nil_of_segments_eq {cs : List Char} (h : segments cs = [[]]) : cs = [] := by
  cases cs with
  | nil => rfl
  | cons c cs =>
    obtain ⟨s, ss, hs⟩ := List.exists_cons_of_ne_nil (segments_ne_nil cs)
    rw [segments, hs] at h
    split at h
    · cases h
    · cases h

/-- **A name below a path is one more component of it.** -/
theorem components_join {n : String} (hn : IsFileName n) (p : String) :
    components (join p n) = components p ++ [.name n] := by
  have hname : (component? n.toList).toList = [.name n] := congrArg Option.toList (component?_of_isFileName hn)
  have hsegments : segments n.toList = [n.toList] := segments_of_not_mem hn.2.2.2
  rw [components_eq, components_eq]
  unfold join
  split
  case h_1 hp =>
    -- The empty path has no part that counts.
    have hp : p.toList = [] := List.getLast?_eq_none_iff.1 hp
    have hplain : n.toList ≠ [] := fun h => hn.1 (String.toList_inj.1 h)
    have hdot : n.toList ≠ ['.'] := fun h => hn.2.1 (String.toList_inj.1 h)
    rw [hp, hsegments, componentsOf_cons fun h => absurd h hplain, leading, if_neg hplain, if_neg hdot, hname]
    rfl
  case h_2 hp =>
    obtain ⟨cs, hcs⟩ := List.getLast?_eq_some_iff.1 hp
    rw [String.toList_append, hcs, List.append_assoc, List.singleton_append, segments_append_slash,
      segments_append_slash, hsegments, componentsOf_append (segments_ne_nil cs), hname]
    rfl
  case h_3 c hc hp =>
    have hempty : segments p.toList ≠ [[]] := by
      intro h
      rw [eq_nil_of_segments_eq h] at hp
      cases hp
    have hslash : (p ++ "/" ++ n).toList = p.toList ++ '/' :: n.toList := by simp
    rw [hslash, segments_append_slash, hsegments, componentsOf_append (segments_ne_nil _),
      componentsOf_append_nil (segments_ne_nil _) hempty, hname]

/-- What a list of names leads to from a path. -/
def below (p : String) (ns : List String) : String := ns.foldl join p

/-- **What stands below a path has the components of the path, and then the names that lead to it.** -/
theorem components_below {ns : List String} (h : ∀ n ∈ ns, IsFileName n) (p : String) :
    components (below p ns) = components p ++ ns.map .name := by
  induction ns generalizing p with
  | nil => exact (List.append_nil _).symm
  | cons n ns ih =>
    rw [List.forall_mem_cons] at h
    show components (below (join p n) ns) = _
    rw [ih h.2, components_join h.1, List.append_assoc]
    rfl

/-- The names in a path are those that files can have. -/
theorem isFileName_of_mem_components {p n : String} (h : .name n ∈ components p) : IsFileName n := by
  have hparts : ∀ ss : List (List Char), (∀ s ∈ ss, '/' ∉ s) → .name n ∈ ss.filterMap component? → IsFileName n := by
    intro ss hss hmem
    obtain ⟨s, hs, hc⟩ := List.mem_filterMap.1 hmem
    exact isFileName_of_component? (hss s hs) hc
  have hslash : ∀ s ∈ segments p.toList, '/' ∉ s := slash_not_mem_segments
  unfold components at h
  split at h
  case h_1 s ss hs =>
    rw [hs, List.forall_mem_cons] at hslash
    exact hparts _ hslash.2 ((List.mem_cons.1 h).resolve_left nofun)
  case h_2 ss hs =>
    rw [hs, List.forall_mem_cons] at hslash
    exact hparts _ hslash.2 ((List.mem_cons.1 h).resolve_left nofun)
  case h_3 => exact hparts _ hslash h

/-! ## The order of paths -/

/-- The kinds of components, in order. -/
def Component.rank : Component → Nat
  | root => 0
  | here => 1
  | up => 2
  | name _ => 3

/-- Whether a component comes before another one.  Names are ordered among themselves, and come after all else. -/
def Component.Before : Component → Component → Prop
  | name m, name n => m < n
  | c, d => c.rank < d.rank

theorem Component.not_before_self (c : Component) : ¬ c.Before c := by
  cases c with
  | name n => exact String.lt_irrefl n
  | _ => exact Nat.lt_irrefl _

/-- Whether a path comes before another one, component by component. -/
def Before (p q : String) : Prop := List.Lex Component.Before (components p) (components q)

theorem Before.ne {p q : String} (h : Before p q) : p ≠ q := by
  rintro rfl
  refine List.Lex.to_ne (h.imp (fun c d hcd => ?_)) rfl
  rintro rfl
  exact c.not_before_self hcd

/-- A path comes before all that is below it. -/
theorem before_below {n : String} {ns : List String} (h : ∀ m ∈ n :: ns, IsFileName m) (p : String) :
    Before p (below p (n :: ns)) := by
  have hlex : List.Lex Component.Before [] ((n :: ns).map .name) := .nil
  unfold Before
  rw [components_below h]
  simpa using hlex.append_left Component.Before (components p)

/-- What is below a name comes before what is below a larger name. -/
theorem below_before_below {m n : String} {ms ns : List String} (hm : ∀ k ∈ m :: ms, IsFileName k)
    (hn : ∀ k ∈ n :: ns, IsFileName k) (hlt : m < n) (p : String) : Before (below p (m :: ms)) (below p (n :: ns)) := by
  have hlex : List.Lex Component.Before ((m :: ms).map .name) ((n :: ns).map .name) := .rel hlt
  unfold Before
  rw [components_below hm, components_below hn]
  exact hlex.append_left Component.Before (components p)

end Path

/-! ## Regular trees -/

namespace FileNode

mutual

/-- Whether all that is below a directory has a name that it can have. -/
def WellNamed : FileNode → Prop
  | file _ => True
  | dir es => WellNamedIn es

/-- Whether all entries, and what is below them, have names that they can have. -/
def WellNamedIn : List (String × FileNode) → Prop
  | [] => True
  | (n, t) :: es => Path.IsFileName n ∧ WellNamed t ∧ WellNamedIn es

end

theorem wellNamedIn_iff {es : List (String × FileNode)} :
    WellNamedIn es ↔ ∀ e ∈ es, Path.IsFileName e.1 ∧ e.2.WellNamed := by
  induction es with
  | nil => simp [WellNamedIn]
  | cons e es ih =>
    obtain ⟨n, t⟩ := e
    rw [WellNamedIn, ih, List.forall_mem_cons, and_assoc]

theorem WellNamed.entries {t : FileNode} (h : t.WellNamed) : ∀ e ∈ t.entries, Path.IsFileName e.1 ∧ e.2.WellNamed := by
  cases t with
  | file text => exact fun e he => absurd he List.not_mem_nil
  | dir es =>
    rw [WellNamed, wellNamedIn_iff] at h
    exact h

/-- Changing what stands at a place keeps names possible if those of the place are. -/
theorem WellNamed.graft {change : FileNode → FileNode} (hc : ∀ t, t.WellNamed → (change t).WellNamed) {ns : List String}
    (hns : ∀ n ∈ ns, Path.IsFileName n) {t : FileNode} (h : t.WellNamed) : (graft change ns t).WellNamed := by
  induction ns generalizing t with
  | nil => exact hc t h
  | cons n ns ih =>
    rw [List.forall_mem_cons] at hns
    have hchild : ((t.entries.lookup n).getD empty).WellNamed := by
      cases hn : t.entries.lookup n with
      | none =>
        rw [Option.getD_none, empty, WellNamed, wellNamedIn_iff]
        exact fun e he => absurd he List.not_mem_nil
      | some c =>
        obtain ⟨front, rest, hes, -⟩ := List.lookup_eq_some_iff.1 hn
        exact (h.entries (n, c) (by simp [hes])).2
    rw [FileNode.graft, WellNamed, wellNamedIn_iff]
    intro e he
    rcases Table.eq_or_mem_of_mem_place he with rfl | he
    · exact ⟨hns.1, ih hns.2 hchild⟩
    · exact h.entries e he

theorem WellNamed.graftAlong {change : FileNode → FileNode} (hc : ∀ t, t.WellNamed → (change t).WellNamed)
    {cs : List Path.Component} (hcs : ∀ n, .name n ∈ cs → Path.IsFileName n) {place : List String}
    (hplace : ∀ n ∈ place, Path.IsFileName n) {t : FileNode} (h : t.WellNamed) :
    (graftAlong change place t cs).WellNamed := by
  induction cs generalizing place t with
  | nil => exact h.graft hc hplace
  | cons c cs ih =>
    refine ih (fun n hn => hcs n (List.mem_cons_of_mem c hn)) (fun n hn => ?_) (h.graft (fun _ ht => ht) hplace)
    cases c with
    | root => exact absurd hn List.not_mem_nil
    | here => exact hplace n hn
    | up => exact hplace n ((List.dropLast_sublist place).subset hn)
    | name m =>
      rcases List.mem_append.1 hn with hn | hn
      · exact hplace n hn
      · obtain rfl := List.mem_singleton.1 hn
        exact hcs n List.mem_cons_self

/-- Whether files and directories can form what there is: the names are possible ones, and the entries of every directory
stand in the order of their names. -/
structure Regular (t : FileNode) : Prop where
  ordered : t.Ordered
  named : t.WellNamed

theorem regular_empty : empty.Regular :=
  ⟨by rw [empty, Ordered, orderedIn_iff]; exact ⟨.nil, fun e he => absurd he List.not_mem_nil⟩,
    by rw [empty, WellNamed, wellNamedIn_iff]; exact fun e he => absurd he List.not_mem_nil⟩

end FileNode

namespace FileTree

/-- Whether a tree is one that files and directories can form, and names can lead to the place where one works. -/
structure Regular (t : FileTree) : Prop where
  top : t.top.Regular
  place : ∀ n ∈ t.place, Path.IsFileName n

theorem regular_empty : empty.Regular where
  top :=
    have hwork := FileNode.regular_empty
    ⟨by rw [empty, FileNode.Ordered, FileNode.orderedIn_iff]; simpa using hwork.ordered,
      by rw [empty, FileNode.WellNamed, FileNode.wellNamedIn_iff]; simpa using ⟨by decide, hwork.named⟩⟩
  place := by decide

/-- **Making directories keeps a tree regular.** -/
theorem Regular.makeDir {t : FileTree} (h : t.Regular) (path : String) : (t.makeDir path).Regular where
  top := ⟨ordered_makeDir h.top.ordered path, h.top.named.graftAlong (fun _ ht => ht)
    (fun _ hn => Path.isFileName_of_mem_components hn) h.place⟩
  place := h.place

/-- **Putting a file keeps a tree regular.** -/
theorem Regular.put {t : FileTree} (h : t.Regular) (path : String) (text : Option String) :
    (t.put path (.file text)).Regular where
  top := ⟨ordered_put h.top.ordered path text, h.top.named.graftAlong (fun _ _ => by rw [FileNode.WellNamed]; trivial)
    (fun _ hn => Path.isFileName_of_mem_components hn) h.place⟩
  place := h.place

end FileTree

end TypeAtlas
