import TypeAtlas.Proofs.Lifecycle
import TypeAtlas.Proofs.Locality

/-!
# When a recorded method set is out of date

The method set of an interface is recorded when its package is registered, and then never touched again.  Later loads may
define types that the interface embeds, so what is recorded may fall behind what the universe says
(`Workspace.late_definition`).

What is recorded is what the universe says at the end of the load that registers the package.  To compute it, one follows
the names of the embedded types through their definitions (`Universe.Consults`).  A registered package keeps the meaning of
its names, so the record stays right unless a name that was consulted belongs to a package that was not registered by then,
and has got another meaning since (`Workspace.methodSet_of_run`).
-/

namespace TypeAtlas

namespace Universe

variable {u v : Universe} {i : InterfaceType}

/-- Which names are looked up to compute the methods of an interface: those that it embeds, or that an interface it
reaches embeds, and the names through which they are defined. -/
inductive Consults (u : Universe) (i : InterfaceType) : TypeName → Prop where
  | embedded {j : InterfaceType} {n : TypeName} : u.Reaches i j → .named n ∈ j.embeds → Consults u i n
  | defined {n m : TypeName} {d : Definition} :
      Consults u i n → u.lookup n = some d → d.underlying = .named m → Consults u i m

/-- Definitions are followed alike if the names on the way are defined alike. -/
theorem follow_congr {OnWay : TypeName → Prop} (hsame : ∀ n, OnWay n → v.lookup n = u.lookup n)
    (hnext : ∀ n d m, OnWay n → u.lookup n = some d → d.underlying = .named m → OnWay m) (links : Nat) {t : Ty}
    (ht : ∀ n, t = .named n → OnWay n) : v.follow links t = u.follow links t := by
  induction links generalizing t with
  | zero => rfl
  | succ links ih =>
    cases t with
    | named n =>
      have hn : OnWay n := ht n rfl
      simp only [follow, hsame n hn]
      cases hd : u.lookup n with
      | none => rfl
      | some d => exact ih fun m hm => hnext n d m hn hd hm
    | _ => rfl

/-- **The methods of an interface are told by the names that are consulted.** -/
theorem interfaceMethods_congr (h : ∀ n, u.Consults i n → v.lookup n = u.lookup n) :
    v.interfaceMethods i = u.interfaceMethods i := by
  refine collect_congr (P := fun t => ∃ j, u.Reaches i j ∧ t ∈ j.embeds) ?_ ?_ fun t ht => ⟨i, .refl i, ht⟩
  · rintro t ⟨j, hj, ht⟩
    rw [interfaceOf?, interfaceOf?, underlying, underlying,
      follow_congr h (fun _ _ _ => .defined) chainLimit fun n hn => .embedded hj (hn ▸ ht)]
  · rintro t k ⟨j, hj, ht⟩ hk e he
    exact ⟨k, hj.embed ht hk, he⟩

end Universe

/-! ## What loads make of a registry -/

def Operation.isAdd : Operation → Bool
  | add _ _ => true
  | _ => false

/-- What a load, or a request to finalize, makes of a registry. -/
structure Registry.Extends (r r' : Registry) : Prop where
  /-- Packages stay. -/
  kept : ∀ path p, r.packages.get? path = some p → r'.packages.get? path = some p
  /-- A new package is that of an export, extracted in the universe that the registry has in the end. -/
  new : ∀ path p, r.packages.get? path = none → r'.packages.get? path = some p →
    ∃ e : PackageExport, e.ref.path = path ∧ p = Package.extract e.package.outline r'.types
  /-- The names of registered packages keep their meaning. -/
  lookup : ∀ n, r.packages.contains n.package = true → r'.types.lookup n = r.types.lookup n

/-- A registry that gets no package extends the other one if the names of registered packages keep their meaning. -/
theorem Registry.extends_of_packages_eq {r r' : Registry} (hpackages : r'.packages = r.packages)
    (hlookup : ∀ n, r.packages.contains n.package = true → r'.types.lookup n = r.types.lookup n) : r.Extends r' where
  kept path p hp := by rwa [hpackages]
  new path p hnone hp := by
    rw [hpackages, hnone] at hp
    cases hp
  lookup := hlookup

namespace Workspace

variable {w : Workspace}

/-- **A load extends the registry,** whether it succeeds or not. -/
theorem extends_load (tree : FileTree) (o : LoadRequest) (w : Workspace) :
    w.registry.Extends (w.load tree o).2.registry := by
  unfold load
  split
  case isTrue => exact Registry.extends_of_packages_eq rfl fun _ _ => rfl
  case isFalse hopen =>
    obtain ⟨rs, htook⟩ := Loading.exists_took tree o ⟨w, []⟩
    have hlookup : ∀ n, w.registry.packages.contains n.package = true →
        (visitEach (Loading.visitRoot tree o) o.roots ⟨w, []⟩).2.workspace.registry.types.lookup n =
          w.registry.types.lookup n := by
      intro n hn
      rw [htook.lookup, Loading.knows_start, handedOver, if_pos hn, Option.none_or]
    unfold registerFound
    split
    case h_1 e l hl =>
      rw [hl] at htook hlookup
      exact Registry.extends_of_packages_eq (by rw [htook.registry]) hlookup
    case h_2 l hl =>
      rw [hl] at htook hlookup
      obtain ⟨w', hw', -, htypes, hpackages⟩ := registerAll_of_took (Bool.eq_false_iff.2 hopen) htook
      rw [hw']
      refine ⟨fun path p hp => by rw [hpackages, hp, Option.some_or], fun path p hnone hp => ?_, fun n hn => ?_⟩
      · rw [hpackages, hnone, Option.none_or] at hp
        split at hp
        · cases hp
        · obtain ⟨r, hr, rfl⟩ := Option.map_eq_some_iff.1 hp
          exact ⟨r.found, by simpa using List.find?_some hr, by rw [htypes]⟩
      · rw [htypes, hlookup n hn]

/-- Every operation but adding a package extends the registry. -/
theorem extends_perform {op : Operation} (h : op.isAdd = false) (w : Workspace) :
    w.registry.Extends (w.perform op).2.registry := by
  cases op with
  | load tree o => exact extends_load tree o w
  | loadDirectory tree dir =>
    rw [perform, loadDirectory_eq_load]
    exact extends_load tree _ w
  | add outline u => cases h
  | finalize =>
    rw [perform]
    cases hfinal : w.registry.finalized with
    | true =>
      rw [finalize_of_finalized hfinal]
      exact Registry.extends_of_packages_eq rfl fun _ _ => rfl
    | false =>
      rw [finalize_of_open hfinal]
      exact Registry.extends_of_packages_eq rfl fun _ _ => rfl

theorem run_append (w : Workspace) (ops ops' : List Operation) : w.run (ops ++ ops') = (w.run ops).run ops' :=
  List.foldl_append ..

/-- **The names of registered packages keep their meaning in a run.** -/
theorem lookup_run {ops : List Operation} (hops : ∀ op ∈ ops, op.isAdd = false) {n : TypeName}
    (hn : w.registry.packages.contains n.package = true) :
    (w.run ops).registry.types.lookup n = w.registry.types.lookup n := by
  induction ops generalizing w with
  | nil => rfl
  | cons op ops ih =>
    have hstep := extends_perform (hops op List.mem_cons_self) w
    obtain ⟨p, hp⟩ := Option.isSome_iff_exists.1 hn
    rw [run_cons, ih (fun op' h => hops op' (List.mem_cons_of_mem op h)), hstep.lookup n hn]
    rw [Table.contains, hstep.kept _ p hp]
    rfl

/-- **A package was registered by one operation of the run,** and extracted in the universe that this one left. -/
theorem exists_registration {ops : List Operation} (hops : ∀ op ∈ ops, op.isAdd = false) {path : String} {p : Package}
    (hp : (w.run ops).registry.packages.get? path = some p) :
    w.registry.packages.get? path = some p ∨
      ∃ before op after, ops = before ++ op :: after ∧ (w.run before).registry.packages.get? path = none ∧
        (w.run (before ++ [op])).registry.packages.get? path = some p ∧
        ∃ e : PackageExport, e.ref.path = path ∧
          p = Package.extract e.package.outline (w.run (before ++ [op])).registry.types := by
  induction ops generalizing w with
  | nil => exact .inl hp
  | cons op ops ih =>
    have hstep := extends_perform (hops op List.mem_cons_self) w
    rcases ih (fun op' h => hops op' (List.mem_cons_of_mem op h)) hp with hp | ⟨before, op', after, rfl, hrest⟩
    · cases hw : w.registry.packages.get? path with
      | none => exact .inr ⟨[], op, ops, rfl, hw, hp, hstep.new path p hw hp⟩
      | some q =>
        rw [hstep.kept path q hw] at hp
        exact .inl hp
    · exact .inr ⟨op :: before, op', after, rfl, hrest⟩

/-- **What is recorded of an interface is what the universe said when its package was registered.** -/
theorem recorded_of_run {u : Universe} (hw : w.registry = .ofUniverse u) {ops : List Operation}
    (hops : ∀ op ∈ ops, op.isAdd = false) {i : Interface} (hi : i ∈ (w.run ops).registry.interfaces.all) :
    ∃ before op after, ops = before ++ op :: after ∧
      (w.run before).registry.packages.contains i.package.path = false ∧
      (w.run (before ++ [op])).registry.packages.contains i.package.path = true ∧
      (w.run (before ++ [op])).registry.types.underlying i.type = .interface i.underlying ∧
      i.methodSet = (w.run (before ++ [op])).registry.types.interfaceMethods i.underlying := by
  have hcatalogued : (w.run ops).registry.Catalogued :=
    (run_induction Grows.consistent (fun hopen hv => hv.finalize hopen) ops (consistent_of_registry_eq hw)).catalogued
  obtain ⟨-, p, hp, hlisted⟩ := hcatalogued.interfaces.of_mem hi
  change (w.run ops).registry.packages.get? i.package.path = some p at hp
  have hempty : w.registry.packages.get? i.package.path ≠ some p := by
    rw [hw]
    exact fun h => nomatch h
  obtain ⟨before, op, after, rfl, hbefore, hthen, e, he, rfl⟩ := (exists_registration hops hp).resolve_left hempty
  obtain ⟨o, -, ho⟩ := Package.exists_interface hlisted
  obtain ⟨hunderlying, hmethods, -⟩ := Interface.ofObject?_eq_some ho
  refine ⟨before, op, after, rfl, ?_, ?_, hunderlying, hmethods⟩
  · rw [Table.contains, hbefore]
    rfl
  · rw [Table.contains, hthen]
    rfl

/-- **A recorded method set is that of the moment when the package was registered.**  Let a registry come from loads and
requests to finalize it, some of which may have failed.  Then for every registered interface there is the operation that
registered its package, and what is recorded of the interface is what the universe said after that operation.  It is also
what the universe says now, if every name that was consulted then belongs to a package that was registered then, or still
has the same meaning; in this case the interface is taken to be empty exactly if the universe gives it no methods. -/
theorem methodSet_of_run {u : Universe} (hw : w.registry = .ofUniverse u) {ops : List Operation}
    (hops : ∀ op ∈ ops, op.isAdd = false) {i : Interface} (hi : i ∈ (w.run ops).registry.interfaces.all) :
    ∃ before op after v, ops = before ++ op :: after ∧ v = w.run (before ++ [op]) ∧
      (w.run before).registry.packages.contains i.package.path = false ∧
      v.registry.packages.contains i.package.path = true ∧
      v.registry.types.underlying i.type = .interface i.underlying ∧
      i.methodSet = v.registry.types.interfaceMethods i.underlying ∧
      ((∀ n, v.registry.types.Consults i.underlying n → v.registry.packages.contains n.package = true ∨
          (w.run ops).registry.types.lookup n = v.registry.types.lookup n) →
        i.methodSet = (w.run ops).registry.types.interfaceMethods i.underlying ∧
        i.isEmpty = ((w.run ops).registry.types.interfaceMethods i.underlying).isEmpty) := by
  obtain ⟨before, op, after, rfl, hbefore, hthen, hunderlying, hmethods⟩ := recorded_of_run hw hops hi
  refine ⟨before, op, after, _, rfl, rfl, hbefore, hthen, hunderlying, hmethods, fun hconsulted => ?_⟩
  have hafter : ∀ op' ∈ after, op'.isAdd = false := fun op' h =>
    hops op' (List.mem_append_right _ (List.mem_cons_of_mem op h))
  have hsame : i.methodSet = (w.run (before ++ op :: after)).registry.types.interfaceMethods i.underlying := by
    rw [hmethods]
    refine (Universe.interfaceMethods_congr fun n hn => ?_).symm
    rcases hconsulted n hn with hknown | hsame
    · rw [List.append_cons, run_append]
      exact lookup_run hafter hknown
    · exact hsame
  exact ⟨hsame, by rw [Interface.isEmpty, hsame]⟩

/-! ## An embedded interface that comes late -/

/-- A package with an interface that embeds one of another package. -/
def borrowing : PackageExport where
  ref := ⟨"p", "p"⟩
  imports := []
  decls := [.type "I" .unknown (.interface ⟨[], [.named ⟨"q", "J"⟩]⟩) [] false]
  errors := []

/-- The other package. -/
def lending : PackageExport where
  ref := ⟨"q", "q"⟩
  imports := []
  decls := [.type "J" .unknown (.interface ⟨[⟨"M", ⟨[], [], false⟩⟩], []⟩) [] false]
  errors := []

/-- Both packages, each in a directory of its own. -/
def loanTree : FileTree :=
  ⟨.dir [("a", .dir [("p.symbols.json", borrowing.file)]), ("b", .dir [("q.symbols.json", lending.file)])], []⟩

theorem loanTree_a : loanTree.HoldsOnly "a" borrowing := .of_written rfl (by decide +kernel) (by decide +kernel)

theorem loanTree_b : loanTree.HoldsOnly "b" lending := .of_written rfl (by decide +kernel) (by decide +kernel)

/-- The directory of the interface is loaded. -/
def borrowed : Workspace := (loadReadings ⟨.empty, .empty, 0⟩ [⟨borrowing, [borrowing]⟩]).2

/-- Then the directory of the embedded one is loaded too. -/
def lent : Workspace := (loadReadings borrowed [⟨lending, [lending]⟩]).2

theorem perform_loanTree_a : ((⟨.empty, .empty, 0⟩ : Workspace).perform (.loadDirectory loanTree "a")).2 = borrowed := by
  rw [perform, loadDirectory_eq rfl loanTree_a.passes, loanTree_a.readings, borrowed]

theorem perform_loanTree_b : (borrowed.perform (.loadDirectory loanTree "b")).2 = lent := by
  rw [perform, loadDirectory_eq (by decide +kernel) loanTree_b.passes, loanTree_b.readings, lent]

theorem run_loanTree :
    run ⟨.empty, .empty, 0⟩ [.loadDirectory loanTree "a", .loadDirectory loanTree "b"] = lent := by
  rw [run_cons, perform_loanTree_a, run_cons, perform_loanTree_b]
  rfl

/-- **A definition that comes late is not recorded.**  Once its directory is loaded, the embedded interface is defined,
and the embedding one has a method.  What is recorded is still that it has none. -/
theorem late_definition :
    ∃ i ∈ (run ⟨.empty, .empty, 0⟩ [.loadDirectory loanTree "a", .loadDirectory loanTree "b"]).registry.interfaces.all,
      i.methodSet.isEmpty = true ∧ ((run ⟨.empty, .empty, 0⟩ [.loadDirectory loanTree "a",
        .loadDirectory loanTree "b"]).registry.types.interfaceMethods i.underlying).isEmpty = false := by
  obtain ⟨i, hi, hdata⟩ : ∃ i, lent.registry.interfaces.get? ⟨"p", "I"⟩ = some i ∧
      (i.package.path, i.underlying) = ("p", ⟨[], [.named ⟨"q", "J"⟩]⟩) := by
    rw [← Option.map_eq_some_iff]
    decide +kernel
  obtain ⟨hpath, hunderlying⟩ := Prod.mk.inj hdata
  have hmem : i ∈ lent.registry.interfaces.all := Catalog.mem_all_iff.2 ⟨_, hi⟩
  obtain ⟨before, op, after, hsplit, hbefore, -, -, hmethods⟩ :=
    recorded_of_run (w := ⟨.empty, .empty, 0⟩) rfl (by simp [Operation.isAdd]) (run_loanTree ▸ hmem)
  -- The first operation registered the package.
  have hfirst : i.methodSet = borrowed.registry.types.interfaceMethods i.underlying := by
    cases before with
    | nil =>
      obtain rfl : .loadDirectory loanTree "a" = op := (List.cons.inj hsplit).1
      rw [hmethods, List.nil_append, run_cons, perform_loanTree_a]
      rfl
    | cons op' before =>
      obtain ⟨rfl, hsplit⟩ := List.cons.inj hsplit
      obtain rfl : before = [] := by
        cases before with
        | nil => rfl
        | cons op'' before => simp at hsplit
      rw [run_cons, perform_loanTree_a, hpath] at hbefore
      exact absurd hbefore (by decide +kernel)
  rw [run_loanTree]
  refine ⟨i, hmem, ?_, ?_⟩
  · have hbehind : borrowed.registry.types.interfaceOf? (.named ⟨"q", "J"⟩) = none := by decide +kernel
    rw [hfirst, hunderlying, ← Bool.not_eq_false, Universe.isEmpty_interfaceMethods_iff]
    rintro ⟨name, sig, j, hreaches, hlisted⟩
    cases hreaches with
    | refl => cases hlisted
    | step ht hj _ =>
      rw [List.mem_singleton.1 ht, hbehind] at hj
      cases hj
  · have hbehind : lent.registry.types.interfaceOf? (.named ⟨"q", "J"⟩) = some ⟨[⟨"M", ⟨[], [], false⟩⟩], []⟩ := by
      decide +kernel
    rw [hunderlying, Universe.isEmpty_interfaceMethods_iff]
    exact ⟨"M", _, _, .step List.mem_cons_self hbehind (.refl _), List.mem_cons_self⟩

/-- Both directories are loaded together. -/
def loanTogether : Workspace :=
  (loadReadings ⟨.empty, .empty, 0⟩ [⟨borrowing, [borrowing]⟩, ⟨lending, [lending]⟩]).2

theorem run_loanTree_together :
    run ⟨.empty, .empty, 0⟩ [.load loanTree ⟨["a", "b"], [], false⟩] = loanTogether := by
  have hreadings : LoadRequest.readings ⟨["a", "b"], [], false⟩ loanTree =
      [⟨borrowing, [borrowing]⟩, ⟨lending, [lending]⟩] := by
    simp [LoadRequest.readings_flat, loanTree_a.readings, loanTree_b.readings]
  have hadmits : ∀ root ∈ ["a", "b"], LoadRequest.Admits ⟨["a", "b"], [], false⟩ loanTree root := by
    intro root hroot
    refine LoadRequest.admits_flat ?_ _ _
    rcases List.mem_cons.1 hroot with rfl | hroot
    · exact loanTree_a.passes
    · rw [List.mem_singleton.1 hroot]
      exact loanTree_b.passes
  rw [run_cons, perform, load_eq rfl hadmits, hreadings]
  rfl

/-- If both directories are loaded together, the method of the embedded interface is recorded. -/
theorem timely_definition :
    ∃ i ∈ (run ⟨.empty, .empty, 0⟩ [.load loanTree ⟨["a", "b"], [], false⟩]).registry.interfaces.all,
      i.key = ⟨"p", "I"⟩ ∧ i.isEmpty = false ∧ i.methodSet = (run ⟨.empty, .empty, 0⟩ [.load loanTree
        ⟨["a", "b"], [], false⟩]).registry.types.interfaceMethods i.underlying := by
  obtain ⟨i, hi, hdata⟩ : ∃ i, loanTogether.registry.interfaces.get? ⟨"p", "I"⟩ = some i ∧
      (i.key, i.underlying) = (⟨"p", "I"⟩, ⟨[], [.named ⟨"q", "J"⟩]⟩) := by
    rw [← Option.map_eq_some_iff]
    decide +kernel
  obtain ⟨hkey, hunderlying⟩ := Prod.mk.inj hdata
  have hmem := Catalog.mem_all_iff.2 ⟨_, hi⟩
  change i ∈ loanTogether.registry.interfaces.all at hmem
  rw [← run_loanTree_together] at hmem
  obtain ⟨before, op, after, v, hsplit, rfl, -, -, -, -, hcurrent⟩ :=
    methodSet_of_run (w := ⟨.empty, .empty, 0⟩) rfl (by simp [Operation.isAdd]) hmem
  -- There is one operation, so nothing has happened since.
  obtain ⟨rfl, hop⟩ | ⟨-, hnil⟩ := List.singleton_eq_append_iff.1 hsplit
  · obtain ⟨rfl, -⟩ := List.cons.inj hop
    obtain ⟨hmethods, hempty⟩ := hcurrent fun n _ => .inr (by rw [List.nil_append])
    refine ⟨i, hmem, hkey, ?_, hmethods⟩
    have hbehind : loanTogether.registry.types.interfaceOf? (.named ⟨"q", "J"⟩) =
        some ⟨[⟨"M", ⟨[], [], false⟩⟩], []⟩ := by decide +kernel
    rw [hempty, hunderlying, run_loanTree_together, Universe.isEmpty_interfaceMethods_iff]
    exact ⟨"M", _, _, .step List.mem_cons_self hbehind (.refl _), List.mem_cons_self⟩
  · cases hnil

end Workspace

end TypeAtlas
