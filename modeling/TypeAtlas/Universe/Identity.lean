import TypeAtlas.Universe.InterfaceMethods

/-!
# Identity of types

Two types are identical if they are built in the same way from identical types; names are identical only to
themselves, and interfaces are identical if they ask for the same methods, whichever way these are listed or
embedded.  Comparing the methods of interfaces goes on with signatures that are no parts of the types compared, so
the comparison need not end: an interface may embed a defined one whose methods mention that interface again.

`identicalWithin` compares down to a given depth, and has no answer where that is not deep enough.  A comparison
that ends never compares the same two types inside one another, and both are among the types in the universe and in
the arguments: `Universe.comparisonDepth` is deep enough for every comparison that ends at all.
-/

namespace TypeAtlas

/-- Whether two lists agree item by item, from the front. -/
def agreeItems {α : Type} (same : α → α → Option Bool) : List α → List α → Option Bool
  | [], [] => some true
  | x :: xs, y :: ys => do if ← same x y then agreeItems same xs ys else return false
  | _, _ => some false

/-- Whether two lists have the same length and agree item by item. -/
def agree {α : Type} (same : α → α → Option Bool) (xs ys : List α) : Option Bool :=
  if xs.length = ys.length then agreeItems same xs ys else some false

/-- Identity of signatures, given identity of types. -/
def Signature.identicalBy (same : Ty → Ty → Option Bool) (s t : Signature) : Option Bool :=
  if s.variadic = t.variadic ∧ s.params.length = t.params.length ∧ s.results.length = t.results.length then do
    if ← agreeItems same s.params t.params then agreeItems same s.results t.results else return false
  else some false

/-- Identity of fields, given identity of types. -/
def Field.identicalBy (same : Ty → Ty → Option Bool) (f g : Field) : Option Bool :=
  if f.name = g.name ∧ f.embedded = g.embedded then same f.type g.type else some false

/-- Identity of methods, given identity of types. -/
def Signature.identicalNamed (same : Ty → Ty → Option Bool) (m n : String × Signature) : Option Bool :=
  if m.1 = n.1 then m.2.identicalBy same n.2 else some false

/-- The number of types in the signatures of methods. -/
def MethodDecl.sizeAll : List MethodDecl → Nat
  | [] => 0
  | m :: ms => m.signature.size + sizeAll ms

/-- The number of types in a definition. -/
def Definition.size (d : Definition) : Nat := d.underlying.size + MethodDecl.sizeAll d.methods

/-- The number of types in definitions. -/
def Definition.sizeAll : List Definition → Nat
  | [] => 0
  | d :: ds => d.size + sizeAll ds

namespace Universe

/-- Whether two types are identical, compared at most `depth` deep. -/
def identicalWithin (u : Universe) : Nat → Ty → Ty → Option Bool
  | 0, _, _ => none
  | _ + 1, .basic a, .basic b => some (a == b)
  | _ + 1, .named m, .named n => some (m == n)
  | depth + 1, .pointer s, .pointer t => u.identicalWithin depth s t
  | depth + 1, .slice s, .slice t => u.identicalWithin depth s t
  | depth + 1, .array m s, .array n t => if m = n then u.identicalWithin depth s t else some false
  | depth + 1, .map k s, .map l t => do
    if ← u.identicalWithin depth k l then u.identicalWithin depth s t else return false
  | depth + 1, .chan d s, .chan e t => if d = e then u.identicalWithin depth s t else some false
  | depth + 1, .func s, .func t => s.identicalBy (u.identicalWithin depth) t
  | depth + 1, .struct fs, .struct gs => agree (Field.identicalBy (u.identicalWithin depth)) fs gs
  | depth + 1, .interface i, .interface j =>
    agree (Signature.identicalNamed (u.identicalWithin depth)) (u.interfaceMethods i).entries
      (u.interfaceMethods j).entries
  | _ + 1, _, _ => some false

/-- The number of types in the definitions of a universe. -/
def typeCount (u : Universe) : Nat := Definition.sizeAll u.defs.values

/-- How deep to compare types of `args` types in all: every pair of the types in the universe and in them once. -/
def comparisonDepth (u : Universe) (args : Nat) : Nat := (u.typeCount + args) * (u.typeCount + args) + 1

/-- Whether two types are identical. -/
def identical (u : Universe) (s t : Ty) : Bool :=
  u.identicalWithin (u.comparisonDepth (s.size + t.size)) s t == some true

/-- Whether two signatures are identical. -/
def identicalSignatures (u : Universe) (s t : Signature) : Bool :=
  s.identicalBy (u.identicalWithin (u.comparisonDepth (s.size + t.size))) t == some true

end Universe

end TypeAtlas
