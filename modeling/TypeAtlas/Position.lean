import TypeAtlas.Json.Decode

/-!
# Source positions

Where a declaration stands: file, line and column, counted from one.  A position without a file or without a line is
unknown.
-/

namespace TypeAtlas

/-- A place in a source file. -/
structure Position where
  file : String
  line : UInt32
  column : UInt32
deriving DecidableEq

namespace Position

/-- The position of what was not reported. -/
def unknown : Position := ⟨"", 0, 0⟩

instance : Inhabited Position := ⟨unknown⟩

/-- Positions are ordered by file, then line, then column. -/
instance : Ord Position :=
  ⟨compareLex (compareOn file) (compareLex (compareOn line) (compareOn column))⟩

instance : Std.TransOrd Position :=
  inferInstanceAs (Std.TransCmp (compareLex _ (compareLex _ _)))

instance : Std.LawfulEqOrd Position where
  eq_of_compare {a b} h := by
    have h : (compare a.file b.file).then ((compare a.line b.line).then (compare a.column b.column)) = .eq := h
    rw [Ordering.then_eq_eq, Ordering.then_eq_eq, Std.compare_eq_iff_eq, Std.compare_eq_iff_eq,
      Std.compare_eq_iff_eq] at h
    cases a; cases b; simp_all

/-- Whether the position is known. -/
def isKnown (p : Position) : Bool := !p.file.isEmpty && decide (0 < p.line)

/-- The position as written: `file:line:column`, or a dash. -/
def format (p : Position) : String :=
  if p.isKnown then p.file ++ ":" ++ Nat.repr p.line.toNat ++ ":" ++ Nat.repr p.column.toNat else "-"

/-- The JSON form. -/
def encode (p : Position) : Json :=
  .obj [("file", .str p.file), ("line", .nat p.line.toNat), ("column", .nat p.column.toNat)]

/-- A position from its record; every part may be left out. -/
def decode (j : Json) : Option Position := do
  match ← j.fields? ["file", "line", "column"] with
  | [file, line, column] =>
    return {
      file := ← Json.optional "" Json.asString? file
      line := ← Json.optional 0 Json.asUInt32? line
      column := ← Json.optional 0 Json.asUInt32? column }
  | _ => none

end Position

end TypeAtlas
