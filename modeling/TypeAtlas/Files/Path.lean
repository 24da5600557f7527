/-!
# Paths

A path is compared and read component by component: repeated slashes, a slash at the end and a dot inside or at the
end do not count, while a dot in front and every pair of dots do.
-/

namespace TypeAtlas

namespace Path

/-- A component of a path. -/
inductive Component where
  /-- The slash in front of an absolute path. -/
  | root
  /-- A dot in front. -/
  | here
  /-- A pair of dots. -/
  | up
  | name (s : String)
deriving DecidableEq

/-- The parts of a text between slashes. -/
def segments : List Char → List (List Char)
  | [] => [[]]
  | c :: cs =>
    if c = '/' then [] :: segments cs
    else
      match segments cs with
      | s :: ss => (c :: s) :: ss
      | [] => [[c]]

/-- The component that a part is; an empty part and a dot are none. -/
def component? (s : List Char) : Option Component :=
  if s = [] ∨ s = ['.'] then none
  else if s = ['.', '.'] then some .up
  else some (.name (String.ofList s))

/-- The components of a path. -/
def components (p : String) : List Component :=
  match segments p.toList with
  | [] :: s :: ss => .root :: (s :: ss).filterMap component?
  | ['.'] :: ss => .here :: ss.filterMap component?
  | ss => ss.filterMap component?

/-- The last component, if it is a name. -/
def fileName? (p : String) : Option String :=
  match (components p).getLast? with
  | some (.name s) => some s
  | _ => none

/-- Where a component leads from a place, which is given by the names that lead there from the top. -/
def Component.follow (place : List String) : Component → List String
  | root => []
  | here => place
  | up => place.dropLast
  | name s => place ++ [s]

/-- A name below a path. -/
def join (p name : String) : String :=
  match p.toList.getLast? with
  | none => name
  | some '/' => p ++ name
  | some _ => p ++ "/" ++ name

end Path

end TypeAtlas
