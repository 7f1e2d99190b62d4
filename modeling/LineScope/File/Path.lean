/-!
# Paths

The text of a path without empty parts and parts that stay where they are.
-/

namespace LineScope.Path

/-- The parts of a text between slashes. -/
def splitParts : List Char → List (List Char)
  | [] => [[]]
  | c :: cs =>
    if c = '/' then [] :: splitParts cs
    else
      match splitParts cs with
      | [] => [[c]]
      | part :: parts => (c :: part) :: parts

/-- The parts of a path that lead somewhere. -/
def parts (path : String) : List String :=
  ((splitParts path.toList).filter fun part => !part.isEmpty && part != ['.']).map String.ofList

/-- The root that a path starts from: none, one slash, or exactly two. -/
def root (path : String) : String :=
  match path.toList with
  | '/' :: '/' :: '/' :: _ => "/"
  | '/' :: '/' :: _ => "//"
  | '/' :: _ => "/"
  | _ => ""

/-- The plain text of a path; a path that leads nowhere is a point. -/
def normalize (path : String) : String :=
  let text := root path ++ String.intercalate "/" (parts path)
  if text.isEmpty then "." else text

/-- Whether a path starts from the root. -/
def isAbsolute (path : String) : Bool := path.toList.head? = some '/'

end LineScope.Path
