/-! Paths as text: the normal form that drops empty parts and single dots. -/

namespace Macros.Text

/-- A path starts at the root when it begins with a slash; exactly two slashes stay two. -/
def pathRoot : List Char → String
  | '/' :: '/' :: '/' :: _ => "/"
  | '/' :: '/' :: _ => "//"
  | '/' :: _ => "/"
  | _ => ""

/-- The normal form of a path; the empty one is a dot. -/
def normalPath (path : String) : String :=
  let parts := (path.splitOn "/").filter fun p => !(p.isEmpty || p == ".")
  let s := pathRoot path.toList ++ "/".intercalate parts
  if s.isEmpty then "." else s

end Macros.Text
