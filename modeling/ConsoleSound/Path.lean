/-! # Paths

A path leads through directories by their names. Names that stay in a directory are
left out of a path; the name that leads back to the directory above is kept, and
`resolve?` tells where a path leads in the end. -/

namespace ConsoleSound

/-- The names that lead to a file or a directory, from the root or from the directory
that one is in. -/
structure Path where
  rooted : Bool
  names : List String
  deriving DecidableEq, Repr

namespace Path

/-- Whether a name stays in the directory. -/
def isIdle (name : String) : Bool := name = "" || name = "."

/-- The name that leads to the directory above. -/
def parentName : String := ".."

/-- The path that a text spells. -/
def ofString (text : String) : Path where
  rooted := text.startsWith "/"
  names := (text.splitOn "/").filter fun name => !isIdle name

/-- The text of a path. -/
def text (path : Path) : String :=
  (if path.rooted then "/" else "") ++ "/".intercalate path.names

/-- The path to a name, which has no separator in it, inside a directory. -/
def child (path : Path) (name : String) : Path :=
  if isIdle name then path else { path with names := path.names ++ [name] }

/-! ## File names -/

/-- The name of the file that a path leads to, unless it ends at a directory above. -/
def fileName? (path : Path) : Option String :=
  path.names.getLast?.filter (· ≠ parentName)

/-- A file name up to its last dot. A dot at the front starts no extension. -/
def stemOf (name : String) : String :=
  match name.toList.reverse.dropWhile (· ≠ '.') with
  | [] | [_] => name
  | _ :: before => String.ofList before.reverse

/-- The name of the file that a path leads to, without its extension. -/
def stem? (path : Path) : Option String := path.fileName?.map stemOf

/-- A file name with another extension in place of its own. Of a name such as `..w` the two
dots are kept; alone they lead to the directory above, and they take no extension. -/
def renamed (name extension : String) : String :=
  let front := stemOf name ++ "."
  if front = parentName then parentName else front ++ extension

/-- A path with another extension in place of that of its file name. -/
def withExtension (path : Path) (extension : String) : Path :=
  match path.fileName? with
  | some name => { path with names := path.names.dropLast ++ [renamed name extension] }
  | none => path

/-! ## Where a path leads -/

/-- Where names lead from the directory that has `above` above it, the nearest first;
nowhere known if they leave the outermost directory. -/
def walk? : (above : List String) → (names : List String) → Option (List String)
  | above, [] => some above
  | above, name :: names =>
    if name = parentName then
      match above with
      | [] => none
      | _ :: above => walk? above names
    else walk? (name :: above) names

/-- The directories, the outermost first, and the last name that a path leads to. -/
def resolve? (path : Path) : Option (List String) := (walk? [] path.names).map List.reverse

/-- The paths that a path goes through, the shortest first and the path itself last. -/
def prefixes (path : Path) : List Path :=
  (List.range (path.names.length + 1)).map fun count =>
    { path with names := path.names.take count }

end Path

end ConsoleSound
