/-!
# Paths

Paths are texts whose components are separated by slashes. A path that starts with a
slash is absolute. A relative path in a file stands for a path below the directory of
that file.
-/

namespace PhaseFlow

namespace Path

/-- Whether a path is absolute. -/
def isAbsolute (path : List Char) : Bool :=
  path.head? = some '/'

/-- The path without the slashes at its end. -/
def dropEndSlashes (path : List Char) : List Char :=
  (path.reverse.dropWhile fun c => c = '/').reverse

/-- The path without its last component, the slash before it kept. -/
def dropLastComponent (path : List Char) : List Char :=
  (path.reverse.dropWhile fun c => c ≠ '/').reverse

/-- The directory of a path. A path of slashes alone is its own directory; the directory
of a single component is empty, or the root if the path is absolute. -/
def parent (path : List Char) : List Char :=
  if path.all fun c => c = '/' then path
  else
    match dropLastComponent path with
    | [] => []
    | directory =>
        match dropEndSlashes directory with
        | [] => ['/']
        | trimmed => trimmed

/-- A relative path below a directory. -/
def below (directory path : List Char) : List Char :=
  match directory.getLast? with
  | none => path
  | some '/' => directory ++ path
  | some _ => directory ++ '/' :: path

/-- A path that stands in a file; absolute paths stand for themselves. -/
def resolve (path file : String) : String :=
  if isAbsolute path.toList then path
  else String.ofList (below (parent file.toList) path.toList)

end Path

end PhaseFlow
