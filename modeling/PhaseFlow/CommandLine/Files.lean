import PhaseFlow.KeyMap
import PhaseFlow.Text

/-!
# Files in memory

Files are kept by the place at which they stand, which is the list of the components
from the root on. A relative path starts in the working directory. A directory is there
if a file stands below it, or if it belongs to the system.

`Files.locate?` follows a path: it ends before its first NUL character, its length and
the lengths of its components are limited, and every directory on the way has to be
there. A path that ends in a slash or a single dot leads to a directory only. Opening a
directory for reading succeeds and yields nothing; a device takes what is written and
keeps nothing.
-/

namespace PhaseFlow

namespace CommandLine

/-- The texts between the slashes of a path. -/
def components (path : String) : List String :=
  (path.toList.splitOn '/').map String.ofList

/-- The components of a path; empty components and single dots are left out. -/
def parts (path : String) : List String :=
  (components path).filter fun part => part ≠ "" && part ≠ "."

/-- Whether a path ends as only a directory can be named. -/
def namesDirectory (path : String) : Bool :=
  (components path).getLast?.any fun part => part = "" || part = "."

/-- The greatest number of bytes of a path. -/
def pathLimit : Nat :=
  4095

/-- The greatest number of bytes of a component. -/
def partLimit : Nat :=
  255

/-- The working directory. -/
def workingDirectory : List String :=
  ["tmp", "work"]

/-- The directories that are always there; so are those above them. -/
def systemDirectories : List (List String) :=
  [workingDirectory, ["dev"], ["etc"], ["home"], ["opt"], ["root"], ["usr"], ["var"]]

/-- The devices. -/
def devices : List (List String) :=
  [["dev", "null"], ["dev", "zero"], ["dev", "full"]]

/-- Where a path starts. -/
def startOf (path : String) : List String :=
  if path.toList.head? = some '/' then [] else workingDirectory

/-- The path of a place, empty for the root. -/
def pathOf (place : List String) : String :=
  String.join (place.map fun part => "/" ++ part)

/-- The files of a world, by the paths of their places. -/
abbrev Files :=
  KeyMap (List UInt8)

namespace Files

/-- The path under which a file is kept; two dots take the component before them
away. -/
def keyOf (path : String) : String :=
  let path := Text.beforeNul path
  pathOf ((parts path).foldl
    (fun place part => if part = ".." then place.dropLast else place ++ [part])
      (startOf path))

/-- Whether a directory is there. -/
def hasDirectory (files : Files) (place : List String) : Bool :=
  systemDirectories.any (fun directory => place.isPrefixOf directory) ||
    files.keys.any fun file => (pathOf place ++ "/").toList.isPrefixOf file.toList

/-- The place that is reached when some components are followed from a place on. Every
directory on the way has to be there; the last component need not. -/
def follow?
    (files : Files)
    (place : List String) :
    List String → Option (List String)
  | [] => some place
  | part :: rest =>
      if part = ".." then follow? files place.dropLast rest
      else if partLimit < part.utf8ByteSize then none
      else if rest.isEmpty || files.hasDirectory (place ++ [part]) then
        follow? files (place ++ [part]) rest
      else none

/-- The place to which a path leads. -/
def locate? (files : Files) (path : String) : Option (List String) :=
  let path := Text.beforeNul path
  if path = "" || pathLimit < path.utf8ByteSize then none
  else
    (files.follow? (startOf path) (parts path)).filter fun place =>
      !namesDirectory path || files.hasDirectory place

/-- The content of a file, if it can be opened. -/
def open? (files : Files) (path : String) : Option (List UInt8) :=
  (files.locate? path).bind fun place =>
    if devices.contains place || files.hasDirectory place then some []
    else files.get? (pathOf place)

/-- Whether something can be written at a place. -/
def isWritable (files : Files) (place : List String) : Bool :=
  devices.contains place || (!files.hasDirectory place && files.hasDirectory place.dropLast)

/-- The files after a content was written at a place, after what stands there. -/
def writeAt
    (files : Files)
    (place : List String)
    (before content : List UInt8) :
    Files :=
  if devices.contains place then files else files.insert (pathOf place) (before ++ content)

/-- The files with one made anew. -/
def create?
    (files : Files)
    (path : String)
    (content : List UInt8) :
    Option Files :=
  ((files.locate? path).filter files.isWritable).map fun place =>
    files.writeAt place [] content

/-- The files with one made longer. -/
def extend?
    (files : Files)
    (path : String)
    (content : List UInt8) :
    Option Files :=
  ((files.locate? path).filter files.isWritable).map fun place =>
    files.writeAt place (files.getD (pathOf place) []) content

end Files

end CommandLine

end PhaseFlow
