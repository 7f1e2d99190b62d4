import LineScope.File.Path
import LineScope.Text.Lines
import LineScope.Text.Utf8

/-!
# Files

The files that a run can see, and what reading one of them gives.
-/

namespace LineScope

open LineScope.Text

/-- What a name stands for. -/
inductive StoreEntry where
  | file (bytes : List UInt8)
  | directory
deriving DecidableEq, Repr

/-- Files and directories by the parts of their paths.  The directories on the way to an entry need
no entry of their own. -/
structure Store where
  entries : List (List String × StoreEntry)

/-- What is found behind a path. -/
inductive Found where
  | file (bytes : List UInt8)
  | directory
  | missing
  /-- A part of the path goes on behind a file. -/
  | notADirectory
deriving DecidableEq, Repr

/-- What is found behind each path. -/
abbrev Files := String → Found

namespace Store

/-- The file at a path. -/
def file? (store : Store) (path : List String) : Option (List UInt8) :=
  store.entries.findSome? fun entry =>
    match entry with
    | (name, .file bytes) => if name = path then some bytes else none
    | (_, .directory) => none

/-- Whether a path leads to a directory. -/
def isDirectory (store : Store) (path : List String) : Bool :=
  path.isEmpty || store.entries.any fun entry =>
    match entry with
    | (name, .file _) => path.isPrefixOf name && name != path
    | (name, .directory) => path.isPrefixOf name

/-- What stands at a path. -/
def classify (store : Store) (path : List String) : Found :=
  match store.file? path with
  | some bytes => .file bytes
  | none => if store.isDirectory path then .directory else .missing

/-- Follows the parts of a path. -/
def follow (store : Store) : (here : List String) → List String → Found
  | here, [] => store.classify here
  | here, part :: parts =>
    match store.classify here with
    | .directory =>
      if part = ".." then
        if here.isEmpty then .missing else follow store here.dropLast parts
      else follow store (here ++ [part]) parts
    | .file _ => .notADirectory
    | other => other

/-- What is found behind a path.  Only relative paths can be followed. -/
def find (store : Store) (path : String) : Found :=
  if Path.isAbsolute path || path.contains '\x00' then .missing else store.follow [] (Path.parts path)

end Store

/-- The text of a file: strict UTF-8 with every break turned into a line feed. -/
def readText (bytes : List UInt8) : Except Utf8Fault String :=
  (decodeUtf8 bytes).map fun cs => String.ofList (foldBreaks cs)

end LineScope
