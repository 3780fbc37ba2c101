import TapeForge.Text.Utf8

/-!
# Paths

Where a path leads among some files, part by part. The files are named by the path from the working
directory, or from the root; a directory is what holds files. A path may leave the working
directory, but nothing is known of what is there.
-/

namespace TapeForge.Cli

abbrev Files := List (Bytes × Bytes)

inductive PathFault where
  | notFound
  | notDirectory
  | isDirectory
  | tooLong
  deriving Repr, DecidableEq

def PathFault.message : PathFault → String
  | notFound => "no such file or directory"
  | notDirectory => "not a directory"
  | isDirectory => "is a directory"
  | tooLong => "file name too long"

def refusal (act : String) (path : Bytes) (why : PathFault) : Bytes :=
  Bytes.ofString (act ++ " ") ++ path ++ Bytes.ofString (": " ++ why.message)

/-- What a path leads to. `vacant` is the name of nothing in a directory that there is; it is
`slashed` if it is named as a directory. -/
inductive Target where
  | file (name content : Bytes)
  | directory
  | vacant (name : Bytes) (slashed : Bool)
  deriving Repr, DecidableEq

namespace Path

/-- The directory around a directory. A directory is written with a slash at its end; the working
directory is empty. -/
def above (dir : Bytes) : Bytes :=
  let outside := Bytes.ofString "../"
  if dir = [47] then dir
  else if dir.isEmpty ∨ outside.isSuffixOf dir then dir ++ outside
  else (dir.dropLast.reverse.dropWhile (· ≠ 47)).reverse

def nameLimit : Nat := 255

/-- Follows the parts of a path from a directory. -/
def walk (files : Files) (dir : Bytes) : List Bytes → Except PathFault Target
  | [] => .ok .directory
  | part :: rest =>
    if part.isEmpty ∨ part = [46] then walk files dir rest
    else if part = [46, 46] then walk files (above dir) rest
    else if nameLimit < part.length then .error .tooLong
    else
      let name := dir ++ part
      match files.lookup name with
      | some content => if rest.isEmpty then .ok (.file name content) else .error .notDirectory
      | none =>
        if files.any fun (other, _) => (name ++ [47]).isPrefixOf other then
          walk files (name ++ [47]) rest
        else if rest.all List.isEmpty then .ok (.vacant name !rest.isEmpty)
        else .error .notFound

def target (files : Files) (path : Bytes) : Except PathFault Target :=
  match path with
  | 47 :: rest => walk files [47] (rest.splitOn 47)
  | path => walk files [] (path.splitOn 47)

def read (files : Files) (path : Bytes) : Except Bytes Bytes :=
  match target files path with
  | .ok (.file _ content) => .ok content
  | .ok .directory => .error (refusal "read" path .isDirectory)
  | .ok (.vacant ..) => .error (refusal "open" path .notFound)
  | .error why => .error (refusal "open" path why)

def place (files : Files) (path : Bytes) : Except Bytes Bytes :=
  match target files path with
  | .ok (.file name _) => .ok name
  | .ok .directory => .error (refusal "open" path .isDirectory)
  | .ok (.vacant name slashed) =>
    if slashed then .error (refusal "open" path .isDirectory) else .ok name
  | .error why => .error (refusal "open" path why)

end Path

end TapeForge.Cli
