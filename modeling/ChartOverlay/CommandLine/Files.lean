import ChartOverlay.Text.Encoding

/-!
# Files

Texts by path, as a run finds them. A path is followed part by part from the working directory or from the
root. Of the directories above the working directory nothing is known but that they are there, and of the
root those that every system has.
-/

namespace ChartOverlay.CommandLine

inductive FileError
  | notFound (path : Text)
  | isDirectory (path : Text)
  | notADirectory (path : Text)
  | nameTooLong (path : Text)
  /-- A path with a zero in it is no path. -/
  | zeroInPath
  | uncodable (error : CodingError)
  deriving Repr, DecidableEq

def FileError.message : FileError → String
  | notFound path => "[Errno 2] No such file or directory: " ++ quoted path
  | isDirectory path => "[Errno 21] Is a directory: " ++ quoted path
  | notADirectory path => "[Errno 20] Not a directory: " ++ quoted path
  | nameTooLong path => "[Errno 36] File name too long: " ++ quoted path
  | zeroInPath => "embedded null byte"
  | uncodable e => e.message

def isAbsolute : Text → Bool
  | .char '/' :: _ => true
  | _ => false

/-- The parts of a path between slashes, without those that are empty or stand for where it already is. -/
def pathParts (path : Text) : List Text :=
  (path.splitOn (.char '/')).filter fun part => part ≠ [] && part ≠ [.char '.']

/-- A path written with one slash between its parts. -/
def plainPath (path : Text) : Text :=
  let root : Text := match path with
    | .char '/' :: .char '/' :: .char '/' :: _ => "/"
    | .char '/' :: .char '/' :: _ => "//"
    | .char '/' :: _ => "/"
    | _ => []
  match root ++ List.intercalate "/" (pathParts path) with
  | [] => "."
  | plain => plain

/-- The number of bytes of a path; a half in it stands for one of them. -/
def byteLength (path : Text) : Nat :=
  let size : CodePoint → Nat
    | .char c => c.utf8Size
    | .half _ => 1
  path.foldl (fun n c => n + size c) 0

def unifyLineEnds : Text → Text
  | .char '\r' :: .char '\n' :: rest => '\n' :: unifyLineEnds rest
  | .char '\r' :: rest => '\n' :: unifyLineEnds rest
  | c :: rest => c :: unifyLineEnds rest
  | [] => []

inductive Site
  /-- A directory inside the working directory, by the names that lead to it. -/
  | inside (names : List Text)
  | above
  /-- A directory by the names that lead to it from the root. -/
  | system (names : List Text)
  | file (text : Text)

structure Files where
  entries : List (Text × Text) := []

def rootNames : List Text :=
  ["bin", "boot", "dev", "etc", "home", "lib", "media", "mnt", "opt", "proc", "root", "run", "sbin", "srv",
   "sys", "tmp", "usr", "var"]

/-- What names lead to from the root; the null device is an empty file. -/
def Site.ofSystem? : List Text → Option Site
  | [name] => if rootNames.contains name then some (.system [name]) else none
  | names => if names = (["dev", "null"] : List Text) then some (.file []) else none

namespace Files

def maxNameLength : Nat := 255

def maxPathLength : Nat := 4095

/-- What a name leads to in a directory inside the working directory. -/
def enter? (files : Files) (names : List Text) (name : Text) : Option Site :=
  let names := names ++ [name]
  let entries := files.entries.filter fun (path, _) => !isAbsolute path
  match entries.find? fun (path, _) => pathParts path = names with
  | some (_, text) => some (.file text)
  | none =>
    if entries.any fun (path, _) => names.isPrefixOf (pathParts path) then some (.inside names) else none

/-- Follows the parts of a path, of which `path` is the whole. -/
def follow (files : Files) (path : Text) : Site → List Text → Except FileError Site
  | site, [] => .ok site
  | .file _, _ :: _ => .error (.notADirectory path)
  | .above, [.char '.', .char '.'] :: rest => files.follow path .above rest
  | .inside [], [.char '.', .char '.'] :: rest => files.follow path .above rest
  | .inside names, [.char '.', .char '.'] :: rest => files.follow path (.inside names.dropLast) rest
  | .system names, [.char '.', .char '.'] :: rest => files.follow path (.system names.dropLast) rest
  | site, name :: rest =>
    if maxNameLength < byteLength name then .error (.nameTooLong path)
    else
      let next := match site with
        | .inside names => files.enter? names name
        | .system names => Site.ofSystem? (names ++ [name])
        | _ => none
      match next with
      | some site => files.follow path site rest
      | none => .error (.notFound path)

/-- The text at a path, with one way to end a line. -/
def read (files : Files) (path : Text) : Except FileError Text := do
  let path := plainPath path
  if let some e := CodingError.path? path then throw (.uncodable e)
  if path.contains (.char '\x00') then throw .zeroInPath
  if maxPathLength < byteLength path then throw (.nameTooLong path)
  let site ← match files.entries.find? fun (name, _) => plainPath name = path with
    | some (_, text) => pure (.file text)
    | none => files.follow path (if isAbsolute path then .system [] else .inside []) (pathParts path)
  match site with
  | .file text => return unifyLineEnds text
  | _ => throw (.isDirectory path)

end Files

end ChartOverlay.CommandLine
