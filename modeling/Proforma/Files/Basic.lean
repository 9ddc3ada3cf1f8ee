/-! Files as a program sees them: what is at a path, and why a path cannot be read. -/
namespace Proforma

inductive FileFault where
  | absent
  /-- There is a directory where a file is wanted. -/
  | directory
  /-- The path leads through a file as if it were a directory. -/
  | notDirectory
  /-- The bytes of the file are no text. -/
  | notText
  | denied
  | other (reason : String)
  deriving DecidableEq, Repr

def FileFault.message : FileFault → String
  | absent => "No such file or directory (os error 2)"
  | directory => "Is a directory (os error 21)"
  | notDirectory => "Not a directory (os error 20)"
  | notText => "stream did not contain valid UTF-8"
  | denied => "Permission denied (os error 13)"
  | other reason => reason

structure Files where
  read : String → Except FileFault String

namespace Files

/-- The files that have been looked at, each with its text or what is wrong with it. -/
def ofList (known : List (String × Except FileFault String)) : Files :=
  ⟨fun path => (known.lookup path).getD (.error .absent)⟩

/-- There is a file or a directory at the path. -/
def has (files : Files) (path : String) : Bool :=
  match files.read path with
  | .ok _ => true
  | .error fault => !(fault == .absent || fault == .notDirectory)

/-- The parts of a path between its slashes. -/
def components (path : String) : List String :=
  ((path.toList.splitBy fun a b => a != '/' && b != '/').filter (· != ['/'])).map String.ofList

/-- The path of a name inside a directory. -/
def join (directory name : String) : String :=
  if directory.isEmpty || directory.toList.getLast? == some '/' then directory ++ name
  else directory ++ "/" ++ name

/-- The last name of a path, without its extension. -/
def stem? (path : String) : Option String :=
  match (components path).filter (· != ".") |>.getLast? with
  | none => none
  | some ".." => none
  | some name =>
    let before := (name.toList.reverse.dropWhile (· != '.')).drop 1
    some (if before.isEmpty then name else String.ofList before.reverse)

example : stem? "letters/offer.v2.md" = some "offer.v2" := by decide +kernel
example : stem? ".md" = some ".md" := by decide +kernel
example : stem? ".." = none := by decide +kernel

end Files

/-- A directory with files in it, by the names on the way to each file. -/
structure FileTree where
  files : List (List String × String)

namespace FileTree

/-- The path leads to a directory: there are files behind it, or it is the tree itself. -/
def isDirectory (t : FileTree) (place : List String) : Bool :=
  place.isEmpty || t.files.any fun f => place.length < f.1.length && place.isPrefixOf f.1

/-- Reads the file at `place`. -/
def fileAt (t : FileTree) (place : List String) : Except FileFault String :=
  match t.files.lookup place with
  | some text => .ok text
  | none => if t.isDirectory place then .error .directory else .error .absent

/-- Follows the components of a path, step by step. Outside the tree nothing is known but the
directories around it. -/
def follow (t : FileTree) (place : List String) : List String → Except FileFault String
  | [] => t.fileAt place
  | c :: cs =>
    match t.fileAt place with
    | .ok _ => .error .notDirectory
    | .error .directory =>
      if c = "." then t.follow place cs
      else if c = ".." then
        if place.isEmpty then
          if cs.all fun c => c == "." || c == ".." then .error .directory else .error .absent
        else t.follow place.dropLast cs
      else t.follow (place ++ [c]) cs
    | .error fault => .error fault

/-- A slash at the end of a path says that it leads to a directory. -/
def read (t : FileTree) (path : String) : Except FileFault String :=
  let cs := path.toList
  if cs.isEmpty then .error .absent
  else if cs.head? == some '/' then
    if cs.all (· == '/') then .error .directory else .error .absent
  else
    t.follow [] (Files.components path ++ if cs.getLast? == some '/' then ["."] else [])

def toFiles (t : FileTree) : Files := ⟨t.read⟩

def ofList (files : List (String × String)) : FileTree :=
  ⟨files.map fun f => (Files.components f.1, f.2)⟩

end FileTree

end Proforma
