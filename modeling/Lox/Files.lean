import Lox.Text.Basic

set_option autoImplicit false
set_option relaxedAutoImplicit false

namespace Lox

open Text (lit)

/-- What reading a file gives. -/
inductive Contents
  | absent
  | directory
  | unreadable (reason : Text)
  | text (bytes : Text)
  deriving DecidableEq

abbrev Path := List Text

namespace Path

def parts : Text → List Text
  | [] => [[]]
  | b :: r =>
    if b = Byte.slash then [] :: parts r
    else match parts r with
      | [] => [[b]]
      | p :: ps => (b :: p) :: ps

def write (p : Path) : Text := p.flatMap fun part => Byte.slash :: part

def joined (directory name : Text) : Text :=
  if directory.isEmpty then name
  else if directory.getLast? = some Byte.slash then directory ++ name
  else directory ++ Byte.slash :: name

end Path

/-- Directories and the files in them, by their paths. -/
structure Files where
  directories : List Path
  files : List (Path × Text)

namespace Files

private def above (p : Path) : List Path := (List.range p.length).map p.take

def put (fs : Files) (p : Path) (t : Text) : Files :=
  { directories := fs.directories ++ (above p).filter fun d => !fs.directories.contains d
    files := fs.files.filter (fun f => f.1 != p) ++ [(p, t)] }

def get? (fs : Files) (p : Path) : Option Text := fs.files.lookup p

def isDirectory (fs : Files) (p : Path) : Bool := fs.directories.contains p

/-- Walks the parts of a path from a directory; it has to be one as long as parts follow. -/
private def walk (fs : Files) : Path → List Text → Except Contents Path
  | p, [] => .ok p
  | p, part :: r =>
    if fs.isDirectory p then
      if part.isEmpty || part == lit "." then walk fs p r
      else if part == lit ".." then walk fs p.dropLast r
      else walk fs (p ++ [part]) r
    else if (fs.get? p).isSome then .error (.unreadable (lit "not a directory"))
    else .error .absent

def locate (fs : Files) (here : Path) (path : Text) : Except Contents Path :=
  match path with
  | [] => .error .absent
  | 47 :: r => walk fs [] (Path.parts r)
  | _ => walk fs here (Path.parts path)

def read (fs : Files) (here : Path) (path : Text) : Contents :=
  match fs.locate here path with
  | .error c => c
  | .ok p =>
    if fs.isDirectory p then .directory
    else match fs.get? p with
      | some t => .text t
      | none => .absent

/-- Writes the file that a written path names, unless its directory is missing. -/
def write? (fs : Files) (here : Path) (path text : Text) : Option Files :=
  match fs.locate here path with
  | .error _ => none
  | .ok p =>
    if fs.isDirectory p || !fs.isDirectory p.dropLast then none else some (fs.put p text)

end Files
end Lox
