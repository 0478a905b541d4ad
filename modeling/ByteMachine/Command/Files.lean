/-! Files by path. The executable reads the files of its system and takes only the wording of
errors from here; a tree of files stands in for a system in tests. There a path is walked name by
name, from the root if it starts with a slash and from the working directory otherwise. Nothing is
below a file, and an empty name is the directory itself, so a path that ends in a slash is never
that of a file. -/
namespace ByteMachine

/-- The bytes of a file, or the reason why it cannot be read. -/
abbrev Files := String → Except String (List UInt8)

inductive FileError where
  | notFound
  | permissionDenied
  | notDirectory
  | isDirectory
  | nameTooLong
deriving DecidableEq

namespace FileError

def all : List FileError := [notFound, permissionDenied, notDirectory, isDirectory, nameTooLong]

def code : FileError → UInt32
  | notFound => 2
  | permissionDenied => 13
  | notDirectory => 20
  | isDirectory => 21
  | nameTooLong => 36

def text : FileError → String
  | notFound => "No such file or directory"
  | permissionDenied => "Permission denied"
  | notDirectory => "Not a directory"
  | isDirectory => "Is a directory"
  | nameTooLong => "File name too long"

def message (e : FileError) : String := s!"{e.text} (os error {e.code})"

def ofCode? (n : UInt32) : Option FileError := all.find? (·.code == n)

theorem ofCode?_code (e : FileError) : ofCode? e.code = some e := by cases e <;> decide

end FileError

inductive FileTree where
  | file (bytes : List UInt8)
  | directory (entries : List (String × FileTree))

/-- A part of a tree, with the directories above it, the nearest first. -/
structure Place where
  here : FileTree
  above : List FileTree := []

namespace Place

/-- A name has at most this many bytes. -/
def nameLimit : Nat := 255

/-- A path has fewer bytes than this. -/
def pathLimit : Nat := 4096

def root (p : Place) : Place :=
  match p.above.getLast? with
  | none => p
  | some t => ⟨t, []⟩

/-- The root is its own parent. -/
def parent (p : Place) : Place :=
  match p.above with
  | [] => p
  | t :: above => ⟨t, above⟩

def enter (name : String) (p : Place) : Except FileError Place :=
  match p.here with
  | .file _ => .error .notDirectory
  | .directory entries =>
    if name = "" ∨ name = "." then .ok p
    else if name = ".." then .ok p.parent
    else if nameLimit < name.utf8ByteSize then .error .nameTooLong
    else
      match entries.lookup name with
      | none => .error .notFound
      | some t => .ok ⟨t, p.here :: p.above⟩

def walk : List String → Place → Except FileError Place
  | [], p => .ok p
  | name :: names, p =>
    match p.enter name with
    | .error e => .error e
    | .ok p => walk names p

theorem walk_append {ks ls : List String} {p q : Place} (h : p.walk ks = .ok q) :
    p.walk (ks ++ ls) = q.walk ls := by
  induction ks generalizing p with
  | nil => cases h; rfl
  | cons k ks ih =>
    simp only [walk, List.cons_append] at h ⊢
    split at h
    · contradiction
    · exact ih h

def locate (path : String) (p : Place) : Except FileError Place :=
  if path = "" then .error .notFound
  else if pathLimit ≤ path.utf8ByteSize then .error .nameTooLong
  else walk (path.splitOn "/") (if path.toList.head? = some '/' then p.root else p)

def read (path : String) (p : Place) : Except FileError (List UInt8) :=
  match p.locate path with
  | .error e => .error e
  | .ok q =>
    match q.here with
    | .file bytes => .ok bytes
    | .directory _ => .error .isDirectory

/-- The files that paths name when `p` is the working directory. -/
def files (p : Place) : Files := fun path => (p.read path).mapError FileError.message

end Place
end ByteMachine
