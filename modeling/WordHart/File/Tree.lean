import WordHart.File.Error

/-!
A place is the list of names on the way to it from the root, and a path is
followed name by name: a name can only be looked for in a directory that exists,
`.` stays there and `..` goes back. All paths start at the root. A file to be
written need not exist yet, but the directory that is to hold it must.
-/

namespace WordHart

inductive FileNode where
  | directory
  | file (data : List UInt8)
  deriving DecidableEq

/-- The nodes below the root, each at its place. -/
structure FileTree where
  nodes : List (List String × FileNode)
  deriving DecidableEq

namespace FileTree

/-- The node at a place. The root is always a directory. -/
def node? (tree : FileTree) (place : List String) : Option FileNode :=
  if place.isEmpty then some .directory else tree.nodes.lookup place

def nameLimit : Nat := 255

def pathLimit : Nat := 4095

/-- The place that a name leads to from another one. -/
def enter (tree : FileTree) (place : List String) (name : String) :
    Except FileError (List String) :=
  match tree.node? place with
  | none => .error .notFound
  | some (.file _) => .error .notDirectory
  | some .directory =>
      if name = "." then .ok place
      else if name = ".." then .ok place.dropLast
      else if nameLimit < name.utf8ByteSize then .error .nameTooLong
      else .ok (place ++ [name])

/-- The place that a list of names leads to from the root. Nothing need stand there. -/
def follow (tree : FileTree) (names : List String) : Except FileError (List String) :=
  names.foldlM tree.enter []

/-- The names in a path; slashes that follow one another count as one. -/
def names (path : String) : List String :=
  ((path.toList.splitOn '/').filter fun name => !name.isEmpty).map String.ofList

/-- Whether a path ends with a slash and so can only mean a directory. -/
def endsWithSlash (path : String) : Bool := path.toList.getLast? = some '/'

def read (tree : FileTree) (path : String) : Except FileError (List UInt8) :=
  if pathLimit < path.utf8ByteSize then .error .nameTooLong
  else do
    let place ← tree.follow (names path)
    match tree.node? place with
    | none => .error .notFound
    | some .directory => .error .isDirectory
    | some (.file data) => if endsWithSlash path then .error .notDirectory else .ok data

/-- The place at which a file with the given path is written. -/
def target (tree : FileTree) (path : String) : Except FileError (List String) :=
  if pathLimit < path.utf8ByteSize then .error .nameTooLong
  else if endsWithSlash path then do
    let _ ← tree.follow ((names path).dropLast ++ ["."])
    .error .isDirectory
  else do
    let place ← tree.follow (names path)
    match tree.node? place with
    | some .directory => .error .isDirectory
    | _ => .ok place

/-- The tree with a file written at a path, in place of the one that may be there. -/
def write (tree : FileTree) (path : String) (data : List UInt8) : Except FileError FileTree := do
  let place ← tree.target path
  return ⟨(place, .file data) :: tree.nodes.filter fun node => node.1 ≠ place⟩

@[simp] theorem node?_root (tree : FileTree) : tree.node? [] = some .directory := rfl

theorem target_ne_root {tree : FileTree} {path : String} {place : List String}
    (found : tree.target path = .ok place) : place ≠ [] := by
  intro root
  subst root
  unfold target at found
  split at found
  · contradiction
  · split at found
    · cases followed : tree.follow ((names path).dropLast ++ ["."]) <;>
        simp [followed, bind, Except.bind] at found
    · cases followed : tree.follow (names path) with
      | error reason => simp [followed, bind, Except.bind] at found
      | ok place =>
          simp only [followed, bind, Except.bind] at found
          split at found
          · contradiction
          · rename_i absent
            cases found
            exact absent (node?_root tree)

theorem node?_write {tree after : FileTree} {path : String} {place : List String}
    {data : List UInt8} (found : tree.target path = .ok place)
    (written : tree.write path data = .ok after) : after.node? place = some (.file data) := by
  have below := target_ne_root found
  simp only [write, found, bind, Except.bind, pure, Except.pure, Except.ok.injEq] at written
  subst after
  simp [node?, below]

end FileTree

end WordHart
