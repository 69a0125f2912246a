import AccessControl.Text
import AccessControl.Text.Utf8

/-! # Files

What the program needs of a file system: to look at what is at a path.  `FileSystem` leaves open
where the files are, and `FileTree` is a directory held in memory, in which every look has the same
answer. -/

namespace AccessControl

/-- What a file holds: text, or bytes that are no text. -/
inductive Content where
  | text (s : String)
  | bytes (values : List Nat)

namespace Content

def ofBytes (bytes : ByteArray) : Content :=
  match String.fromUTF8? bytes with
  | some s => text s
  | none => .bytes (bytes.toList.map (·.toNat))

/-- The text of a file that holds text. -/
def text? : Content → Option String
  | text s => some s
  | bytes _ => none

/-- The text of a file, with replacements for what is no text. -/
def repaired : Content → String
  | text s => s
  | bytes values => .ofList (Text.Utf8.readAll values)

end Content

/-- What is at a path: a file with its content, or a directory with the names in it. -/
inductive Entry where
  | file (content : Content)
  | directory (names : List String)

/-- A way to look at what is at a path, if anything is. -/
structure FileSystem (m : Type → Type) where
  look : String → m (Option Entry)

namespace FileSystem

/-- The path of a name in a directory. -/
def join (directory name : String) : String :=
  if directory = "" ∨ directory.endsWith "/" then directory ++ name else directory ++ "/" ++ name

def lastName (path : String) : List Char := ((Text.split '/' path.toList).getLast?).getD []

/-- What follows the last dot in the last name of a path, unless the name starts with that dot. -/
def extension? (path : String) : Option String :=
  match (Text.split '.' (lastName path)).reverse with
  | [] | [_] | [_, []] => none
  | last :: _ => some (.ofList last)

/-- A path without the slashes and dots that end it; a path that ends in a step upwards, or has no
name in it, is none. -/
def bare? (path : String) : Option String :=
  let parts := (Text.split '/' path.toList).reverse.dropWhile fun part => part = [] ∨ part = ['.']
  match parts with
  | [] | ['.', '.'] :: _ => none
  | parts => some ("/".intercalate (parts.reverse.map .ofList))

variable {m : Type → Type} [Monad m]

/-- The text of the file at a path, if there is such a file and its content is text. -/
def readText? (fs : FileSystem m) (path : String) : m (Option String) := do
  match ← fs.look path with
  | some (.file content) => return content.text?
  | _ => return none

end FileSystem

/-- A directory in memory, or a file in one. -/
inductive FileTree where
  | file (content : Content)
  | directory (entries : List (String × FileTree))

namespace FileTree

def empty : FileTree := directory []

/-- The names in a path, which has slashes between them; a single dot stands for no name. -/
def parts (path : String) : List String :=
  ((Text.split '/' path.toList).map .ofList).filter fun part => part != "" && part != "."

/-- The entry of a directory with a name. -/
def child? (tree : FileTree) (name : String) : Option FileTree :=
  match tree with
  | file _ => none
  | directory entries => entries.lookup name

/-- What is reached by parts of a path from a tree, given the trees that it is in, innermost
first. -/
def walk? (above : List FileTree) (tree : FileTree) : List String → Option FileTree
  | [] => some tree
  | part :: rest =>
    if part = ".." then
      match tree, above with
      | directory _, outer :: above => walk? above outer rest
      | _, _ => none
    else match tree.child? part with
      | some inner => walk? (tree :: above) inner rest
      | none => none

/-- What is at a path below a tree.  Nothing is at the empty path, and the whole tree is at a single
dot; a path that starts with a slash leads out of the tree, and one that ends with a slash or a dot
leads to a directory only. -/
def look? (tree : FileTree) (path : String) : Option Entry :=
  if path = "" ∨ path.startsWith "/" then none
  else match walk? [] tree (parts path) with
    | some (file content) =>
      if path.endsWith "/" ∨ path.endsWith "/." then none else some (.file content)
    | some (directory entries) => some (.directory (entries.map (·.1)))
    | none => none

/-- A file put into a tree, with the directories that lead to it. -/
def insert (tree : FileTree) (path : List String) (content : FileTree) : FileTree :=
  match path with
  | [] => content
  | part :: rest =>
    match tree with
    | file _ => tree
    | directory entries =>
      directory ((part, insert ((entries.lookup part).getD empty) rest content) ::
        entries.filter (·.1 != part))

def fileSystem (tree : FileTree) : FileSystem Id := ⟨fun path => tree.look? path⟩

end FileTree
end AccessControl
