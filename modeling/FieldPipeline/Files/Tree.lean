import FieldPipeline.Record
import FieldPipeline.Text.Basic

/-!
# File trees

A working directory with files and directories, and what a path names in it. The path is walked
part by part. A part after a file, even an empty one or a dot, is a fault. A name has at most 255
bytes and a path at most 4095. Above the working directory nothing is known but that it is a
directory.

The name of a file is the last part of its path; empty parts and single dots at the end do not
count. The extension of a name is what follows its last dot, unless that dot is the first character.
-/

namespace FieldPipeline

inductive FileFault where
  | notFound
  | notDirectory
  | isDirectory
  | notText
  | nulInName
  | nameTooLong
deriving DecidableEq

def FileFault.message : FileFault → String
  | .notFound => "No such file or directory (os error 2)"
  | .notDirectory => "Not a directory (os error 20)"
  | .isDirectory => "Is a directory (os error 21)"
  | .notText => "stream did not contain valid UTF-8"
  | .nulInName => "file name contained an unexpected NUL byte"
  | .nameTooLong => "File name too long (os error 36)"

inductive FileTree where
  | file (content : ByteArray)
  | directory (entries : List (String × FileTree))

namespace FileTree

def parts (path : String) : List String :=
  (Text.pieces '/' path.toList).map String.ofList

/-- Where a walk stands: in a directory below some others, innermost first, outside of the working
directory, or at a file. -/
inductive Place where
  | inside (entries : Record String FileTree) (above : List (Record String FileTree))
  | outside
  | atFile (content : ByteArray)

def lookUp (entries : Record String FileTree) (name : String) : Except FileFault FileTree :=
  if 255 < name.utf8ByteSize then .error .nameTooLong
  else
    match Record.get? entries name with
    | some tree => .ok tree
    | none => .error .notFound

def Place.enter : Place → String → Except FileFault Place
  | .atFile _, _ => .error .notDirectory
  | .outside, part =>
    if part = "" ∨ part = "." ∨ part = ".." then .ok .outside
    else (lookUp [] part).map fun _ => .outside
  | .inside entries above, part =>
    if part = "" ∨ part = "." then .ok (.inside entries above)
    else if part = ".." then
      match above with
      | [] => .ok .outside
      | outer :: rest => .ok (.inside outer rest)
    else
      match lookUp entries part with
      | .error fault => .error fault
      | .ok (.file content) => .ok (.atFile content)
      | .ok (.directory inner) => .ok (.inside inner (entries :: above))

def read (entries : Record String FileTree) (path : String) : Except FileFault ByteArray :=
  if '\x00' ∈ path.toList then .error .nulInName
  else if 4095 < path.utf8ByteSize then .error .nameTooLong
  else if path = "" then .error .notFound
  else
    let start : Place := if path.toList.head? = some '/' then .outside else .inside entries []
    match (parts path).foldlM Place.enter start with
    | .ok (.atFile content) => .ok content
    | .ok _ => .error .isDirectory
    | .error fault => .error fault

/-- Adds a file or a directory with the directories above it. -/
def insert (entries : Record String FileTree) : List String → FileTree → Record String FileTree
  | [], _ => entries
  | [name], tree =>
    match tree, Record.get? entries name with
    | .directory [], some (.directory _) => entries
    | _, _ => Record.put entries name tree
  | name :: rest, tree =>
    let inner :=
      match Record.get? entries name with
      | some (.directory inner) => inner
      | _ => []
    Record.put entries name (.directory (insert inner rest tree))

end FileTree

namespace FileName

/-- The last part of a path that names something. -/
def ofPath? (path : String) : Option String :=
  match ((FileTree.parts path).filter fun part => part ≠ "" ∧ part ≠ ".").getLast? with
  | some name => if name = ".." then none else some name
  | none => none

/-- What follows the last dot of a name. -/
def extension? (name : String) : Option String :=
  let backward := name.toList.reverse
  let stem := (backward.dropWhile (· ≠ '.')).drop 1
  if stem.isEmpty then none else some (String.ofList (backward.takeWhile (· ≠ '.')).reverse)

def isYaml (path : String) : Bool :=
  match (ofPath? path).bind extension? with
  | some e => e = "yaml" ∨ e = "yml"
  | none => false

end FileName

end FieldPipeline
