import ClassScript.Text.Quoted
import ClassScript.Text.Utf8

/-!
# Files and their paths

A path is a list of parts between slashes. Empty parts and single points lead nowhere, so they do
not count for the extension of a file (`extension?`). `Directory.read` walks along a path from
directory to directory; behind a file nothing may follow, not even a part that leads nowhere. The
directories above the one in which the walk begins exist, and all else there is unknown.
-/

set_option autoImplicit false

namespace ClassScript

/-! ## Paths -/

/-- A part of a path. -/
abbrev PathPart := List Char

namespace PathPart

/-- The part that leads to the directory above. -/
def up : PathPart := ['.', '.']

/-- Whether a part leads nowhere. -/
def isIdle (part : PathPart) : Bool :=
  part = [] ∨ part = ['.']

/-- The parts of a text between its slashes. -/
def split : List Char → List PathPart
  | [] => [[]]
  | c :: rest =>
    if c = '/' then [] :: split rest
    else
      match split rest with
      | [] => [[c]]
      | part :: others => (c :: part) :: others

/-- What follows the last point of a part, unless that point is its first character. -/
def extension? (part : PathPart) : Option String :=
  let ending := (part.reverse.takeWhile (· ≠ '.')).reverse
  if ending.length + 1 < part.length ∧ part ≠ up then some (String.ofList ending) else none

end PathPart

/-- The extension of the file to which a path leads. -/
def extension? (path : String) : Option String :=
  ((PathPart.split path.toList).filter fun part => !part.isIdle).getLast?.bind PathPart.extension?

/-! ## Files -/

/-- Why a file gives no text. -/
inductive FileError where
  | missing
  /-- The path leads on behind a file. -/
  | notDirectory
  /-- A part of the path, or the path itself, is longer than any name of a file. -/
  | nameTooLong
  /-- The path leads to a directory. -/
  | directory
  | unopened (reason : String)
  | unread (reason : String)
  | encoding (e : Text.Utf8Error)
  deriving Repr, DecidableEq

namespace FileError

/-- The report on a file that could not be opened. -/
def openReport (path reason : String) : String :=
  "Failed to open file " ++ Text.quoted path ++ ": " ++ reason

/-- The report on a file that was opened and could not be read. -/
def readReport (path reason : String) : String :=
  "Failed to read file " ++ Text.quoted path ++ ": " ++ reason

/-- The error in words. -/
def message (path : String) : FileError → String
  | missing => openReport path "No such file or directory (os error 2)"
  | notDirectory => openReport path "Not a directory (os error 20)"
  | nameTooLong => openReport path "File name too long (os error 36)"
  | directory => readReport path "Is a directory (os error 21)"
  | unopened reason => openReport path reason
  | unread reason => readReport path reason
  | encoding e => "File " ++ Text.quoted path ++ " is not valid UTF-8: " ++ e.message

end FileError

/-! ## Directories -/

/-- What a path leads to. -/
inductive Found where
  | file (contents : List UInt8)
  | directory
  | nothing
  deriving Repr, DecidableEq

/-- A directory: the files in and below it, with their paths from it, and the paths of directories
that may be empty. -/
structure Directory where
  files : List (List PathPart × List UInt8)
  folders : List (List PathPart)
  deriving Repr

namespace Directory

/-- A directory of files with their paths. -/
def ofFiles (files : List (String × List UInt8)) : Directory :=
  ⟨files.map fun f => ((PathPart.split f.1.toList).filter fun part => !part.isIdle, f.2), []⟩

/-- What every system has at its root: the empty device and the usual directories. -/
def system : Directory :=
  ⟨[(["dev".toList, "null".toList], [])],
    ["bin", "etc", "lib", "tmp", "usr", "var"].map fun name => [name.toList]⟩

/-- What stands at a path from the directory. -/
def find (d : Directory) (parts : List PathPart) : Found :=
  match d.files.lookup parts with
  | some contents => .file contents
  | none =>
    if parts = [] || d.folders.contains parts || d.files.any fun f => parts.isPrefixOf f.1 then
      .directory
    else .nothing

/-- Where a walk along a path stands. -/
inductive Place where
  /-- At a path from the directory in which the walk begins. -/
  | inside (parts : List PathPart)
  /-- In a directory above it, of which nothing else is known. -/
  | above
  /-- At something in a directory above it. -/
  | elsewhere
  /-- At a path from the root. -/
  | rooted (parts : List PathPart)
  deriving Repr, DecidableEq

namespace Place

/-- The directory above a place; the root is above itself. -/
def up : Place → Place
  | inside [] => above
  | inside (first :: rest) => inside (first :: rest).dropLast
  | above => above
  | elsewhere => above
  | rooted parts => rooted parts.dropLast

/-- What has this name in the directory at a place. -/
def down (part : PathPart) : Place → Place
  | inside parts => inside (parts ++ [part])
  | above => elsewhere
  | elsewhere => elsewhere
  | rooted parts => rooted (parts ++ [part])

end Place

/-- What stands at a place. -/
def look (d : Directory) : Place → Found
  | .inside parts => d.find parts
  | .above => .directory
  | .elsewhere => .nothing
  | .rooted parts => system.find parts

/-- The greatest number of bytes of a part of a path. -/
def maxPartBytes : Nat := 255

/-- The greatest number of bytes of a path. -/
def maxPathBytes : Nat := 4095

/-- The contents of the file to which the parts of a path lead from a place. -/
def readFrom (d : Directory) (place : Place) : List PathPart → Except FileError (List UInt8)
  | [] =>
    match d.look place with
    | .file contents => .ok contents
    | .directory => .error .directory
    | .nothing => .error .missing
  | part :: rest =>
    match d.look place with
    | .file _ => .error .notDirectory
    | .nothing => .error .missing
    | .directory =>
      if part.isIdle then d.readFrom place rest
      else if part = PathPart.up then d.readFrom place.up rest
      else if maxPartBytes < (String.ofList part).utf8ByteSize then .error .nameTooLong
      else d.readFrom (place.down part) rest

/-- The contents of the file to which a path leads: from the root if it starts with a slash, or else
from the directory. -/
def read (d : Directory) (path : String) : Except FileError (List UInt8) :=
  if path.isEmpty then .error .missing
  else if maxPathBytes < path.utf8ByteSize then .error .nameTooLong
  else
    let start := if path.toList.head? = some '/' then Place.rooted [] else .inside []
    d.readFrom start (PathPart.split path.toList)

end Directory

end ClassScript
