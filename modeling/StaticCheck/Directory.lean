import StaticCheck.Text

/-! # Files and paths

What a path leads to, and the text found there.  A path is walked part by part from a working
directory or from the root.  Only a directory can be walked through, so every part needs one before
it, and an empty part, as at the end of `a/`, asks for nothing else.

The files of the working directory are known; of the directories around it only that they are
directories. -/

namespace StaticCheck

/-! ### Contents -/

/-- What is found at a path. -/
inductive FileContent where
  | missing
  | directory
  /-- The path goes on behind something that is no directory. -/
  | notADirectory
  /-- The path, or a name in it, is longer than names can be. -/
  | nameTooLong
  /-- Something that cannot be read, for the given reason. -/
  | unreadable (reason : String)
  | bytes (data : ByteArray)

/-- The text of a file, or the reason why there is none. -/
def FileContent.text : FileContent → Except String String
  | missing => .error "No such file or directory (os error 2)"
  | notADirectory => .error "Not a directory (os error 20)"
  | directory => .error "Is a directory (os error 21)"
  | nameTooLong => .error "File name too long (os error 36)"
  | unreadable reason => .error reason
  | bytes data =>
    match String.fromUTF8? data with
    | none => .error "stream did not contain valid UTF-8"
    | some text => .ok text

/-! ### Walks -/

/-- The greatest number of bytes of a name. -/
def nameLimit : Nat := 255

/-- The greatest number of bytes of a path. -/
def pathLimit : Nat := 4095

/-- The files of a working directory, by name. -/
structure Directory where
  files : List (String × ByteArray)

/-- A place reached on the way along a path. -/
inductive Place where
  /-- The working directory. -/
  | here
  /-- A directory around the working directory. -/
  | outside
  | file (data : ByteArray)

namespace Directory

def single (name : String) (data : ByteArray) : Directory := ⟨[(name, data)]⟩

/-- The file of a name at a place that is a directory. -/
def find (directory : Directory) (place : Place) (name : List Char) : Except FileContent Place :=
  if nameLimit < byteLength name then .error .nameTooLong
  else match place with
    | .here =>
      match directory.files.lookup (String.ofList name) with
      | some data => .ok (.file data)
      | none => .error .missing
    | _ => .error .missing

/-- Walks along one part of a path. -/
def walk (directory : Directory) (place : Place) (part : List Char) : Except FileContent Place :=
  match place with
  | .file _ => .error .notADirectory
  | _ =>
    if part = [] ∨ part = ['.'] then .ok place
    else if part = ['.', '.'] then .ok .outside
    else directory.find place part

def origin : List Char → Place
  | '/' :: _ => .outside
  | _ => .here

def contentAt : Place → FileContent
  | .file data => .bytes data
  | _ => .directory

def read (directory : Directory) (path : String) : FileContent :=
  let chars := path.toList
  if chars = [] then .missing
  else if pathLimit < byteLength chars then .nameTooLong
  else match (splitAtChar '/' chars).foldlM directory.walk (origin chars) with
    | .error content => content
    | .ok place => contentAt place

end Directory

end StaticCheck
