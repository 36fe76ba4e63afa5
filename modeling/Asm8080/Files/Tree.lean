import Asm8080.Files.Path
import Asm8080.Text.Lines

/-!
# File trees

A file tree says which files and directories there are, what the files hold, and which directory is
the working directory. Commands read files from a tree and write files into it. A file name has at
most 255 bytes, and a path has fewer than 4096.

A text is written in two steps: the file is opened, which creates or empties it, and then the text
is encoded. A text that cannot be encoded leaves the file empty.

## Main definitions

* `Asm8080.FileTree` — a tree, and `Asm8080.FileTree.entry?` — what is at a place.
* `Asm8080.FileTree.read`, `Asm8080.FileTree.readText` — the contents of a file.
* `Asm8080.FileTree.write`, `Asm8080.FileTree.writeText` — replace or create a file.

## Implementation notes

A tree stands for what commands see of a file system, with these limits:

* there are files and directories only, so that a name at a place leads to one thing: no symbolic
  links, devices or pipes;
* nobody is refused access, there is room for every file, and nothing else changes the tree while a
  command runs;
* names are sequences of bytes, as they are for the system; only names that the system cannot have,
  with a slash or a zero byte in them, are not told apart from others;
* the locale is a UTF-8 locale, so that every text file is read and written as UTF-8.
-/

set_option autoImplicit false

namespace Asm8080

/-- What can be at a place. -/
inductive Entry where
  | file (bytes : List UInt8)
  | directory
deriving DecidableEq

/-- A place, as the names that lead to it from the root. -/
abbrev Place := List RawText

/-- The files and directories below the root, and the working directory. -/
structure FileTree where
  working : Place
  entries : List (Place × Entry)
deriving DecidableEq

/-- Why a file cannot be used. -/
inductive FileFault.Kind where
  | missing
  | notDirectory
  | isDirectory
  | nameTooLong
deriving DecidableEq

/-- Why the file of a path cannot be used. -/
structure FileFault where
  kind : FileFault.Kind
  path : Path
deriving DecidableEq

/-- The wording of a fault of a file. -/
def FileFault.message (f : FileFault) : String :=
  let what := match f.kind with
    | .missing => "[Errno 2] No such file or directory"
    | .notDirectory => "[Errno 20] Not a directory"
    | .isDirectory => "[Errno 21] Is a directory"
    | .nameTooLong => "[Errno 36] File name too long"
  what ++ ": " ++ f.path.raw.quoted

/-- Why the text of a file cannot be read or written. -/
inductive TextFault where
  | file (fault : FileFault)
  | encoding (fault : Utf8.Fault)
  | unencodable (fault : EncodingFault)
deriving DecidableEq

/-- The wording of a fault of a text file. -/
def TextFault.message : TextFault → String
  | file fault => fault.message
  | encoding fault => fault.message
  | unencodable fault => fault.message

namespace FileTree

/-! ## Places -/

/-- What is at a place. The root is a directory. -/
def entry? (t : FileTree) (place : Place) : Option Entry :=
  if place = [] then some .directory else t.entries.lookup place

/-- Whether a file can have a name. -/
def isName (name : RawText) : Bool := name.bytes.length ≤ 255

/-- Whether a text can be a path. -/
def isPathText (text : RawText) : Bool := text.bytes.length < 4096

/-- The place that steps lead to. Every place on the way must be a directory; the last one need not
exist, but a file must be able to have its name. -/
def walk (t : FileTree) (place : Place) : List RawText → Except FileFault.Kind Place
  | [] => .ok place
  | step :: steps =>
    match t.entry? place with
    | none => .error .missing
    | some (.file _) => .error .notDirectory
    | some .directory =>
      if step = "" || step = "." then t.walk place steps
      else if step = ".." then t.walk place.dropLast steps
      else if isName step then t.walk (place ++ [step]) steps
      else .error .nameTooLong

/-- The place where a path starts. -/
def startOf (t : FileTree) (absolute : Bool) : Place := if absolute then [] else t.working

/-- The place of a path. -/
def placeOf (t : FileTree) (p : Path) : Except FileFault.Kind Place :=
  if isPathText p.raw then t.walk (t.startOf p.absolute) p.parts else .error .nameTooLong

/-- What is at the place that a text names, every part of which counts: a text that ends in a slash
names no file. -/
def find? (t : FileTree) (text : RawText) : Option Entry :=
  if text = "" || !isPathText text then none
  else
    match t.walk (t.startOf (Path.startsAtRoot text)) (Path.components text) with
    | .ok place => t.entry? place
    | .error _ => none

/-- Whether a text names a file. -/
def isFile (t : FileTree) (text : RawText) : Bool :=
  match t.find? text with
  | some (.file _) => true
  | _ => false

/-- Whether a text names a directory. -/
def isDirectory (t : FileTree) (text : RawText) : Bool := t.find? text == some .directory

/-! ## Reading and writing -/

/-- The bytes of a file. -/
def read (t : FileTree) (p : Path) : Except FileFault (List UInt8) :=
  match t.placeOf p with
  | .error kind => .error ⟨kind, p⟩
  | .ok place =>
    match t.entry? place with
    | none => .error ⟨.missing, p⟩
    | some .directory => .error ⟨.isDirectory, p⟩
    | some (.file bytes) => .ok bytes

/-- The text in bytes, with every line ended by a line feed. -/
def textOf (bytes : List UInt8) : Except Utf8.Fault String :=
  (Utf8.decode bytes).map fun cs => String.ofList (Text.unifyNewlines cs)

/-- The text of a file. -/
def readText (t : FileTree) (p : Path) : Except TextFault String :=
  match t.read p with
  | .error fault => .error (.file fault)
  | .ok bytes => (textOf bytes).mapError .encoding

/-- The tree with a file at a place. -/
def put (t : FileTree) (place : Place) (bytes : List UInt8) : FileTree :=
  { t with entries := (place, .file bytes) :: t.entries.filter (fun e => e.1 != place) }

/-- Replace or create a file. Its directory must exist. -/
def write (t : FileTree) (p : Path) (bytes : List UInt8) : Except FileFault FileTree :=
  match t.placeOf p with
  | .error kind => .error ⟨kind, p⟩
  | .ok place =>
    match t.entry? place with
    | some .directory => .error ⟨.isDirectory, p⟩
    | _ => .ok (t.put place bytes)

/-- Replace or create a file that holds a text. If it cannot be written, the tree that is left is
returned with the fault: the file is there, but empty, if it is the text that is at fault. -/
def writeText (t : FileTree) (p : Path) (text : List Glyph) :
    Except (FileTree × TextFault) FileTree :=
  match t.write p [] with
  | .error fault => .error (t, .file fault)
  | .ok opened =>
    match Glyph.encode text with
    | .error fault => .error (opened, .unencodable fault)
    | .ok bytes => (opened.write p bytes).mapError fun fault => (opened, .file fault)

end FileTree

end Asm8080
