/-
# LoxLexer.Files.Access -- reading and writing text files

Everything that touches files does so through `FileAccess`, whose two operations
read and write whole files.  What answers them, a file system or a `FileTree`, is
left open, so that a program over `FileAccess` can run on either.

A text file is read as strict UTF-8, its line ends unified, and written as UTF-8
with its line ends as they are.  A path with U+0000 is refused before any file
system is asked.
-/
import LoxLexer.Files.Path
import LoxLexer.Text.Newline
import LoxLexer.Text.Quoted
import LoxLexer.Text.Utf8

namespace LoxLexer

set_option autoImplicit false

open Text (quoted)

/-! ## What can go wrong -/

/-- Why a file system does not read or write a file. -/
inductive FileFault where
  | notFound
  | notDirectory
  | isDirectory
  | nameTooLong
  /-- A failure of another number, with the system's own description. -/
  | other (number : Nat) (description : String)
  deriving DecidableEq

namespace FileFault

/-- The system's number of a failure. -/
def number : FileFault → Nat
  | notFound => 2
  | notDirectory => 20
  | isDirectory => 21
  | nameTooLong => 36
  | other number _ => number

/-- The failure with this number. -/
def ofNumber (number : Nat) (description : String) : FileFault :=
  match number with
  | 2 => notFound
  | 20 => notDirectory
  | 21 => isDirectory
  | 36 => nameTooLong
  | _ => other number description

def description : FileFault → String
  | notFound => "No such file or directory"
  | notDirectory => "Not a directory"
  | isDirectory => "Is a directory"
  | nameTooLong => "File name too long"
  | other _ description => description

/-- A failure in words, with the path that was asked for. -/
def message (path : Path) (fault : FileFault) : String :=
  "[Errno " ++ toString fault.number ++ "] " ++ fault.description ++ ": " ++ quoted path.text

end FileFault

/-- Why a path gives no access to a file. -/
inductive AccessFault where
  /-- The path holds U+0000. -/
  | unaddressable
  | refused (fault : FileFault)
  deriving DecidableEq

def AccessFault.message (path : Path) : AccessFault → String
  | .unaddressable => "embedded null byte"
  | .refused fault => fault.message path

/-- Why no text was read from a path. -/
inductive ReadFault where
  | access (fault : AccessFault)
  | encoding (fault : Text.Utf8.Fault)
  deriving DecidableEq

def ReadFault.message (path : Path) : ReadFault → String
  | .access fault => fault.message path
  | .encoding fault => fault.message

/-! ## Access -/

/-- A monad in which whole files can be read and written.  A file that is written
need not exist before; the directory it is in must. -/
class FileAccess (m : Type → Type) where
  read : Path → m (Except FileFault (List UInt8))
  write : Path → List UInt8 → m (Except FileFault Unit)

/-- The text that the bytes of a file hold. -/
def textOfBytes (bytes : List UInt8) : Except Text.Utf8.Fault String :=
  (Text.Utf8.decode bytes).map fun text => String.ofList (Text.Newline.unify text)

/-- The bytes of a file that holds a text. -/
def bytesOfText (text : String) : List UInt8 := Text.Utf8.encode text.toList

variable {m : Type → Type} [Monad m] [FileAccess m]

/-- Reads a text file. -/
def readText (path : Path) : m (Except ReadFault String) :=
  if path.isAddressable then do
    match ← FileAccess.read path with
    | .ok bytes => return (textOfBytes bytes).mapError .encoding
    | .error fault => return .error (.access (.refused fault))
  else
    return .error (.access .unaddressable)

/-- Writes a text file. -/
def writeText (path : Path) (text : String) : m (Except AccessFault Unit) :=
  if path.isAddressable then do
    return (← FileAccess.write path (bytesOfText text)).mapError .refused
  else
    return .error .unaddressable

end LoxLexer
