/-
# LoxLexer.Command.Invocation -- what the command line asks for

Two commands: `tokens` writes the tokens of a source, `check` only says whether it
scans without complaint.  A source is a file or the text given with `--code`; an
empty path counts as none, while an empty text is a text.
-/
import LoxLexer.Files.Path

namespace LoxLexer

set_option autoImplicit false

inductive Command where
  | tokens
  | check
  deriving DecidableEq

def Command.all : List Command := [.tokens, .check]

def Command.name : Command → String
  | .tokens => "tokens"
  | .check => "check"

/-- The command with this name, which must be written out in full. -/
def Command.ofName? (text : String) : Option Command :=
  all.find? fun command => command.name = text

/-- A command with its arguments. -/
structure Invocation where
  command : Command
  input : Option String
  code : Option String
  json : Bool
  output : Option String
  debug : Bool
  deriving DecidableEq

namespace Invocation

/-- Where the text to scan is to come from. -/
inductive Source where
  | file (path : Path)
  | inline (text : String)
  /-- Both a file and a text are given. -/
  | both
  /-- Neither is given. -/
  | neither
  deriving DecidableEq

/-- A path argument that is not empty. -/
def path? (argument : Option String) : Option Path :=
  match argument with
  | none => none
  | some text => if text = "" then none else some (.ofText text)

/-- The source of an invocation. -/
def source (invocation : Invocation) : Source :=
  match path? invocation.input, invocation.code with
  | some _, some _ => .both
  | some path, none => .file path
  | none, some text => .inline text
  | none, none => .neither

/-- The file that the output goes to, if it does not go to standard output. -/
def target? (invocation : Invocation) : Option Path := path? invocation.output

end Invocation

end LoxLexer
