/-
# LoxLexer.Command.Arguments -- from command-line words to an invocation

A command line is a list of words.  Each command has options; a word is an option
if it spells one, abbreviates exactly one long one, or starts with a short one.
What follows the first `=` of such a word, or the short option that it starts
with, is attached to the option.  A word that starts with `-` and is neither an
option, nor a negative number, nor a phrase with a space, is an unknown option.
Everything else is plain, and after the word `--` everything is.

The words are classified first (`marks`) and then read from left to right
(`readMarks`):

* an option that takes a value takes the attached one, else the next word, which
  must be plain;
* a switch takes no value, but to a short switch more short options may be
  attached, each by its letter;
* help ends the reading at once, and so does an option used wrongly;
* the first plain word is the input; further ones, and unknown options, make the
  line unacceptable, but only at its end, so help after them is still help.

An option given twice has its last value.  The word `--` is never kept: where it is
attached to an option, the value is empty (`Progress.valueText`).
-/
import LoxLexer.Command.Invocation
import LoxLexer.Text.DecimalDigit

namespace LoxLexer.Command

set_option autoImplicit false

/-! ## Options -/

/-- What an option sets. -/
inductive Setting where
  | help
  | code
  | json
  | output
  | debug
  deriving DecidableEq

/-- Whether an option takes a value; one that does not is a switch. -/
def Setting.takesValue : Setting → Bool
  | .code => true
  | .output => true
  | .help => false
  | .json => false
  | .debug => false

/-- Options by their spellings. -/
abbrev Options := List (List Char × Setting)

/-- The options that stand before a command. -/
def helpOptions : Options :=
  [(['-', 'h'], .help), (['-', '-', 'h', 'e', 'l', 'p'], .help)]

/-- The options of a command. -/
def options : Command → Options
  | .tokens =>
      helpOptions ++
        [(['-', '-', 'c', 'o', 'd', 'e'], .code),
         (['-', '-', 'j', 's', 'o', 'n'], .json),
         (['-', 'o'], .output),
         (['-', '-', 'o', 'u', 't', 'p', 'u', 't'], .output),
         (['-', '-', 'd', 'e', 'b', 'u', 'g'], .debug)]
  | .check =>
      helpOptions ++
        [(['-', '-', 'c', 'o', 'd', 'e'], .code),
         (['-', '-', 'd', 'e', 'b', 'u', 'g'], .debug)]

/-! ## Words -/

/-- A spelling of one dash and one more character. -/
def isShort (spelling : List Char) : Bool := spelling.length = 2

/-- What a word of a command line is. -/
inductive Mark where
  | plain (text : List Char)
  /-- The first `--`. -/
  | separator
  /-- An option, as the table spells it, and what its word attaches to it. -/
  | option (spelling : List Char) (setting : Setting) (attached : Option (List Char))
  /-- A word that looks like an option and is none. -/
  | unknown
  /-- An abbreviation of more than one option. -/
  | ambiguous

/-- Whether a word is a minus and a decimal number without an exponent.  One line
end after the number does no harm. -/
def isNegativeNumber (word : List Char) : Bool :=
  match word with
  | '-' :: text =>
      let number := if text.getLast? = some '\n' then text.dropLast else text
      let whole := number.takeWhile Text.isDecimalDigit
      match number.dropWhile Text.isDecimalDigit with
      | [] => !whole.isEmpty
      | c :: fraction => c = '.' && !fraction.isEmpty && fraction.all Text.isDecimalDigit
  | _ => false

/-- What stands before the first `=` of a word. -/
def nameOf (word : List Char) : List Char := word.takeWhile (· ≠ '=')

/-- What stands after the first `=` of a word, if it has one. -/
def attachedTo (word : List Char) : Option (List Char) := (word.dropWhile (· ≠ '=')).tail?

/-- The options that a word starting with a dash may stand for, apart from those
it spells: long ones that its name abbreviates, or the short one it starts with. -/
def candidates (options : Options) (word : List Char) : List Mark :=
  if word.take 2 = ['-', '-'] then
    (options.filter fun (spelling, _) => (nameOf word).isPrefixOf spelling).map
      fun (spelling, setting) => .option spelling setting (attachedTo word)
  else
    (options.filter fun (spelling, _) => spelling = word.take 2).map
      fun (spelling, setting) => .option spelling setting (some (word.drop 2))

/-- A word with a dash in front that spells no option. -/
def classifyOther (options : Options) (word : List Char) : Mark :=
  match candidates options word with
  | [candidate] => candidate
  | [] => if isNegativeNumber word || word.contains ' ' then .plain word else .unknown
  | _ => .ambiguous

/-- A word with a dash in front: an option that it spells, up to its `=` if it has
one, or what else it may be. -/
def classifyDashed (options : Options) (word : List Char) : Mark :=
  match options.lookup (nameOf word) with
  | some setting => .option (nameOf word) setting (attachedTo word)
  | none => classifyOther options word

/-- A word before any `--`. -/
def classify (options : Options) (word : List Char) : Mark :=
  match word with
  | '-' :: _ :: _ => classifyDashed options word
  | _ => .plain word

/-- The words of a command line, classified. -/
def marks (options : Options) : List (List Char) → List Mark
  | [] => []
  | word :: words =>
      if word = ['-', '-'] then .separator :: words.map .plain
      else classify options word :: marks options words

/-! ## Reading -/

/-- What an option and the words it needs come to. -/
structure Consumed where
  /-- What was set, each with its value; a switch has an empty one. -/
  given : List (Setting × List Char)
  /-- The words left. -/
  left : List Mark

/-- One setting with its value, which leaves these words. -/
def Consumed.single (setting : Setting) (value : List Char) (left : List Mark) : Consumed :=
  ⟨[(setting, value)], left⟩

/-- The same with one more switch before it. -/
def Consumed.withSwitch (setting : Setting) (consumed : Consumed) : Consumed :=
  { consumed with given := (setting, []) :: consumed.given }

/-- Whether help is among the settings. -/
def Consumed.asksHelp (consumed : Consumed) : Bool :=
  consumed.given.any fun setting => setting.1 = .help

/-- An option with nothing attached: its value is the next word. -/
def readBare (setting : Setting) (rest : List Mark) : Option Consumed :=
  if setting.takesValue then
    match rest with
    | .plain text :: rest => some (.single setting text rest)
    | _ => none
  else some (.single setting [] rest)

/-- A short option with text attached to it: the text is its value, or, if it is a
switch, starts with the letter of another short option, to which the rest of it is
attached. -/
def readShort (options : Options) (setting : Setting) :
    List Char → List Mark → Option Consumed
  | [], rest => readBare setting rest
  | c :: more, rest =>
      if setting.takesValue then some (.single setting (c :: more) rest)
      else
        match options.lookup ['-', c] with
        | none => none
        | some next => (readShort options next more rest).map (.withSwitch setting)

/-- An option and what its word attaches to it.  A value may be empty; to a short
switch nothing empty may be attached, and to a long one nothing at all. -/
def readOption (options : Options) (spelling : List Char) (setting : Setting)
    (attached : Option (List Char)) (rest : List Mark) : Option Consumed :=
  match attached with
  | none => readBare setting rest
  | some text =>
      if setting.takesValue then some (.single setting text rest)
      else if isShort spelling && !text.isEmpty then readShort options setting text rest
      else none

theorem length_readBare_le {setting : Setting} {rest : List Mark} {consumed : Consumed}
    (read : readBare setting rest = some consumed) : consumed.left.length ≤ rest.length := by
  unfold readBare at read
  split at read
  · split at read
    · cases read; simp [Consumed.single]
    · cases read
  · cases read; simp [Consumed.single]

theorem length_readShort_le {options : Options} {setting : Setting} {text : List Char}
    {rest : List Mark} {consumed : Consumed}
    (read : readShort options setting text rest = some consumed) :
    consumed.left.length ≤ rest.length := by
  induction text generalizing setting consumed with
  | nil => exact length_readBare_le (by simpa [readShort] using read)
  | cons c more ih =>
    simp only [readShort] at read
    split at read
    · cases read; simp [Consumed.single]
    · split at read
      · cases read
      · obtain ⟨inner, found, rfl⟩ := Option.map_eq_some_iff.1 read
        exact (ih found :)

/-- An option never gives words back. -/
theorem length_readOption_le {options : Options} {spelling : List Char} {setting : Setting}
    {attached : Option (List Char)} {rest : List Mark} {consumed : Consumed}
    (read : readOption options spelling setting attached rest = some consumed) :
    consumed.left.length ≤ rest.length := by
  unfold readOption at read
  split at read
  · exact length_readBare_le read
  · split at read
    · cases read; simp [Consumed.single]
    · split at read
      · exact length_readShort_le read
      · cases read

/-- The outcome of reading a command line. -/
inductive Reading where
  /-- Help was asked for. -/
  | help
  /-- The line is not acceptable. -/
  | refused
  | invocation (invocation : Invocation)

/-- What has been read of a command's words: the invocation so far, whether its
input is settled, and whether there was a word too many. -/
structure Progress where
  invocation : Invocation
  inputSettled : Bool
  surplus : Bool

namespace Progress

/-- Before the first word. -/
def start (command : Command) : Progress :=
  ⟨⟨command, none, none, false, none, false⟩, false, false⟩

/-- The text of an option's value.  A value that is just `--` is dropped and leaves
nothing in its place; what is left behaves as the empty text, which is a source
without characters after `--code` and no path after `--output`.  Later readers of
command lines keep the `--` as a value; this is the older rule. -/
def valueText (value : List Char) : String :=
  if value = ['-', '-'] then "" else String.ofList value

/-- After one setting. -/
def give (progress : Progress) (setting : Setting × List Char) : Progress :=
  let invocation := progress.invocation
  let value := valueText setting.2
  { progress with
    invocation :=
      match setting.1 with
      | .help => invocation
      | .code => { invocation with code := some value }
      | .json => { invocation with json := true }
      | .output => { invocation with output := some value }
      | .debug => { invocation with debug := true } }

/-- After the input, or the decision that there is none. -/
def settleInput (progress : Progress) (input : Option (List Char)) : Progress :=
  { progress with
    invocation := { progress.invocation with input := input.map String.ofList }
    inputSettled := true }

/-- After a word too many. -/
def overflow (progress : Progress) : Progress := { progress with surplus := true }

/-- After the last word. -/
def finish (progress : Progress) : Reading :=
  if progress.surplus then .refused else .invocation progress.invocation

end Progress

/-- The words without a `--` in front of them. -/
def skipSeparator : List Mark → List Mark
  | .separator :: rest => rest
  | rest => rest

theorem length_skipSeparator_le (rest : List Mark) :
    (skipSeparator rest).length ≤ rest.length := by
  unfold skipSeparator
  split <;> simp

/-- Reads classified words.  A `--` next to the input goes with it; one that
comes after the input was settled is a word too many. -/
def readMarks (options : Options) (progress : Progress) : List Mark → Reading
  | [] => progress.finish
  | .plain text :: rest =>
      if progress.inputSettled then readMarks options progress.overflow rest
      else readMarks options (progress.settleInput (some text)) (skipSeparator rest)
  | .separator :: rest =>
      if progress.inputSettled then readMarks options progress.overflow rest
      else
        match rest with
        | .plain text :: rest => readMarks options (progress.settleInput (some text)) rest
        | rest => readMarks options (progress.settleInput none) rest
  | .unknown :: rest => readMarks options progress.overflow rest
  | .ambiguous :: _ => .refused
  | .option spelling setting attached :: rest =>
      match _read : readOption options spelling setting attached rest with
      | none => .refused
      | some consumed =>
          if consumed.asksHelp then .help
          else readMarks options (consumed.given.foldl Progress.give progress) consumed.left
termination_by words => words.length
decreasing_by
  all_goals simp only [List.length_cons]
  all_goals first
    | omega
    | exact Nat.lt_succ_of_le (length_skipSeparator_le _)
    | exact Nat.lt_succ_of_le (length_readOption_le _read)

/-- Whether a word abbreviates more than one option. -/
def Mark.isAmbiguous : Mark → Bool
  | .ambiguous => true
  | _ => false

/-- Reads the words after a command.  An ambiguous one spoils the whole line,
wherever it stands. -/
def readWords (command : Command) (words : List (List Char)) : Reading :=
  let marks := marks command.options words
  if marks.any Mark.isAmbiguous then .refused
  else readMarks command.options (.start command) marks

/-- A reading after a word too many. -/
def Reading.withSurplus : Reading → Reading
  | .help => .help
  | _ => .refused

/-- Reads a command line.  Before the command only help is known; any other option
there is one too many. -/
def readLine : List (List Char) → Reading
  | [] => .refused
  | word :: words =>
      if word = ['-', '-'] then .refused
      else
        match classify helpOptions word with
        | .plain text =>
            match ofName? (String.ofList text) with
            | none => .refused
            | some command => readWords command words
        | .option spelling setting attached =>
            if (readOption helpOptions spelling setting attached []).isSome then .help
            else .refused
        | .unknown => (readLine words).withSurplus
        | .separator => .refused
        | .ambiguous => .refused

/-- The invocation that the words of a command line ask for. -/
def read (words : List String) : Reading := readLine (words.map String.toList)

end LoxLexer.Command
