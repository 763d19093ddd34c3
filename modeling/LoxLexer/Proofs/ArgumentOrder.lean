/-
# LoxLexer.Proofs.ArgumentOrder -- a command line's arguments in any order

What an invocation asks for can be said in many ways: its arguments stand in any order, and
each long option may be cut short as long as one letter is left.  They are all read alike
(`spelled_in_any_order`), whatever texts the options are given: a text may start with a dash,
hold spaces or equals signs or spell an option, as the first equals sign of a word ends the
part that is looked at.

Only one text cannot be given: `--` is never a value and counts as the empty one, so that the
scan is of nothing (`separator_is_no_value`).  It is the one place where the statement depends
on the older rule that `Progress.valueText` follows.

A word is recognised by its name, which is one option of the command and no other
(`found_of_part`), so a line's marks are those of its arguments and reading them is a fold
over the arguments (`readMarks_map`).  Two arguments of one invocation are taken in either
order with the same outcome (`take_comm`), and so is the whole line.
-/
import LoxLexer.Proofs.Outputs
import LoxLexer.Proofs.WordReading

namespace LoxLexer

set_option autoImplicit false

/-! ## Arguments and the words that spell them -/

/-- The letters of a setting's long option. -/
def Command.Setting.letters : Command.Setting → List Char
  | .help => ['h', 'e', 'l', 'p']
  | .code => ['c', 'o', 'd', 'e']
  | .json => ['j', 's', 'o', 'n']
  | .output => ['o', 'u', 't', 'p', 'u', 't']
  | .debug => ['d', 'e', 'b', 'u', 'g']

open Command (Setting Mark Progress Options)

/-- What a word after the command gives: the input, or a setting with its value; a switch has
an empty one. -/
inductive Argument where
  | input (path : String)
  | given (setting : Setting) (value : String)
  deriving DecidableEq

/-- An argument's word: an input that does not start with a dash, or two dashes and the letters
of the long option, of which all but the first may be left off at the end.  A value stands
behind an equals sign. -/
inductive Argument.SpelledBy : Argument → String → Prop
  | input {path : String} (plain : path.toList.head? ≠ some '-') : SpelledBy (.input path) path
  | switch {setting : Setting} {part : String} (noValue : setting.takesValue = false)
      (someLetter : part ≠ "") (start : part.toList <+: setting.letters) :
      SpelledBy (.given setting "") ("--" ++ part)
  | value {setting : Setting} {part text : String} (takesValue : setting.takesValue = true)
      (someLetter : part ≠ "") (start : part.toList <+: setting.letters) :
      SpelledBy (.given setting text) ("--" ++ part ++ "=" ++ text)

/-- An argument with a word that spells it. -/
structure SpelledArgument where
  argument : Argument
  word : String
  spelled : argument.SpelledBy word

namespace Invocation

/-- The arguments that an invocation consists of. -/
def arguments (invocation : Invocation) : List Argument :=
  (invocation.input.map Argument.input).toList ++
  (invocation.code.map (Argument.given .code)).toList ++
  (if invocation.json then [Argument.given .json ""] else []) ++
  (invocation.output.map (Argument.given .output)).toList ++
  (if invocation.debug then [Argument.given .debug ""] else [])

/-- The words behind the command spell the arguments of the invocation, each of them once, in
any order. -/
def SpelledBy (invocation : Invocation) (words : List String) : Prop :=
  ∃ line : List SpelledArgument,
    (line.map SpelledArgument.argument).Perm invocation.arguments ∧
      line.map SpelledArgument.word = words

/-- A value as an option keeps it. -/
def kept (text : String) : String := if text = "--" then "" else text

/-- The invocation with its values as options keep them. -/
def asKept (invocation : Invocation) : Invocation :=
  { invocation with code := invocation.code.map kept, output := invocation.output.map kept }

end Invocation

namespace Command

/-! ## One word -/

/-- A start of a long option's letters is the name of that option only. -/
theorem found_of_part {command : Command} {setting : Setting}
    (offered : ('-' :: '-' :: setting.letters, setting) ∈ command.options) {part : List Char}
    (someLetter : part ≠ []) (start : part <+: setting.letters) :
    (command.options.lookup ('-' :: '-' :: part) = some setting ∧ part = setting.letters) ∨
      (command.options.lookup ('-' :: '-' :: part) = none ∧
        command.options.filter (fun other => ('-' :: '-' :: part).isPrefixOf other.1) =
          [('-' :: '-' :: setting.letters, setting)]) := by
  have short : part.length < 7 := by
    have longest : setting.letters.length < 7 := by cases setting <;> decide
    have := start.length_le
    omega
  have letter : 0 < part.length := List.length_pos_iff.mpr someLetter
  rw [List.prefix_iff_eq_take] at start
  generalize part.length = length at start short letter
  subst start
  clear someLetter
  revert length
  revert offered
  -- only the length is left of the part: every start of every option is looked up
  cases command <;> cases setting <;> decide

/-- What a word is called and what is attached to it, if it is a name or goes on with an
equals sign. -/
theorem nameOf_append {name after : List Char} (noEquals : '=' ∉ name)
    (ended : after = [] ∨ ∃ text, after = '=' :: text) :
    nameOf (name ++ after) = name ∧ attachedTo (name ++ after) = after.tail? := by
  have all : ∀ c ∈ name, decide (c ≠ '=') = true := by
    intro c member
    exact decide_eq_true fun equals => noEquals (equals ▸ member)
  rw [nameOf, attachedTo, List.takeWhile_append_of_pos all, List.dropWhile_append_of_pos all]
  rcases ended with rfl | ⟨text, rfl⟩
  · exact ⟨List.append_nil name, rfl⟩
  · exact ⟨List.append_nil name, rfl⟩

/-- A word that starts with two dashes and a name of an option, up to its end or an equals
sign, is that option. -/
theorem classify_of_part {command : Command} {setting : Setting}
    (offered : ('-' :: '-' :: setting.letters, setting) ∈ command.options)
    {part after : List Char} (someLetter : part ≠ []) (start : part <+: setting.letters)
    (ended : after = [] ∨ ∃ text, after = '=' :: text) :
    classify command.options ('-' :: '-' :: part ++ after) =
      .option ('-' :: '-' :: setting.letters) setting after.tail? := by
  have noEquals : '=' ∉ '-' :: '-' :: part := by
    have letters : '=' ∉ '-' :: '-' :: setting.letters := by cases setting <;> decide
    have within : '-' :: '-' :: part <+: '-' :: '-' :: setting.letters := by simpa using start
    exact fun member => letters (within.subset member)
  obtain ⟨named, attached⟩ := nameOf_append noEquals ended
  show classifyDashed command.options ('-' :: '-' :: part ++ after) = _
  rw [classifyDashed, named, attached]
  rcases found_of_part offered someLetter start with ⟨found, rfl⟩ | ⟨missing, only⟩
  · rw [found]
  · have dashes : ('-' :: '-' :: part ++ after).take 2 = ['-', '-'] := rfl
    rw [missing]
    dsimp only
    rw [classifyOther, candidates, if_pos dashes, named, attached, only]
    rfl

end Command

namespace Argument

/-- An argument that a command takes. -/
def IsOf (command : Command) : Argument → Prop
  | input _ => True
  | given setting _ =>
      setting ≠ .help ∧ ('-' :: '-' :: setting.letters, setting) ∈ command.options

/-- An argument's word, classified. -/
def mark : Argument → Mark
  | input path => .plain path.toList
  | given setting value =>
      .option ('-' :: '-' :: setting.letters) setting
        (if setting.takesValue then some value.toList else none)

end Argument

theorem SpelledArgument.classify_word {command : Command} (spelling : SpelledArgument)
    (isOf : spelling.argument.IsOf command) :
    spelling.word.toList ≠ ['-', '-'] ∧
      Command.classify command.options spelling.word.toList = spelling.argument.mark := by
  obtain ⟨argument, word, spelled⟩ := spelling
  cases spelled with
  | input plain =>
      dsimp only at plain ⊢
      cases letters : word.toList with
      | nil => exact ⟨by simp, congrArg Mark.plain letters.symm⟩
      | cons c rest =>
          rw [letters] at plain
          have noDash : c ≠ '-' := by simpa using plain
          refine ⟨by simp [noDash], ?_⟩
          rw [Argument.mark, letters, Command.classify]
          intro _ _ dashed
          exact noDash (List.cons.inj dashed).1
  | @switch setting part noValue someLetter start =>
      have letters : part.toList ≠ [] := by simpa using someLetter
      have read := Command.classify_of_part isOf.2 letters start (.inl rfl)
      have word : ("--" ++ part).toList = '-' :: '-' :: part.toList ++ [] := by simp
      refine ⟨by simp [letters], ?_⟩
      rw [word, read, Argument.mark, noValue]
      rfl
  | @value setting part text takesValue someLetter start =>
      have letters : part.toList ≠ [] := by simpa using someLetter
      have read := Command.classify_of_part isOf.2 letters start (.inr ⟨text.toList, rfl⟩)
      have word : ("--" ++ part ++ "=" ++ text).toList =
          '-' :: '-' :: part.toList ++ '=' :: text.toList := by simp
      refine ⟨by simp [letters], ?_⟩
      rw [word, read, Argument.mark, takesValue]
      rfl

/-- The marks of a line are those of its arguments. -/
theorem marks_map {command : Command} {line : List SpelledArgument}
    (isOf : ∀ spelling ∈ line, spelling.argument.IsOf command) :
    Command.marks command.options (line.map fun spelling => spelling.word.toList) =
      line.map fun spelling => spelling.argument.mark := by
  induction line with
  | nil => rfl
  | cons spelling line ih =>
      obtain ⟨noSeparator, classified⟩ :=
        spelling.classify_word (isOf spelling (List.mem_cons_self ..))
      rw [List.map_cons, Command.marks, if_neg noSeparator, classified,
        ih fun other member => isOf other (List.mem_cons_of_mem _ member), List.map_cons]

/-! ## Reading a line -/

/-- After one argument. -/
def Command.Progress.take (progress : Progress) : Argument → Progress
  | .input path =>
      if progress.inputSettled then progress.overflow
      else progress.settleInput (some path.toList)
  | .given setting value => progress.give (setting, value.toList)

@[simp] theorem skipSeparator_map (arguments : List Argument) :
    Command.skipSeparator (arguments.map Argument.mark) = arguments.map Argument.mark := by
  cases arguments with
  | nil => rfl
  | cons argument arguments => cases argument <;> rfl

/-- An option with its value, or without if it takes none, is used rightly. -/
theorem Command.readOption_mark (options : Options) (spelling value : List Char)
    (setting : Setting) (rest : List Mark) :
    readOption options spelling setting (if setting.takesValue then some value else none) rest =
      some (.single setting (if setting.takesValue then value else []) rest) := by
  cases takesValue : setting.takesValue <;> simp [readOption, readBare, takesValue]

/-- **Step.**  Reading an argument's mark is taking the argument. -/
theorem readMarks_mark {command : Command} {argument : Argument} (isOf : argument.IsOf command)
    (progress : Progress) (arguments : List Argument) :
    Command.readMarks command.options progress
        (argument.mark :: arguments.map Argument.mark) =
      Command.readMarks command.options (progress.take argument)
        (arguments.map Argument.mark) := by
  cases argument with
  | input path =>
      rw [Argument.mark, Progress.take]
      by_cases settled : progress.inputSettled = true
      · rw [if_pos settled, Command.readMarks_plain_surplus settled]
      · rw [if_neg settled, Command.readMarks_plain (Bool.not_eq_true _ ▸ settled),
          skipSeparator_map]
  | given setting value =>
      have noHelp (value : List Char) (left : List Mark) :
          ¬ (Command.Consumed.single setting value left).asksHelp = true := by
        simpa [Command.Consumed.single, Command.Consumed.asksHelp] using isOf.1
      rw [Argument.mark, Command.readMarks_option (Command.readOption_mark ..),
        if_neg (noHelp _ _)]
      -- what is given to a switch does not matter
      cases setting <;> rfl

/-- **Run.**  Reading the marks of arguments is taking them one after another. -/
theorem readMarks_map {command : Command} {arguments : List Argument}
    (isOf : ∀ argument ∈ arguments, argument.IsOf command) (progress : Progress) :
    Command.readMarks command.options progress (arguments.map Argument.mark) =
      (arguments.foldl Progress.take progress).finish := by
  induction arguments generalizing progress with
  | nil => exact Command.readMarks_nil
  | cons argument arguments ih =>
      rw [List.map_cons, readMarks_mark (isOf argument (List.mem_cons_self ..)),
        ih fun other member => isOf other (List.mem_cons_of_mem _ member), List.foldl_cons]

/-- The words of a line, each the spelling of an argument that the command takes, are read by
taking the arguments. -/
theorem readWords_map {command : Command} {line : List SpelledArgument}
    (isOf : ∀ spelling ∈ line, spelling.argument.IsOf command) :
    Command.readWords command (line.map fun spelling => spelling.word.toList) =
      ((line.map SpelledArgument.argument).foldl Progress.take (.start command)).finish := by
  have clear : (line.map fun spelling => spelling.argument.mark).any Mark.isAmbiguous = false := by
    rw [List.any_eq_false]
    intro mark listed
    obtain ⟨spelling, _, rfl⟩ := List.mem_map.mp listed
    cases spelling.argument <;> simp [Argument.mark, Mark.isAmbiguous]
  have marks : (line.map fun spelling => spelling.argument.mark) =
      (line.map SpelledArgument.argument).map Argument.mark := by
    rw [List.map_map]
    rfl
  rw [Command.readWords, marks_map isOf, clear, marks]
  refine readMarks_map (fun argument member => ?_) _
  obtain ⟨spelling, listed, rfl⟩ := List.mem_map.mp member
  exact isOf spelling listed

theorem readLine_name (command : Command) (words : List (List Char)) :
    Command.readLine (command.name.toList :: words) = Command.readWords command words := by
  cases command <;> rfl

/-! ## The arguments of an invocation -/

namespace Argument

/-- What an argument sets; the input is no setting. -/
def setting? : Argument → Option Setting
  | input _ => none
  | given setting _ => some setting

/-- A setting does not mind the input, nor the input a setting. -/
theorem take_input_given (path : String) (setting : Setting) (value : String)
    (progress : Progress) :
    (progress.take (.input path)).take (.given setting value) =
      (progress.take (.given setting value)).take (.input path) := by
  cases settled : progress.inputSettled <;> cases setting <;>
    simp [Progress.take, Progress.give, Progress.settleInput, Progress.overflow, settled]

/-- Arguments that set different things are taken in either order. -/
theorem take_comm_of_ne {one other : Argument} (apart : one.setting? ≠ other.setting?)
    (progress : Progress) :
    (progress.take one).take other = (progress.take other).take one := by
  cases one with
  | input path =>
      cases other with
      | input path => exact absurd rfl apart
      | given setting value => exact take_input_given path setting value progress
  | given setting value =>
      cases other with
      | input path => exact (take_input_given path setting value progress).symm
      | given second text =>
          have differ : setting ≠ second := fun same => apart (congrArg some same)
          cases setting <;> cases second <;> first | rfl | exact absurd rfl differ

end Argument

namespace Invocation

variable {invocation : Invocation}

theorem input_of_mem {path : String} (listed : Argument.input path ∈ invocation.arguments) :
    invocation.input = some path := by
  simpa [arguments] using listed

/-- What the invocation has of a setting that is among its arguments. -/
theorem value_of_mem {setting : Setting} {value : String}
    (listed : Argument.given setting value ∈ invocation.arguments) :
    match setting with
    | .help => False
    | .code => invocation.code = some value
    | .json => invocation.json = true ∧ value = ""
    | .output => invocation.output = some value
    | .debug => invocation.debug = true ∧ value = "" := by
  cases setting with
  | help => simp [arguments] at listed
  | code => simpa [arguments] using listed
  | json => simpa [arguments] using listed
  | output => simpa [arguments] using listed
  | debug => simpa [arguments] using listed

/-- An invocation sets nothing twice. -/
theorem eq_of_mem_arguments {one other : Argument} (first : one ∈ invocation.arguments)
    (second : other ∈ invocation.arguments) (same : one.setting? = other.setting?) :
    one = other := by
  cases one with
  | input path =>
      cases other with
      | input _ =>
          have both := (input_of_mem first).symm.trans (input_of_mem second)
          rw [Option.some.inj both]
      | given setting value => cases same
  | given setting value =>
      cases other with
      | input path => cases same
      | given _ text =>
          cases same
          have one := value_of_mem first
          have other := value_of_mem second
          cases setting with
          | help => exact one.elim
          | code => rw [Option.some.inj (one.symm.trans other)]
          | json => rw [one.2, other.2]
          | output => rw [Option.some.inj (one.symm.trans other)]
          | debug => rw [one.2, other.2]

/-- Two arguments of an invocation are taken in either order. -/
theorem take_comm {one other : Argument} (first : one ∈ invocation.arguments)
    (second : other ∈ invocation.arguments) (progress : Progress) :
    (progress.take one).take other = (progress.take other).take one := by
  by_cases same : one.setting? = other.setting?
  · rw [eq_of_mem_arguments first second same]
  · exact Argument.take_comm_of_ne same progress

theorem valueText_toList (text : String) : Progress.valueText text.toList = kept text := by
  have isSeparator : text.toList = ['-', '-'] ↔ text = "--" := by
    rw [← String.toList_inj]
    rfl
  simp [Progress.valueText, kept, isSeparator]

/-- Taking all arguments gives the invocation. -/
theorem foldl_take_arguments (invocation : Invocation) :
    (invocation.arguments.foldl Progress.take (.start invocation.command)).finish =
      .invocation invocation.asKept := by
  obtain ⟨command, input, code, json, output, debug⟩ := invocation
  cases input <;> cases code <;> cases json <;> cases output <;> cases debug <;>
    simp [arguments, Progress.take, Progress.start, Progress.settleInput, Progress.give,
      Progress.finish, asKept, valueText_toList]

/-- Each argument is one that the command takes. -/
theorem isOf_of_mem_arguments
    (offered : invocation.command = .check → invocation.json = false ∧ invocation.output = none)
    {argument : Argument} (listed : argument ∈ invocation.arguments) :
    argument.IsOf invocation.command := by
  cases argument with
  | input path => exact trivial
  | given setting value =>
      have held := value_of_mem listed
      cases command : invocation.command with
      | tokens =>
          cases setting with
          | help => exact held.elim
          | code => exact ⟨by decide, by decide⟩
          | json => exact ⟨by decide, by decide⟩
          | output => exact ⟨by decide, by decide⟩
          | debug => exact ⟨by decide, by decide⟩
      | check =>
          obtain ⟨noJson, noOutput⟩ := offered command
          cases setting with
          | help => exact held.elim
          | code => exact ⟨by decide, by decide⟩
          | json =>
              rw [noJson] at held
              cases held.1
          | output =>
              rw [noOutput] at held
              cases held
          | debug => exact ⟨by decide, by decide⟩

end Invocation

/-! ## Command lines -/

theorem read_of_spelledBy {invocation : Invocation}
    (offered : invocation.command = .check → invocation.json = false ∧ invocation.output = none)
    {words : List String} (spelled : invocation.SpelledBy words) :
    Command.read (invocation.command.name :: words) = .invocation invocation.asKept := by
  obtain ⟨line, order, rfl⟩ := spelled
  have isOf : ∀ spelling ∈ line, spelling.argument.IsOf invocation.command := by
    intro spelling listed
    have argument : spelling.argument ∈ line.map SpelledArgument.argument :=
      List.mem_map_of_mem listed
    exact Invocation.isOf_of_mem_arguments offered (order.mem_iff.mp argument)
  have commutes : ∀ one ∈ line.map SpelledArgument.argument,
      ∀ other ∈ line.map SpelledArgument.argument, ∀ progress : Progress,
        (progress.take one).take other = (progress.take other).take one := by
    intro one first other second
    exact Invocation.take_comm (order.mem_iff.mp first) (order.mem_iff.mp second)
  calc Command.read (invocation.command.name :: line.map SpelledArgument.word)
    _ = Command.readWords invocation.command
          (line.map fun spelling => spelling.word.toList) := by
      rw [Command.read, List.map_cons, readLine_name, List.map_map]
      rfl
    _ = ((line.map SpelledArgument.argument).foldl Progress.take
          (.start invocation.command)).finish := readWords_map isOf
    _ = (invocation.arguments.foldl Progress.take (.start invocation.command)).finish := by
      rw [order.foldl_eq' commutes]
    _ = .invocation invocation.asKept := invocation.foldl_take_arguments

/-- A text on the command line, with nothing else but how its tokens are written, is answered
with its scan. -/
theorem CommandLine.perform_of_inline {line : CommandLine} {invocation : Invocation}
    (read : Command.read line.words = .invocation invocation)
    (noText : line.environment.getD "" = "") {text : String}
    (noInput : invocation.input = none) (given : invocation.code = some text)
    (noOutput : invocation.output = none) (noSwitch : invocation.debug = false)
    (tree : FileTree) :
    line.perform tree =
      (.response (.ofScan "" (invocation.spoken (Scan.ofText Invocation.inlineName text))
        (Scan.ofText Invocation.inlineName text)), tree) := by
  have noFile : invocation.file? = none := by
    rw [Invocation.file?, Invocation.target?, noOutput]
    cases invocation.command <;> rfl
  have source : invocation.source = .inline text := by
    rw [Invocation.source, noInput, given]
    rfl
  have obtained : invocation.obtain? tree = .ok (Invocation.inlineName, text) := by
    rw [Invocation.obtain?, source]
  have off : decide (line.environment.getD "" ≠ "") = false := by simp [noText]
  rw [CommandLine.perform_of_read read, off, Invocation.run_of_no_file noFile, obtained, noSwitch]
  rfl

/-- **Arguments in any order.**  Take words that spell an invocation behind the name of its
command, in any order and with any of its long options cut short.

* They are read as the invocation, with each value exactly as it stands there, but for `--`,
  which is read as an empty value.
* Carrying them out is carrying out any other words that spell the invocation, on any files and
  in any environment.
* If the invocation has a text and neither an input nor an output, and nothing asks for a debug
  run, the response is that to the scan of the text: its tokens on standard output, plain or
  as JSON, or for a check whether it is in order. -/
theorem spelled_in_any_order {invocation : Invocation}
    (offered : invocation.command = .check → invocation.json = false ∧ invocation.output = none)
    {words : List String} (spelled : invocation.SpelledBy words) :
    Command.read (invocation.command.name :: words) = .invocation invocation.asKept ∧
    (∀ (other : List String) (environment : Option String) (tree : FileTree),
      invocation.SpelledBy other →
        CommandLine.perform ⟨invocation.command.name :: other, environment⟩ tree =
          CommandLine.perform ⟨invocation.command.name :: words, environment⟩ tree) ∧
    ∀ (text : String) (environment : Option String) (tree : FileTree),
      invocation.input = none → invocation.code = some text → invocation.output = none →
      invocation.debug = false → environment.getD "" = "" →
        let scan := Scan.ofText "<inline>" (Invocation.kept text)
        CommandLine.perform ⟨invocation.command.name :: words, environment⟩ tree =
          (.response (.ofScan "" (invocation.spoken scan) scan), tree) := by
  have read := read_of_spelledBy offered spelled
  refine ⟨read, ?_, ?_⟩
  · intro other environment tree spelledToo
    have readToo := read_of_spelledBy offered spelledToo
    rw [CommandLine.perform_of_read readToo, CommandLine.perform_of_read read]
  · intro text environment tree noInput given noOutput noSwitch noText scan
    have input : invocation.asKept.input = none := noInput
    have code : invocation.asKept.code = some (Invocation.kept text) := by
      rw [Invocation.asKept, given]
      rfl
    have output : invocation.asKept.output = none := by
      rw [Invocation.asKept, noOutput]
      rfl
    exact CommandLine.perform_of_inline read noText input code output noSwitch tree

/-- Texts that imitate options and a path that starts with a dash, cut short in an order of
their own; and the scan of a text, by a check, that could be two words. -/
theorem spelled_in_any_order_imitating :
    let invocation : Invocation := ⟨.tokens, none, some "--json", true, some "-o =x", true⟩
    let words := ["--ou=-o =x", "--js", "--d", "--c=--json"]
    let text : Invocation := ⟨.check, none, some "; -o", false, none, false⟩
    (invocation.command = .check → invocation.json = false ∧ invocation.output = none) ∧
    invocation.SpelledBy words ∧
    Command.read ("tokens" :: words) = .invocation invocation ∧
    (∀ (environment : Option String) (tree : FileTree),
      CommandLine.perform
          ⟨["tokens", "--code=--json", "--json", "--output=-o =x", "--debug"], environment⟩ tree =
        CommandLine.perform ⟨"tokens" :: words, environment⟩ tree) ∧
    (text.command = .check → text.json = false ∧ text.output = none) ∧
    text.SpelledBy ["--cod=; -o"] ∧
    CommandLine.perform ⟨["check", "--cod=; -o"], none⟩ ⟨[], []⟩ =
      (.response ⟨0, "OK\n", ""⟩, ⟨[], []⟩) := by
  intro invocation words text
  have answer : (let scan := Scan.ofText "<inline>" (Invocation.kept "; -o")
      Response.ofScan "" (text.spoken scan) scan) = ⟨0, "OK\n", ""⟩ := by decide +kernel
  have spelled : invocation.SpelledBy words :=
    ⟨[⟨.given .output "-o =x", "--" ++ "ou" ++ "=" ++ "-o =x",
        .value rfl (by decide) (by decide)⟩,
      ⟨.given .json "", "--" ++ "js", .switch rfl (by decide) (by decide)⟩,
      ⟨.given .debug "", "--" ++ "d", .switch rfl (by decide) (by decide)⟩,
      ⟨.given .code "--json", "--" ++ "c" ++ "=" ++ "--json",
        .value rfl (by decide) (by decide)⟩],
      by decide, by decide⟩
  have inFull : invocation.SpelledBy
      ["--code=--json", "--json", "--output=-o =x", "--debug"] :=
    ⟨[⟨.given .code "--json", "--" ++ "code" ++ "=" ++ "--json",
        .value rfl (by decide) (by decide)⟩,
      ⟨.given .json "", "--" ++ "json", .switch rfl (by decide) (by decide)⟩,
      ⟨.given .output "-o =x", "--" ++ "output" ++ "=" ++ "-o =x",
        .value rfl (by decide) (by decide)⟩,
      ⟨.given .debug "", "--" ++ "debug", .switch rfl (by decide) (by decide)⟩],
      by decide, by decide⟩
  have oneWord : text.SpelledBy ["--cod=; -o"] :=
    ⟨[⟨.given .code "; -o", "--" ++ "cod" ++ "=" ++ "; -o",
        .value rfl (by decide) (by decide)⟩], by decide, by decide⟩
  have offered : invocation.command = .check →
      invocation.json = false ∧ invocation.output = none := by
    intro impossible
    cases impossible
  obtain ⟨read, same, -⟩ := spelled_in_any_order offered spelled
  obtain ⟨-, -, scanned⟩ := spelled_in_any_order (fun _ => ⟨rfl, rfl⟩) oneWord
  refine ⟨offered, spelled, read, fun environment tree => same _ environment tree inFull,
    fun _ => ⟨rfl, rfl⟩, oneWord, ?_⟩
  rw [← answer]
  exact scanned "; -o" none ⟨[], []⟩ rfl rfl rfl rfl rfl

/-- The text `--` is not scanned: its two minus signs do not come out.  This is the older
rule for such a value (`Progress.valueText`); under the later one they would. -/
theorem separator_is_no_value :
    let invocation : Invocation := ⟨.tokens, none, some "--", false, none, false⟩
    invocation.SpelledBy ["--code=--"] ∧
    Command.read ["tokens", "--code=--"] ≠ .invocation invocation ∧
    CommandLine.perform ⟨["tokens", "--code=--"], none⟩ ⟨[], []⟩ =
      (.response ⟨0, "   1 <EOF>\n", ""⟩, ⟨[], []⟩) ∧
    (Scan.ofText "<inline>" "--").dump = "   1 <MINUS>\n   1 <MINUS>\n   1 <EOF>\n" := by
  intro invocation
  have spelled : invocation.SpelledBy ["--code=--"] :=
    ⟨[⟨.given .code "--", "--" ++ "code" ++ "=" ++ "--", .value rfl (by decide) (by decide)⟩],
      by decide, by decide⟩
  have read : Command.read ["tokens", "--code=--"] = .invocation invocation.asKept :=
    read_of_spelledBy (fun _ => ⟨rfl, rfl⟩) spelled
  have nothing : Response.ofScan "" (invocation.asKept.spoken (Scan.ofText "<inline>" ""))
      (Scan.ofText "<inline>" "") = ⟨0, "   1 <EOF>\n", ""⟩ := by decide +kernel
  refine ⟨spelled, ?_, ?_, by decide +kernel⟩
  · rw [read]
    intro same
    exact absurd (Command.Reading.invocation.inj same) (by decide)
  · rw [← nothing]
    exact CommandLine.perform_of_inline read rfl rfl rfl rfl rfl _

end LoxLexer
