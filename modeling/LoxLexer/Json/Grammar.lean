/-
# LoxLexer.Json.Grammar -- which texts are JSON

`Derives part text` states the grammar of JSON texts rule by rule: which texts are values,
which are elements of an array, a value with white space around it, and which are members
of an object, a name with its element.  A whole text is well-formed if it is an element.

The rules say nothing of what a text means and nothing of printing or reading.  They are
strict: no number has a zero in front, a plus or a point without digits on both sides, no
other names than the three stand for values, every two elements have one comma between
them, and no control character stands in a string.
-/
namespace LoxLexer.Json

set_option autoImplicit false

/-! ## Leaves -/

/-- White space between the parts of a text. -/
def IsBlank (text : List Char) : Prop := ∀ c ∈ text, c ∈ [' ', '\t', '\n', '\r']

/-- One or more digits. -/
structure IsDigits (text : List Char) : Prop where
  some : text ≠ []
  all : ∀ c ∈ text, c.isDigit = true

/-- The whole part of a number: digits of which a zero is first only if it is alone. -/
def IsWhole (text : List Char) : Prop := text = ['0'] ∨ IsDigits text ∧ text.head? ≠ some '0'

inductive IsFraction : List Char → Prop
  | none : IsFraction []
  | point {digits : List Char} : IsDigits digits → IsFraction ('.' :: digits)

inductive IsExponent : List Char → Prop
  | none : IsExponent []
  | power {mark : Char} { sign digits : List Char} :
      mark ∈ ['e', 'E'] → sign ∈ [[], ['+'], ['-']] → IsDigits digits →
      IsExponent (mark :: (sign ++ digits))

inductive IsNumber : List Char → Prop
  | mk { sign whole fraction exponent : List Char} :
      sign ∈ [[], ['-']] → IsWhole whole → IsFraction fraction → IsExponent exponent →
      IsNumber (sign ++ whole ++ fraction ++ exponent)

/-- A hexadecimal digit of either case. -/
def isHexDigit (c : Char) : Bool :=
  c.isDigit || ('a' ≤ c && c ≤ 'f') || ('A' ≤ c && c ≤ 'F')

/-- What stands for one character in a string, or for half of one. -/
inductive IsCharacter : List Char → Prop
  | plain {c : Char} : ' ' ≤ c → c ≠ '"' → c ≠ '\\' → IsCharacter [c]
  | letter {c : Char} : c ∈ ['"', '\\', '/', 'b', 'f', 'n', 'r', 't'] → IsCharacter ['\\', c]
  | number {digits : List Char} :
      digits.length = 4 → (∀ c ∈ digits, isHexDigit c = true) →
      IsCharacter ('\\' :: 'u' :: digits)

inductive IsString : List Char → Prop
  | mk {characters : List (List Char)} :
      (∀ text ∈ characters, IsCharacter text) →
      IsString ('"' :: (characters.flatten ++ ['"']))

/-! ## Values -/

/-- What a rule of the grammar is about. -/
inductive Part where
  | value
  /-- A value with white space around it. -/
  | element
  /-- The name of an element, with white space around it, a colon and the element. -/
  | member
  deriving DecidableEq

/-- The texts of a part. -/
inductive Derives : Part → List Char → Prop
  | null : Derives .value ['n', 'u', 'l', 'l']
  | true : Derives .value ['t', 'r', 'u', 'e']
  | false : Derives .value ['f', 'a', 'l', 's', 'e']
  | number {text : List Char} : IsNumber text → Derives .value text
  | string {text : List Char} : IsString text → Derives .value text
  | emptyArray {gap : List Char} : IsBlank gap → Derives .value ('[' :: (gap ++ [']']))
  | array {items : List (List Char)} :
      items ≠ [] → (∀ item ∈ items, Derives .element item) →
      Derives .value ('[' :: ([','].intercalate items ++ [']']))
  | emptyObject {gap : List Char} : IsBlank gap → Derives .value ('\x7b' :: (gap ++ ['\x7d']))
  | object {members : List (List Char)} :
      members ≠ [] → (∀ member ∈ members, Derives .member member) →
      Derives .value ('\x7b' :: ([','].intercalate members ++ ['\x7d']))
  | element {before value after : List Char} :
      IsBlank before → Derives .value value → IsBlank after →
      Derives .element (before ++ value ++ after)
  | member {before name after element : List Char} :
      IsBlank before → IsString name → IsBlank after → Derives .element element →
      Derives .member (before ++ name ++ after ++ ':' :: element)

/-- A text that is JSON. -/
def WellFormed (text : String) : Prop := Derives .element text.toList

end LoxLexer.Json
