/-
# LoxLexer.Json.Value -- JSON values

Integers and doubles are different values, as they are written differently: an
integer of any size has digits only, a double always shows that it is one.  An
object keeps its members in the order in which they are written.
-/
import LoxLexer.Numeral.Binary64

namespace LoxLexer

set_option autoImplicit false

/-- A JSON value. -/
inductive Json where
  | null
  | bool (value : Bool)
  | integer (value : Int)
  | double (value : Numeral.Binary64)
  | string (text : String)
  | array (items : List Json)
  | object (members : List (String × Json))

end LoxLexer
