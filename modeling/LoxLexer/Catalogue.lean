/-
# LoxLexer.Catalogue -- the published names

Scripts that use the lexer ask for its parts by name.  Names outside this list are
not published, whatever they are spelled like.
-/
namespace LoxLexer.Catalogue

set_option autoImplicit false

/-- The published names, in order. -/
def published : List String :=
  ["KEYWORDS", "ScanArtifacts", "Scanner", "Token", "TokenType", "check_source", "scan_file",
   "scan_source"]

/-- Whether a name is published; case counts. -/
def isPublished (name : String) : Bool := published.contains name

end LoxLexer.Catalogue
