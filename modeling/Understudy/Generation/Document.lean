import Understudy.Generation.Session

/-! # Generated documents

A session gives three documents: the source of the mocks, the header that declares the companions,
and the source that defines them. Each begins with a heading that names the generator and the
options.
-/

namespace Understudy

namespace Document

def generatorVersion : String := "0.1.0"

def heading (summary : String) : String :=
  "/*\n * This file has been auto-generated by cppumockgen v" ++ generatorVersion ++ ".\n *\n" ++
    " * Contents will NOT be preserved if it is regenerated!!!\n" ++
    (if summary.isEmpty then "" else " *\n * Generation options: " ++ summary ++ "\n") ++ " */\n\n"

def mockSupport : String := "#include <CppUTestExt/MockSupport.h>\n"

def includeLine (header : String) : String := "#include \"" ++ header ++ "\"\n"

/-- Includes the input, with C linkage unless it is C++. -/
def includeInput (asCpp : Bool) (header : String) : String :=
  if asCpp then includeLine header
  else "extern \"C\" \x7b\n" ++ includeLine header ++ "\x7d\n"

/-- The definitions with an empty line before each. -/
def spaced (definitions : List String) : String :=
  String.join (definitions.map fun definition => "\n" ++ definition)

end Document

namespace Session

variable (session : Session)

open Document

def mockSource : String :=
  heading session.summary ++ includeInput session.asCpp session.input.fileName ++ "\n" ++
    mockSupport ++ spaced session.catalog.mocks

def companionHeader : String :=
  heading session.summary ++ mockSupport ++ "\n" ++
    includeInput session.asCpp session.input.fileName ++
    spaced (session.catalog.companions .declared)

/-- The source of the companions, which includes their header under the given name. -/
def companionSource (header : String) : String :=
  heading session.summary ++ mockSupport ++ "\n" ++ includeLine header ++
    spaced (session.catalog.companions .defined)

end Session

end Understudy
