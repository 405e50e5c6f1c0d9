import StaticCheck.Failure

/-! # Diagnostics

A failure as it is presented to the reader of a source text: a headline, and a label at the place
the failure is about. -/

namespace StaticCheck

/-- A remark at a place of a source text; the remark can be empty. -/
structure Label where
  /-- The number of the source text, counted from zero. -/
  file : Nat
  span : Span
  message : String
deriving DecidableEq

/-- A failure to be presented. -/
structure Diagnostic where
  message : String
  labels : List Label
deriving DecidableEq

/-- The presentation of a failure of the given source text. -/
def Failure.diagnostic (file : Nat) : Failure → Diagnostic
  | lexical detail span => ⟨"Lexer error", [⟨file, span, detail⟩]⟩
  | syntactic detail span => ⟨"Syntax error", [⟨file, span, detail⟩]⟩
  | semantic e => ⟨e.message, [⟨file, e.span, ""⟩]⟩
  | io text => ⟨(io text).message, []⟩

end StaticCheck
