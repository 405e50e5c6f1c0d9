/-! # Spans

A span is a half open range of byte offsets into a source text.  Every token and every node of a
syntax tree carries one, and every error is reported at one. -/

namespace StaticCheck

/-- The bytes from `start` up to, but not including, `stop`. -/
structure Span where
  start : Nat
  stop : Nat
deriving DecidableEq, Inhabited

namespace Span

/-- The empty span at one offset. -/
def point (offset : Nat) : Span := ⟨offset, offset⟩

/-- The smallest span that covers both. -/
def merge (a b : Span) : Span := ⟨min a.start b.start, max a.stop b.stop⟩

/-- The text under which a span appears in messages, dumps and log lines. -/
def describe (s : Span) : String :=
  "Span \x7b start: " ++ toString s.start ++ ", end: " ++ toString s.stop ++ " \x7d"

@[simp] theorem merge_self (a : Span) : a.merge a = a := by
  simp [merge]

end Span

end StaticCheck
