import StaticCheck.Token.Stream

/-! # Reading tokens

The rules of the language are made of a few `Actions`: looking at the next token or the one behind
it, taking a token, failing, and repeating a step.  A rule does not depend on how they are carried
out.

A cursor stands on one token of a source text and knows the items that follow it.  A `Parser`
carries the actions out on a cursor and answers with a value or an error; the cursor it leaves
behind is known in both cases, so that reading can go on after an error. -/

namespace StaticCheck

/-! ### Errors -/

/-- Why a token cannot stand where it stands. -/
inductive Fault where
  /-- Another token was required. -/
  | expected (wanted found : TokenKind)
  /-- A name was required. -/
  | expectedName (found : TokenKind)
  /-- An expression cannot start like this. -/
  | unexpected (found : TokenKind)
  /-- A comparison is followed by a further comparison operator. -/
  | chainedComparison (found : TokenKind)
  /-- The nesting limit is reached. -/
  | tooDeep
deriving DecidableEq

/-- The number of levels to which blocks, expressions and operands of unary operators nest. -/
def nestingLimit : Nat := 100

def Fault.detail : Fault → String
  | expected wanted found => "expected " ++ wanted.describe ++ ", found " ++ found.describe
  | expectedName found => "expected identifier, found " ++ found.describe
  | unexpected found => "unexpected token in expression: " ++ found.describe
  | chainedComparison found =>
    "comparison operators cannot be chained, found " ++ found.describe
  | tooDeep => "nesting deeper than " ++ toString nestingLimit ++ " levels"

/-- Why a source text is no program. -/
inductive ReadError where
  | lexical (e : LexicalError)
  | syntactic (fault : Fault) (span : Span)
deriving DecidableEq

/-! ### Cursors -/

/-- A place in the token stream of a source text. -/
structure Cursor where
  /-- The token to be taken next. -/
  current : Token
  /-- The items behind it, the end of the text left out. -/
  upcoming : List Item
  /-- The offset at which the text ends. -/
  finish : Nat
  /-- The offset at which the token taken last ends. -/
  lastEnd : Nat

namespace Cursor

/-- The cursor on the first token of a text, unless a lexical error stands there. -/
def ofSource (source : String) : Except LexicalError Cursor :=
  let finish := byteLength source.toList
  match items source with
  | [] => .ok ⟨.atEnd finish, [], finish, 0⟩
  | .ok token :: rest => .ok ⟨token, rest, finish, 0⟩
  | .error e :: _ => .error e

/-- The number of items that can still be taken. -/
def remaining (c : Cursor) : Nat :=
  c.upcoming.length + if c.current.kind = .eof then 0 else 1

end Cursor

/-! ### Actions -/

/-- What the rules of the language are made of: ways to look at tokens, to take them and to fail. -/
class Actions (m : Type → Type) where
  /-- The token that comes next. -/
  current : m Token
  /-- Fails at that token. -/
  fail {α : Type} (fault : Fault) : m α
  /-- Takes the token. -/
  advance : m Token
  /-- The kind of the token behind it. -/
  peek : m TokenKind
  /-- The span from the start of `first` to the end of the token taken last. -/
  spanFrom (first : Span) : m Span
  /-- Repeats a step until it answers `none` and gives all its values. -/
  collect {α : Type} (step : m (Option α)) : m (List α)

namespace Parser

export Actions (current fail advance peek spanFrom collect)

variable {m : Type → Type} [Monad m] [Actions m]

/-- Takes the wanted token if it comes next, and tells whether it did. -/
def accept (wanted : TokenKind) : m Bool := do
  if (← current).kind = wanted then
    let _ ← advance
    return true
  else return false

/-- Takes the wanted token or fails. -/
def expect (wanted : TokenKind) : m Token := do
  let token ← current
  if token.kind = wanted then advance else fail (.expected wanted token.kind)

def expectName : m (String × Span) := do
  let token ← current
  match token.kind with
  | .ident name =>
    let _ ← advance
    return (name, token.span)
  | found => fail (.expectedName found)

end Parser

/-! ### Parsers -/

/-- A way to take tokens from a cursor.  The cursor is known after a failure, too. -/
abbrev Parser := EStateM ReadError Cursor

/-- Repeats a step until it answers `none`.  A step that takes no token ends the repetition as
well. -/
def Cursor.collect {α : Type} (step : Parser (Option α)) (c : Cursor) :
    EStateM.Result ReadError Cursor (List α) :=
  match step c with
  | .error e after => .error e after
  | .ok none after => .ok [] after
  | .ok (some a) after =>
    if after.remaining < c.remaining then
      match collect step after with
      | .error e last => .error e last
      | .ok more last => .ok (a :: more) last
    else .ok [a] after
termination_by c.remaining

instance : Actions Parser where
  current c := .ok c.current c
  fail fault c := .error (.syntactic fault c.current.span) c
  -- a lexical error behind the token is dropped from the stream, and the cursor stays on its token
  advance c :=
    let lastEnd := c.current.span.stop
    match c.upcoming with
    | [] => .ok c.current { c with current := .atEnd c.finish, lastEnd }
    | .ok token :: rest => .ok c.current { c with current := token, upcoming := rest, lastEnd }
    | .error e :: rest => .error (.lexical e) { c with upcoming := rest }
  peek c :=
    match c.upcoming with
    | [] => .ok .eof c
    | .ok token :: _ => .ok token.kind c
    | .error e :: rest => .error (.lexical e) { c with upcoming := rest }
  spanFrom first c := .ok ⟨first.start, max c.lastEnd first.stop⟩ c
  collect := Cursor.collect

end StaticCheck
