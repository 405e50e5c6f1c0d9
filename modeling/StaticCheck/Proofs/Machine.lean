import StaticCheck.Stmt.Parser

/-! # A machine that reads

A `Cursor` knows all items of its text in advance, and a `Parser` knows how many levels may still be
opened.  A machine knows neither.  It takes the text from a lexer piece by piece, keeps a token that
it has looked at, and counts the levels that are open; its routines carry out the same rules, but
they repeat their rounds and call each other until something in the text or the count of levels
stops them.

Two things are added in order to speak about runs.  A machine leaves a trace of the states that it
passes through.  And a run is given fuel, which limits the rounds of a repetition and the calls
inside each other: a run that needs more is broken off, which is neither a success nor an error
(`Halt.exhausted`). -/

namespace StaticCheck

/-- The state of a machine. -/
structure Machine where
  lexer : Lexer
  /-- The token to be taken next. -/
  current : Token
  /-- The offset at which the token taken last ends. -/
  lastEnd : Nat
  /-- The number of open levels of nesting. -/
  depth : Nat
deriving DecidableEq

namespace Machine

/-- The machine on the first token of a text, unless a lexical error stands there. -/
def ofSource (source : String) : Except LexicalError Machine :=
  match (Lexer.ofSource source).next with
  | (.ok token, lexer) => .ok ⟨lexer, token, 0, 0⟩
  | (.error e, _) => .error e

/-! ### Runs -/

/-- A state, and the states before it since the run began, the latest one first. -/
structure Trace where
  now : Machine
  past : List Machine

namespace Trace

def start (s : Machine) : Trace := ⟨s, []⟩

def states (t : Trace) : List Machine := t.now :: t.past

def moveTo (t : Trace) (s : Machine) : Trace := ⟨s, t.states⟩

end Trace

/-- Why a run does not succeed. -/
inductive Halt where
  /-- The text is in error. -/
  | fault (e : ReadError)
  /-- There was not fuel enough. -/
  | exhausted
deriving DecidableEq

/-- What a machine can be told to do, with fuel for so many rounds of a repetition and for so many
calls inside each other. -/
def Routine (_fuel : Nat) (α : Type) : Type := EStateM Halt Trace α

namespace Routine

variable {α : Type} {fuel : Nat}

instance : Monad (Routine fuel) := inferInstanceAs (Monad (EStateM Halt Trace))

instance : LawfulMonad (Routine fuel) := inferInstanceAs (LawfulMonad (EStateM Halt Trace))

def exhaust : Routine fuel α := fun t => .error .exhausted t

/-- Repeats a step until it answers `none`. -/
def repeated (step : Routine fuel (Option α)) : Nat → Routine fuel (List α)
  | 0 => exhaust
  | rounds + 1 => do
    match ← step with
    | none => return []
    | some a => return a :: (← repeated step rounds)

instance : Actions (Routine fuel) where
  current t := .ok t.now.current t
  fail fault t := .error (.fault (.syntactic fault t.now.current.span)) t
  -- the next token is asked for first; if there is an error in its place, the lexer has moved on
  -- and the machine stays on its token
  advance t :=
    match t.now.lexer.next with
    | (.ok token, lexer) =>
      .ok t.now.current
        (t.moveTo { t.now with lexer, current := token, lastEnd := t.now.current.span.stop })
    | (.error e, lexer) => .error (.fault (.lexical e)) (t.moveTo { t.now with lexer })
  peek t :=
    match t.now.lexer.peek with
    | (.ok token, lexer) => .ok token.kind (t.moveTo { t.now with lexer })
    | (.error e, lexer) => .error (.fault (.lexical e)) (t.moveTo { t.now with lexer })
  spanFrom first t := .ok ⟨first.start, max t.now.lastEnd first.stop⟩ t
  collect step := repeated step fuel

/-! ### Levels -/

/-- Runs a routine one level deeper, whatever comes of it, unless the limit is reached. -/
def nested (routine : Routine fuel α) : Routine (fuel + 1) α := fun t =>
  if nestingLimit ≤ t.now.depth then (Parser.fail .tooDeep : Routine (fuel + 1) α) t
  else
    match routine (t.moveTo { t.now with depth := t.now.depth + 1 }) with
    | .ok a after => .ok a (after.moveTo { after.now with depth := after.now.depth - 1 })
    | .error halt after =>
      .error halt (after.moveTo { after.now with depth := after.now.depth - 1 })

mutual

def expression : (fuel : Nat) → Routine fuel Expr
  | 0 => exhaust
  | fuel + 1 => nested (Parser.conditional (expression fuel) (operand fuel))

def operand : (fuel : Nat) → Routine fuel Expr
  | 0 => exhaust
  | fuel + 1 => nested (Parser.unary (expression fuel) (operand fuel))

end

/-- The routines that read expressions, from the loosest binding to the tightest. -/
def readers (fuel : Nat) : List (Routine fuel Expr) :=
  let whole := expression fuel
  let inner := operand fuel
  [whole, Parser.conditional whole inner, Parser.logical whole inner, Parser.comparison whole inner,
    Parser.additive whole inner, Parser.multiplicative whole inner, Parser.unary whole inner,
    Parser.primary whole]

def block : (fuel : Nat) → Routine fuel (Block Stmt)
  | 0 => exhaust
  | fuel + 1 => nested (Parser.braces (Parser.statement (block fuel) (expression fuel)))

def stmt (fuel : Nat) : Routine fuel Stmt := Parser.statement (block fuel) (expression fuel)

def program (fuel : Nat) : Routine fuel Program := Parser.program (stmt fuel)

end Routine

/-! ### Calls -/

/-- Reads a program, and gives the trace of the run. -/
def parse (fuel : Nat) (s : Machine) : Except Halt Program × Trace :=
  match Routine.program fuel (.start s) with
  | .ok program t => (.ok program, t)
  | .error halt t => (.error halt, t)

/-- Reads programs one after the other, each in the state that the one before left behind, whatever
came of it. -/
def parses (fuel : Nat) (s : Machine) : Nat → List (Except Halt Program × Trace)
  | 0 => []
  | times + 1 => s.parse fuel :: (s.parse fuel).2.now.parses fuel times

end Machine

end StaticCheck
