import StaticCheck.Outline
import StaticCheck.Stmt.Checking
import StaticCheck.Stmt.Parser

/-! # Checking a source text

A source text is read and then checked.  On request the tokens and the tree are listed and the
stages announced on the way; none of that changes the outcome, except that listing the tokens
reports a lexical error before anything is read. -/

namespace StaticCheck

/-- What is shown besides the outcome. -/
structure Options where
  listTokens : Bool
  listTree : Bool
  announceStages : Bool
deriving DecidableEq

def Options.none : Options := ⟨false, false, false⟩

/-- The result of checking a source text. -/
structure Checked where
  outcome : Except Failure Metrics
  /-- The lines shown on the way. -/
  notes : List String
  /-- The events of the check. -/
  events : List Event

/-- The lines that list all tokens. -/
def tokenListing (tokens : List Token) : List String :=
  "=== Tokens ===" :: tokens.map Token.dump ++ ["=== End Tokens ===", ""]

/-- The lines that list the tree of a program. -/
def treeListing (p : Program) : List String :=
  "=== AST ===" :: p.outline ++ ["=== End AST ===", ""]

/-- The listing of the tokens of a source text if it is asked for. -/
def Options.tokenNotes (options : Options) (source : String) : Except Failure (List String) :=
  if options.listTokens then
    match tokenize source with
    | .error e => .error (.ofLexicalError e)
    | .ok tokens => .ok (tokenListing tokens)
  else .ok []

def notesIf (condition : Bool) (lines : List String) : List String :=
  if condition then lines else []

/-- Checks a source text and shows what the options ask for. -/
def checkWith (options : Options) (source : String) : Checked :=
  match options.tokenNotes source with
  | .error failure => ⟨.error failure, [], []⟩
  | .ok tokenNotes =>
    let reading := tokenNotes ++ notesIf options.announceStages ["Parsing..."]
    match parse source with
    | .error e => ⟨.error (.ofReadError e), reading, []⟩
    | .ok program =>
      let checking := notesIf options.listTree (treeListing program) ++
        notesIf options.announceStages ["Analyzing..."]
      let run := program.check
      ⟨run.outcome.mapError .semantic, reading ++ checking, run.events⟩

/-- The metrics of a source text, or why it has none. -/
def check (source : String) : Except Failure Metrics := (checkWith .none source).outcome

end StaticCheck
