import StaticCheck.Stmt

/-! # The grammar

What a source text may look like, rule by rule:

    program   := stmt*
    stmt      := decl | assign | if | while | dowhile | block | expr ';'
    decl      := TYPE IDENT ('=' expr)? ';'
    assign    := IDENT '=' expr ';'
    if        := 'if' '(' expr ')' block ('else' block)?
    while     := 'while' '(' expr ')' block
    dowhile   := 'do' block 'while' '(' expr ')' ';'
    block     := '{' stmt* '}'
    expr      := logic ('?' expr ':' expr)?
    logic     := comp (('&&'|'||') comp)*
    comp      := add (('<'|'>'|'<='|'>='|'=='|'!=') add)?
    add       := mul (('+'|'-') mul)*
    mul       := unary (('*'|'/'|'%') unary)*
    unary     := '-' unary | '!' unary | primary
    primary   := INT | REAL | 'true' | 'false' | IDENT | '[' (expr (',' expr)*)? ']' | '(' expr ')'

A rule relates the symbols that it derives to the tree they stand for.  It does not say how the
symbols are to be divided among its parts: any division counts.

Blocks, expressions and operands of unary operators open a level of nesting each, and the number
with which `expr`, `operand` and `block` are indexed bounds the levels on every path of a
derivation.

The grammar is read over an `Alphabet`: bare kinds of tokens, whose trees carry no places, or
tokens, whose trees carry the place of each node. -/

namespace StaticCheck

/-- Symbols that have a kind, and the span of a node that is derived from given symbols. -/
structure Alphabet (α : Type) where
  kind : α → TokenKind
  span : List α → Span

namespace Alphabet

/-- Kinds of tokens; a node carries no place. -/
def kinds : Alphabet TokenKind := ⟨id, fun _ => .point 0⟩

/-- The span from the start of the first token to the end of the last. -/
def cover : List Token → Span
  | [] => .point 0
  | t :: ts => ⟨t.span.start, max ((t :: ts).getLast (List.cons_ne_nil t ts)).span.stop t.span.stop⟩

/-- Tokens; a node covers the tokens it is derived from. -/
def tokens : Alphabet Token := ⟨Token.kind, cover⟩

@[simp] theorem kind_tokens (t : Token) : tokens.kind t = t.kind := rfl

@[simp] theorem span_tokens (ts : List Token) : tokens.span ts = cover ts := rfl

@[simp] theorem cover_singleton (t : Token) : cover [t] = t.span := by
  simp [cover]

end Alphabet

/-- What a nonterminal derives: symbols, and the tree they stand for. -/
abbrev Phrase (α τ : Type) := List α → τ → Prop

namespace Grammar

variable {α τ ω : Type} (A : Alphabet α)

/-! ### Repetitions and options -/

/-- `p*` -/
inductive Many (p : Phrase α τ) : Phrase α (List τ)
  | nil : Many p [] []
  | cons {ts us : List α} {a : τ} {rest : List τ} :
      p ts a → Many p us rest → Many p (ts ++ us) (a :: rest)

/-- `(mark p)?`, where the mark is a token of the given kind. -/
inductive Optional (mark : TokenKind) (p : Phrase α τ) : Phrase α (Option τ)
  | none : Optional mark p [] none
  | some {t : α} {ts : List α} {a : τ} : A.kind t = mark → p ts a →
      Optional mark p (t :: ts) (some a)

/-! ### Expressions -/

/-- `op operand`, where `op` is one of the operators of a chain. -/
inductive Linked (mark : ω → Punct) (operand : Phrase α Expr) : Phrase α (Link ω Expr)
  | mk {sign : α} {op : ω} {ts : List α} {e : Expr} : A.kind sign = .punct (mark op) →
      operand ts e → Linked mark operand (sign :: ts) ⟨op, e⟩

/-- `operand (op operand)*`: an operand alone, or one flat node with at least one link. -/
inductive Chain (mark : ω → Punct) (node : Expr → List (Link ω Expr) → Span → Expr)
    (operand : Phrase α Expr) : Phrase α Expr
  | single {ts : List α} {e : Expr} : operand ts e → Chain mark node operand ts e
  | chain {ts us : List α} {first : Expr} {rest : List (Link ω Expr)} :
      operand ts first → Many (Linked A mark operand) us rest → rest ≠ [] →
      Chain mark node operand (ts ++ us) (node first rest (A.span (ts ++ us)))

/-- `',' expr` -/
inductive Further (expr : Phrase α Expr) : Phrase α Expr
  | mk {comma : α} {ts : List α} {e : Expr} : A.kind comma = .punct .comma → expr ts e →
      Further expr (comma :: ts) e

/-- `'(' expr ')'`: the parentheses leave no node. -/
inductive Parens (expr : Phrase α Expr) : Phrase α Expr
  | mk {l r : α} {ts : List α} {e : Expr} : A.kind l = .punct .openParen → expr ts e →
      A.kind r = .punct .closeParen → Parens expr (l :: (ts ++ [r])) e

/-- `INT | REAL | 'true' | 'false' | IDENT | '[' (expr (',' expr)*)? ']' | '(' expr ')'` -/
inductive Primary (expr : Phrase α Expr) : Phrase α Expr
  | int {t : α} {digits : String} : A.kind t = .int digits →
      Primary expr [t] (.int digits (A.span [t]))
  | real {t : α} {text : String} : A.kind t = .real text →
      Primary expr [t] (.real (.ofLiteral text) (A.span [t]))
  | bool {t : α} {value : Bool} :
      A.kind t = .keyword (if value then .trueWord else .falseWord) →
      Primary expr [t] (.bool value (A.span [t]))
  | ident {t : α} {name : String} : A.kind t = .ident name →
      Primary expr [t] (.ident name (A.span [t]))
  | emptyList {l r : α} : A.kind l = .punct .openBracket → A.kind r = .punct .closeBracket →
      Primary expr [l, r] (.list [] (A.span [l, r]))
  | list {l r : α} {ts us : List α} {first : Expr} {rest : List Expr} :
      A.kind l = .punct .openBracket → expr ts first → Many (Further A expr) us rest →
      A.kind r = .punct .closeBracket →
      Primary expr (l :: (ts ++ (us ++ [r])))
        (.list (first :: rest) (A.span (l :: (ts ++ (us ++ [r])))))
  | parens {ts : List α} {e : Expr} : Parens A expr ts e → Primary expr ts e

/-- `'-' unary | '!' unary | primary` -/
inductive Unary (expr operand : Phrase α Expr) : Phrase α Expr
  | unary {sign : α} {op : UnaryOp} {ts : List α} {e : Expr} : A.kind sign = .punct op.mark →
      operand ts e → Unary expr operand (sign :: ts) (.unary op e (A.span (sign :: ts)))
  | primary {ts : List α} {e : Expr} : Primary A expr ts e → Unary expr operand ts e

/-- `unary (('*'|'/'|'%') unary)*` -/
def Mul (expr operand : Phrase α Expr) : Phrase α Expr :=
  Chain A MulOp.mark .multiplicative (Unary A expr operand)

/-- `mul (('+'|'-') mul)*` -/
def Add (expr operand : Phrase α Expr) : Phrase α Expr :=
  Chain A AddOp.mark .additive (Mul A expr operand)

/-- `add (('<'|'>'|'<='|'>='|'=='|'!=') add)?`: at most one operator. -/
inductive Comp (expr operand : Phrase α Expr) : Phrase α Expr
  | single {ts : List α} {e : Expr} : Add A expr operand ts e → Comp expr operand ts e
  | compare {ts us : List α} {sign : α} {op : CompareOp} {left right : Expr} :
      Add A expr operand ts left → A.kind sign = .punct op.mark → Add A expr operand us right →
      Comp expr operand (ts ++ sign :: us)
        (.compare left (some ⟨op, right⟩) (A.span (ts ++ sign :: us)))

/-- `comp (('&&'|'||') comp)*` -/
def Logic (expr operand : Phrase α Expr) : Phrase α Expr :=
  Chain A LogicOp.mark .logical (Comp A expr operand)

/-- `logic ('?' expr ':' expr)?` -/
inductive Choice (expr operand : Phrase α Expr) : Phrase α Expr
  | single {ts : List α} {e : Expr} : Logic A expr operand ts e → Choice expr operand ts e
  | ternary {ts us vs : List α} {q k : α} {test thenArm elseArm : Expr} :
      Logic A expr operand ts test → A.kind q = .punct .question → expr us thenArm →
      A.kind k = .punct .colon → expr vs elseArm →
      Choice expr operand (ts ++ q :: (us ++ k :: vs))
        (.ternary test thenArm elseArm (A.span (ts ++ q :: (us ++ k :: vs))))

mutual

/-- Expressions that nest at most so many levels, their own one included. -/
def expr : Nat → Phrase α Expr
  | 0 => fun _ _ => False
  | levels + 1 => Choice A (expr levels) (operand levels)

/-- Operands of unary operators that nest at most so many levels, their own one included. -/
def operand : Nat → Phrase α Expr
  | 0 => fun _ _ => False
  | levels + 1 => Unary A (expr levels) (operand levels)

end

/-! ### Statements -/

/-- `int | bool | float | list | IDENT`, and the name of the type. -/
inductive TypeName : TokenKind → String → Prop
  | builtin {word : Keyword} : word.isType = true → TypeName (.keyword word) word.spelling
  | other (name : String) : TypeName (.ident name) name

/-- `decl | assign | if | while | dowhile | block | expr ';'` -/
inductive Statement (block : Phrase α (Block Stmt)) (expr : Phrase α Expr) : Phrase α Stmt
  | declare {type name semi : α} {ts : List α} {typeName x : String} {init : Option Expr} :
      TypeName (A.kind type) typeName → A.kind name = .ident x →
      Optional A (.punct .assign) expr ts init → A.kind semi = .punct .semicolon →
      Statement block expr (type :: name :: (ts ++ [semi]))
        (.declare ⟨typeName, x, A.span [name], init, A.span (type :: name :: (ts ++ [semi]))⟩
          (A.span (type :: name :: (ts ++ [semi]))))
  | assign {name eq semi : α} {ts : List α} {x : String} {e : Expr} :
      A.kind name = .ident x → A.kind eq = .punct .assign → expr ts e →
      A.kind semi = .punct .semicolon →
      Statement block expr (name :: eq :: (ts ++ [semi]))
        (.assign x (A.span [name]) e (A.span (name :: eq :: (ts ++ [semi]))))
  | ifElse {word : α} {ts us vs : List α} {test : Expr} {thenBlock : Block Stmt}
      {elseBlock : Option (Block Stmt)} :
      A.kind word = .keyword .ifWord → Parens A expr ts test → block us thenBlock →
      Optional A (.keyword .elseWord) block vs elseBlock →
      Statement block expr (word :: (ts ++ (us ++ vs)))
        (.ifElse test thenBlock elseBlock (A.span (word :: (ts ++ (us ++ vs)))))
  | whileDo {word : α} {ts us : List α} {test : Expr} {body : Block Stmt} :
      A.kind word = .keyword .whileWord → Parens A expr ts test → block us body →
      Statement block expr (word :: (ts ++ us))
        (.whileDo test body (A.span (word :: (ts ++ us))))
  | doWhile {word while' semi : α} {ts us : List α} {body : Block Stmt} {test : Expr} :
      A.kind word = .keyword .doWord → block ts body → A.kind while' = .keyword .whileWord →
      Parens A expr us test → A.kind semi = .punct .semicolon →
      Statement block expr (word :: (ts ++ while' :: (us ++ [semi])))
        (.doWhile body test (A.span (word :: (ts ++ while' :: (us ++ [semi])))))
  | block {ts : List α} {body : Block Stmt} : block ts body →
      Statement block expr ts (.block body body.span)
  | expr {semi : α} {ts : List α} {e : Expr} : expr ts e → A.kind semi = .punct .semicolon →
      Statement block expr (ts ++ [semi]) (.expr e (A.span (ts ++ [semi])))

/-- `'{' stmt* '}'` -/
inductive Braces (stmt : Phrase α Stmt) : Phrase α (Block Stmt)
  | mk {l r : α} {ts : List α} {stmts : List Stmt} : A.kind l = .punct .openBrace →
      Many stmt ts stmts → A.kind r = .punct .closeBrace →
      Braces stmt (l :: (ts ++ [r])) ⟨stmts, A.span (l :: (ts ++ [r]))⟩

/-- Blocks that nest at most so many levels, their own one included. -/
def block : Nat → Phrase α (Block Stmt)
  | 0 => fun _ _ => False
  | levels + 1 => Braces A (Statement A (block levels) (expr A levels))

/-- Statements below which at most so many levels nest. -/
def stmt (levels : Nat) : Phrase α Stmt := Statement A (block A levels) (expr A levels)

/-- `stmt*`, up to the end of the text. -/
inductive Program (levels : Nat) : Phrase α Program
  | mk {stop : α} {ts : List α} {stmts : List Stmt} {span : Span} :
      Many (stmt A levels) ts stmts → A.kind stop = .eof →
      Program levels (ts ++ [stop]) ⟨stmts, span⟩

end Grammar

end StaticCheck
