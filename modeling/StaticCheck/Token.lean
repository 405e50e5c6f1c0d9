import StaticCheck.Span

/-! # Tokens

The words of the language: keywords, punctuation, literals and names.  `TokenKind.describe` is the
wording used in error messages and `TokenKind.dump` the one used when tokens are listed. -/

namespace StaticCheck

/-! ### Keywords -/

/-- The reserved words.  The first four name the built-in types. -/
inductive Keyword where
  | int | bool | float | list
  | ifWord | elseWord | whileWord | doWord
  | trueWord | falseWord
deriving DecidableEq

namespace Keyword

/-- How a keyword is written in a source text. -/
def spelling : Keyword → String
  | int => "int"
  | bool => "bool"
  | float => "float"
  | list => "list"
  | ifWord => "if"
  | elseWord => "else"
  | whileWord => "while"
  | doWord => "do"
  | trueWord => "true"
  | falseWord => "false"

/-- The name of a keyword in a token listing. -/
def tag : Keyword → String
  | int => "Int"
  | bool => "Bool"
  | float => "Float"
  | list => "List"
  | ifWord => "If"
  | elseWord => "Else"
  | whileWord => "While"
  | doWord => "Do"
  | trueWord => "True"
  | falseWord => "False"

def isType : Keyword → Bool
  | int | bool | float | list => true
  | _ => false

def all : List Keyword :=
  [int, bool, float, list, ifWord, elseWord, whileWord, doWord, trueWord, falseWord]

/-- The keyword written as `word`, if there is one. -/
def ofSpelling? (word : String) : Option Keyword :=
  all.find? fun k => k.spelling == word

theorem ofSpelling?_spelling (k : Keyword) : ofSpelling? k.spelling = some k := by
  cases k <;> decide +kernel

theorem spelling_of_ofSpelling? {word : String} {k : Keyword} (h : ofSpelling? word = some k) :
    k.spelling = word := by
  simpa using List.find?_some h

end Keyword

/-! ### Punctuation -/

/-- Operators, brackets and separators. -/
inductive Punct where
  | plus | minus | star | slash | percent
  | equals | notEquals | less | greater | atMost | atLeast
  | both | either | bang
  | assign
  | openParen | closeParen | openBracket | closeBracket | openBrace | closeBrace
  | semicolon | comma | question | colon
deriving DecidableEq

namespace Punct

def spelling : Punct → String
  | plus => "+"
  | minus => "-"
  | star => "*"
  | slash => "/"
  | percent => "%"
  | equals => "=="
  | notEquals => "!="
  | less => "<"
  | greater => ">"
  | atMost => "<="
  | atLeast => ">="
  | both => "&&"
  | either => "||"
  | bang => "!"
  | assign => "="
  | openParen => "("
  | closeParen => ")"
  | openBracket => "["
  | closeBracket => "]"
  | openBrace => "\x7b"
  | closeBrace => "\x7d"
  | semicolon => ";"
  | comma => ","
  | question => "?"
  | colon => ":"

def tag : Punct → String
  | plus => "Plus"
  | minus => "Minus"
  | star => "Star"
  | slash => "Slash"
  | percent => "Percent"
  | equals => "EqEq"
  | notEquals => "NotEq"
  | less => "Lt"
  | greater => "Gt"
  | atMost => "LtEq"
  | atLeast => "GtEq"
  | both => "AmpAmp"
  | either => "PipePipe"
  | bang => "Bang"
  | assign => "Eq"
  | openParen => "LParen"
  | closeParen => "RParen"
  | openBracket => "LBracket"
  | closeBracket => "RBracket"
  | openBrace => "LBrace"
  | closeBrace => "RBrace"
  | semicolon => "Semi"
  | comma => "Comma"
  | question => "Question"
  | colon => "Colon"

/-- The mark written as two characters, if they form one. -/
def pair? : Char → Char → Option Punct
  | '=', '=' => some equals
  | '!', '=' => some notEquals
  | '<', '=' => some atMost
  | '>', '=' => some atLeast
  | '&', '&' => some both
  | '|', '|' => some either
  | _, _ => none

/-- The mark written as one character, if it is one. -/
def single? : Char → Option Punct
  | '+' => some plus
  | '-' => some minus
  | '*' => some star
  | '/' => some slash
  | '%' => some percent
  | '<' => some less
  | '>' => some greater
  | '!' => some bang
  | '=' => some assign
  | '(' => some openParen
  | ')' => some closeParen
  | '[' => some openBracket
  | ']' => some closeBracket
  | '\x7b' => some openBrace
  | '\x7d' => some closeBrace
  | ';' => some semicolon
  | ',' => some comma
  | '?' => some question
  | ':' => some colon
  | _ => none

/-- Whether the mark compares its two sides. -/
def isComparison : Punct → Bool
  | equals | notEquals | less | greater | atMost | atLeast => true
  | _ => false

end Punct

/-! ### Tokens -/

/-- What a token is, without its place.  Literals and names keep their text as written. -/
inductive TokenKind where
  | keyword (word : Keyword)
  | punct (mark : Punct)
  | int (digits : String)
  | real (text : String)
  | ident (name : String)
  | eof
deriving DecidableEq

namespace TokenKind

/-- How the token is written in a source text; the end of the text is written as nothing. -/
def spelling : TokenKind → String
  | keyword word => word.spelling
  | punct mark => mark.spelling
  | int digits => digits
  | real text => text
  | ident name => name
  | eof => ""

/-- The token as error messages call it. -/
def describe : TokenKind → String
  | keyword word => "'" ++ word.spelling ++ "'"
  | punct mark => "'" ++ mark.spelling ++ "'"
  | int digits => "integer '" ++ digits ++ "'"
  | real text => "float '" ++ text ++ "'"
  | ident name => "identifier '" ++ name ++ "'"
  | eof => "end of file"

/-- The name of the kind in a token listing. -/
def tag : TokenKind → String
  | keyword word => word.tag
  | punct mark => mark.tag
  | int _ => "IntLiteral"
  | real _ => "RealLiteral"
  | ident _ => "Identifier"
  | eof => "Eof"

/-- The text a literal or a name carries. -/
def payload? : TokenKind → Option String
  | int text | real text | ident text => some text
  | _ => none

/-- The spelling of a keyword that names a type. -/
def typeName? : TokenKind → Option String
  | keyword word => if word.isType then some word.spelling else none
  | _ => none

def isComparison : TokenKind → Bool
  | punct mark => mark.isComparison
  | _ => false

/-- The kind as it appears in a token listing.  The texts of literals and names are plain ASCII
words, so quoting them needs no escapes. -/
def dump (kind : TokenKind) : String :=
  match kind.payload? with
  | some text => kind.tag ++ "(\"" ++ text ++ "\")"
  | none => kind.tag

end TokenKind

/-- A token and the place it was read from. -/
structure Token where
  kind : TokenKind
  span : Span
deriving DecidableEq

namespace Token

/-- One line of a token listing. -/
def dump (t : Token) : String :=
  "Token \x7b kind: " ++ t.kind.dump ++ ", span: " ++ t.span.describe ++ " \x7d"

end Token

end StaticCheck
