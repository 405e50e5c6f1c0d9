import StaticCheck.Token.Scan

/-! # The token stream of a source text

`items` gives every token and every lexical error of a text with its place, in order; the end of
the text follows the last of them and is repeated as often as it is asked for.  `tokenize` is the
whole listing of a text without errors.

A `Lexer` answers the same items on demand, one by one, and can look one token ahead. -/

namespace StaticCheck

/-- A part of the source that is no token: a single character, or a comment that is never closed. -/
structure LexicalError where
  text : String
  span : Span
deriving DecidableEq

def LexicalError.detail (e : LexicalError) : String :=
  "unexpected character '" ++ e.text ++ "'"

/-- One answer of the stream. -/
abbrev Item := Except LexicalError Token

/-- The token that ends every source text. -/
def Token.atEnd (offset : Nat) : Token := ⟨.eof, .point offset⟩

/-- The span of a piece that starts at `offset`. -/
def Piece.spanAt (piece : Piece) (offset : Nat) : Span :=
  ⟨offset, offset + byteLength piece.text⟩

/-- What a piece contributes to the stream: blanks and comments nothing, all else one item. -/
def Piece.item? (piece : Piece) (offset : Nat) : Option Item :=
  match piece with
  | .trivia _ => none
  | .token kind _ => some (.ok ⟨kind, piece.spanAt offset⟩)
  | .stray text => some (.error ⟨String.ofList text, piece.spanAt offset⟩)

/-! ### The whole stream -/

/-- The items of consecutive pieces, the first of which starts at `offset`. -/
def locate (offset : Nat) : List Piece → List Item
  | [] => []
  | piece :: rest =>
    let later := locate (offset + byteLength piece.text) rest
    match piece.item? offset with
    | none => later
    | some item => item :: later

/-- The tokens and lexical errors of a text, the end of the text left out. -/
def items (source : String) : List Item := locate 0 (pieces source.toList)

/-- All tokens of a text with the end token, or its first lexical error. -/
def tokenize (source : String) : Except LexicalError (List Token) := do
  let tokens ← (items source).mapM id
  return tokens ++ [.atEnd (byteLength source.toList)]

/-! ### One item at a time -/

/-- A reader that stands at a byte offset of a source text, with the text that is still to come and
perhaps a token that was looked at and not yet taken. -/
structure Lexer where
  rest : List Char
  offset : Nat
  peeked : Option Token
deriving DecidableEq

namespace Lexer

/-- The reader at the start of a text. -/
def ofSource (source : String) : Lexer := ⟨source.toList, 0, none⟩

/-- Reads the next item at `offset`, skipping blanks and comments, and gives the text and the offset
behind it.  At the end of the text the item is the end token. -/
def scan (offset : Nat) : List Char → Item × List Char × Nat
  | [] => (.ok (.atEnd offset), [], offset)
  | c :: cs =>
    let first := cut c cs
    let after := offset + byteLength first.1.text
    match first.1.item? offset with
    | none => scan after first.2
    | some item => (item, first.2, after)
termination_by text => text.length
decreasing_by exact Nat.lt_succ_of_le (cut_rest_length_le c cs)

/-- Takes the next item: the token looked at before, or the next one of the text. -/
def next (lexer : Lexer) : Item × Lexer :=
  match lexer.peeked with
  | some token => (.ok token, { lexer with peeked := none })
  | none =>
    let (item, rest, offset) := scan lexer.offset lexer.rest
    (item, ⟨rest, offset, none⟩)

/-- Looks at the next token without taking it.  An error is taken all the same. -/
def peek (lexer : Lexer) : Item × Lexer :=
  match lexer.peeked with
  | some token => (.ok token, lexer)
  | none =>
    match lexer.next with
    | (.ok token, after) => (.ok token, { after with peeked := some token })
    | (.error e, after) => (.error e, after)

/-- A request to a reader. -/
inductive Call where
  | next
  | peek
deriving DecidableEq

def call (lexer : Lexer) : Call → Item × Lexer
  | .next => lexer.next
  | .peek => lexer.peek

/-- Answers requests in order, each on the reader that the one before left behind. -/
def answers (lexer : Lexer) : List Call → List Item
  | [] => []
  | c :: calls =>
    let (item, after) := lexer.call c
    item :: after.answers calls

end Lexer

end StaticCheck
