import StaticCheck.Text
import StaticCheck.Token

/-! # Cutting a source text into pieces

A text is cut from the front into pieces: blanks and comments, tokens, and characters that start
no token.  Each cut takes the longest piece that a rule allows, and a keyword wins over a name of
the same spelling.  Nothing is lost: the pieces written one after the other are the text
(`flatMap_text_pieces`). -/

namespace StaticCheck

/-! ### Pieces -/

/-- What stands at the front of a text, with its own text. -/
inductive Piece where
  /-- A blank or a comment. -/
  | trivia (text : List Char)
  /-- A token. -/
  | token (kind : TokenKind) (text : List Char)
  /-- A character that starts no token, or a comment that is never closed. -/
  | stray (text : List Char)
deriving DecidableEq

namespace Piece

def text : Piece → List Char
  | trivia text => text
  | token _ text => text
  | stray text => text

end Piece

/-! ### Single rules

Each rule splits a text in two: the part it takes and the rest. -/

/-- Splits behind the first `*/`, or answers `none` if there is none. -/
def splitComment? : List Char → Option (List Char × List Char)
  | [] => none
  | '*' :: '/' :: rest => some (['*', '/'], rest)
  | c :: rest => (splitComment? rest).map fun (body, after) => (c :: body, after)

/-- Splits behind an optional sign. -/
def splitSign : List Char → List Char × List Char
  | '+' :: rest => (['+'], rest)
  | '-' :: rest => (['-'], rest)
  | rest => ([], rest)

/-- Splits behind an exponent: `e` or `E`, an optional sign and at least one digit.  Takes nothing
if the text does not start with all of that. -/
def splitExponent : List Char → List Char × List Char
  | [] => ([], [])
  | e :: rest =>
    if e = 'e' ∨ e = 'E' then
      let (sign, digits) := splitSign rest
      match digits.takeWhile isDigit with
      | [] => ([], e :: rest)
      | d :: ds => (e :: sign ++ d :: ds, digits.dropWhile isDigit)
    else ([], e :: rest)

/-- Splits behind a fraction: a point, at least one digit and an optional exponent.  Takes nothing
if the text does not start with a point and a digit. -/
def splitFraction : List Char → List Char × List Char
  | '.' :: rest =>
    match rest.takeWhile isDigit with
    | [] => ([], '.' :: rest)
    | d :: ds =>
      let (exponent, after) := splitExponent (rest.dropWhile isDigit)
      ('.' :: d :: ds ++ exponent, after)
  | rest => ([], rest)

/-- Cuts a number that starts with the digit `c`: an integer, or a real if a fraction follows. -/
def cutNumber (c : Char) (cs : List Char) : Piece × List Char :=
  let whole := c :: cs.takeWhile isDigit
  match splitFraction (cs.dropWhile isDigit) with
  | ([], rest) => (.token (.int (String.ofList whole)) whole, rest)
  | (fraction, rest) =>
    (.token (.real (String.ofList (whole ++ fraction))) (whole ++ fraction), rest)

/-- The token of a whole word: a keyword if it is one, else a name. -/
def wordKind (word : String) : TokenKind :=
  match Keyword.ofSpelling? word with
  | some k => .keyword k
  | none => .ident word

/-- Cuts a word that starts with the letter `c`. -/
def cutWord (c : Char) (cs : List Char) : Piece × List Char :=
  let word := c :: cs.takeWhile isNamePart
  (.token (wordKind (String.ofList word)) word, cs.dropWhile isNamePart)

/-- Cuts the one-character mark `c`, or a stray character. -/
def cutSingle (c : Char) (cs : List Char) : Piece × List Char :=
  match Punct.single? c with
  | some mark => (.token (.punct mark) [c], cs)
  | none => (.stray [c], cs)

/-- Cuts a punctuation mark, two characters if they form one. -/
def cutPunct (c : Char) : List Char → Piece × List Char
  | [] => cutSingle c []
  | d :: cs =>
    match Punct.pair? c d with
    | some mark => (.token (.punct mark) [c, d], cs)
    | none => cutSingle c (d :: cs)

/-- Cuts what follows a slash: a line comment, a block comment or the mark itself.  A block comment
that is never closed is one stray piece up to the end of the text. -/
def cutSlash : List Char → Piece × List Char
  | '/' :: cs => (.trivia ('/' :: '/' :: cs.takeWhile (· ≠ '\n')), cs.dropWhile (· ≠ '\n'))
  | '*' :: cs =>
    match splitComment? cs with
    | some (body, rest) => (.trivia ('/' :: '*' :: body), rest)
    | none => (.stray ('/' :: '*' :: cs), [])
  | cs => cutPunct '/' cs

/-- Cuts the first piece of the text that starts with `c`. -/
def cut (c : Char) (cs : List Char) : Piece × List Char :=
  if isBlank c then (.trivia [c], cs)
  else if c = '/' then cutSlash cs
  else if isDigit c then cutNumber c cs
  else if isNameStart c then cutWord c cs
  else cutPunct c cs

/-! ### Nothing is lost -/

theorem splitComment?_append {cs body rest : List Char}
    (h : splitComment? cs = some (body, rest)) : body ++ rest = cs := by
  fun_induction splitComment? cs generalizing body rest with
  | case1 => simp at h
  | case2 rest =>
    cases h
    rfl
  | case3 c cs _ ih =>
    simp only [Option.map_eq_some_iff, Prod.mk.injEq, Prod.exists] at h
    obtain ⟨body, rest, h, rfl, rfl⟩ := h
    simp [ih h]

theorem splitSign_append (cs : List Char) : (splitSign cs).1 ++ (splitSign cs).2 = cs := by
  fun_cases splitSign cs <;> rfl

theorem splitExponent_append (cs : List Char) :
    (splitExponent cs).1 ++ (splitExponent cs).2 = cs := by
  fun_cases splitExponent cs with
  | case1 => rfl
  | case2 => rfl
  | case3 e rest _ sign digits split d ds h =>
    have signed : sign ++ digits = rest := by
      simpa [split] using splitSign_append rest
    have taken : d :: ds ++ digits.dropWhile isDigit = digits := by
      rw [← h, List.takeWhile_append_dropWhile]
    rw [List.append_assoc, taken, List.cons_append, signed]
  | case4 => rfl

theorem splitFraction_append (cs : List Char) :
    (splitFraction cs).1 ++ (splitFraction cs).2 = cs := by
  fun_cases splitFraction cs with
  | case1 => rfl
  | case2 rest d ds h exponent after split =>
    have powered : exponent ++ after = rest.dropWhile isDigit := by
      simpa [split] using splitExponent_append (rest.dropWhile isDigit)
    have taken : d :: ds ++ rest.dropWhile isDigit = rest := by
      rw [← h, List.takeWhile_append_dropWhile]
    rw [List.append_assoc, powered, List.cons_append, taken]
  | case3 => rfl

theorem cutNumber_append (c : Char) (cs : List Char) :
    (cutNumber c cs).1.text ++ (cutNumber c cs).2 = c :: cs := by
  have split := splitFraction_append (cs.dropWhile isDigit)
  unfold cutNumber
  split <;> rename_i h <;> simp_all [Piece.text]

theorem cutWord_append (c : Char) (cs : List Char) :
    (cutWord c cs).1.text ++ (cutWord c cs).2 = c :: cs := by
  simp [cutWord, Piece.text]

theorem cutSingle_append (c : Char) (cs : List Char) :
    (cutSingle c cs).1.text ++ (cutSingle c cs).2 = c :: cs := by
  unfold cutSingle
  split <;> rfl

theorem cutPunct_append (c : Char) (cs : List Char) :
    (cutPunct c cs).1.text ++ (cutPunct c cs).2 = c :: cs := by
  fun_cases cutPunct c cs with
  | case1 => exact cutSingle_append c []
  | case2 => rfl
  | case3 d cs => exact cutSingle_append c (d :: cs)

theorem cutSlash_append (cs : List Char) :
    (cutSlash cs).1.text ++ (cutSlash cs).2 = '/' :: cs := by
  fun_cases cutSlash cs with
  | case1 cs => simp [Piece.text]
  | case2 cs body rest h => simp [Piece.text, splitComment?_append h]
  | case3 => simp [Piece.text]
  | case4 cs => exact cutPunct_append '/' cs

/-- A piece and the rest make up the text they were cut from. -/
theorem cut_append (c : Char) (cs : List Char) : (cut c cs).1.text ++ (cut c cs).2 = c :: cs := by
  fun_cases cut c cs with
  | case1 => rfl
  | case2 => subst_vars; exact cutSlash_append cs
  | case3 => exact cutNumber_append c cs
  | case4 => exact cutWord_append c cs
  | case5 => exact cutPunct_append c cs

theorem cutPunct_text_ne_nil (c : Char) (cs : List Char) : (cutPunct c cs).1.text ≠ [] := by
  fun_cases cutPunct c cs <;> simp only [cutSingle] <;> (try split) <;> simp [Piece.text]

/-- A piece is never empty. -/
theorem cut_text_ne_nil (c : Char) (cs : List Char) : (cut c cs).1.text ≠ [] := by
  fun_cases cut c cs with
  | case1 => simp [Piece.text]
  | case2 =>
    fun_cases cutSlash cs
    case case4 => exact cutPunct_text_ne_nil '/' cs
    all_goals simp [Piece.text]
  | case3 =>
    unfold cutNumber
    split <;> simp [Piece.text]
  | case4 => simp [cutWord, Piece.text]
  | case5 => exact cutPunct_text_ne_nil c cs

theorem cut_rest_length_le (c : Char) (cs : List Char) : (cut c cs).2.length ≤ cs.length := by
  have joined := congrArg List.length (cut_append c cs)
  have taken := List.length_pos_iff.2 (cut_text_ne_nil c cs)
  simp only [List.length_append, List.length_cons] at joined
  omega

/-! ### All pieces -/

/-- The pieces of a text, in order. -/
def pieces : List Char → List Piece
  | [] => []
  | c :: cs => (cut c cs).1 :: pieces (cut c cs).2
termination_by text => text.length
decreasing_by exact Nat.lt_succ_of_le (cut_rest_length_le c cs)

/-- The pieces written one after the other are the text. -/
theorem flatMap_text_pieces (text : List Char) : (pieces text).flatMap Piece.text = text := by
  fun_induction pieces text with
  | case1 => rfl
  | case2 c cs ih => rw [List.flatMap_cons, ih, cut_append]

end StaticCheck
