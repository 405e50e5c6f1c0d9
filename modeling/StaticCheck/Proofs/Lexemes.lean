import StaticCheck.Proofs.Source

/-! # Tokens and their spellings

The texts that literals and names may have, said without the rules that cut a text
(`TokenKind.Valid`), and cutting them back: a valid token is cut from the front of a text that
starts with its spelling, unless what follows could go on with it (`cut_spelling`).

`Lexes text kinds` says that a text is cut into tokens of the given kinds, with blanks and comments
between them and nothing stray; then `tokenize` lists tokens of these kinds
(`Lexes.tokenize`). -/

namespace StaticCheck

/-! ### Characters -/

theorem isDigit_iff {c : Char} : isDigit c = true ↔ 48 ≤ c.toNat ∧ c.toNat ≤ 57 := by
  simp only [isDigit, Bool.and_eq_true, decide_eq_true_eq, Char.le_def, UInt32.le_iff_toNat_le]
  rfl

theorem isNameStart_iff {c : Char} : isNameStart c = true ↔
    97 ≤ c.toNat ∧ c.toNat ≤ 122 ∨ 65 ≤ c.toNat ∧ c.toNat ≤ 90 ∨ c.toNat = 95 := by
  simp only [isNameStart, Bool.or_eq_true, Bool.and_eq_true, decide_eq_true_eq, Char.le_def,
    UInt32.le_iff_toNat_le, or_assoc, ← Char.toNat_inj]
  rfl

theorem isBlank_iff {c : Char} : isBlank c = true ↔
    c.toNat = 32 ∨ c.toNat = 9 ∨ c.toNat = 10 ∨ c.toNat = 13 ∨ c.toNat = 12 := by
  simp only [isBlank, Bool.or_eq_true, decide_eq_true_eq, or_assoc, ← Char.toNat_inj]
  rfl

/-! ### The texts of literals and names -/

def IsDigits (text : List Char) : Prop := text ≠ [] ∧ ∀ c ∈ text, isDigit c = true

theorem isDigits_singleton {c : Char} (h : isDigit c = true) : IsDigits [c] :=
  ⟨List.cons_ne_nil c [], List.forall_mem_singleton.2 h⟩

/-- Nothing, or a power of ten: `e` or `E`, perhaps a sign, and digits. -/
inductive IsExponent : List Char → Prop
  | none : IsExponent []
  | power {e : Char} {sign digits : List Char} : e = 'e' ∨ e = 'E' →
      sign = [] ∨ sign = ['+'] ∨ sign = ['-'] → IsDigits digits →
      IsExponent (e :: (sign ++ digits))

/-- Digits, a point, digits, and perhaps a power of ten. -/
inductive IsReal : List Char → Prop
  | mk {whole places exponent : List Char} : IsDigits whole → IsDigits places →
      IsExponent exponent → IsReal (whole ++ '.' :: (places ++ exponent))

/-- A letter or an underscore, and then letters, digits and underscores. -/
inductive IsName : List Char → Prop
  | mk {c : Char} {cs : List Char} : isNameStart c = true → (∀ d ∈ cs, isNamePart d = true) →
      IsName (c :: cs)

/-- The tokens that a text can hold: literals and names have texts of their form, and no name is a
keyword.  The end of the text is not one of them. -/
def TokenKind.Valid : TokenKind → Prop
  | keyword _ | punct _ => True
  | int digits => IsDigits digits.toList
  | real text => IsReal text.toList
  | ident name => IsName name.toList ∧ Keyword.ofSpelling? name = none
  | eof => False

/-! ### What may follow a token -/

/-- The text does not start with a character that goes on with a number or a word. -/
def Ends (rest : List Char) : Prop := ∀ c ∈ rest.head?, isNamePart c = false ∧ c ≠ '.'

theorem ends_nil : Ends [] := by
  intro c h
  cases h

theorem ends_cons {c : Char} {rest : List Char} :
    Ends (c :: rest) ↔ isNamePart c = false ∧ c ≠ '.' := by
  simp [Ends]

theorem Ends.not_digit {rest : List Char} (h : Ends rest) :
    ∀ c ∈ rest.head?, isDigit c = false := by
  intro c hc
  have hpart := (h c hc).1
  rw [isNamePart, Bool.or_eq_false_iff] at hpart
  exact hpart.2

/-- The text does not start with a character that goes on with the token: with what makes another
mark of a mark, or with more of a number or a word. -/
def TokenKind.EndsBefore : TokenKind → List Char → Prop
  | punct mark, rest => ∀ c d, mark.spelling.toList = [c] → rest.head? = some d →
      Punct.pair? c d = none ∧ (c = '/' → d ≠ '/' ∧ d ≠ '*')
  | _, rest => Ends rest

/-- Where a run of characters of one class ends. -/
theorem span_run {p : Char → Bool} {run rest : List Char} (hrun : ∀ c ∈ run, p c = true)
    (hrest : ∀ c ∈ rest.head?, p c = false) :
    (run ++ rest).takeWhile p = run ∧ (run ++ rest).dropWhile p = rest := by
  rw [List.takeWhile_append_of_pos hrun, List.dropWhile_append_of_pos hrun]
  cases rest with
  | nil => simp
  | cons c rest =>
    have hc : p c = false := hrest c rfl
    simp [hc]

/-! ### Cutting numbers -/

theorem splitSign_of_isDigits {sign digits rest : List Char}
    (hsign : sign = [] ∨ sign = ['+'] ∨ sign = ['-']) (hdigits : IsDigits digits) :
    splitSign (sign ++ (digits ++ rest)) = (sign, digits ++ rest) := by
  obtain ⟨hne, hall⟩ := hdigits
  obtain ⟨d, ds, rfl⟩ := List.exists_cons_of_ne_nil hne
  have hd := isDigit_iff.1 (hall d List.mem_cons_self)
  rcases hsign with rfl | rfl | rfl
  · unfold splitSign
    split
    · rename_i h
      obtain ⟨rfl, -⟩ := List.cons.inj h
      exact absurd hd (by decide)
    · rename_i h
      obtain ⟨rfl, -⟩ := List.cons.inj h
      exact absurd hd (by decide)
    · rfl
  · rfl
  · rfl

theorem splitExponent_of_isExponent {exponent rest : List Char} (h : IsExponent exponent)
    (hrest : Ends rest) : splitExponent (exponent ++ rest) = (exponent, rest) := by
  cases h with
  | none =>
    cases rest with
    | nil => rfl
    | cons c rest =>
      have hc := (ends_cons.1 hrest).1
      have hne : ¬ (c = 'e' ∨ c = 'E') := by
        rintro (rfl | rfl)
        · exact absurd hc (by decide)
        · exact absurd hc (by decide)
      simp [splitExponent, hne]
  | @power e sign digits he hsign hdigits =>
    have hrun := span_run hdigits.2 hrest.not_digit
    obtain ⟨d, ds, rfl⟩ := List.exists_cons_of_ne_nil hdigits.1
    rw [List.cons_append, List.append_assoc, splitExponent, if_pos he,
      splitSign_of_isDigits hsign hdigits]
    dsimp only
    rw [hrun.1, hrun.2]
    rfl

theorem splitFraction_of_isDigits {places exponent rest : List Char} (hplaces : IsDigits places)
    (hexponent : IsExponent exponent) (hrest : Ends rest) :
    splitFraction ('.' :: (places ++ (exponent ++ rest))) =
      ('.' :: (places ++ exponent), rest) := by
  have hstop : ∀ c ∈ (exponent ++ rest).head?, isDigit c = false := by
    cases hexponent with
    | none => exact hrest.not_digit
    | power he hsign hdigits =>
      intro c hc
      cases hc
      rcases he with rfl | rfl
      · decide
      · decide
  have hrun := span_run hplaces.2 hstop
  obtain ⟨d, ds, rfl⟩ := List.exists_cons_of_ne_nil hplaces.1
  rw [splitFraction, hrun.1, hrun.2, splitExponent_of_isExponent hexponent hrest]
  rfl

theorem splitFraction_of_ends {rest : List Char} (h : Ends rest) :
    splitFraction rest = ([], rest) := by
  cases rest with
  | nil => rfl
  | cons c rest =>
    have hc := (ends_cons.1 h).2
    unfold splitFraction
    split
    · rename_i heq
      exact absurd (List.cons.inj heq).1 hc
    · rfl

/-- What starts with a digit is cut as a number. -/
theorem cut_of_isDigit {c : Char} (h : isDigit c = true) (cs : List Char) :
    cut c cs = cutNumber c cs := by
  have hc := isDigit_iff.1 h
  have hblank : ¬ isBlank c = true := by
    rw [isBlank_iff]
    omega
  have hslash : c ≠ '/' := by
    rintro rfl
    exact absurd hc (by decide)
  rw [cut, if_neg hblank, if_neg hslash, if_pos h]

theorem cut_int {text rest : List Char} (h : IsDigits text) (hrest : Ends rest) :
    ∃ c cs, text = c :: cs ∧
      cut c (cs ++ rest) = (.token (.int (String.ofList text)) text, rest) := by
  obtain ⟨hne, hall⟩ := h
  obtain ⟨c, cs, rfl⟩ := List.exists_cons_of_ne_nil hne
  obtain ⟨hc, hcs⟩ := List.forall_mem_cons.1 hall
  have hrun := span_run hcs hrest.not_digit
  refine ⟨c, cs, rfl, ?_⟩
  rw [cut_of_isDigit hc, cutNumber, hrun.1, hrun.2, splitFraction_of_ends hrest]

theorem cut_real {text rest : List Char} (h : IsReal text) (hrest : Ends rest) :
    ∃ c cs, text = c :: cs ∧
      cut c (cs ++ rest) = (.token (.real (String.ofList text)) text, rest) := by
  obtain ⟨⟨hne, hall⟩, hplaces, hexponent⟩ := h
  rename_i whole places exponent
  obtain ⟨c, cs, rfl⟩ := List.exists_cons_of_ne_nil hne
  obtain ⟨hc, hcs⟩ := List.forall_mem_cons.1 hall
  have hpoint : ∀ d ∈ ('.' :: (places ++ (exponent ++ rest))).head?, isDigit d = false := by
    intro d hd
    cases hd
    decide
  have hrun := span_run hcs hpoint
  refine ⟨c, cs ++ '.' :: (places ++ exponent), rfl, ?_⟩
  rw [List.append_assoc, List.cons_append, List.append_assoc, cut_of_isDigit hc, cutNumber, hrun.1,
    hrun.2, splitFraction_of_isDigits hplaces hexponent hrest]

/-! ### Cutting words and marks -/

theorem cut_name {text rest : List Char} (h : IsName text) (hrest : Ends rest) :
    ∃ c cs, text = c :: cs ∧
      cut c (cs ++ rest) = (.token (wordKind (String.ofList text)) text, rest) := by
  obtain ⟨hstart, hparts⟩ := h
  rename_i c cs
  refine ⟨c, cs, rfl, ?_⟩
  have hc := isNameStart_iff.1 hstart
  have hblank : ¬ isBlank c = true := by
    rw [isBlank_iff]
    omega
  have hslash : c ≠ '/' := by
    rintro rfl
    exact absurd hc (by decide)
  have hdigit : ¬ isDigit c = true := by
    rw [isDigit_iff]
    omega
  have hrun := span_run hparts fun d hd => (hrest d hd).1
  rw [cut, if_neg hblank, if_neg hslash, if_neg hdigit, if_pos hstart, cutWord, hrun.1, hrun.2]

/-- A character that starts a mark and nothing else. -/
abbrev StartsMark (c : Char) : Prop :=
  isBlank c = false ∧ isDigit c = false ∧ isNameStart c = false

theorem cutSingle_of_single? {c : Char} {mark : Punct} (h : Punct.single? c = some mark)
    (rest : List Char) : cutSingle c rest = (.token (.punct mark) [c], rest) := by
  rw [cutSingle, h]

theorem cut_single {c : Char} {mark : Punct} {rest : List Char} (hc : StartsMark c)
    (hmark : Punct.single? c = some mark)
    (hrest : ∀ d, rest.head? = some d →
      Punct.pair? c d = none ∧ (c = '/' → d ≠ '/' ∧ d ≠ '*')) :
    cut c rest = (.token (.punct mark) [c], rest) := by
  have hpunct : cutPunct c rest = (.token (.punct mark) [c], rest) := by
    cases rest with
    | nil => exact cutSingle_of_single? hmark []
    | cons d rest =>
      rw [cutPunct, (hrest d rfl).1]
      exact cutSingle_of_single? hmark (d :: rest)
  obtain ⟨hblank, hdigit, hname⟩ := hc
  rw [cut, if_neg (by simp [hblank])]
  by_cases hslash : c = '/'
  · subst hslash
    rw [if_pos rfl, ← hpunct]
    unfold cutSlash
    split
    · exact absurd rfl ((hrest '/' rfl).2 rfl).1
    · exact absurd rfl ((hrest '*' rfl).2 rfl).2
    · rfl
  · rw [if_neg hslash, if_neg (by simp [hdigit]), if_neg (by simp [hname]), hpunct]

theorem cut_pair {c d : Char} {mark : Punct} (hc : StartsMark c) (hslash : c ≠ '/')
    (hmark : Punct.pair? c d = some mark) (rest : List Char) :
    cut c (d :: rest) = (.token (.punct mark) [c, d], rest) := by
  obtain ⟨hblank, hdigit, hname⟩ := hc
  rw [cut, if_neg (by simp [hblank]), if_neg hslash, if_neg (by simp [hdigit]),
    if_neg (by simp [hname]), cutPunct, hmark]

/-- A mark is one character or two. -/
theorem Punct.spelling_cases (mark : Punct) :
    (∃ c, mark.spelling.toList = [c] ∧ StartsMark c ∧ Punct.single? c = some mark) ∨
      ∃ c d, mark.spelling.toList = [c, d] ∧ StartsMark c ∧ c ≠ '/' ∧
        Punct.pair? c d = some mark := by
  cases mark with
  | equals | notEquals | atMost | atLeast | both | either =>
    exact .inr ⟨_, _, rfl, by decide, by decide, rfl⟩
  | _ => exact .inl ⟨_, rfl, by decide, rfl⟩

theorem Keyword.isName_spelling (word : Keyword) : IsName word.spelling.toList := by
  cases word with
  | _ => exact .mk rfl (List.all_eq_true.1 rfl)

/-- A valid token is cut from the front of a text that starts with its spelling. -/
theorem cut_spelling {kind : TokenKind} {rest : List Char} (hvalid : kind.Valid)
    (hrest : kind.EndsBefore rest) : ∃ c cs, kind.spelling.toList = c :: cs ∧
      cut c (cs ++ rest) = (.token kind (c :: cs), rest) := by
  cases kind with
  | keyword word =>
    obtain ⟨c, cs, htext, hcut⟩ := cut_name word.isName_spelling hrest
    rw [String.ofList_toList, wordKind, Keyword.ofSpelling?_spelling, htext] at hcut
    exact ⟨c, cs, htext, hcut⟩
  | punct mark =>
    obtain ⟨c, htext, hc, hmark⟩ | ⟨c, d, htext, hc, hslash, hmark⟩ := mark.spelling_cases
    · exact ⟨c, [], htext, cut_single hc hmark fun d => hrest c d htext⟩
    · exact ⟨c, [d], htext, cut_pair hc hslash hmark rest⟩
  | int digits =>
    obtain ⟨c, cs, htext, hcut⟩ := cut_int hvalid hrest
    rw [String.ofList_toList, htext] at hcut
    exact ⟨c, cs, htext, hcut⟩
  | real text =>
    obtain ⟨c, cs, htext, hcut⟩ := cut_real hvalid hrest
    rw [String.ofList_toList, htext] at hcut
    exact ⟨c, cs, htext, hcut⟩
  | ident name =>
    obtain ⟨c, cs, htext, hcut⟩ := cut_name hvalid.1 hrest
    rw [String.ofList_toList, wordKind, hvalid.2, htext] at hcut
    exact ⟨c, cs, htext, hcut⟩
  | eof => exact hvalid.elim

/-! ### Whole texts -/

/-- A text is cut into blanks, comments and tokens of the given kinds. -/
inductive Lexes : List Char → List TokenKind → Prop
  | nil : Lexes [] []
  | trivia {c : Char} {cs text rest : List Char} {kinds : List TokenKind} :
      cut c cs = (.trivia text, rest) → Lexes rest kinds → Lexes (c :: cs) kinds
  | token {c : Char} {cs text rest : List Char} {kind : TokenKind} {kinds : List TokenKind} :
      cut c cs = (.token kind text, rest) → Lexes rest kinds → Lexes (c :: cs) (kind :: kinds)

namespace Lexes

theorem blank {c : Char} {rest : List Char} {kinds : List TokenKind} (hc : isBlank c = true)
    (h : Lexes rest kinds) : Lexes (c :: rest) kinds := by
  have hcut : cut c rest = (.trivia [c], rest) := by rw [cut, if_pos hc]
  exact trivia hcut h

theorem spelling {kind : TokenKind} {rest : List Char} {kinds : List TokenKind}
    (hvalid : kind.Valid) (hrest : kind.EndsBefore rest) (h : Lexes rest kinds) :
    Lexes (kind.spelling.toList ++ rest) (kind :: kinds) := by
  obtain ⟨c, cs, htext, hcut⟩ := cut_spelling hvalid hrest
  rw [htext]
  exact token hcut h

theorem locate {text : List Char} {kinds : List TokenKind} (h : Lexes text kinds) (offset : Nat) :
    ∃ ts : List Token, StaticCheck.locate offset (pieces text) = ts.map .ok ∧
      ts.map Token.kind = kinds := by
  induction h generalizing offset with
  | nil => exact ⟨[], by rw [pieces]; rfl, rfl⟩
  | trivia hcut _ ih =>
    rw [pieces, hcut]
    exact ih _
  | @token c cs text rest kind kinds hcut _ ih =>
    obtain ⟨ts, hts, hkinds⟩ := ih (offset + byteLength text)
    refine ⟨⟨kind, offset, offset + byteLength text⟩ :: ts, ?_, ?_⟩
    · rw [pieces, hcut, List.map_cons, ← hts]
      rfl
    · rw [List.map_cons, hkinds]

/-- A text that is cut into tokens is listed as tokens of the same kinds. -/
theorem tokenize {source : String} {kinds : List TokenKind} (h : Lexes source.toList kinds) :
    ∃ ts : List Token, StaticCheck.tokenize source =
        .ok (ts ++ [.atEnd (byteLength source.toList)]) ∧ ts.map Token.kind = kinds := by
  obtain ⟨ts, hts, hkinds⟩ := h.locate 0
  exact ⟨ts, tokenize_eq_ok_iff.2 ⟨ts, hts, rfl⟩, hkinds⟩

end Lexes

/-! ### The tokens of a text are valid -/

theorem isDigits_takeWhile {cs run : List Char} (h : cs.takeWhile isDigit = run) (hne : run ≠ []) :
    IsDigits run := by
  refine ⟨hne, fun c hc => ?_⟩
  rw [← h] at hc
  exact List.all_eq_true.1 List.all_takeWhile c hc

theorem splitSign_cases (cs : List Char) :
    (splitSign cs).1 = [] ∨ (splitSign cs).1 = ['+'] ∨ (splitSign cs).1 = ['-'] := by
  fun_cases splitSign cs with
  | case1 => exact .inr (.inl rfl)
  | case2 => exact .inr (.inr rfl)
  | case3 => exact .inl rfl

theorem isExponent_splitExponent (cs : List Char) : IsExponent (splitExponent cs).1 := by
  fun_cases splitExponent cs with
  | case1 => exact .none
  | case2 => exact .none
  | case3 e rest he sign digits hsplit d ds hrun =>
    have hsign := splitSign_cases rest
    rw [hsplit] at hsign
    exact .power he hsign (isDigits_takeWhile hrun (List.cons_ne_nil d ds))
  | case4 => exact .none

/-- A fraction is nothing, or what makes a real of an integer. -/
theorem splitFraction_cases (cs : List Char) : (splitFraction cs).1 = [] ∨
    ∃ places exponent, (splitFraction cs).1 = '.' :: (places ++ exponent) ∧ IsDigits places ∧
      IsExponent exponent := by
  fun_cases splitFraction cs with
  | case1 => exact .inl rfl
  | case2 rest d ds hrun exponent after hsplit =>
    have hexponent := isExponent_splitExponent (rest.dropWhile isDigit)
    rw [hsplit] at hexponent
    exact .inr ⟨d :: ds, exponent, rfl, isDigits_takeWhile hrun (List.cons_ne_nil d ds), hexponent⟩
  | case3 => exact .inl rfl

/-- A piece that is a token is a valid one. -/
def Piece.Valid : Piece → Prop
  | .token kind _ => kind.Valid
  | _ => True

theorem valid_cutNumber {c : Char} (hc : isDigit c = true) (cs : List Char) :
    (cutNumber c cs).1.Valid := by
  have hwhole : IsDigits (c :: cs.takeWhile isDigit) := by
    refine ⟨List.cons_ne_nil _ _, List.forall_mem_cons.2 ⟨hc, ?_⟩⟩
    exact List.all_eq_true.1 List.all_takeWhile
  have hfraction := splitFraction_cases (cs.dropWhile isDigit)
  unfold cutNumber
  generalize splitFraction (cs.dropWhile isDigit) = split at hfraction
  obtain ⟨fraction, rest⟩ := split
  obtain rfl | ⟨places, exponent, rfl, hplaces, hexponent⟩ := hfraction
  · change IsDigits (String.ofList _).toList
    rw [String.toList_ofList]
    exact hwhole
  · change IsReal (String.ofList _).toList
    rw [String.toList_ofList]
    exact .mk hwhole hplaces hexponent

theorem valid_cutWord {c : Char} (hc : isNameStart c = true) (cs : List Char) :
    (cutWord c cs).1.Valid := by
  change (wordKind _).Valid
  unfold wordKind
  split
  · exact trivial
  · rename_i hword
    refine ⟨?_, hword⟩
    rw [String.toList_ofList]
    exact .mk hc (List.all_eq_true.1 List.all_takeWhile)

theorem valid_cutPunct (c : Char) (cs : List Char) : (cutPunct c cs).1.Valid := by
  have hsingle : ∀ rest, (cutSingle c rest).1.Valid := by
    intro rest
    unfold cutSingle
    split <;> exact trivial
  fun_cases cutPunct c cs with
  | case1 => exact hsingle []
  | case2 => exact trivial
  | case3 d cs => exact hsingle (d :: cs)

theorem valid_cut (c : Char) (cs : List Char) : (cut c cs).1.Valid := by
  fun_cases cut c cs with
  | case1 => exact trivial
  | case2 =>
    fun_cases cutSlash cs with
    | case1 => exact trivial
    | case2 => exact trivial
    | case3 => exact trivial
    | case4 cs => exact valid_cutPunct '/' cs
  | case3 _ _ hdigit => exact valid_cutNumber hdigit cs
  | case4 _ _ _ hname => exact valid_cutWord hname cs
  | case5 => exact valid_cutPunct c cs

/-- Only valid tokens are listed, the end of the text apart. -/
theorem valid_of_tokenize {source : String} {ts : List Token} {stop : Token}
    (h : tokenize source = .ok (ts ++ [stop])) : ∀ t ∈ ts, t.kind.Valid := by
  obtain ⟨us, hitems, hts⟩ := tokenize_eq_ok_iff.1 h
  obtain ⟨rfl, -⟩ := List.append_inj' hts rfl
  intro t ht
  obtain ⟨text, htext⟩ := mem_pieces_of_mem_items (hitems ▸ List.mem_map_of_mem ht)
  exact forall_mem_pieces valid_cut _ _ htext

end StaticCheck
