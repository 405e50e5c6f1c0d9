import StaticCheck.Proofs.Cutting

/-! # Longest matches

The rules of the language on their own, without a strategy for applying them: `Lexeme` says which
texts are tokens and of which kind, and `Skipped` which texts are blanks or comments.  Cutting a
text applies them by longest match: the piece at the front of a text is a blank or a comment, or the
longest token that the text starts with, or a part where no rule applies (`fits_cut`), and the rules
allow no other piece there (`cut_of_fits`). -/

namespace StaticCheck

/-! ### The rules -/

/-- A rule for tokens reads the text as a token of the kind.  The rule for names reads keywords as
well. -/
inductive Lexeme : TokenKind → List Char → Prop
  | keyword (word : Keyword) : Lexeme (.keyword word) word.spelling.toList
  | punct (mark : Punct) : Lexeme (.punct mark) mark.spelling.toList
  | int {text : List Char} : IsDigits text → Lexeme (.int (String.ofList text)) text
  | real {text : List Char} : IsReal text → Lexeme (.real (String.ofList text)) text
  | ident {text : List Char} : IsName text → Lexeme (.ident (String.ofList text)) text

/-- The end of a block comment stands nowhere in the text. -/
def Unclosed (text : List Char) : Prop := ¬ ['*', '/'] <:+: text

/-- A rule for blanks and comments takes the text.  A block comment ends with the first `*/`. -/
inductive Skipped : List Char → Prop
  | blank {c : Char} : isBlank c = true → Skipped [c]
  | line {body : List Char} : (∀ c ∈ body, c ≠ '\n') → Skipped ('/' :: '/' :: body)
  | block {body : List Char} : Unclosed (body ++ ['*']) →
      Skipped ('/' :: '*' :: (body ++ ['*', '/']))

/-- The token at the front of a text: no rule reads more, and a keyword wins over a name. -/
structure LongestMatch (kind : TokenKind) (text rest : List Char) : Prop where
  lexeme : Lexeme kind text
  longest : ∀ other w, Lexeme other w → w <+: text ++ rest → w.length ≤ text.length
  keyword : ∀ word : Keyword, word.spelling.toList = text → kind = .keyword word
  unskipped : ∀ w, Skipped w → ¬ w <+: text ++ rest
  /-- No block comment starts here, be it closed or not. -/
  unopened : ¬ ['/', '*'] <+: text ++ rest

/-- A part at the front of a text where no rule applies: one character, or all that follows the
start of a block comment without an end. -/
inductive Unmatched : List Char → List Char → Prop
  | char {c : Char} {rest : List Char} : (∀ kind w, Lexeme kind w → ¬ w <+: c :: rest) →
      (∀ w, Skipped w → ¬ w <+: c :: rest) → Unmatched [c] rest
  | comment {body : List Char} : Unclosed body → Unmatched ('/' :: '*' :: body) []

/-- A line comment reaches up to the end of its line. -/
def EndsLine (text rest : List Char) : Prop :=
  ∀ body, text = '/' :: '/' :: body → ∀ c ∈ rest.head?, c = '\n'

/-- The piece is what the rules make of the front of a text. -/
def Piece.Fits : Piece → List Char → Prop
  | .trivia text, rest => Skipped text ∧ EndsLine text rest
  | .token kind text, rest => LongestMatch kind text rest
  | .stray text, rest => Unmatched text rest

/-! ### How tokens start -/

theorem IsName.exists_cons {w : List Char} (h : IsName w) :
    ∃ c cs, w = c :: cs ∧ isNameStart c = true ∧ ∀ d ∈ cs, isNamePart d = true := by
  cases h with
  | mk hc hcs => exact ⟨_, _, rfl, hc, hcs⟩

theorem IsDigits.exists_cons {w : List Char} (h : IsDigits w) :
    ∃ c cs, w = c :: cs ∧ isDigit c = true := by
  obtain ⟨c, cs, rfl⟩ := List.exists_cons_of_ne_nil h.1
  exact ⟨c, cs, rfl, h.2 c List.mem_cons_self⟩

/-- The first character of a token tells numbers, words and marks apart. -/
theorem Lexeme.starts {kind : TokenKind} {w : List Char} (h : Lexeme kind w) :
    ∃ c cs, w = c :: cs ∧ ((isDigit c = true ∧ (IsDigits w ∨ IsReal w)) ∨
      (isNameStart c = true ∧ ∀ d ∈ cs, isNamePart d = true) ∨
      (StartsMark c ∧ ∃ mark : Punct, mark.spelling.toList = w)) := by
  cases h with
  | keyword word =>
    obtain ⟨c, cs, hw, hc, hcs⟩ := word.isName_spelling.exists_cons
    exact ⟨c, cs, hw, .inr (.inl ⟨hc, hcs⟩)⟩
  | punct mark =>
    obtain ⟨c, hw, hc, -⟩ | ⟨c, d, hw, hc, -⟩ := mark.spelling_cases
    · exact ⟨c, [], hw, .inr (.inr ⟨hc, mark, rfl⟩)⟩
    · exact ⟨c, [d], hw, .inr (.inr ⟨hc, mark, rfl⟩)⟩
  | int hw =>
    obtain ⟨c, cs, rfl, hc⟩ := hw.exists_cons
    exact ⟨c, cs, rfl, .inl ⟨hc, .inl hw⟩⟩
  | real hw =>
    cases id hw with
    | mk hwhole _ _ =>
      obtain ⟨c, cs, rfl, hc⟩ := hwhole.exists_cons
      exact ⟨c, _, rfl, .inl ⟨hc, .inr hw⟩⟩
  | ident hw =>
    obtain ⟨c, cs, rfl, hc, hcs⟩ := hw.exists_cons
    exact ⟨c, cs, rfl, .inr (.inl ⟨hc, hcs⟩)⟩

theorem Lexeme.ne_nil {kind : TokenKind} {w : List Char} (h : Lexeme kind w) : w ≠ [] := by
  obtain ⟨c, cs, rfl, -⟩ := h.starts
  exact List.cons_ne_nil c cs

theorem not_isDigit_of_isNameStart {c : Char} (h : isNameStart c = true) :
    ¬ isDigit c = true := by
  have hc := isNameStart_iff.1 h
  rw [isDigit_iff]
  omega

section starting

variable {kind : TokenKind} {w cs : List Char} {c : Char}

theorem Lexeme.of_isDigit (h : Lexeme kind w) (hw : w <+: c :: cs) (hc : isDigit c = true) :
    IsDigits w ∨ IsReal w := by
  obtain ⟨d, ds, rfl, hcases⟩ := h.starts
  obtain ⟨rfl, -⟩ := List.cons_prefix_cons.1 hw
  obtain ⟨-, hnumber⟩ | ⟨hname, -⟩ | ⟨hmark, -⟩ := hcases
  · exact hnumber
  · exact absurd hc (not_isDigit_of_isNameStart hname)
  · exact absurd hc (by simp [hmark.2.1])

theorem Lexeme.of_isNameStart (h : Lexeme kind w) (hw : w <+: c :: cs)
    (hc : isNameStart c = true) : ∃ ds, w = c :: ds ∧ ∀ d ∈ ds, isNamePart d = true := by
  obtain ⟨d, ds, rfl, hcases⟩ := h.starts
  obtain ⟨rfl, -⟩ := List.cons_prefix_cons.1 hw
  obtain ⟨hdigit, -⟩ | ⟨-, hparts⟩ | ⟨hmark, -⟩ := hcases
  · exact absurd hdigit (not_isDigit_of_isNameStart hc)
  · exact ⟨ds, rfl, hparts⟩
  · exact absurd hc (by simp [hmark.2.2])

theorem Lexeme.of_startsMark (h : Lexeme kind w) (hw : w <+: c :: cs) (hdigit : isDigit c = false)
    (hname : isNameStart c = false) : ∃ mark : Punct, mark.spelling.toList = w := by
  obtain ⟨d, ds, rfl, hcases⟩ := h.starts
  obtain ⟨rfl, -⟩ := List.cons_prefix_cons.1 hw
  obtain ⟨hd, -⟩ | ⟨hd, -⟩ | ⟨-, hmark⟩ := hcases
  · exact absurd hd (by simp [hdigit])
  · exact absurd hd (by simp [hname])
  · exact hmark

/-- No blank and no comment stands at the front of the text. -/
theorem not_skipped (hblank : isBlank c = false)
    (hslash : c = '/' → ∀ d ∈ cs.head?, d ≠ '/' ∧ d ≠ '*') (hw : Skipped w) :
    ¬ w <+: c :: cs := by
  intro hpre
  cases hw with
  | blank hb =>
    obtain ⟨rfl, -⟩ := List.cons_prefix_cons.1 hpre
    exact absurd hb (by simp [hblank])
  | line =>
    obtain ⟨rfl, hcs⟩ := List.cons_prefix_cons.1 hpre
    obtain ⟨more, rfl⟩ := hcs
    exact (hslash rfl '/' rfl).1 rfl
  | block =>
    obtain ⟨rfl, hcs⟩ := List.cons_prefix_cons.1 hpre
    obtain ⟨more, rfl⟩ := hcs
    exact (hslash rfl '*' rfl).2 rfl

/-- No block comment starts at the front of the text. -/
theorem not_opened (hslash : c = '/' → ∀ d ∈ cs.head?, d ≠ '/' ∧ d ≠ '*') :
    ¬ ['/', '*'] <+: c :: cs := by
  intro hpre
  obtain ⟨rfl, hcs⟩ := List.cons_prefix_cons.1 hpre
  obtain ⟨more, rfl⟩ := hcs
  exact (hslash rfl '*' rfl).2 rfl

end starting

/-! ### Numbers -/

section munching

variable {text more : List Char}

theorem length_le_takeWhile {p : Char → Bool} {run : List Char} (hrun : ∀ c ∈ run, p c = true)
    (h : run <+: text) : run.length ≤ (text.takeWhile p).length := by
  obtain ⟨more, rfl⟩ := h
  rw [List.takeWhile_append_of_pos hrun, List.length_append]
  exact Nat.le_add_right _ _

theorem takeWhile_ne_nil {run : List Char} (hrun : IsDigits run) (h : run <+: text) :
    text.takeWhile isDigit ≠ [] := by
  have hle := length_le_takeWhile hrun.2 h
  have hpos := List.length_pos_iff.2 hrun.1
  exact List.length_pos_iff.1 (by omega)

theorem length_le_splitExponent {w : List Char} (hw : IsExponent w) (h : w <+: text) :
    w.length ≤ (splitExponent text).1.length := by
  obtain ⟨more, rfl⟩ := h
  cases hw with
  | none => exact Nat.zero_le _
  | @power e sign digits he hsign hdigits =>
    have hrun := length_le_takeWhile hdigits.2 (List.prefix_append digits more)
    have hne := takeWhile_ne_nil hdigits (List.prefix_append digits more)
    rw [List.cons_append, List.append_assoc, splitExponent, if_pos he,
      splitSign_of_isDigits hsign hdigits]
    cases htake : (digits ++ more).takeWhile isDigit with
    | nil => exact absurd htake hne
    | cons d ds =>
      rw [htake] at hrun
      simp only [htake, List.length_cons, List.length_append] at hrun ⊢
      omega

theorem splitFraction_point (h : text.takeWhile isDigit ≠ []) :
    (splitFraction ('.' :: text)).1 =
      '.' :: (text.takeWhile isDigit ++ (splitExponent (text.dropWhile isDigit)).1) := by
  rw [splitFraction]
  cases htake : text.takeWhile isDigit with
  | nil => exact absurd htake h
  | cons d ds => rfl

/-- The exponent starts behind the last digit, or there is none to be had. -/
theorem length_le_splitFraction {places exponent : List Char} (hplaces : IsDigits places)
    (hexponent : IsExponent exponent) (h : places ++ exponent <+: text) :
    (places ++ exponent).length + 1 ≤ (splitFraction ('.' :: text)).1.length := by
  have hfront : places <+: text := (List.prefix_append places exponent).trans h
  rw [splitFraction_point (takeWhile_ne_nil hplaces hfront), List.length_cons, List.length_append,
    List.length_append]
  cases id hexponent with
  | none =>
    have hrun := length_le_takeWhile hplaces.2 hfront
    rw [List.length_nil]
    omega
  | @power e sign digits he hsign hdigits =>
    obtain ⟨more, rfl⟩ := h
    have hstop : ∀ c ∈ (e :: (sign ++ digits) ++ more).head?, isDigit c = false := by
      intro c hc
      cases hc
      rcases he with rfl | rfl
      · decide
      · decide
    rw [List.append_assoc, (span_run hplaces.2 hstop).1, (span_run hplaces.2 hstop).2]
    have hlong := length_le_splitExponent hexponent
      (List.prefix_append (e :: (sign ++ digits)) more)
    omega

/-- A number takes all digits and, if there is one, the fraction behind them. -/
theorem text_cutNumber (c : Char) (cs : List Char) : (cutNumber c cs).1.text =
    c :: cs.takeWhile isDigit ++ (splitFraction (cs.dropWhile isDigit)).1 := by
  unfold cutNumber
  split
  · rename_i rest h
    rw [h, List.append_nil]
    rfl
  · rename_i fraction rest h hsplit
    rw [hsplit]
    rfl

theorem length_le_cutNumber {c : Char} {cs w : List Char} (hc : isDigit c = true)
    (hw : IsDigits w ∨ IsReal w) (h : w <+: c :: cs) :
    w.length ≤ (cutNumber c cs).1.text.length := by
  have htake : (c :: cs).takeWhile isDigit = c :: cs.takeWhile isDigit := by
    rw [List.takeWhile_cons, if_pos hc]
  have hdrop : (c :: cs).dropWhile isDigit = cs.dropWhile isDigit := by
    rw [List.dropWhile_cons, if_pos hc]
  rw [text_cutNumber, ← htake, ← hdrop, List.length_append]
  rcases hw with hw | hw
  · have hrun := length_le_takeWhile hw.2 h
    omega
  · cases hw with
    | @mk whole places exponent hwhole hplaces hexponent =>
      obtain ⟨more, htext⟩ := h
      rw [List.append_assoc, List.cons_append] at htext
      have hpoint : ∀ d ∈ ('.' :: (places ++ exponent ++ more)).head?, isDigit d = false := by
        intro d hd
        cases hd
        decide
      have hrun := span_run hwhole.2 hpoint
      have hlong := length_le_splitFraction hplaces hexponent
        (List.prefix_append (places ++ exponent) more)
      rw [← htext, hrun.1, hrun.2, List.length_append, List.length_cons]
      omega

end munching

/-! ### Pieces that are tokens -/

theorem lexeme_cutNumber {c : Char} (hc : isDigit c = true) (cs : List Char) :
    ∃ kind, (cutNumber c cs).1 = .token kind (cutNumber c cs).1.text ∧
      Lexeme kind (cutNumber c cs).1.text := by
  have hvalid := valid_cutNumber hc cs
  unfold cutNumber at hvalid ⊢
  split at hvalid
  · refine ⟨_, rfl, .int ?_⟩
    change IsDigits (String.ofList _).toList at hvalid
    rwa [String.toList_ofList] at hvalid
  · refine ⟨_, rfl, .real ?_⟩
    change IsReal (String.ofList _).toList at hvalid
    rwa [String.toList_ofList] at hvalid

/-- A keyword starts with a letter. -/
theorem Keyword.isNameStart_of_spelling {word : Keyword} {c : Char} {cs : List Char}
    (h : word.spelling.toList = c :: cs) : isNameStart c = true := by
  obtain ⟨d, ds, hw, hd, -⟩ := word.isName_spelling.exists_cons
  rw [h] at hw
  obtain ⟨rfl, -⟩ := List.cons.inj hw
  exact hd

theorem fits_cutNumber {c : Char} (hc : isDigit c = true) (cs : List Char) :
    (cutNumber c cs).1.Fits (cutNumber c cs).2 := by
  obtain ⟨kind, hpiece, hlexeme⟩ := lexeme_cutNumber hc cs
  have happend := cutNumber_append c cs
  have hnumber := isDigit_iff.1 hc
  have hslash : c = '/' → ∀ d ∈ cs.head?, d ≠ '/' ∧ d ≠ '*' := by
    rintro rfl
    exact absurd hc (by decide)
  rw [hpiece]
  refine ⟨hlexeme, ?_, ?_, ?_, ?_⟩
  · intro other w hother hw
    rw [happend] at hw
    exact length_le_cutNumber hc (hother.of_isDigit hw hc) hw
  · intro word hword
    rw [text_cutNumber] at hword
    exact absurd hc (not_isDigit_of_isNameStart (Keyword.isNameStart_of_spelling hword))
  · intro w hw
    rw [happend]
    refine not_skipped ?_ hslash hw
    rw [← Bool.not_eq_true, isBlank_iff]
    omega
  · rw [happend]
    exact not_opened hslash

theorem fits_cutWord {c : Char} (hc : isNameStart c = true) (cs : List Char) :
    (cutWord c cs).1.Fits (cutWord c cs).2 := by
  have happend := cutWord_append c cs
  have hletter := isNameStart_iff.1 hc
  have hname : IsName (c :: cs.takeWhile isNamePart) :=
    .mk hc (List.all_eq_true.1 List.all_takeWhile)
  have hslash : c = '/' → ∀ d ∈ cs.head?, d ≠ '/' ∧ d ≠ '*' := by
    rintro rfl
    exact absurd hc (by decide)
  change LongestMatch (wordKind _) (c :: cs.takeWhile isNamePart) (cs.dropWhile isNamePart)
  refine ⟨?_, ?_, ?_, ?_, ?_⟩
  · unfold wordKind
    split
    · rename_i word hword
      have hspelling := Keyword.spelling_of_ofSpelling? hword
      have htext : word.spelling.toList = c :: cs.takeWhile isNamePart := by
        rw [hspelling, String.toList_ofList]
      rw [← htext]
      exact .keyword word
    · exact .ident hname
  · intro other w hother hw
    change w <+: (cutWord c cs).1.text ++ (cutWord c cs).2 at hw
    rw [happend] at hw
    obtain ⟨ds, rfl, hds⟩ := hother.of_isNameStart hw hc
    have hle := length_le_takeWhile hds (List.cons_prefix_cons.1 hw).2
    exact Nat.succ_le_succ hle
  · intro word hword
    unfold wordKind
    rw [← hword, String.ofList_toList, Keyword.ofSpelling?_spelling]
  · intro w hw
    change ¬ w <+: (cutWord c cs).1.text ++ (cutWord c cs).2
    rw [happend]
    refine not_skipped ?_ hslash hw
    rw [← Bool.not_eq_true, isBlank_iff]
    omega
  · change ¬ ['/', '*'] <+: (cutWord c cs).1.text ++ (cutWord c cs).2
    rw [happend]
    exact not_opened hslash

/-- If the text starts with a mark, a mark is cut that is at least as long. -/
theorem length_le_cutPunct {c : Char} {cs : List Char} {mark : Punct}
    (h : mark.spelling.toList <+: c :: cs) : ∃ kind text, (cutPunct c cs).1 = .token kind text ∧
      mark.spelling.toList.length ≤ text.length := by
  obtain ⟨d, hw, -, hsingle⟩ | ⟨d, e, hw, -, -, hpair⟩ := mark.spelling_cases
  · rw [hw] at h ⊢
    obtain ⟨rfl, -⟩ := List.cons_prefix_cons.1 h
    fun_cases cutPunct d cs with
    | case1 => exact ⟨_, _, congrArg Prod.fst (cutSingle_of_single? hsingle []), Nat.le_refl _⟩
    | case2 e more mark' => exact ⟨_, _, rfl, Nat.le_succ 1⟩
    | case3 e more =>
      exact ⟨_, _, congrArg Prod.fst (cutSingle_of_single? hsingle (e :: more)), Nat.le_refl _⟩
  · rw [hw] at h ⊢
    obtain ⟨rfl, hcs⟩ := List.cons_prefix_cons.1 h
    obtain ⟨more, rfl⟩ := hcs
    refine ⟨.punct mark, [d, e], ?_, Nat.le_refl _⟩
    rw [List.cons_append, cutPunct, hpair]

/-- A cut mark is a token, and else nothing but one character is cut. -/
theorem cutPunct_cases (c : Char) (cs : List Char) :
    (∃ mark, (cutPunct c cs).1 = .token (.punct mark) mark.spelling.toList) ∨
      cutPunct c cs = (.stray [c], cs) := by
  have hsingle : ∀ more,
      (∃ mark, (cutSingle c more).1 = .token (.punct mark) mark.spelling.toList) ∨
        cutSingle c more = (.stray [c], more) := by
    intro more
    unfold cutSingle
    cases hmark : Punct.single? c with
    | none => exact .inr rfl
    | some mark => exact .inl ⟨mark, by rw [Punct.spelling_single hmark]⟩
  fun_cases cutPunct c cs with
  | case1 => exact hsingle []
  | case2 d more mark hpair => exact .inl ⟨mark, by rw [Punct.spelling_pair hpair]⟩
  | case3 d more => exact hsingle (d :: more)

theorem fits_cutPunct {c : Char} {cs : List Char} (hblank : isBlank c = false)
    (hdigit : isDigit c = false) (hname : isNameStart c = false)
    (hslash : c = '/' → ∀ d ∈ cs.head?, d ≠ '/' ∧ d ≠ '*') :
    (cutPunct c cs).1.Fits (cutPunct c cs).2 := by
  have hlong : ∀ kind w, Lexeme kind w → w <+: c :: cs → ∃ kind' text,
      (cutPunct c cs).1 = .token kind' text ∧ w.length ≤ text.length := by
    intro kind w hlexeme hw
    obtain ⟨mark, rfl⟩ := hlexeme.of_startsMark hw hdigit hname
    exact length_le_cutPunct hw
  obtain ⟨mark, hpiece⟩ | hpiece := cutPunct_cases c cs
  · have happend := cutPunct_append c cs
    rw [hpiece] at happend hlong ⊢
    change mark.spelling.toList ++ _ = _ at happend
    refine ⟨.punct mark, ?_, ?_, ?_, ?_⟩
    · intro other w hother hw
      rw [happend] at hw
      obtain ⟨kind', text, heq, hle⟩ := hlong other w hother hw
      cases heq
      exact hle
    · intro word hword
      -- no mark starts with a letter
      obtain ⟨d, ds, hw, hd, -⟩ := word.isName_spelling.exists_cons
      rw [hword] at hw
      rw [hw] at happend
      obtain ⟨rfl, -⟩ := List.cons.inj happend
      exact absurd hd (by simp [hname])
    · intro w hw
      rw [happend]
      exact not_skipped hblank hslash hw
    · rw [happend]
      exact not_opened hslash
  · rw [hpiece] at hlong ⊢
    refine .char ?_ fun w hw => not_skipped hblank hslash hw
    intro kind w hlexeme hw
    obtain ⟨kind', text, heq, -⟩ := hlong kind w hlexeme hw
    cases heq

/-! ### Comments -/

theorem unclosed_of_splitComment? {cs : List Char} (h : splitComment? cs = none) :
    Unclosed cs := by
  fun_induction splitComment? cs with
  | case1 => simp [Unclosed]
  | case2 => cases h
  | case3 c rest hopen ih =>
    rw [Option.map_eq_none_iff] at h
    unfold Unclosed
    rw [List.infix_cons_iff, not_or]
    refine ⟨?_, ih h⟩
    intro hpre
    obtain ⟨rfl, hrest⟩ := List.cons_prefix_cons.1 hpre
    obtain ⟨after, rfl⟩ := hrest
    exact hopen after rfl rfl

theorem exists_body_of_splitComment? {cs body rest : List Char}
    (h : splitComment? cs = some (body, rest)) :
    ∃ inner, body = inner ++ ['*', '/'] ∧ Unclosed (inner ++ ['*']) := by
  fun_induction splitComment? cs generalizing body rest with
  | case1 => cases h
  | case2 more =>
    cases h
    exact ⟨[], rfl, by unfold Unclosed; decide⟩
  | case3 c more hopen ih =>
    obtain ⟨⟨front, after⟩, hfront, heq⟩ := Option.map_eq_some_iff.1 h
    cases heq
    obtain ⟨inner, rfl, hinner⟩ := ih hfront
    refine ⟨c :: inner, rfl, ?_⟩
    unfold Unclosed
    rw [List.cons_append, List.infix_cons_iff, not_or]
    refine ⟨?_, hinner⟩
    -- the end of the comment would have stood at the front
    intro hpre
    obtain ⟨rfl, hslash⟩ := List.cons_prefix_cons.1 hpre
    have hmore := splitComment?_append hfront
    cases inner with
    | nil => simp at hslash
    | cons d inner =>
      obtain ⟨rfl, -⟩ := List.cons_prefix_cons.1 hslash
      exact hopen _ rfl hmore.symm

/-- A block comment ends with the first `*/`, whatever follows it. -/
theorem splitComment?_of_unclosed {body : List Char} (h : Unclosed (body ++ ['*']))
    (rest : List Char) :
    splitComment? (body ++ '*' :: '/' :: rest) = some (body ++ ['*', '/'], rest) := by
  induction body with
  | nil => rfl
  | cons c body ih =>
    unfold Unclosed at h
    rw [List.cons_append, List.infix_cons_iff, not_or] at h
    obtain ⟨hfront, hbody⟩ := h
    have hopen : ∀ after, c = '*' → body ++ '*' :: '/' :: rest = '/' :: after → False := by
      rintro after rfl hslash
      apply hfront
      cases body with
      | nil => cases hslash
      | cons d body =>
        obtain ⟨rfl, -⟩ := List.cons.inj hslash
        exact ⟨body ++ ['*'], rfl⟩
    rw [List.cons_append, splitComment?_cons hopen, ih hbody]
    rfl

theorem cut_slash (cs : List Char) : cut '/' cs = cutSlash cs := by
  rw [cut, if_neg (by decide), if_pos rfl]

theorem cut_block {body : List Char} (h : Unclosed (body ++ ['*'])) (rest : List Char) :
    cut '/' ('*' :: (body ++ '*' :: '/' :: rest)) =
      (.trivia ('/' :: '*' :: (body ++ ['*', '/'])), rest) := by
  rw [cut_slash, cutSlash, splitComment?_of_unclosed h]

theorem cut_line {body rest : List Char} (h : '\n' ∉ body)
    (hrest : ∀ c ∈ rest.head?, c = '\n') :
    cut '/' ('/' :: (body ++ rest)) = (.trivia ('/' :: '/' :: body), rest) := by
  have hbody : ∀ c ∈ body, decide (c ≠ '\n') = true := by
    intro c hc
    apply decide_eq_true
    rintro rfl
    exact h hc
  have hend : ∀ c ∈ rest.head?, decide (c ≠ '\n') = false := fun c hc =>
    decide_eq_false (not_not_intro (hrest c hc))
  have hrun := span_run hbody hend
  rw [cut_slash, cutSlash, hrun.1, hrun.2]

theorem fits_cutSlash (cs : List Char) : (cutSlash cs).1.Fits (cutSlash cs).2 := by
  fun_cases cutSlash cs with
  | case1 cs =>
    refine ⟨.line ?_, ?_⟩
    · intro c hc
      simpa using List.all_eq_true.1 List.all_takeWhile c hc
    · intro body _ c hc
      have hstop := List.head?_dropWhile_not (fun c => decide (c ≠ '\n')) cs
      rw [Option.mem_def.1 hc] at hstop
      simpa using hstop
  | case2 cs body rest h =>
    obtain ⟨inner, rfl, hinner⟩ := exists_body_of_splitComment? h
    exact ⟨.block hinner, fun body hbody => by simp at hbody⟩
  | case3 cs h => exact .comment (unclosed_of_splitComment? h)
  | case4 cs hline hblock =>
    refine fits_cutPunct (by decide) (by decide) (by decide) ?_
    intro _ d hd
    obtain ⟨more, rfl⟩ := List.head?_eq_some_iff.1 hd
    constructor
    · rintro rfl
      exact hline more rfl
    · rintro rfl
      exact hblock more rfl

/-- Cutting applies the rules by longest match. -/
theorem fits_cut (c : Char) (cs : List Char) : (cut c cs).1.Fits (cut c cs).2 := by
  fun_cases cut c cs with
  | case1 hblank =>
    refine ⟨.blank hblank, fun body hbody => by simp at hbody⟩
  | case2 => exact fits_cutSlash cs
  | case3 _ _ hdigit => exact fits_cutNumber hdigit cs
  | case4 _ _ _ hname => exact fits_cutWord hname cs
  | case5 hblank hslash hdigit hname =>
    exact fits_cutPunct (by simpa using hblank) (by simpa using hdigit) (by simpa using hname)
      fun h => absurd h hslash

/-! ### Only one piece fits -/

theorem Lexeme.spelling_eq {kind : TokenKind} {w : List Char} (h : Lexeme kind w) :
    kind.spelling.toList = w := by
  cases h with
  | keyword | punct => rfl
  | int | real | ident => exact String.toList_ofList

namespace LongestMatch

variable {kind kind' : TokenKind} {text text' rest rest' : List Char}

theorem valid (h : LongestMatch kind text rest) : kind.Valid := by
  cases h.lexeme with
  | keyword | punct => trivial
  | int hw =>
    change IsDigits (String.ofList text).toList
    rwa [String.toList_ofList]
  | real hw =>
    change IsReal (String.ofList text).toList
    rwa [String.toList_ofList]
  | ident hw =>
    refine ⟨by rwa [String.toList_ofList], ?_⟩
    -- a name that is a keyword would have been read as one
    cases hfound : Keyword.ofSpelling? (String.ofList text) with
    | none => rfl
    | some word =>
      have hspelling := Keyword.spelling_of_ofSpelling? hfound
      cases h.keyword word (by rw [hspelling, String.toList_ofList])

/-- There is one longest match in front of a text. -/
theorem unique (h : LongestMatch kind text rest) (h' : LongestMatch kind' text' rest')
    (heq : text ++ rest = text' ++ rest') : kind = kind' ∧ text = text' ∧ rest = rest' := by
  have hle : text.length ≤ text'.length :=
    h'.longest kind text h.lexeme (heq ▸ List.prefix_append text rest)
  have hge : text'.length ≤ text.length :=
    h.longest kind' text' h'.lexeme (heq ▸ List.prefix_append text' rest')
  obtain ⟨rfl, rfl⟩ := List.append_inj heq (Nat.le_antisymm hle hge)
  refine ⟨?_, rfl, rfl⟩
  -- a valid token is cut from its own spelling, and there is one way to cut
  obtain ⟨c, cs, htext, hcut⟩ := cut_spelling h.valid (divides_nil.endsBefore kind)
  obtain ⟨d, ds, htext', hcut'⟩ := cut_spelling h'.valid (divides_nil.endsBefore kind')
  rw [h.lexeme.spelling_eq] at htext
  rw [h'.lexeme.spelling_eq, htext] at htext'
  obtain ⟨rfl, rfl⟩ := List.cons.inj htext'
  rw [hcut] at hcut'
  cases hcut'
  rfl

end LongestMatch

theorem Piece.Fits.text_ne_nil {p : Piece} {rest : List Char} (h : p.Fits rest) : p.text ≠ [] := by
  cases p with
  | trivia text => cases h.1 <;> exact List.cons_ne_nil _ _
  | token kind text => exact h.lexeme.ne_nil
  | stray text => cases h <;> exact List.cons_ne_nil _ _

/-- Where a block comment starts, a character alone is not without a rule. -/
theorem not_unmatched_slash {rest : List Char}
    (h : ∀ kind w, Lexeme kind w → ¬ w <+: '/' :: rest) : False :=
  h (.punct .slash) ['/'] (.punct .slash) (List.prefix_append ['/'] rest)

theorem Unclosed.not_skipped {body w : List Char} (h : Unclosed body) (hw : Skipped w) :
    ¬ w <+: '/' :: '*' :: body := by
  intro hpre
  cases hw with
  | blank hc =>
    obtain ⟨rfl, -⟩ := List.cons_prefix_cons.1 hpre
    exact absurd hc (by decide)
  | line =>
    obtain ⟨-, hcs⟩ := List.cons_prefix_cons.1 hpre
    exact absurd (List.cons_prefix_cons.1 hcs).1 (by decide)
  | @block inner =>
    obtain ⟨-, hcs⟩ := List.cons_prefix_cons.1 hpre
    obtain ⟨-, hinner⟩ := List.cons_prefix_cons.1 hcs
    exact h ((List.suffix_append inner ['*', '/']).isInfix.trans hinner.isInfix)

/-- A piece that the rules allow in front of a text is the one that is cut. -/
theorem cut_of_fits {p : Piece} {c : Char} {cs rest : List Char} (h : p.Fits rest)
    (htext : p.text ++ rest = c :: cs) : cut c cs = (p, rest) := by
  have hcut := fits_cut c cs
  have happend := cut_append c cs
  cases p with
  | trivia text =>
    obtain ⟨hskipped, hline⟩ := h
    cases hskipped with
    | blank hc =>
      obtain ⟨rfl, rfl⟩ := List.cons.inj htext
      rw [cut, if_pos hc]
      rfl
    | @line body hbody =>
      obtain ⟨rfl, rfl⟩ := List.cons.inj htext
      exact cut_line (fun hmem => hbody _ hmem rfl) (hline body rfl)
    | @block body hbody =>
      obtain ⟨rfl, rfl⟩ := List.cons.inj htext
      have hblock := cut_block hbody rest
      simpa using hblock
  | token kind text =>
    change text ++ rest = c :: cs at htext
    cases hpiece : cut c cs with
    | mk piece after =>
      rw [hpiece] at hcut happend
      rw [← htext] at happend
      cases piece with
      | trivia skipped => exact absurd ⟨after, happend⟩ (h.unskipped skipped hcut.1)
      | token kind' text' =>
        obtain ⟨rfl, rfl, rfl⟩ := hcut.unique h happend
        rfl
      | stray part =>
        cases hcut with
        | char hno =>
          refine absurd ⟨rest, ?_⟩ (hno kind text h.lexeme)
          exact happend.symm
        | @comment body => exact absurd ⟨body ++ [], happend⟩ h.unopened
  | stray part =>
    change part ++ rest = c :: cs at htext
    cases hpiece : cut c cs with
    | mk piece after =>
      rw [hpiece] at hcut happend
      rw [← htext] at happend
      cases h with
      | @char d _ hno hskip =>
        cases piece with
        | trivia skipped => exact absurd ⟨after, happend⟩ (hskip skipped hcut.1)
        | token kind text => exact absurd ⟨after, happend⟩ (hno kind text hcut.lexeme)
        | stray part =>
          cases hcut with
          | char =>
            obtain ⟨rfl, rfl⟩ := List.cons.inj happend
            rfl
          | comment =>
            obtain ⟨rfl, -⟩ := List.cons.inj happend
            exact (not_unmatched_slash hno).elim
      | @comment body hopen =>
        rw [List.append_nil] at happend
        cases piece with
        | trivia skipped => exact absurd ⟨after, happend⟩ (hopen.not_skipped hcut.1)
        | token kind text =>
          refine absurd ⟨body, ?_⟩ hcut.unopened
          exact happend.symm
        | stray part =>
          cases hcut with
          | char hno =>
            obtain ⟨rfl, rfl⟩ := List.cons.inj happend
            exact (not_unmatched_slash hno).elim
          | comment =>
            rw [← happend, Piece.text, List.append_nil]

theorem pieces_of_fits {p : Piece} {rest : List Char} (h : p.Fits rest) :
    pieces (p.text ++ rest) = p :: pieces rest := by
  obtain ⟨c, cs, htext⟩ := List.exists_cons_of_ne_nil h.text_ne_nil
  have hcut : cut c (cs ++ rest) = (p, rest) := cut_of_fits h (by rw [htext, List.cons_append])
  rw [htext, List.cons_append, pieces, hcut]

end StaticCheck
