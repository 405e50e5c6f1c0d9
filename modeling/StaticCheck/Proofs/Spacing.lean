import StaticCheck.Proofs.LongestMatch

/-! # Tokens written apart

Tokens are written one after the other, with a gap between neighbours: a blank, and behind it blanks
and comments in any number.  Reading the text gives the tokens back (`tokenize_writtenApart`).

The blank at the front of a gap ends the token before it, whatever token that is (`divides_blank`,
`Divides.endsBefore`), and a gap ends where it was written to end, whatever follows it
(`Filler.lexes`): a block comment at its first `*/`, a line comment at its line end. -/

namespace StaticCheck

/-! ### Gaps -/

/-- Blanks, block comments and line comments with the line ends that close them. -/
inductive Filler : List Char → Prop
  | nil : Filler []
  | blank {c : Char} {filler : List Char} : isBlank c = true → Filler filler →
      Filler (c :: filler)
  | block {body filler : List Char} : Unclosed (body ++ ['*']) → Filler filler →
      Filler ('/' :: '*' :: (body ++ '*' :: '/' :: filler))
  | line {body filler : List Char} : '\n' ∉ body → Filler filler →
      Filler ('/' :: '/' :: (body ++ '\n' :: filler))

/-- The spellings of tokens in order, with a gap between neighbours that starts with a blank. -/
inductive WrittenApart : List TokenKind → List Char → Prop
  | nil : WrittenApart [] []
  | last (kind : TokenKind) : WrittenApart [kind] kind.spelling.toList
  | cons {kind next : TokenKind} {kinds : List TokenKind} {c : Char} {filler text : List Char} :
      isBlank c = true → Filler filler → WrittenApart (next :: kinds) text →
      WrittenApart (kind :: next :: kinds) (kind.spelling.toList ++ c :: (filler ++ text))

/-! ### Tokens end in front of a gap -/

theorem divides_blank {c : Char} (hc : isBlank c = true) (rest : List Char) :
    Divides (c :: rest) := by
  intro x hx
  cases hx
  have hcode := isBlank_iff.1 hc
  constructor
  · apply Bool.eq_false_iff.2
    rw [isNamePart, Ne, Bool.or_eq_true, isNameStart_iff, isDigit_iff]
    omega
  · intro hmem
    simp only [List.mem_cons, List.not_mem_nil, or_false] at hmem
    rcases hmem with rfl | rfl | rfl | rfl | rfl | rfl | rfl | rfl <;> exact absurd hc (by decide)

/-! ### Gaps end where they are written to end -/

/-- A gap swallows nothing of the text behind it. -/
theorem Filler.lexes {filler rest : List Char} {kinds : List TokenKind} (h : Filler filler)
    (hrest : Lexes rest kinds) : Lexes (filler ++ rest) kinds := by
  induction h with
  | nil => exact hrest
  | blank hc _ ih => exact ih.blank hc
  | @block body filler hbody _ ih =>
    have hcut := cut_block hbody (filler ++ rest)
    simpa using Lexes.trivia hcut ih
  | @line body filler hbody _ ih =>
    have hend : ∀ c ∈ ('\n' :: (filler ++ rest)).head?, c = '\n' := by
      rintro c ⟨⟩
      rfl
    have hcut := cut_line hbody hend
    simpa using Lexes.trivia hcut (ih.blank (by decide))

/-! ### Whole texts -/

theorem WrittenApart.lexes {kinds : List TokenKind} {text : List Char} (h : WrittenApart kinds text)
    (hvalid : ∀ kind ∈ kinds, kind.Valid) : Lexes text kinds := by
  induction h with
  | nil => exact .nil
  | last kind =>
    have hkind := hvalid kind List.mem_cons_self
    have hspelling := Lexes.spelling hkind (divides_nil.endsBefore kind) .nil
    rwa [List.append_nil] at hspelling
  | @cons kind next kinds c filler text hc hfiller _ ih =>
    obtain ⟨hkind, hkinds⟩ := List.forall_mem_cons.1 hvalid
    refine .spelling hkind ((divides_blank hc _).endsBefore kind) ?_
    exact (hfiller.lexes (ih hkinds)).blank hc

/-- Tokens that are written apart are read back. -/
theorem tokenize_writtenApart {kinds : List TokenKind} {source : String}
    (hvalid : ∀ kind ∈ kinds, kind.Valid) (h : WrittenApart kinds source.toList) :
    ∃ ts, tokenize source = .ok ts ∧ ts.map Token.kind = kinds ++ [.eof] := by
  obtain ⟨ts, hts, hkinds⟩ := (h.lexes hvalid).tokenize
  refine ⟨_, hts, ?_⟩
  rw [List.map_append, hkinds]
  rfl

/-- Slashes and stars beside comments of slashes and stars, and a real in front of a name that could
be its exponent. -/
theorem tokenize_writtenApart_comments :
    (∀ kind ∈ [.punct .slash, .punct .star, .real "1.5", .ident "e3"], TokenKind.Valid kind) ∧
    WrittenApart [.punct .slash, .punct .star, .real "1.5", .ident "e3"]
      "/ /*é/**/*\t// \"*/\n1.5\r/***/e3".toList ∧
    ∃ ts, tokenize "/ /*é/**/*\t// \"*/\n1.5\r/***/e3" = .ok ts ∧
      ts.map Token.kind = [.punct .slash, .punct .star, .real "1.5", .ident "e3", .eof] := by
  have hreal : (TokenKind.real "1.5").Valid := by
    have h1 : IsDigits ['1'] := isDigits_singleton rfl
    have h5 : IsDigits ['5'] := isDigits_singleton rfl
    exact .mk h1 h5 .none
  have hname : (TokenKind.ident "e3").Valid :=
    ⟨.mk rfl (List.forall_mem_singleton.2 rfl), by decide +kernel⟩
  have hvalid : ∀ kind ∈ [.punct .slash, .punct .star, .real "1.5", .ident "e3"],
      TokenKind.Valid kind := by
    simp only [List.forall_mem_cons]
    exact ⟨trivial, trivial, hreal, hname, List.forall_mem_nil _⟩
  have hopening : Unclosed (['é', '/', '*'] ++ ['*']) := by unfold Unclosed; decide
  have hstar : Unclosed (['*'] ++ ['*']) := by unfold Unclosed; decide
  have hquote : '\n' ∉ [' ', '"', '*', '/'] := by decide
  have hlast : WrittenApart [.ident "e3"] "e3".toList := .last _
  have hthird : WrittenApart [.real "1.5", .ident "e3"] "1.5\r/***/e3".toList :=
    @WrittenApart.cons _ _ _ '\r' _ _ rfl (.block hstar .nil) hlast
  have hsecond : WrittenApart [.punct .star, .real "1.5", .ident "e3"]
      "*\t// \"*/\n1.5\r/***/e3".toList :=
    @WrittenApart.cons _ _ _ '\t' _ _ rfl (.line hquote .nil) hthird
  have hwritten : WrittenApart [.punct .slash, .punct .star, .real "1.5", .ident "e3"]
      "/ /*é/**/*\t// \"*/\n1.5\r/***/e3".toList :=
    @WrittenApart.cons _ _ _ ' ' _ _ rfl (.block hopening .nil) hsecond
  exact ⟨hvalid, hwritten, tokenize_writtenApart hvalid hwritten⟩

end StaticCheck
