import StaticCheck.Proofs.Lexemes

/-! # Cutting a part of a text

Which piece is cut from the front of a text depends on the characters of the piece and on little
more: if what follows is replaced by something that cannot go on with the piece, the same piece is
cut (`recut`).  So a text that is cut into pieces without stray characters is cut into the same
pieces on its own, in front of a line end and in front of a mark such as a semicolon
(`pieces_recut`). -/

namespace StaticCheck

/-- The text does not start with a character that goes on with a piece in front of it. -/
def Divides (rest : List Char) : Prop :=
  ∀ x ∈ rest.head?, isNamePart x = false ∧ x ∉ ['.', '+', '-', '=', '&', '|', '/', '*']

theorem divides_nil : Divides [] := by
  intro x h
  cases h

theorem Divides.ends {rest : List Char} (h : Divides rest) : Ends rest := by
  intro x hx
  obtain ⟨hpart, hmark⟩ := h x hx
  refine ⟨hpart, ?_⟩
  rintro rfl
  exact hmark (by decide)

/-! ### Runs -/

section recutting

variable {cs rest rest' r : List Char}

/-- A run that ends before `rest` ends there whatever follows. -/
theorem span_recut {p : Char → Bool} (h : (cs ++ rest).dropWhile p = r ++ rest)
    (hrest : r = [] → ∀ x ∈ rest'.head?, p x = false) :
    (cs ++ rest').takeWhile p = (cs ++ rest).takeWhile p ∧
      (cs ++ rest').dropWhile p = r ++ rest' := by
  obtain ⟨run, hrun⟩ : ∃ run, (cs ++ rest).takeWhile p = run := ⟨_, rfl⟩
  have hcs : cs = run ++ r := by
    have hall := List.takeWhile_append_dropWhile (p := p) (l := cs ++ rest)
    rw [hrun, h, ← List.append_assoc] at hall
    exact (List.append_cancel_right hall).symm
  have hpos : ∀ c ∈ run, p c = true := by
    rw [← hrun]
    exact List.all_eq_true.1 List.all_takeWhile
  have hstop : ∀ c ∈ (r ++ rest').head?, p c = false := by
    cases r with
    | nil => exact hrest rfl
    | cons d r =>
      intro c hc
      cases hc
      have hhead := List.head?_dropWhile_not p (cs ++ rest)
      rw [h] at hhead
      simpa using hhead
  rw [hrun, hcs, List.append_assoc]
  exact span_run hpos hstop

theorem takeWhile_eq_nil_recut {p : Char → Bool} (h : (cs ++ rest).takeWhile p = [])
    (hrest : ∀ x ∈ rest'.head?, p x = false) : (cs ++ rest').takeWhile p = [] := by
  have hdrop : (cs ++ rest).dropWhile p = cs ++ rest := by
    have hall := List.takeWhile_append_dropWhile (p := p) (l := cs ++ rest)
    rwa [h, List.nil_append] at hall
  rw [(span_recut hdrop fun _ => hrest).1, h]

/-! ### Numbers -/

theorem splitSign_of_divides (h : Divides rest) : splitSign rest = ([], rest) := by
  unfold splitSign
  split
  · exact absurd (by decide) (h '+' rfl).2
  · exact absurd (by decide) (h '-' rfl).2
  · rfl

theorem splitSign_cons_append (c : Char) (cs rest : List Char) : splitSign (c :: cs ++ rest) =
    ((splitSign (c :: cs)).1, (splitSign (c :: cs)).2 ++ rest) := by
  by_cases hplus : c = '+'
  · subst hplus
    rfl
  by_cases hminus : c = '-'
  · subst hminus
    rfl
  have hnone : ∀ more, splitSign (c :: more) = ([], c :: more) := by
    intro more
    unfold splitSign
    split
    · rename_i heq
      exact absurd (List.cons.inj heq).1 hplus
    · rename_i heq
      exact absurd (List.cons.inj heq).1 hminus
    · rfl
  rw [List.cons_append, hnone, hnone]
  rfl

theorem splitExponent_of_ends (h : Ends rest) : splitExponent rest = ([], rest) :=
  splitExponent_of_isExponent .none h

theorem splitExponent_recut {taken : List Char}
    (h : splitExponent (cs ++ rest) = (taken, r ++ rest)) (hrest : Divides rest') :
    splitExponent (cs ++ rest') = (taken, r ++ rest') := by
  have hall : taken ++ r = cs := by
    have happend := splitExponent_append (cs ++ rest)
    rw [h, ← List.append_assoc] at happend
    exact List.append_cancel_right happend
  cases cs with
  | nil =>
    obtain ⟨rfl, rfl⟩ := List.append_eq_nil_iff.1 hall
    exact splitExponent_of_ends hrest.ends
  | cons e cs =>
    rw [List.cons_append, splitExponent] at h ⊢
    by_cases he : e = 'e' ∨ e = 'E'
    case neg =>
      rw [if_neg he] at h ⊢
      obtain ⟨rfl, -⟩ := Prod.mk.inj h
      rw [List.nil_append] at hall
      rw [hall, List.cons_append]
    rw [if_pos he] at h ⊢
    cases cs with
    | nil =>
      -- no digit can be taken, since only the letter stands before `rest`
      have htaken : taken = [] := by
        dsimp only at h
        split at h
        · exact (Prod.mk.inj h).1.symm
        · obtain ⟨rfl, -⟩ := Prod.mk.inj h
          have hlength := congrArg List.length hall
          simp at hlength
      subst htaken
      rw [List.nil_append] at hall
      have hdigits : rest'.takeWhile isDigit = [] := by
        cases rest' with
        | nil => rfl
        | cons x more =>
          have hx : isDigit x = false := hrest.ends.not_digit x rfl
          simp [hx]
      rw [List.nil_append, splitSign_of_divides hrest]
      dsimp only
      rw [hdigits, hall]
      rfl
    | cons s cs =>
      rw [splitSign_cons_append] at h ⊢
      dsimp only at h ⊢
      generalize splitSign (s :: cs) = signed at h ⊢
      cases hrun : (signed.2 ++ rest).takeWhile isDigit with
      | nil =>
        rw [hrun] at h
        obtain ⟨rfl, -⟩ := Prod.mk.inj h
        rw [takeWhile_eq_nil_recut hrun hrest.ends.not_digit]
        rw [List.nil_append] at hall
        rw [hall]
        rfl
      | cons d ds =>
        rw [hrun] at h
        obtain ⟨rfl, hdrop⟩ := Prod.mk.inj h
        obtain ⟨htake', hdrop'⟩ := span_recut hdrop fun _ => hrest.ends.not_digit
        rw [htake', hdrop', hrun]

theorem splitFraction_recut {taken : List Char}
    (h : splitFraction (cs ++ rest) = (taken, r ++ rest)) (hrest : Divides rest') :
    splitFraction (cs ++ rest') = (taken, r ++ rest') := by
  have hall : taken ++ r = cs := by
    have happend := splitFraction_append (cs ++ rest)
    rw [h, ← List.append_assoc] at happend
    exact List.append_cancel_right happend
  cases cs with
  | nil =>
    obtain ⟨rfl, rfl⟩ := List.append_eq_nil_iff.1 hall
    exact splitFraction_of_ends hrest.ends
  | cons c cs =>
    by_cases hpoint : c = '.'
    case neg =>
      have hnone : ∀ more, splitFraction (c :: more) = ([], c :: more) := by
        intro more
        unfold splitFraction
        split
        · rename_i heq
          exact absurd (List.cons.inj heq).1 hpoint
        · rfl
      rw [List.cons_append, hnone] at h
      obtain ⟨rfl, -⟩ := Prod.mk.inj h
      rw [List.nil_append] at hall
      rw [List.cons_append, hnone, hall, List.cons_append]
    subst hpoint
    rw [List.cons_append, splitFraction] at h ⊢
    cases hrun : (cs ++ rest).takeWhile isDigit with
    | nil =>
      rw [hrun] at h
      obtain ⟨rfl, -⟩ := Prod.mk.inj h
      rw [takeWhile_eq_nil_recut hrun hrest.ends.not_digit]
      rw [List.nil_append] at hall
      rw [hall]
      rfl
    | cons d ds =>
      rw [hrun] at h
      obtain ⟨⟨exponent, after⟩, hsplit⟩ : ∃ split,
          splitExponent ((cs ++ rest).dropWhile isDigit) = split := ⟨_, rfl⟩
      rw [hsplit] at h
      obtain ⟨rfl, rfl⟩ := Prod.mk.inj h
      -- the exponent stands in front of `rest`, and so do the digits
      have htail : (cs ++ rest).dropWhile isDigit = (exponent ++ r) ++ rest := by
        have happend := splitExponent_append ((cs ++ rest).dropWhile isDigit)
        rw [hsplit, ← List.append_assoc] at happend
        exact happend.symm
      obtain ⟨htake', hdrop'⟩ := span_recut htail fun _ => hrest.ends.not_digit
      rw [htail] at hsplit
      rw [htake', hdrop', hrun, splitExponent_recut hsplit hrest]

theorem cutNumber_recut {c : Char} {p : Piece} (h : cutNumber c (cs ++ rest) = (p, r ++ rest))
    (hrest : Divides rest') : cutNumber c (cs ++ rest') = (p, r ++ rest') := by
  obtain ⟨⟨fraction, after⟩, hsplit⟩ : ∃ split,
      splitFraction ((cs ++ rest).dropWhile isDigit) = split := ⟨_, rfl⟩
  unfold cutNumber at h ⊢
  have hafter : after = r ++ rest := by
    rw [hsplit] at h
    cases fraction with
    | nil => exact (Prod.mk.inj h).2
    | cons d ds => exact (Prod.mk.inj h).2
  subst hafter
  have htail : (cs ++ rest).dropWhile isDigit = (fraction ++ r) ++ rest := by
    have happend := splitFraction_append ((cs ++ rest).dropWhile isDigit)
    rw [hsplit, ← List.append_assoc] at happend
    exact happend.symm
  obtain ⟨htake', hdrop'⟩ := span_recut htail fun _ => hrest.ends.not_digit
  rw [hsplit] at h
  rw [htail] at hsplit
  rw [htake', hdrop', splitFraction_recut hsplit hrest]
  cases fraction with
  | nil =>
    obtain ⟨rfl, -⟩ := Prod.mk.inj h
    rfl
  | cons d ds =>
    obtain ⟨rfl, -⟩ := Prod.mk.inj h
    rfl

/-! ### Words and marks -/

theorem cutWord_recut {c : Char} {p : Piece} (h : cutWord c (cs ++ rest) = (p, r ++ rest))
    (hrest : Divides rest') : cutWord c (cs ++ rest') = (p, r ++ rest') := by
  obtain ⟨rfl, hdrop⟩ := Prod.mk.inj h
  obtain ⟨htake', hdrop'⟩ := span_recut hdrop fun _ x hx => (hrest x hx).1
  rw [cutWord, htake', hdrop']

theorem pair?_of_divides {c x : Char} (h : Divides (x :: rest)) : Punct.pair? c x = none := by
  have hx := (h x rfl).2
  unfold Punct.pair?
  split
  · exact absurd (by decide) hx
  · exact absurd (by decide) hx
  · exact absurd (by decide) hx
  · exact absurd (by decide) hx
  · exact absurd (by decide) hx
  · exact absurd (by decide) hx
  · rfl

/-- What goes on with no piece goes on with no token. -/
theorem Divides.endsBefore {rest : List Char} (h : Divides rest) (kind : TokenKind) :
    kind.EndsBefore rest := by
  cases kind with
  | punct mark =>
    intro c d _ hd
    obtain ⟨more, rfl⟩ := List.head?_eq_some_iff.1 hd
    refine ⟨pair?_of_divides h, fun _ => ?_⟩
    have hmark := (h d rfl).2
    constructor
    · rintro rfl
      exact hmark (by decide)
    · rintro rfl
      exact hmark (by decide)
  | _ => exact h.ends

theorem cutPunct_recut {c : Char} {p : Piece} (h : cutPunct c (cs ++ rest) = (p, r ++ rest))
    (hrest : Divides rest') : cutPunct c (cs ++ rest') = (p, r ++ rest') := by
  have hall : p.text ++ r = c :: cs := by
    have happend := cutPunct_append c (cs ++ rest)
    rw [h, ← List.append_assoc, ← List.cons_append] at happend
    exact List.append_cancel_right happend
  have hsingle : ∀ more, cutSingle c more = ((cutSingle c []).1, more) := by
    intro more
    unfold cutSingle
    cases Punct.single? c <;> rfl
  cases cs with
  | nil =>
    have hcut : cutPunct c rest = ((cutSingle c []).1, rest) := by
      fun_cases cutPunct c rest with
      | case1 => exact hsingle []
      | case2 d more mark hpair =>
        -- a mark of two characters reaches into `rest`
        rw [List.nil_append, cutPunct, hpair] at h
        obtain ⟨rfl, -⟩ := Prod.mk.inj h
        simp [Piece.text] at hall
      | case3 d more => exact hsingle (d :: more)
    rw [List.nil_append, hcut] at h
    obtain ⟨rfl, hr⟩ := Prod.mk.inj h
    obtain rfl : r = [] := List.append_left_eq_self.1 hr.symm
    cases rest' with
    | nil => exact hsingle []
    | cons x more =>
      rw [List.nil_append, cutPunct, pair?_of_divides hrest]
      exact hsingle (x :: more)
  | cons d cs =>
    rw [List.cons_append, cutPunct] at h ⊢
    cases hpair : Punct.pair? c d with
    | none =>
      simp only [hpair] at h ⊢
      rw [hsingle] at h ⊢
      obtain ⟨rfl, hr⟩ := Prod.mk.inj h
      obtain rfl : d :: cs = r := List.append_cancel_right (List.cons_append ▸ hr)
      rfl
    | some mark =>
      simp only [hpair] at h ⊢
      obtain ⟨rfl, hr⟩ := Prod.mk.inj h
      obtain rfl : cs = r := List.append_cancel_right hr
      rfl

/-! ### Comments -/

theorem splitComment?_cons {c : Char} {more : List Char}
    (h : ∀ after, c = '*' → more = '/' :: after → False) :
    splitComment? (c :: more) =
      (splitComment? more).map fun (body, after) => (c :: body, after) := by
  rw [splitComment?]
  exact h

theorem splitComment?_length {text body : List Char} (h : splitComment? text = some (body, r)) :
    2 ≤ body.length := by
  fun_induction splitComment? text generalizing body r with
  | case1 => cases h
  | case2 more =>
    cases h
    exact Nat.le_refl 2
  | case3 c more hopen ih =>
    obtain ⟨⟨inner, after⟩, hinner, heq⟩ := Option.map_eq_some_iff.1 h
    cases heq
    exact Nat.le_succ_of_le (ih hinner)

/-- Where a comment ends depends on nothing behind it. -/
theorem splitComment?_recut {body : List Char}
    (h : splitComment? (body ++ rest) = some (body, rest)) :
    splitComment? (body ++ rest') = some (body, rest') := by
  have hlength := splitComment?_length h
  induction body with
  | nil => simp at hlength
  | cons c body ih =>
    cases body with
    | nil => simp at hlength
    | cons d body =>
      by_cases hopen : c = '*' ∧ d = '/'
      · obtain ⟨rfl, rfl⟩ := hopen
        simp only [List.cons_append, splitComment?, Option.some.injEq, Prod.mk.injEq,
          List.cons.injEq, true_and] at h ⊢
        exact ⟨h.1, by rw [← h.1]; rfl⟩
      · have hcons : ∀ more after, c = '*' → d :: more = '/' :: after → False := by
          intro more after hc hd
          exact hopen ⟨hc, (List.cons.inj hd).1⟩
        rw [List.cons_append, List.cons_append, splitComment?_cons (hcons _)] at h ⊢
        obtain ⟨⟨inner, after⟩, hinner, heq⟩ := Option.map_eq_some_iff.1 h
        cases heq
        rw [← List.cons_append, ih hinner (splitComment?_length hinner)]
        rfl

/-- Without a further slash or star a slash is a mark. -/
theorem cutSlash_of_ne {more : List Char} (h : ∀ d ∈ more.head?, d ≠ '/' ∧ d ≠ '*') :
    cutSlash more = cutPunct '/' more := by
  unfold cutSlash
  split
  · exact absurd rfl (h '/' rfl).1
  · exact absurd rfl (h '*' rfl).2
  · rfl

/-- A slash alone in front of `rest` is a mark, since no comment starts with it. -/
theorem cutSlash_recut_nil {p : Piece} (h : cutSlash rest = (p, r ++ rest))
    (hproper : ∀ text, p ≠ .stray text) (hrest : Divides rest') :
    cutSlash rest' = (p, r ++ rest') := by
  have hall : p.text ++ r = ['/'] := by
    have happend := cutSlash_append rest
    rw [h, ← List.append_assoc, ← List.singleton_append] at happend
    exact List.append_cancel_right happend
  have hmore : ∀ d ∈ rest.head?, d ≠ '/' ∧ d ≠ '*' := by
    intro d hd
    obtain ⟨more, rfl⟩ := List.head?_eq_some_iff.1 hd
    constructor
    · rintro rfl
      obtain ⟨rfl, -⟩ := Prod.mk.inj h
      simp [Piece.text] at hall
    · rintro rfl
      rw [cutSlash] at h
      cases hsplit : splitComment? more with
      | none =>
        rw [hsplit] at h
        exact absurd (Prod.mk.inj h).1.symm (hproper _)
      | some split =>
        rw [hsplit] at h
        obtain ⟨rfl, -⟩ := Prod.mk.inj h
        simp [Piece.text] at hall
  have hmore' : ∀ d ∈ rest'.head?, d ≠ '/' ∧ d ≠ '*' := by
    intro d hd
    have hd' := (hrest d hd).2
    constructor
    · rintro rfl
      exact hd' (by decide)
    · rintro rfl
      exact hd' (by decide)
  rw [cutSlash_of_ne hmore, ← List.nil_append rest] at h
  rw [cutSlash_of_ne hmore']
  exact cutPunct_recut h hrest

theorem cutSlash_recut {p : Piece} (h : cutSlash (cs ++ rest) = (p, r ++ rest))
    (hproper : ∀ text, p ≠ .stray text) (hrest : Divides rest')
    (hline : r = [] → (∃ text, p = .trivia text) → ∀ x ∈ rest'.head?, x = '\n') :
    cutSlash (cs ++ rest') = (p, r ++ rest') := by
  cases cs with
  | nil => exact cutSlash_recut_nil h hproper hrest
  | cons d cs =>
    by_cases hslash : d = '/'
    · subst hslash
      rw [List.cons_append, cutSlash] at h ⊢
      obtain ⟨rfl, hdrop⟩ := Prod.mk.inj h
      have hstop : r = [] → ∀ x ∈ rest'.head?, decide (x ≠ '\n') = false := by
        intro hr x hx
        simpa using hline hr ⟨_, rfl⟩ x hx
      obtain ⟨htake', hdrop'⟩ := span_recut hdrop hstop
      rw [htake', hdrop']
    by_cases hstar : d = '*'
    · subst hstar
      rw [List.cons_append, cutSlash] at h ⊢
      cases hsplit : splitComment? (cs ++ rest) with
      | none =>
        rw [hsplit] at h
        exact absurd (Prod.mk.inj h).1.symm (hproper _)
      | some split =>
        obtain ⟨body, after⟩ := split
        rw [hsplit] at h
        obtain ⟨rfl, rfl⟩ := Prod.mk.inj h
        have hcs : body ++ r = cs := by
          have happend := splitComment?_append hsplit
          rw [← List.append_assoc] at happend
          exact List.append_cancel_right happend
        rw [← hcs, List.append_assoc] at hsplit
        rw [← hcs, List.append_assoc, splitComment?_recut hsplit]
    · have hne : ∀ more, ∀ e ∈ (d :: more).head?, e ≠ '/' ∧ e ≠ '*' := by
        intro more e he
        cases he
        exact ⟨hslash, hstar⟩
      rw [List.cons_append, cutSlash_of_ne (hne _), ← List.cons_append] at h ⊢
      exact cutPunct_recut h hrest

/-- **Cutting is local.**  If a piece is cut in front of `rest`, the same piece is cut in front of
anything that does not go on with it.  What goes on with a comment that ends right there is all but
the end of the line. -/
theorem recut {c : Char} {p : Piece} (h : cut c (cs ++ rest) = (p, r ++ rest))
    (hproper : ∀ text, p ≠ .stray text) (hrest : Divides rest')
    (hline : r = [] → (∃ text, p = .trivia text) → ∀ x ∈ rest'.head?, x = '\n') :
    cut c (cs ++ rest') = (p, r ++ rest') := by
  unfold cut at h ⊢
  split
  case isTrue hblank =>
    rw [if_pos hblank] at h
    obtain ⟨rfl, hr⟩ := Prod.mk.inj h
    rw [List.append_cancel_right hr]
  case isFalse hblank =>
    rw [if_neg hblank] at h
    split
    case isTrue hslash =>
      rw [if_pos hslash] at h
      exact cutSlash_recut h hproper hrest hline
    case isFalse hslash =>
      rw [if_neg hslash] at h
      split
      case isTrue hdigit =>
        rw [if_pos hdigit] at h
        exact cutNumber_recut h hrest
      case isFalse hdigit =>
        rw [if_neg hdigit] at h
        split
        case isTrue hname =>
          rw [if_pos hname] at h
          exact cutWord_recut h hrest
        case isFalse hname =>
          rw [if_neg hname] at h
          exact cutPunct_recut h hrest

end recutting

/-! ### All pieces -/

section pieces

variable {text rest rest' : List Char} {ps ps₁ ps₂ : List Piece}

/-- The first piece of a text apart from the others. -/
theorem pieces_eq_cons_iff {p : Piece} : pieces text = p :: ps ↔
    ∃ c cs, text = c :: cs ∧ cut c cs = (p, ps.flatMap Piece.text) ∧
      pieces (ps.flatMap Piece.text) = ps := by
  constructor
  · intro h
    cases text with
    | nil =>
      rw [pieces] at h
      cases h
    | cons c cs =>
      rw [pieces] at h
      obtain ⟨hp, hps⟩ := List.cons.inj h
      have hrest : ps.flatMap Piece.text = (cut c cs).2 := by
        rw [← hps, flatMap_text_pieces]
      refine ⟨c, cs, rfl, ?_, ?_⟩
      · rw [hrest, ← hp]
      · rw [hrest, hps]
  · rintro ⟨c, cs, rfl, hcut, hps⟩
    rw [pieces, hcut, hps]

theorem text_ne_nil_of_pieces {p : Piece} (h : pieces text = p :: ps) : p.text ≠ [] := by
  obtain ⟨c, cs, -, hcut, -⟩ := pieces_eq_cons_iff.1 h
  have hne := cut_text_ne_nil c cs
  rwa [hcut] at hne

/-- The last pieces of a text are the pieces of their own text. -/
theorem pieces_of_suffix (h : pieces text = ps₁ ++ ps₂) :
    pieces (ps₂.flatMap Piece.text) = ps₂ := by
  induction ps₁ generalizing text with
  | nil =>
    rw [List.nil_append] at h
    rw [← h, flatMap_text_pieces]
  | cons p ps₁ ih =>
    obtain ⟨c, cs, -, -, hrest⟩ := pieces_eq_cons_iff.1 h
    exact ih hrest

/-- The first pieces of a text are cut in front of anything that does not go on with them. -/
theorem pieces_recut (h : pieces (ps₁.flatMap Piece.text ++ rest) = ps₁ ++ ps₂)
    (hproper : ∀ p ∈ ps₁, ∀ text, p ≠ .stray text) (hrest : Divides rest')
    (hline : ∀ text, ps₁.getLast? = some (.trivia text) → ∀ x ∈ rest'.head?, x = '\n') :
    pieces (ps₁.flatMap Piece.text ++ rest') = ps₁ ++ pieces rest' := by
  induction ps₁ with
  | nil => rfl
  | cons p ps₁ ih =>
    rw [List.cons_append] at h
    obtain ⟨d, ds, htext⟩ := List.exists_cons_of_ne_nil (text_ne_nil_of_pieces h)
    obtain ⟨c, cs, heq, hcut, hps⟩ := pieces_eq_cons_iff.1 h
    rw [List.flatMap_cons, htext, List.append_assoc, List.cons_append] at heq ⊢
    obtain ⟨rfl, rfl⟩ := List.cons.inj heq
    have hall : (ps₁ ++ ps₂).flatMap Piece.text = ps₁.flatMap Piece.text ++ rest := by
      have happend := cut_append d (ds ++ (ps₁.flatMap Piece.text ++ rest))
      rw [hcut, htext, List.cons_append] at happend
      exact List.append_cancel_left (List.cons.inj happend).2
    rw [hall] at hps hcut
    rw [← List.append_assoc] at hcut
    have hlast : ps₁.flatMap Piece.text = [] → (∃ text, p = .trivia text) →
        ∀ x ∈ rest'.head?, x = '\n' := by
      rintro hnil ⟨text, rfl⟩
      refine hline text ?_
      have hps₁ : ps₁ = [] := by
        cases ps₁ with
        | nil => rfl
        | cons q ps₁ => exact absurd (List.append_eq_nil_iff.1 hnil).1 (text_ne_nil_of_pieces hps)
      rw [hps₁]
      rfl
    have hrecut := recut hcut (hproper p List.mem_cons_self) hrest hlast
    rw [List.append_assoc] at hrecut
    have hmore := ih hps (fun q hq => hproper q (List.mem_cons_of_mem p hq)) fun text hlast =>
      hline text (by rw [List.getLast?_cons, hlast]; rfl)
    rw [pieces, hrecut, hmore]
    rfl

end pieces

/-! ### Spellings -/

/-- A token is written the way its kind is spelled. -/
def Piece.Spelled : Piece → Prop
  | .token kind text => kind.spelling.toList = text
  | _ => True

theorem Punct.spelling_single {c : Char} {mark : Punct} (h : Punct.single? c = some mark) :
    mark.spelling.toList = [c] := by
  unfold Punct.single? at h
  split at h <;> cases h <;> rfl

theorem Punct.spelling_pair {c d : Char} {mark : Punct} (h : Punct.pair? c d = some mark) :
    mark.spelling.toList = [c, d] := by
  unfold Punct.pair? at h
  split at h <;> cases h <;> rfl

theorem spelled_cutPunct (c : Char) (cs : List Char) : (cutPunct c cs).1.Spelled := by
  have hsingle : ∀ rest, (cutSingle c rest).1.Spelled := by
    intro rest
    unfold cutSingle
    split
    · rename_i hmark
      exact Punct.spelling_single hmark
    · exact trivial
  fun_cases cutPunct c cs with
  | case1 => exact hsingle []
  | case2 d cs mark hmark => exact Punct.spelling_pair hmark
  | case3 d cs => exact hsingle (d :: cs)

theorem spelled_cutNumber (c : Char) (cs : List Char) : (cutNumber c cs).1.Spelled := by
  unfold cutNumber
  split
  · exact String.toList_ofList
  · exact String.toList_ofList

theorem spelled_cutWord (c : Char) (cs : List Char) : (cutWord c cs).1.Spelled := by
  change (wordKind _).spelling.toList = _
  unfold wordKind
  split
  · rename_i word hword
    change word.spelling.toList = _
    rw [Keyword.spelling_of_ofSpelling? hword, String.toList_ofList]
  · exact String.toList_ofList

theorem spelled_cut (c : Char) (cs : List Char) : (cut c cs).1.Spelled := by
  fun_cases cut c cs with
  | case1 => exact trivial
  | case2 =>
    fun_cases cutSlash cs with
    | case1 => exact trivial
    | case2 => exact trivial
    | case3 => exact trivial
    | case4 cs => exact spelled_cutPunct '/' cs
  | case3 => exact spelled_cutNumber c cs
  | case4 => exact spelled_cutWord c cs
  | case5 => exact spelled_cutPunct c cs

end StaticCheck
