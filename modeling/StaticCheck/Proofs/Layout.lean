import Mathlib.Data.List.GetD
import Mathlib.Order.MinMax
import StaticCheck.Check
import StaticCheck.Proofs.Acceptance
import StaticCheck.Proofs.Parallel
import StaticCheck.Proofs.Relocation

/-! # Layout does not matter

Two texts with the same kinds of tokens have the same outcome, whatever blanks and comments stand
between the tokens: the same metrics, or the same failure at corresponding tokens
(`check_of_same_kinds`).

A text that cannot be read is compared with the other one token by token (`Pairing.program_cases`).
For a text that can be read, places are counted in tokens first: the tree read from the bare
sequence of kinds, token `i` of which has the span from `i` to `i + 1`, is the tree of both texts
except for the places, and each text has a monotone map that takes places counted in tokens to
places counted in bytes (`placed`). -/

namespace StaticCheck

open Grammar

/-! ### Tokens stand in order -/

namespace Token

/-- The first token neither starts nor ends behind the second one. -/
def Precedes (t u : Token) : Prop := t.span.start ≤ u.span.start ∧ t.span.stop ≤ u.span.stop

end Token

theorem Piece.span_of_item? {piece : Piece} {offset : Nat} {t : Token}
    (h : piece.item? offset = some (.ok t)) : t.span = piece.spanAt offset := by
  cases piece with
  | token kind text =>
    cases h
    rfl
  | trivia text => cases h
  | stray text => cases h

/-- The tokens of consecutive pieces stand in order between the ends of the pieces. -/
theorem ordered_of_locate {offset : Nat} {ps : List Piece} {ts : List Token}
    (h : locate offset ps = ts.map .ok) :
    ts.Pairwise Token.Precedes ∧ ∀ t ∈ ts, offset ≤ t.span.start ∧ t.span.start ≤ t.span.stop ∧
      t.span.stop ≤ offset + byteLength (ps.flatMap Piece.text) := by
  induction ps generalizing offset ts with
  | nil =>
    obtain rfl := List.map_eq_nil_iff.1 h.symm
    simp
  | cons piece rest ih =>
    rw [List.flatMap_cons, byteLength_append]
    rw [locate] at h
    cases hitem : piece.item? offset with
    | none =>
      simp only [hitem] at h
      obtain ⟨hpair, hwithin⟩ := ih h
      refine ⟨hpair, fun t ht => ?_⟩
      have hbounds := hwithin t ht
      omega
    | some item =>
      simp only [hitem] at h
      obtain ⟨t, us, rfl, rfl, hlater⟩ := List.map_eq_cons_iff.1 h.symm
      obtain ⟨hpair, hwithin⟩ := ih hlater.symm
      have hspan : t.span = ⟨offset, offset + byteLength piece.text⟩ := Piece.span_of_item? hitem
      constructor
      · refine List.pairwise_cons.2 ⟨fun u hu => ?_, hpair⟩
        have hbounds := hwithin u hu
        unfold Token.Precedes
        rw [hspan]
        dsimp only
        omega
      · intro u hu
        rcases List.mem_cons.1 hu with rfl | hu
        · rw [hspan]
          dsimp only
          omega
        · have hbounds := hwithin u hu
          omega

/-- The tokens of a text stand in order, the end token last. -/
theorem ordered_of_tokenize {source : String} {ts : List Token}
    (h : tokenize source = .ok ts) : ts.Pairwise Token.Precedes := by
  obtain ⟨us, hitems, rfl⟩ := tokenize_eq_ok_iff.1 h
  obtain ⟨hpair, hwithin⟩ := ordered_of_locate hitems
  refine List.pairwise_append.2 ⟨hpair, List.pairwise_singleton _ _, fun t ht u hu => ?_⟩
  obtain rfl := List.mem_singleton.1 hu
  have hbounds := hwithin t ht
  rw [flatMap_text_pieces] at hbounds
  change t.span.start ≤ byteLength source.toList ∧ t.span.stop ≤ byteLength source.toList
  omega

/-! ### Places counted in tokens -/

theorem cover_of_ne_nil {ts : List Token} (h : ts ≠ []) :
    Alphabet.cover ts =
      ⟨(ts.head h).span.start, max (ts.getLast h).span.stop (ts.head h).span.stop⟩ := by
  obtain ⟨t, ts, rfl⟩ := List.exists_cons_of_ne_nil h
  rfl

section places

variable (us : List Token) (stop : Token)

/-- The place in bytes of a place that is counted in tokens.  Behind the tokens `us` of a text there
is only its end. -/
def placed (s : Span) : Span :=
  ⟨(us.getD s.start stop).span.start, (us.getD (s.stop - 1) stop).span.stop⟩

/-- The kinds of the tokens, with places counted in tokens from `i` on. -/
def counted (i : Nat) : List Token → List Token
  | [] => []
  | t :: ts => ⟨t.kind, ⟨i, i + 1⟩⟩ :: counted (i + 1) ts

theorem counted_congr {ts vs : List Token} (h : ts.map Token.kind = vs.map Token.kind) (i : Nat) :
    counted i ts = counted i vs := by
  induction ts generalizing vs i with
  | nil =>
    obtain rfl := List.map_eq_nil_iff.1 h.symm
    rfl
  | cons t ts ih =>
    obtain ⟨v, vs, rfl, hkind, hrest⟩ := List.map_eq_cons_iff.1 h.symm
    rw [counted, counted, hkind, ih hrest.symm]

/-- Each token stands at the place of its number. -/
theorem map_counted (before ts : List Token) :
    (counted before.length ts).map
      (fun t => (⟨t.kind, placed (before ++ ts) stop t.span⟩ : Token)) = ts := by
  induction ts generalizing before with
  | nil => rfl
  | cons t ts ih =>
    have hrest := ih (before ++ [t])
    rw [List.length_append, List.length_singleton, List.append_assoc,
      List.singleton_append] at hrest
    rw [counted, List.map_cons, hrest]
    simp [placed]

variable {us stop}

/-- Later numbers belong to later tokens. -/
theorem precedes_getD (h : (us ++ [stop]).Pairwise Token.Precedes) {i j : Nat} (hij : i ≤ j) :
    (us.getD i stop).Precedes (us.getD j stop) := by
  have hrefl : ∀ t : Token, t.Precedes t := fun t => ⟨le_rfl, le_rfl⟩
  obtain ⟨hpair, -, hstop⟩ := List.pairwise_append.1 h
  rcases hij.eq_or_lt with rfl | hlt
  · exact hrefl _
  by_cases hj : j < us.length
  · rw [List.getD_eq_getElem _ _ (hlt.trans hj), List.getD_eq_getElem _ _ hj]
    exact List.pairwise_iff_getElem.1 hpair i j (hlt.trans hj) hj hlt
  rw [List.getD_eq_default us stop (Nat.le_of_not_lt hj)]
  by_cases hi : i < us.length
  · rw [List.getD_eq_getElem _ _ hi]
    exact hstop _ (List.getElem_mem hi) stop (List.mem_singleton_self stop)
  · rw [List.getD_eq_default us stop (Nat.le_of_not_lt hi)]
    exact hrefl stop

theorem monotone_start (h : (us ++ [stop]).Pairwise Token.Precedes) :
    Monotone fun i => (us.getD i stop).span.start :=
  fun _ _ hij => (precedes_getD h hij).1

theorem monotone_stop (h : (us ++ [stop]).Pairwise Token.Precedes) :
    Monotone fun i => (us.getD (i - 1) stop).span.stop :=
  fun _ _ hij => (precedes_getD h (Nat.sub_le_sub_right hij 1)).2

theorem relocates_placed (h : (us ++ [stop]).Pairwise Token.Precedes) :
    Relocates (placed us stop) := by
  intro a b
  have hstart := (monotone_start h).map_min (a := a.start) (b := b.start)
  have hstop := (monotone_stop h).map_max (a := a.stop) (b := b.stop)
  unfold placed Span.merge
  rw [Span.mk.injEq]
  exact ⟨hstart, hstop⟩

theorem translation_placed (h : (us ++ [stop]).Pairwise Token.Precedes) :
    Translation .tokens .tokens (fun t => (⟨t.kind, placed us stop t.span⟩ : Token))
      (placed us stop) := by
  refine ⟨fun _ => rfl, fun ts hts => ?_⟩
  have hmap : ts.map (fun t => (⟨t.kind, placed us stop t.span⟩ : Token)) ≠ [] := by simpa using hts
  have hlast := (monotone_stop h).map_max
    (a := (ts.getLast hts).span.stop) (b := (ts.head hts).span.stop)
  rw [Alphabet.span_tokens, Alphabet.span_tokens, cover_of_ne_nil hmap, cover_of_ne_nil hts,
    List.head_map, List.getLast_map]
  unfold placed
  rw [Span.mk.injEq]
  exact ⟨rfl, hlast.symm⟩

/-- What some tokens derive is derived from their kinds first and placed afterwards. -/
theorem many_iff_counted (h : (us ++ [stop]).Pairwise Token.Precedes) (levels : Nat)
    (stmts : List Stmt) :
    Many (Grammar.stmt .tokens levels) us stmts ↔
      ∃ ss, Many (Grammar.stmt .tokens levels) (counted 0 us) ss ∧
        ss.map (Stmt.mapSpan (placed us stop)) = stmts := by
  have hcarries := carries_many (carries_stmt (translation_placed h) levels) (counted 0 us) stmts
  have hus := map_counted stop [] us
  rw [List.nil_append, List.length_nil] at hus
  rwa [hus] at hcarries

/-- A span runs from the start of one token of a text to the end of another one. -/
def Spans (ts : List Token) (i j : Nat) (s : Span) : Prop :=
  ∃ t u, ts[i]? = some t ∧ ts[j]? = some u ∧ s = ⟨t.span.start, u.span.stop⟩

theorem getElem?_append_min (i : Nat) :
    (us ++ [stop])[min i us.length]? = some (us.getD i stop) := by
  by_cases hi : i < us.length
  · rw [Nat.min_eq_left hi.le, List.getElem?_append_left hi, List.getD_eq_getElem _ _ hi,
      List.getElem?_eq_getElem hi]
  · rw [Nat.min_eq_right (Nat.le_of_not_lt hi), List.getElem?_concat_length,
      List.getD_eq_default _ _ (Nat.le_of_not_lt hi)]

theorem spans_placed (s : Span) :
    Spans (us ++ [stop]) (min s.start us.length) (min (s.stop - 1) us.length)
      (placed us stop s) :=
  ⟨_, _, getElem?_append_min _, getElem?_append_min _, rfl⟩

end places

/-! ### Texts that cannot be read -/

/-- Tokens of the same number. -/
def Pairing.ofNumbers {ts us : List Token} (h : ts.map Token.kind = us.map Token.kind) :
    Pairing where
  Pairs t u := ∃ i : Nat, ts[i]? = some t ∧ us[i]? = some u
  kind := by
    rintro t u ⟨i, ht, hu⟩
    have hi := congrArg (fun kinds : List TokenKind => kinds[i]?) h
    simpa [ht, hu] using hi

theorem Pairing.forall₂_ofNumbers {ts us vs ws : List Token}
    (h : (ts ++ vs).map Token.kind = (us ++ ws).map Token.kind) (hlength : ts.length = us.length) :
    List.Forall₂ (Pairing.ofNumbers h).Pairs ts us := by
  refine List.forall₂_iff_get.2 ⟨hlength, fun i hi hj => ⟨i, ?_, ?_⟩⟩
  · rw [List.getElem?_append_left hi]
    exact List.getElem?_eq_getElem hi
  · rw [List.getElem?_append_left hj]
    exact List.getElem?_eq_getElem hj

/-- Texts with corresponding tokens are read from corresponding cursors. -/
theorem Pairing.cursors_ofSource {P : Pairing} {s₁ s₂ : String} {us₁ us₂ : List Token}
    (h₁ : items s₁ = us₁.map .ok) (h₂ : items s₂ = us₂.map .ok)
    (hus : List.Forall₂ P.Pairs us₁ us₂)
    (hend : P.Pairs (.atEnd (byteLength s₁.toList)) (.atEnd (byteLength s₂.toList))) :
    ∃ c d, Cursor.ofSource s₁ = .ok c ∧ Cursor.ofSource s₂ = .ok d ∧ P.Cursors c d := by
  unfold Cursor.ofSource
  rw [h₁, h₂]
  cases hus with
  | nil => exact ⟨_, _, rfl, rfl, hend, .nil, hend⟩
  | cons ht hrest =>
    refine ⟨_, _, rfl, rfl, ht, ?_, hend⟩
    rw [List.forall₂_map_left_iff, List.forall₂_map_right_iff]
    exact hrest.imp fun _ _ => .ok

/-- Texts with corresponding tokens are both programs, or have the same fault at corresponding
tokens. -/
theorem Pairing.parse_cases {P : Pairing} {s₁ s₂ : String} {us₁ us₂ : List Token}
    (h₁ : items s₁ = us₁.map .ok) (h₂ : items s₂ = us₂.map .ok)
    (hus : List.Forall₂ P.Pairs us₁ us₂)
    (hend : P.Pairs (.atEnd (byteLength s₁.toList)) (.atEnd (byteLength s₂.toList))) :
    (∃ p q, parse s₁ = .ok p ∧ parse s₂ = .ok q) ∨
      ∃ fault t u, P.Pairs t u ∧ parse s₁ = .error (.syntactic fault t.span) ∧
        parse s₂ = .error (.syntactic fault u.span) := by
  obtain ⟨c, d, hc, hd, hcd⟩ := cursors_ofSource h₁ h₂ hus hend
  unfold parse Cursor.parseProgram
  rw [hc, hd]
  dsimp only
  obtain ⟨p, q, _, _, hp, hq⟩ | ⟨fault, t, u, _, _, htu, hp, hq⟩ := program_cases hcd
  · rw [hp, hq]
    exact .inl ⟨p, q, rfl, rfl⟩
  · rw [hp, hq]
    exact .inr ⟨fault, t, u, htu, rfl, rfl⟩

/-! ### Outcomes -/

def Failure.mapSpan (σ : Span → Span) : Failure → Failure
  | lexical detail span => lexical detail (σ span)
  | syntactic detail span => syntactic detail (σ span)
  | semantic e => semantic (e.mapSpan σ)
  | io text => io text

/-- A failure without its place: its kind, and the name or the detail it is about. -/
def Failure.bare (failure : Failure) : Failure := failure.mapSpan fun _ => .point 0

theorem check_of_parse_error {source : String} {e : ReadError} (h : parse source = .error e) :
    check source = .error (.ofReadError e) := by
  have silent : Options.none.tokenNotes source = .ok [] := rfl
  unfold check checkWith
  rw [silent, h]

theorem check_of_parse_ok {source : String} {p : Program} (h : parse source = .ok p) :
    check source = p.analyze.mapError .semantic := by
  have silent : Options.none.tokenNotes source = .ok [] := rfl
  unfold check checkWith
  rw [silent, h]
  rfl

/-- The outcome of a text whose kinds derive some statements: that of the statements, placed. -/
theorem check_of_counted {source : String} {us : List Token} {stop : Token} {ss : List Stmt}
    (htok : tokenize source = .ok (us ++ [stop]))
    (hs : Many (Grammar.stmt .tokens nestingLimit) (counted 0 us) ss) :
    check source = ((Program.mk ss (.point 0)).analyze.mapError
      (SemanticError.mapSpan (placed us stop))).mapError .semantic := by
  have hordered := ordered_of_tokenize htok
  have hmany := (many_iff_counted hordered nestingLimit _).2 ⟨ss, hs, rfl⟩
  have hparse : parse source = .ok ⟨ss.map (Stmt.mapSpan (placed us stop)),
      (us.headD stop).span.merge stop.span⟩ := parse_eq_ok_iff.2 ⟨us, stop, htok, hmany, rfl⟩
  rw [check_of_parse_ok hparse, ← Program.analyze_mapSpan (relocates_placed hordered)]
  rfl

/-- **Layout does not matter.**  Two texts with the same kinds of tokens have the same metrics, or
fail for the same reason, at a span from the start of the token with one number to the end of the
token with another one, the numbers being the same in both texts. -/
theorem check_of_same_kinds (s₁ s₂ : String) (ts₁ ts₂ : List Token)
    (h₁ : tokenize s₁ = .ok ts₁) (h₂ : tokenize s₂ = .ok ts₂)
    (hkinds : ts₁.map Token.kind = ts₂.map Token.kind) :
    (∃ m, check s₁ = .ok m ∧ check s₂ = .ok m) ∨
      ∃ f₁ f₂, check s₁ = .error f₁ ∧ check s₂ = .error f₂ ∧ f₁.bare = f₂.bare ∧
        ∃ i j span₁ span₂, f₁.span? = some span₁ ∧ f₂.span? = some span₂ ∧
          Spans ts₁ i j span₁ ∧ Spans ts₂ i j span₂ := by
  obtain ⟨us₁, hitems₁, rfl⟩ := tokenize_eq_ok_iff.1 h₁
  obtain ⟨us₂, hitems₂, rfl⟩ := tokenize_eq_ok_iff.1 h₂
  have hus : us₁.map Token.kind = us₂.map Token.kind := by
    rw [List.map_append, List.map_append] at hkinds
    exact List.append_inj_left' hkinds rfl
  have hlength : us₁.length = us₂.length := by simpa using congrArg List.length hus
  cases hparse : parse s₁ with
  | ok p =>
    obtain ⟨vs, stop, htok, hmany, -⟩ := parse_eq_ok_iff.1 hparse
    obtain ⟨rfl, rfl⟩ : vs = us₁ ∧ stop = .atEnd (byteLength s₁.toList) := by
      have hts := Except.ok.inj (htok.symm.trans h₁)
      exact ⟨List.append_inj_left' hts rfl,
        List.head_eq_of_cons_eq (List.append_inj_right' hts rfl)⟩
    obtain ⟨ss, hss, -⟩ := (many_iff_counted (ordered_of_tokenize h₁) nestingLimit _).1 hmany
    -- both texts are now checked as the same statements `ss`, whose places are token numbers
    rw [check_of_counted h₁ hss, check_of_counted h₂ (counted_congr hus 0 ▸ hss)]
    cases (Program.mk ss (.point 0)).analyze with
    | ok m => exact .inl ⟨m, rfl, rfl⟩
    | error e =>
      have hspans : Spans (us₂ ++ [.atEnd (byteLength s₂.toList)]) (min e.span.start us₂.length)
          (min (e.span.stop - 1) us₂.length) (placed us₂ _ e.span) := spans_placed e.span
      rw [← hlength] at hspans
      refine .inr ⟨_, _, rfl, rfl, ?_, _, _, _, _, ?_, ?_, spans_placed e.span, hspans⟩
      · cases e <;> rfl
      · exact congrArg some (e.span_mapSpan _)
      · exact congrArg some (e.span_mapSpan _)
  | error e =>
    have hends : (Pairing.ofNumbers hkinds).Pairs (.atEnd (byteLength s₁.toList))
        (.atEnd (byteLength s₂.toList)) := by
      refine ⟨us₁.length, List.getElem?_concat_length, ?_⟩
      rw [hlength]
      exact List.getElem?_concat_length
    obtain ⟨p, q, hp, -⟩ | ⟨fault, t, u, ⟨i, ht, hu⟩, hp, hq⟩ := Pairing.parse_cases hitems₁ hitems₂
      (Pairing.forall₂_ofNumbers hkinds hlength) hends
    · rw [hp] at hparse
      cases hparse
    · rw [check_of_parse_error hp, check_of_parse_error hq]
      exact .inr ⟨_, _, rfl, rfl, rfl, i, i, t.span, u.span, rfl, rfl, ⟨t, t, ht, ht, rfl⟩,
        ⟨u, u, hu, hu, rfl⟩⟩

/-- Operands that do not fit, in two layouts. -/
theorem check_of_same_kinds_operands :
    (∃ m, check "1<true;" = .ok m ∧ check " 1 < /* is */ true;" = .ok m) ∨
      ∃ f₁ f₂, check "1<true;" = .error f₁ ∧ check " 1 < /* is */ true;" = .error f₂ ∧
        f₁.bare = f₂.bare ∧
        ∃ i j span₁ span₂, f₁.span? = some span₁ ∧ f₂.span? = some span₂ ∧
          Spans [⟨.int "1", ⟨0, 1⟩⟩, ⟨.punct .less, ⟨1, 2⟩⟩, ⟨.keyword .trueWord, ⟨2, 6⟩⟩,
            ⟨.punct .semicolon, ⟨6, 7⟩⟩, ⟨.eof, ⟨7, 7⟩⟩] i j span₁ ∧
          Spans [⟨.int "1", ⟨1, 2⟩⟩, ⟨.punct .less, ⟨3, 4⟩⟩, ⟨.keyword .trueWord, ⟨14, 18⟩⟩,
            ⟨.punct .semicolon, ⟨18, 19⟩⟩, ⟨.eof, ⟨19, 19⟩⟩] i j span₂ :=
  check_of_same_kinds "1<true;" " 1 < /* is */ true;" _ _ (by decide +kernel) (by decide +kernel)
    (by decide +kernel)

end StaticCheck
