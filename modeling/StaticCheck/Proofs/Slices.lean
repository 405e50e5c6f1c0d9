import StaticCheck.Proofs.Cutting
import StaticCheck.Proofs.Layout

/-! # The text under a span

Pieces stand one after the other, so the place of an item is given by the length of the pieces in
front of it (`locate_eq_append_cons`).  A token stands on its own spelling, and both of its ends are
boundaries between characters (`shows_of_mem_items`); spans that are built from such spans keep that
(`Span.Located`).  Consecutive tokens stand on pieces of their own: the text from the start of the
first token to the end of the last one is cut into exactly these tokens (`exists_slice`). -/

namespace StaticCheck

/-! ### Shifted places -/

def Span.shift (n : Nat) (s : Span) : Span := ⟨s.start + n, s.stop + n⟩

def Token.shift (n : Nat) (t : Token) : Token := ⟨t.kind, t.span.shift n⟩

theorem translation_shift (n : Nat) :
    Translation .tokens .tokens (Token.shift n) (Span.shift n) := by
  refine ⟨fun _ => rfl, fun ts hts => ?_⟩
  have hmap : ts.map (Token.shift n) ≠ [] := by simpa using hts
  rw [Alphabet.span_tokens, Alphabet.span_tokens, cover_of_ne_nil hmap, cover_of_ne_nil hts,
    List.head_map, List.getLast_map]
  unfold Token.shift Span.shift
  rw [Span.mk.injEq]
  exact ⟨rfl, Nat.add_max_add_right _ _ _⟩

/-! ### The items of consecutive pieces -/

section locating

variable {offset : Nat} {ps : List Piece}

theorem locate_append (offset : Nat) (ps qs : List Piece) : locate offset (ps ++ qs) =
    locate offset ps ++ locate (offset + byteLength (ps.flatMap Piece.text)) qs := by
  induction ps generalizing offset with
  | nil => rfl
  | cons piece ps ih =>
    rw [List.flatMap_cons, byteLength_append, ← Nat.add_assoc, List.cons_append, locate, locate, ih]
    cases piece.item? offset with
    | none => rfl
    | some item => rfl

/-- Pieces that start further to the right have their tokens there. -/
theorem locate_shift {ts : List Token} (h : locate offset ps = ts.map .ok) (n : Nat) :
    locate (offset + n) ps = (ts.map (Token.shift n)).map .ok := by
  induction ps generalizing offset ts with
  | nil =>
    obtain rfl := List.map_eq_nil_iff.1 h.symm
    rfl
  | cons piece ps ih =>
    have hcomm := Nat.add_right_comm offset (byteLength piece.text) n
    rw [locate] at h ⊢
    rw [← hcomm]
    cases piece with
    | trivia text => exact ih h
    | token kind text =>
      obtain ⟨t, us, rfl, ht, hus⟩ := List.map_eq_cons_iff.1 h.symm
      cases ht
      simp only [Piece.item?, ih hus.symm, List.map_cons, Piece.spanAt, Token.shift, Span.shift]
      rw [hcomm]
    | stray text =>
      obtain ⟨t, us, rfl, ht, -⟩ := List.map_eq_cons_iff.1 h.symm
      cases ht

/-- Pieces without lexical errors are not stray. -/
theorem proper_of_locate {ts : List Token} (h : locate offset ps = ts.map .ok) :
    ∀ p ∈ ps, ∀ text, p ≠ .stray text := by
  induction ps generalizing offset ts with
  | nil => simp
  | cons piece ps ih =>
    rw [locate] at h
    cases piece with
    | trivia text =>
      exact List.forall_mem_cons.2 ⟨fun _ => Piece.noConfusion, ih h⟩
    | token kind text =>
      obtain ⟨t, us, rfl, -, hus⟩ := List.map_eq_cons_iff.1 h.symm
      exact List.forall_mem_cons.2 ⟨fun _ => Piece.noConfusion, ih hus.symm⟩
    | stray text =>
      obtain ⟨t, us, rfl, ht, -⟩ := List.map_eq_cons_iff.1 h.symm
      cases ht

/-- A token ends before the next one starts. -/
theorem separated_of_locate {ts : List Token} (h : locate offset ps = ts.map .ok) :
    ts.Pairwise fun t u => t.span.stop ≤ u.span.start := by
  induction ps generalizing offset ts with
  | nil =>
    obtain rfl := List.map_eq_nil_iff.1 h.symm
    exact .nil
  | cons piece ps ih =>
    rw [locate] at h
    cases piece with
    | trivia text => exact ih h
    | token kind text =>
      obtain ⟨t, us, rfl, ht, hus⟩ := List.map_eq_cons_iff.1 h.symm
      cases ht
      refine List.pairwise_cons.2 ⟨fun u hu => ?_, ih hus.symm⟩
      exact ((ordered_of_locate hus.symm).2 u hu).1
    | stray text =>
      obtain ⟨t, us, rfl, ht, -⟩ := List.map_eq_cons_iff.1 h.symm
      cases ht

/-- The piece that an item comes from, and the pieces on both sides of it. -/
theorem locate_eq_append_cons {its₁ its₂ : List Item} {item : Item}
    (h : locate offset ps = its₁ ++ item :: its₂) :
    ∃ ps₁ p ps₂, ps = ps₁ ++ p :: ps₂ ∧ locate offset ps₁ = its₁ ∧
      p.item? (offset + byteLength (ps₁.flatMap Piece.text)) = some item ∧
      locate (offset + byteLength ((ps₁ ++ [p]).flatMap Piece.text)) ps₂ = its₂ := by
  induction ps generalizing offset its₁ with
  | nil =>
    rw [locate] at h
    simp at h
  | cons piece ps ih =>
    have hstep : ∀ qs : List Piece, offset + byteLength piece.text +
        byteLength (qs.flatMap Piece.text) =
          offset + byteLength ((piece :: qs).flatMap Piece.text) := by
      intro qs
      rw [List.flatMap_cons, byteLength_append, Nat.add_assoc]
    rw [locate] at h
    cases hitem : piece.item? offset with
    | none =>
      simp only [hitem] at h
      obtain ⟨ps₁, p, ps₂, rfl, hbefore, hp, hafter⟩ := ih h
      rw [hstep] at hp hafter
      refine ⟨piece :: ps₁, p, ps₂, rfl, ?_, hp, hafter⟩
      simp only [locate, hitem, hbefore]
    | some first =>
      simp only [hitem] at h
      cases its₁ with
      | nil =>
        obtain ⟨rfl, rfl⟩ := List.cons.inj h
        exact ⟨[], piece, ps, rfl, rfl, hitem, by simp⟩
      | cons other its₁ =>
        obtain ⟨rfl, hlater⟩ := List.cons.inj h
        obtain ⟨ps₁, p, ps₂, rfl, hbefore, hp, hafter⟩ := ih hlater
        rw [hstep] at hp hafter
        refine ⟨piece :: ps₁, p, ps₂, rfl, ?_, hp, hafter⟩
        simp only [locate, hitem, hbefore]

end locating

/-! ### Lexical errors -/

theorem mapM_id_eq_error_iff {its : List Item} {e : LexicalError} :
    its.mapM id = .error e ↔ ∃ (us : List Token) (rest : List Item),
      its = us.map .ok ++ .error e :: rest := by
  induction its with
  | nil => simp [pure, Except.pure]
  | cons item its ih =>
    rw [List.mapM_cons]
    cases item with
    | error other =>
      simp only [id, bind, Except.bind, Except.error.injEq]
      constructor
      · rintro rfl
        exact ⟨[], its, rfl⟩
      · rintro ⟨us, rest, h⟩
        cases us with
        | nil => exact Except.error.inj (List.cons.inj h).1
        | cons u us => cases (List.cons.inj h).1
    | ok t =>
      have hstep : (id (.ok t : Item) >>= fun t => its.mapM id >>= fun ts => pure (t :: ts)) =
          .error e ↔ its.mapM id = .error e := by
        cases its.mapM id <;> simp [bind, Except.bind, pure, Except.pure]
      rw [hstep, ih]
      constructor
      · rintro ⟨us, rest, rfl⟩
        exact ⟨t :: us, rest, rfl⟩
      · rintro ⟨us, rest, h⟩
        cases us with
        | nil => cases (List.cons.inj h).1
        | cons u us => exact ⟨us, rest, (List.cons.inj h).2⟩

/-- The listing of tokens fails with the first lexical error. -/
theorem tokenize_eq_error_iff {source : String} {e : LexicalError} :
    tokenize source = .error e ↔ ∃ (us : List Token) (rest : List Item),
      items source = us.map .ok ++ .error e :: rest := by
  rw [← mapM_id_eq_error_iff]
  unfold tokenize
  cases (items source).mapM id <;> simp [bind, Except.bind, pure, Except.pure]

/-- What stands in front of a lexical error ends before it. -/
theorem stop_le_of_items {source : String} {e : LexicalError} {us : List Token} {rest : List Item}
    (h : items source = us.map .ok ++ .error e :: rest) :
    ∀ t ∈ us, t.span.stop ≤ e.span.start := by
  obtain ⟨ps₁, p, ps₂, -, hbefore, hp, -⟩ := locate_eq_append_cons h
  have hstart : e.span.start = 0 + byteLength (ps₁.flatMap Piece.text) := by
    cases p with
    | stray text =>
      cases hp
      rfl
    | trivia text => cases hp
    | token kind text => cases hp
  intro t ht
  have hbounds := (ordered_of_locate hbefore).2 t ht
  omega

/-! ### Spans on character boundaries -/

theorem utf8ByteSize_ofList (text : List Char) :
    (String.ofList text).utf8ByteSize = byteLength text := by
  induction text with
  | nil => rfl
  | cons c text ih => simp [String.ofList_cons, ih]

theorem utf8ByteSize_eq (source : String) : source.utf8ByteSize = byteLength source.toList := by
  rw [← utf8ByteSize_ofList, String.ofList_toList]

namespace Span

/-- The text stands in the source under the span. -/
def Shows (span : Span) (source text : String) : Prop :=
  ∃ before after, source = before ++ text ++ after ∧
    span = ⟨before.utf8ByteSize, before.utf8ByteSize + text.utf8ByteSize⟩

theorem shows_of_append {source : String} {before text after : List Char}
    (h : source.toList = before ++ text ++ after) :
    Shows ⟨byteLength before, byteLength before + byteLength text⟩ source (.ofList text) := by
  refine ⟨.ofList before, .ofList after, ?_, ?_⟩
  · rw [← String.ofList_append, ← String.ofList_append, ← h, String.ofList_toList]
  · rw [utf8ByteSize_ofList, utf8ByteSize_ofList]

/-- The span has a first and a last character. -/
structure Located (source : String) (span : Span) : Prop where
  start_valid : String.Pos.Raw.IsValid source ⟨span.start⟩
  stop_valid : String.Pos.Raw.IsValid source ⟨span.stop⟩
  start_lt_stop : span.start < span.stop

theorem Shows.valid {span : Span} {source text : String} (h : span.Shows source text) :
    String.Pos.Raw.IsValid source ⟨span.start⟩ ∧ String.Pos.Raw.IsValid source ⟨span.stop⟩ := by
  obtain ⟨before, after, rfl, rfl⟩ := h
  constructor
  · exact String.Pos.Raw.isValid_iff_exists_append.2
      ⟨before, text ++ after, String.append_assoc, rfl⟩
  · refine String.Pos.Raw.isValid_iff_exists_append.2 ⟨before ++ text, after, rfl, ?_⟩
    rw [String.Pos.Raw.ext_iff, String.byteIdx_rawEndPos, String.utf8ByteSize_append]

theorem Shows.le {span : Span} {source text : String} (h : span.Shows source text) :
    span.start ≤ span.stop ∧ span.stop ≤ source.utf8ByteSize := by
  obtain ⟨before, after, rfl, rfl⟩ := h
  simp only [String.utf8ByteSize_append]
  omega

theorem Shows.located {span : Span} {source text : String} (h : span.Shows source text)
    (hne : text ≠ "") : span.Located source := by
  refine ⟨h.valid.1, h.valid.2, ?_⟩
  obtain ⟨before, after, -, rfl⟩ := h
  have hpos : text.utf8ByteSize ≠ 0 := fun hzero => hne (String.utf8ByteSize_eq_zero_iff.1 hzero)
  change before.utf8ByteSize < before.utf8ByteSize + text.utf8ByteSize
  omega

namespace Located

variable {source : String} {a b : Span}

theorem merge (ha : a.Located source) (hb : b.Located source) : (a.merge b).Located source := by
  refine ⟨?_, ?_, ?_⟩
  · change String.Pos.Raw.IsValid source ⟨min a.start b.start⟩
    rcases Nat.le_total a.start b.start with h | h
    · rw [Nat.min_eq_left h]
      exact ha.start_valid
    · rw [Nat.min_eq_right h]
      exact hb.start_valid
  · change String.Pos.Raw.IsValid source ⟨max a.stop b.stop⟩
    rcases Nat.le_total a.stop b.stop with h | h
    · rw [Nat.max_eq_right h]
      exact hb.stop_valid
    · rw [Nat.max_eq_left h]
      exact ha.stop_valid
  · change min a.start b.start < max a.stop b.stop
    have hstart := ha.start_lt_stop
    omega

/-- There is a text between two boundaries. -/
theorem exists_shows (h : a.Located source) : ∃ text, text ≠ "" ∧ a.Shows source text := by
  obtain ⟨before, rest, hsource, hstart⟩ :=
    String.Pos.Raw.isValid_iff_exists_append.1 h.start_valid
  obtain ⟨front, after, hsource', hstop⟩ :=
    String.Pos.Raw.isValid_iff_exists_append.1 h.stop_valid
  have hstart : a.start = before.utf8ByteSize := congrArg String.Pos.Raw.byteIdx hstart
  have hstop : a.stop = front.utf8ByteSize := congrArg String.Pos.Raw.byteIdx hstop
  have hlt := h.start_lt_stop
  rw [hstart, hstop, utf8ByteSize_eq, utf8ByteSize_eq] at hlt
  have hlists : before.toList ++ rest.toList = front.toList ++ after.toList := by
    rw [← String.toList_append, ← String.toList_append, ← hsource, hsource']
  rcases List.append_eq_append_iff.1 hlists with ⟨text, hfront, -⟩ | ⟨text, hbefore, -⟩
  · have hsplit : source.toList = before.toList ++ text ++ after.toList := by
      rw [hsource', String.toList_append, hfront]
    rw [hfront, byteLength_append] at hlt
    refine ⟨.ofList text, fun hempty => ?_, ?_⟩
    · have hzero := congrArg String.utf8ByteSize hempty
      rw [utf8ByteSize_ofList] at hzero
      change byteLength text = 0 at hzero
      omega
    · have hspan : a = ⟨byteLength before.toList, byteLength before.toList + byteLength text⟩ := by
        rw [← byteLength_append, ← hfront, ← utf8ByteSize_eq, ← utf8ByteSize_eq, ← hstart, ← hstop]
      rw [hspan]
      exact shows_of_append hsplit
  · -- the second boundary would not lie behind the first one
    rw [hbefore, byteLength_append] at hlt
    omega

end Located

end Span

/-! ### The text of items -/

/-- An item stands on the text of its piece. -/
theorem exists_piece_of_items {source : String} {its₁ its₂ : List Item} {item : Item}
    (h : items source = its₁ ++ item :: its₂) :
    ∃ before p after, source.toList = before ++ p.text ++ after ∧ p ∈ pieces source.toList ∧
      p.text ≠ [] ∧ p.item? (byteLength before) = some item := by
  obtain ⟨ps₁, p, ps₂, hps, -, hp, -⟩ := locate_eq_append_cons h
  rw [Nat.zero_add] at hp
  refine ⟨ps₁.flatMap Piece.text, p, ps₂.flatMap Piece.text, ?_, ?_, ?_, hp⟩
  · rw [← flatMap_text_pieces source.toList, hps, List.flatMap_append, List.flatMap_cons,
      List.append_assoc]
  · rw [hps]
    exact List.mem_append_right _ List.mem_cons_self
  · exact text_ne_nil_of_pieces (pieces_of_suffix hps)

/-- A token stands on its own spelling. -/
theorem shows_of_mem_items {source : String} {t : Token} (h : .ok t ∈ items source) :
    t.kind.spelling ≠ "" ∧ t.span.Shows source t.kind.spelling := by
  obtain ⟨its₁, its₂, hits⟩ := List.append_of_mem h
  obtain ⟨before, p, after, hsource, hmem, hne, hp⟩ := exists_piece_of_items hits
  have hspelled := forall_mem_pieces spelled_cut _ p hmem
  cases p with
  | trivia text => cases hp
  | stray text => cases hp
  | token kind text =>
    cases hp
    have hkind : String.ofList text = kind.spelling := by
      rw [← (hspelled : kind.spelling.toList = text), String.ofList_toList]
    refine ⟨fun hempty => hne ?_, ?_⟩
    · change text = []
      rw [← (hspelled : kind.spelling.toList = text), hempty]
      rfl
    · rw [← hkind]
      exact Span.shows_of_append hsource

theorem located_of_mem_items {source : String} {t : Token} (h : .ok t ∈ items source) :
    t.span.Located source := by
  obtain ⟨hne, hshows⟩ := shows_of_mem_items h
  exact hshows.located hne

/-- A lexical error stands on the text that is no token. -/
theorem located_of_lexical {source : String} {e : LexicalError} (h : .error e ∈ items source) :
    e.span.Located source := by
  obtain ⟨its₁, its₂, hits⟩ := List.append_of_mem h
  obtain ⟨before, p, after, hsource, -, hne, hp⟩ := exists_piece_of_items hits
  cases p with
  | trivia text => cases hp
  | token kind text => cases hp
  | stray text =>
    cases hp
    refine (Span.shows_of_append hsource).located fun hempty => hne ?_
    exact String.ofList_eq_empty_iff.1 hempty

theorem located_cover {source : String} {us : List Token} (hne : us ≠ [])
    (h : ∀ t ∈ us, t.span.Located source) : (Alphabet.cover us).Located source := by
  have hhead := h _ (List.head_mem hne)
  have hlast := h _ (List.getLast_mem hne)
  rw [cover_of_ne_nil hne]
  refine ⟨hhead.start_valid, ?_, ?_⟩
  · exact (hlast.merge hhead).stop_valid
  · exact Nat.lt_of_lt_of_le hhead.start_lt_stop (Nat.le_max_right _ _)

/-! ### Slices -/

theorem exists_tokens_of_proper {ps : List Piece} (h : ∀ p ∈ ps, ∀ text, p ≠ .stray text)
    (offset : Nat) : ∃ ts : List Token, locate offset ps = ts.map .ok := by
  induction ps generalizing offset with
  | nil => exact ⟨[], rfl⟩
  | cons piece ps ih =>
    obtain ⟨hpiece, hps⟩ := List.forall_mem_cons.1 h
    obtain ⟨ts, hts⟩ := ih hps (offset + byteLength piece.text)
    rw [locate, hts]
    cases piece with
    | trivia text => exact ⟨ts, rfl⟩
    | token kind text => exact ⟨_ :: ts, rfl⟩
    | stray text => exact absurd rfl (hpiece text)

theorem Piece.eq_token_of_item? {p : Piece} {offset : Nat} {t : Token}
    (h : p.item? offset = some (.ok t)) : ∃ text, p = .token t.kind text := by
  cases p with
  | trivia text => cases h
  | stray text => cases h
  | token kind text =>
    cases h
    exact ⟨text, rfl⟩

/-- Consecutive tokens stand on pieces of their own, from the first token to the last one. -/
theorem exists_pieces_of_items {source : String} {its₁ its₂ : List Item} {us : List Token}
    {last : Token} (h : items source = its₁ ++ (us ++ [last]).map .ok ++ its₂) :
    ∃ ps₁ ps₂ ps₃ text, pieces source.toList = ps₁ ++ (ps₂ ++ [.token last.kind text]) ++ ps₃ ∧
      locate (byteLength (ps₁.flatMap Piece.text)) (ps₂ ++ [.token last.kind text]) =
        (us ++ [last]).map .ok ∧
      Alphabet.cover (us ++ [last]) = ⟨byteLength (ps₁.flatMap Piece.text),
        byteLength (ps₁.flatMap Piece.text) +
          byteLength ((ps₂ ++ [.token last.kind text]).flatMap Piece.text)⟩ := by
  rw [List.map_append, ← List.append_assoc, List.append_assoc] at h
  obtain ⟨qs, q, ps₃, hps, hbefore, hq, -⟩ := locate_eq_append_cons h
  obtain ⟨text, rfl⟩ := Piece.eq_token_of_item? hq
  have hspan := Piece.span_of_item? hq
  rw [Nat.zero_add] at hq hspan
  have hlocate : locate (byteLength (qs.flatMap Piece.text)) [.token last.kind text] =
      [.ok last] := by
    rw [locate, hq]
    rfl
  cases us with
  | nil =>
    refine ⟨qs, [], ps₃, text, by rw [hps]; simp, hlocate, ?_⟩
    rw [List.nil_append, Alphabet.cover_singleton, hspan]
    simp [Piece.spanAt]
  | cons t us =>
    obtain ⟨ps₁, p, ps₂, rfl, -, hp, hbetween⟩ := locate_eq_append_cons hbefore
    have hstart := Piece.span_of_item? hp
    rw [Nat.zero_add] at hp hbetween hstart
    rw [List.flatMap_append, byteLength_append] at hlocate hspan hbetween
    rw [List.flatMap_singleton] at hbetween
    refine ⟨ps₁, p :: ps₂, ps₃, text, by rw [hps]; simp, ?_, ?_⟩
    · rw [locate_append, hlocate, locate, hp, hbetween]
      simp
    · rw [cover_of_ne_nil (by simp), List.getLast_append_singleton, List.head_append_of_ne_nil
        (List.cons_ne_nil t us), List.head_cons, hspan, hstart]
      simp only [Piece.spanAt, List.flatMap_append, List.flatMap_cons, List.flatMap_nil,
        byteLength_append, List.append_nil, Span.mk.injEq, true_and]
      omega

/-- The text under consecutive tokens is cut into these tokens, placed from its own start, whatever
follows that does not go on with the last one. -/
theorem exists_slice_before {source : String} {its₁ its₂ : List Item} {us : List Token}
    {last : Token} (h : items source = its₁ ++ (us ++ [last]).map .ok ++ its₂) :
    ∃ (text front : String) (vs : List Token),
      (Alphabet.cover (us ++ [last])).Shows source text ∧ text = front ++ last.kind.spelling ∧
      us ++ [last] = vs.map (Token.shift (Alphabet.cover (us ++ [last])).start) ∧
      ∀ tail : String, Divides tail.toList → items (text ++ tail) =
        vs.map .ok ++ locate (byteLength text.toList) (pieces tail.toList) := by
  obtain ⟨ps₁, ps₂, ps₃, text, hps, hlocate, hcover⟩ := exists_pieces_of_items h
  have hspelled : last.kind.spelling.toList = text := by
    have hall := forall_mem_pieces spelled_cut source.toList (.token last.kind text)
    exact hall (by rw [hps]; simp)
  have hsource : source.toList = ps₁.flatMap Piece.text ++
      (ps₂ ++ [Piece.token last.kind text]).flatMap Piece.text ++ ps₃.flatMap Piece.text := by
    rw [← List.flatMap_append, ← List.flatMap_append, ← hps, flatMap_text_pieces]
  have hproper := proper_of_locate hlocate
  rw [List.append_assoc] at hps
  have hsuffix := pieces_of_suffix hps
  rw [List.flatMap_append] at hsuffix
  obtain ⟨vs, hvs⟩ := exists_tokens_of_proper hproper 0
  refine ⟨.ofList ((ps₂ ++ [Piece.token last.kind text]).flatMap Piece.text),
    .ofList (ps₂.flatMap Piece.text), vs, ?_, ?_, ?_, fun tail htail => ?_⟩
  · rw [hcover]
    exact Span.shows_of_append hsource
  · rw [List.flatMap_append, String.ofList_append, List.flatMap_singleton]
    change _ ++ String.ofList text = _
    rw [← hspelled, String.ofList_toList]
  · have hshift := locate_shift hvs (byteLength (ps₁.flatMap Piece.text))
    rw [Nat.zero_add, hlocate] at hshift
    rw [hcover]
    exact List.map_injective_iff.2 (fun _ _ => Except.ok.inj) hshift
  · have hpieces := pieces_recut hsuffix hproper htail (by simp)
    unfold items
    rw [String.toList_append, String.toList_ofList, hpieces, locate_append, hvs, Nat.zero_add]

/-- The text under consecutive tokens is cut into these tokens, placed from its own start. -/
theorem exists_slice {source : String} {its₁ its₂ : List Item} {us : List Token} {last : Token}
    (h : items source = its₁ ++ (us ++ [last]).map .ok ++ its₂) :
    ∃ (text front : String) (vs : List Token),
      (Alphabet.cover (us ++ [last])).Shows source text ∧ text = front ++ last.kind.spelling ∧
      items text = vs.map .ok ∧
      us ++ [last] = vs.map (Token.shift (Alphabet.cover (us ++ [last])).start) := by
  obtain ⟨text, front, vs, hshows, htext, hshift, hitems⟩ := exists_slice_before h
  have hvs := hitems "" divides_nil
  rw [String.append_empty] at hvs
  refine ⟨text, front, vs, hshows, htext, ?_, hshift⟩
  rw [hvs, String.toList_empty, pieces, locate, List.append_nil]

end StaticCheck
