import StaticCheck.Proofs.LongestMatch
import StaticCheck.Proofs.Slices

/-! # A text is divided into tokens

`Tiles` says what it means to divide a text into tokens and errors by the rules alone: gaps of
blanks and comments, and between them parts that are read by longest match or where no rule applies.
There is one such division (`Tiles.eq_locate`), and the reader that is asked for one item after the
other gives it, and then the end of the text for ever (`answers_tile`). -/

namespace StaticCheck

/-! ### Divisions of a text -/

/-- The text in front of the rest is made of blanks and comments. -/
inductive Gap : List Char → List Char → Prop
  | nil (rest : List Char) : Gap [] rest
  | cons {text gap rest : List Char} : Skipped text → EndsLine text (gap ++ rest) → Gap gap rest →
      Gap (text ++ gap) rest

namespace Item

def span : Item → Span
  | .ok t => t.span
  | .error e => e.span

/-- The text of an item: what the token says, or the part that is no token. -/
def text : Item → String
  | .ok t => t.kind.spelling
  | .error e => e.text

/-- The item is what the rules make of a text in front of the rest, at the given offset. -/
inductive Reads : Item → Nat → List Char → List Char → Prop
  | token {kind : TokenKind} {start : Nat} {text rest : List Char} : LongestMatch kind text rest →
      Reads (.ok ⟨kind, ⟨start, start + byteLength text⟩⟩) start text rest
  | error {start : Nat} {text rest : List Char} : Unmatched text rest →
      Reads (.error ⟨String.ofList text, ⟨start, start + byteLength text⟩⟩) start text rest

end Item

/-- The text at the offset is divided into the items, with gaps before, between and behind them. -/
inductive Tiles : Nat → List Char → List Item → Prop
  | done {offset : Nat} {gap : List Char} : Gap gap [] → Tiles offset gap []
  | item {offset : Nat} {gap text rest : List Char} {item : Item} {its : List Item} :
      Gap gap (text ++ rest) → item.Reads (offset + byteLength gap) text rest →
      Tiles (offset + byteLength gap + byteLength text) rest its →
      Tiles offset (gap ++ (text ++ rest)) (item :: its)

/-! ### The items of a text divide it -/

theorem Piece.reads_of_item? {p : Piece} {rest : List Char} {start : Nat} {item : Item}
    (h : p.Fits rest) (hitem : p.item? start = some item) : item.Reads start p.text rest := by
  cases p with
  | trivia text => cases hitem
  | token kind text =>
    cases hitem
    exact .token h
  | stray text =>
    cases hitem
    exact .error h

/-- One more blank or comment in front of a divided text. -/
theorem Tiles.skip {offset : Nat} {text rest : List Char} {its : List Item} (htext : Skipped text)
    (hline : EndsLine text rest) (h : Tiles (offset + byteLength text) rest its) :
    Tiles offset (text ++ rest) its := by
  cases h with
  | done hgap =>
    refine .done (.cons htext ?_ hgap)
    rwa [List.append_nil]
  | @item _ gap word rest item its hgap hreads hrest =>
    have hoffset : offset + byteLength text + byteLength gap =
        offset + byteLength (text ++ gap) := by
      rw [byteLength_append, Nat.add_assoc]
    rw [hoffset] at hreads hrest
    rw [← List.append_assoc]
    exact .item (.cons htext hline hgap) hreads hrest

theorem tiles_locate (offset : Nat) (text : List Char) :
    Tiles offset text (locate offset (pieces text)) := by
  fun_induction pieces text generalizing offset with
  | case1 => exact .done (.nil [])
  | case2 c cs ih =>
    have hfits := fits_cut c cs
    rw [← cut_append c cs, locate]
    cases hitem : (cut c cs).1.item? offset with
    | none =>
      cases hpiece : (cut c cs).1 with
      | trivia skipped =>
        rw [hpiece] at hfits
        exact (ih _).skip hfits.1 hfits.2
      | token | stray =>
        rw [hpiece] at hitem
        cases hitem
    | some item => exact .item (.nil _) (Piece.reads_of_item? hfits hitem) (ih _)

/-! ### There is no other division -/

/-- A gap is skipped on the way to the items behind it. -/
theorem Gap.locate_append {gap rest : List Char} (h : Gap gap rest) (offset : Nat) :
    locate offset (pieces (gap ++ rest)) = locate (offset + byteLength gap) (pieces rest) := by
  induction h generalizing offset with
  | nil => rfl
  | @cons text gap rest htext hline _ ih =>
    have hfits : (Piece.trivia text).Fits (gap ++ rest) := ⟨htext, hline⟩
    have hpieces := pieces_of_fits hfits
    rw [List.append_assoc, byteLength_append, ← Nat.add_assoc, ← ih]
    exact (congrArg (locate offset) hpieces).trans rfl

theorem Item.Reads.exists_piece {item : Item} {start : Nat} {text rest : List Char}
    (h : item.Reads start text rest) :
    ∃ p : Piece, p.text = text ∧ p.Fits rest ∧ p.item? start = some item := by
  cases h with
  | @token kind _ _ _ hmatch => exact ⟨.token kind text, rfl, hmatch, rfl⟩
  | error hno => exact ⟨.stray text, rfl, hno, rfl⟩

/-- However a text is divided by the rules, it is divided into the items of its pieces. -/
theorem Tiles.eq_locate {offset : Nat} {text : List Char} {its : List Item}
    (h : Tiles offset text its) : its = locate offset (pieces text) := by
  induction h with
  | @done offset gap hgap =>
    have hskip := hgap.locate_append offset
    rw [List.append_nil, pieces, locate] at hskip
    exact hskip.symm
  | @item offset gap text rest item its hgap hreads _ ih =>
    obtain ⟨p, rfl, hfits, hitem⟩ := hreads.exists_piece
    rw [hgap.locate_append, pieces_of_fits hfits, locate, hitem]
    exact congrArg (item :: ·) ih

/-! ### What a division says about its items -/

theorem byteLength_pos {text : List Char} (h : text ≠ []) : 0 < byteLength text := by
  obtain ⟨c, cs, rfl⟩ := List.exists_cons_of_ne_nil h
  have := c.utf8Size_pos
  rw [byteLength_cons]
  omega

namespace Item.Reads

variable {item : Item} {start : Nat} {text rest : List Char}

theorem ne_nil (h : item.Reads start text rest) : text ≠ [] := by
  cases h with
  | token hmatch => exact hmatch.lexeme.ne_nil
  | error hno =>
    cases hno with
    | char => exact List.cons_ne_nil _ _
    | comment => exact List.cons_ne_nil _ _

theorem span_eq (h : item.Reads start text rest) :
    item.span = ⟨start, start + byteLength text⟩ := by
  cases h with
  | token => rfl
  | error => rfl

/-- A token of one of the kinds says exactly the text that the rule for it has read. -/
theorem text_eq (h : item.Reads start text rest) : item.text = String.ofList text := by
  cases h with
  | token hmatch =>
    cases hmatch.lexeme with
    | keyword word => exact String.ofList_toList.symm
    | punct mark => exact String.ofList_toList.symm
    | int | real | ident => rfl
  | error => rfl

theorem kind_ne_eof {t : Token} (h : Item.Reads (.ok t) start text rest) : t.kind ≠ .eof := by
  cases h with
  | token hmatch => cases hmatch.lexeme <;> exact TokenKind.noConfusion

end Item.Reads

namespace Tiles

variable {offset : Nat} {text : List Char} {its : List Item}

theorem length_le (h : Tiles offset text its) : its.length ≤ byteLength text := by
  induction h with
  | done => exact Nat.zero_le _
  | item _ hreads _ ih =>
    have hpos := byteLength_pos hreads.ne_nil
    simp only [List.length_cons, byteLength_append]
    omega

theorem offset_le_start (h : Tiles offset text its) : ∀ item ∈ its, offset ≤ item.span.start := by
  induction h with
  | done => exact List.forall_mem_nil _
  | item _ hreads _ ih =>
    refine List.forall_mem_cons.2 ⟨?_, fun item hitem => ?_⟩
    · rw [hreads.span_eq]
      exact Nat.le_add_right _ _
    · have := ih item hitem
      omega

theorem separated (h : Tiles offset text its) :
    its.Pairwise fun a b => a.span.stop ≤ b.span.start := by
  induction h with
  | done => exact .nil
  | item _ hreads hrest ih =>
    refine List.pairwise_cons.2 ⟨fun b hb => ?_, ih⟩
    rw [hreads.span_eq]
    exact hrest.offset_le_start b hb

theorem kind_ne_eof (h : Tiles offset text its) : ∀ t, .ok t ∈ its → t.kind ≠ .eof := by
  induction h with
  | done => simp
  | item _ hreads _ ih =>
    intro t ht
    rcases List.mem_cons.1 ht with rfl | ht
    · exact hreads.kind_ne_eof
    · exact ih t ht

/-- Every item stands on its own text. -/
theorem shows (h : Tiles offset text its) {source : String} {before : List Char}
    (hsource : source.toList = before ++ text) (hoffset : offset = byteLength before) :
    ∀ item ∈ its, item.text ≠ "" ∧ item.span.Shows source item.text := by
  induction h generalizing before with
  | done => exact List.forall_mem_nil _
  | @item _ gap text rest item its _ hreads _ ih =>
    have hstart : byteLength (before ++ gap) = byteLength before + byteLength gap :=
      byteLength_append before gap
    have hsplit : source.toList = before ++ gap ++ text ++ rest := by
      rw [hsource]
      simp only [List.append_assoc]
    subst hoffset
    refine List.forall_mem_cons.2 ⟨⟨?_, ?_⟩, ?_⟩
    · rw [hreads.text_eq, Ne, String.ofList_eq_empty_iff]
      exact hreads.ne_nil
    · rw [hreads.text_eq, hreads.span_eq, ← hstart]
      exact Span.shows_of_append hsplit
    · refine ih hsplit ?_
      rw [byteLength_append, hstart]

end Tiles

/-! ### The reader -/

namespace Lexer

/-- The reader takes the first of the items that are left, or stays at the end. -/
theorem scan_cases (offset : Nat) (text : List Char) :
    (locate offset (pieces text) = [] ∧ scan offset text =
        (.ok (.atEnd (offset + byteLength text)), [], offset + byteLength text)) ∨
      ∃ item rest after, locate offset (pieces text) = item :: locate after (pieces rest) ∧
        scan offset text = (item, rest, after) ∧
          after + byteLength rest = offset + byteLength text := by
  fun_induction scan offset text with
  | case1 offset => exact .inl ⟨by rw [pieces, locate], rfl⟩
  | case2 offset c cs first after hitem ih =>
    have hlength : after + byteLength first.2 = offset + byteLength (c :: cs) := by
      rw [← cut_append c cs, byteLength_append, Nat.add_assoc]
    rw [pieces, locate]
    simp only [first, after] at hitem hlength ih
    simp only [hitem]
    rw [← hlength]
    exact ih
  | case3 offset c cs first after item hitem =>
    have hlength : after + byteLength first.2 = offset + byteLength (c :: cs) := by
      rw [← cut_append c cs, byteLength_append, Nat.add_assoc]
    refine .inr ⟨item, first.2, after, ?_, rfl, hlength⟩
    rw [pieces, locate]
    simp only [first] at hitem
    simp only [hitem]
    rfl

/-- Asked for the next item again and again, the reader gives the items in order, then the end. -/
theorem answers_next (n offset : Nat) (text : List Char) :
    answers ⟨text, offset, none⟩ (List.replicate n .next) =
      (locate offset (pieces text)).take n ++
        List.replicate (n - (locate offset (pieces text)).length)
          (.ok (.atEnd (offset + byteLength text))) := by
  induction n generalizing offset text with
  | zero => simp [answers]
  | succ n ih =>
    rw [List.replicate_succ, answers, call, next]
    obtain ⟨hnil, hscan⟩ | ⟨item, rest, after, hcons, hscan, hlength⟩ := scan_cases offset text
    · have hend := ih (offset + byteLength text) []
      simp only [hscan, hend, hnil, pieces, locate, byteLength_nil]
      simp [List.replicate_succ]
    · simp only [hscan, ih after rest, hcons, hlength]
      simp

end Lexer

/-- **Tokenization is a partition by longest match.**  Asked for one item after the other, the
reader gives no more items than the text has bytes, and then the end of the text for ever.  The
items stand on character boundaries, on their own texts, one behind the other; they and the gaps
between them make up the text, where each token is the longest that a rule reads and each error
stands where no rule applies or a block comment is not closed.  The text is divided by the rules in
this way only. -/
theorem answers_tile (source : String) : ∃ its : List Item,
    (∀ n, (Lexer.ofSource source).answers (List.replicate n .next) =
      its.take n ++ List.replicate (n - its.length) (.ok (.atEnd source.utf8ByteSize))) ∧
    its.length ≤ source.utf8ByteSize ∧ (∀ t, .ok t ∈ its → t.kind ≠ .eof) ∧
    (∀ item ∈ its, item.span.Located source ∧ item.span.Shows source item.text) ∧
    its.Pairwise (fun a b => a.span.stop ≤ b.span.start) ∧
    ∀ others, Tiles 0 source.toList others ↔ others = its := by
  have htiles := tiles_locate 0 source.toList
  refine ⟨locate 0 (pieces source.toList), fun n => ?_, ?_, htiles.kind_ne_eof, ?_,
    htiles.separated, fun others => ⟨Tiles.eq_locate, fun h => h ▸ htiles⟩⟩
  · have hanswers := Lexer.answers_next n 0 source.toList
    rw [Nat.zero_add, ← utf8ByteSize_eq] at hanswers
    exact hanswers
  · rw [utf8ByteSize_eq]
    exact htiles.length_le
  · intro item hitem
    have hsource : source.toList = [] ++ source.toList := rfl
    obtain ⟨hne, hshows⟩ := htiles.shows hsource rfl item hitem
    exact ⟨hshows.located hne, hshows⟩

end StaticCheck
