import StaticCheck.Proofs.Lockstep
import StaticCheck.Proofs.Machine
import StaticCheck.Proofs.Tokenization

/-! # Machines and cursors

A machine stands at the place of a cursor: what its lexer has still to give are the items that the
cursor knows (`Machine.cursor`).  The lexer gives these items in order (`Lexer.Ordered.gives`), and
a look at the next one takes none of them, but passes an error (`Lexer.Ordered.shows`).

A routine tracks a parser if both come to the same value or the same error at the same place, with
all levels closed again that were opened on the way (`Machine.Tracks`).  The single actions track
theirs, and a repetition does if its rounds take tokens and there is fuel for each of them
(`Machine.alike_repeated`).  So the routine for every rule tracks the parser for it
(`Machine.lockstep`).

What is known of the states on the way is part of the relation: they are in order, and nothing moves
back (`Machine.Trace.Good`). -/

namespace StaticCheck

/-! ### Lexers in order -/

/-- The end of the text stands at its end, and any other token is not empty. -/
def Token.Stands (t : Token) (finish : Nat) : Prop :=
  if t.kind = .eof then t.span = .point finish else t.span.start < t.span.stop

theorem Token.stands_atEnd (finish : Nat) : (Token.atEnd finish).Stands finish := by
  unfold Stands
  exact rfl

theorem Token.Stands.start_le_stop {t : Token} {finish : Nat} (h : t.Stands finish) :
    t.span.start ≤ t.span.stop := by
  unfold Stands at h
  split at h
  · rw [h]
    exact Nat.le_refl _
  · exact Nat.le_of_lt h

theorem Token.Stands.eq_atEnd {t : Token} {finish : Nat} (h : t.Stands finish)
    (hkind : t.kind = .eof) : t = .atEnd finish := by
  rw [Stands, if_pos hkind] at h
  cases t
  simp only [Token.atEnd, mk.injEq]
  exact ⟨hkind, h⟩

namespace Lexer

/-- The items that a lexer has still to give, the end of the text left out. -/
def upcoming (lexer : Lexer) : List Item :=
  match lexer.peeked with
  | none => locate lexer.offset (pieces lexer.rest)
  | some token =>
    if token.kind = .eof then locate lexer.offset (pieces lexer.rest)
    else .ok token :: locate lexer.offset (pieces lexer.rest)

section upcoming

variable {rest : List Char} {offset : Nat} {token : Token}

theorem upcoming_nil : (⟨[], offset, none⟩ : Lexer).upcoming = [] := by
  simp only [upcoming, pieces, locate]

theorem upcoming_looked (h : token.kind ≠ .eof) : (⟨rest, offset, some token⟩ : Lexer).upcoming =
    .ok token :: (⟨rest, offset, none⟩ : Lexer).upcoming := by
  simp only [upcoming, h, if_false]

theorem upcoming_looked_eof (h : token.kind = .eof) :
    (⟨rest, offset, some token⟩ : Lexer).upcoming = (⟨rest, offset, none⟩ : Lexer).upcoming := by
  simp only [upcoming, h, if_true]

end upcoming

/-- The lexer stands behind `start`, and a token that it has looked at stands in between. -/
structure Ordered (start finish : Nat) (lexer : Lexer) : Prop where
  size : lexer.offset + byteLength lexer.rest = finish
  start_le : start ≤ lexer.offset
  peeked : ∀ token ∈ lexer.peeked,
    start ≤ token.span.start ∧ token.span.stop ≤ lexer.offset ∧ token.Stands finish

/-- What a lexer behind `start` gives next: a token, the end of the text, or an error. -/
inductive Gives (start finish : Nat) (lexer : Lexer) : Item × Lexer → Prop
  | token {token : Token} {after : Lexer} : lexer.upcoming = .ok token :: after.upcoming →
      token.kind ≠ .eof → token.Stands finish → start ≤ token.span.start →
      after.Ordered token.span.stop finish → after.peeked = none → lexer.offset ≤ after.offset →
      Gives start finish lexer (.ok token, after)
  | atEnd {after : Lexer} : lexer.upcoming = [] → after.upcoming = [] →
      after.Ordered finish finish → after.peeked = none → lexer.offset ≤ after.offset →
      Gives start finish lexer (.ok (.atEnd finish), after)
  | error {e : LexicalError} {after : Lexer} : lexer.upcoming = .error e :: after.upcoming →
      after.Ordered start finish → after.peeked = none → lexer.offset ≤ after.offset →
      Gives start finish lexer (.error e, after)

theorem scan_ordered (offset : Nat) (text : List Char) :
    offset ≤ (scan offset text).2.2 ∧ ∀ token, (scan offset text).1 = .ok token →
      offset ≤ token.span.start ∧ token.span.stop ≤ (scan offset text).2.2 ∧
        token.Stands (offset + byteLength text) := by
  fun_induction scan offset text with
  | case1 offset =>
    refine ⟨Nat.le_refl _, ?_⟩
    rintro _ ⟨⟩
    exact ⟨Nat.le_refl _, Nat.le_refl _, Token.stands_atEnd offset⟩
  | case2 offset c cs first after hitem ih =>
    have hlength : after + byteLength first.2 = offset + byteLength (c :: cs) := by
      rw [← cut_append c cs, byteLength_append, Nat.add_assoc]
    have hle : offset ≤ after := Nat.le_add_right _ _
    rw [hlength] at ih
    refine ⟨Nat.le_trans hle ih.1, fun token htoken => ?_⟩
    obtain ⟨hstart, hrest⟩ := ih.2 token htoken
    exact ⟨Nat.le_trans hle hstart, hrest⟩
  | case3 offset c cs first after item hitem =>
    refine ⟨Nat.le_add_right _ _, ?_⟩
    rintro token rfl
    have hpos := byteLength_pos (cut_text_ne_nil c cs)
    have hlength : after + byteLength first.2 = offset + byteLength (c :: cs) := by
      rw [← cut_append c cs, byteLength_append, Nat.add_assoc]
    have hkind : token.kind ≠ .eof := by
      have hsolid : first.1.Solid := solid_cut c cs
      obtain ⟨word, hpiece⟩ := Piece.eq_token_of_item? hitem
      rw [hpiece] at hsolid
      exact hsolid
    have hspan : token.span = ⟨offset, after⟩ := Piece.span_of_item? hitem
    rw [Token.Stands, if_neg hkind, hspan]
    exact ⟨Nat.le_refl _, Nat.le_refl _, Nat.lt_add_of_pos_right hpos⟩

variable {start finish : Nat} {lexer : Lexer}

/-- A lexer that has looked at the end of the text has nothing more to read. -/
theorem Ordered.rest_eq_nil {token : Token} (h : lexer.Ordered start finish)
    (htoken : lexer.peeked = some token) (hkind : token.kind = .eof) : lexer.rest = [] := by
  obtain ⟨-, hstop, hstands⟩ := h.peeked token htoken
  rw [hstands.eq_atEnd hkind] at hstop
  have hsize := h.size
  have hstop : finish ≤ lexer.offset := hstop
  by_contra hne
  have hpos := byteLength_pos hne
  omega

theorem Ordered.gives (h : lexer.Ordered start finish) : lexer.Gives start finish lexer.next := by
  obtain ⟨rest, offset, peeked⟩ := lexer
  cases peeked with
  | some token =>
    obtain ⟨hstart, hstop, hstands⟩ := h.peeked token rfl
    have hafter : (⟨rest, offset, none⟩ : Lexer).Ordered token.span.stop finish :=
      ⟨h.size, hstop, nofun⟩
    by_cases hkind : token.kind = .eof
    · have hrest : rest = [] := h.rest_eq_nil rfl hkind
      obtain rfl := hstands.eq_atEnd hkind
      subst hrest
      exact .atEnd ((upcoming_looked_eof hkind).trans upcoming_nil) upcoming_nil hafter rfl
        (Nat.le_refl _)
    · exact .token (upcoming_looked hkind) hkind hstands hstart hafter rfl (Nat.le_refl _)
  | none =>
    have hsize : offset + byteLength rest = finish := h.size
    have hstart : start ≤ offset := h.start_le
    obtain ⟨hoffset, hordered⟩ := scan_ordered offset rest
    rw [hsize] at hordered
    unfold next
    obtain ⟨hnil, hscan⟩ | ⟨item, more, after, hcons, hscan, hlength⟩ := scan_cases offset rest
    · rw [hsize] at hscan
      simp only [hscan] at hoffset ⊢
      exact .atEnd hnil upcoming_nil ⟨rfl, Nat.le_refl _, nofun⟩ rfl hoffset
    · simp only [hscan] at hoffset hordered ⊢
      rw [hsize] at hlength
      cases item with
      | ok token =>
        have hkind : token.kind ≠ .eof :=
          (tiles_locate offset rest).kind_ne_eof token (hcons ▸ List.mem_cons_self)
        obtain ⟨hfrom, hstop, hstands⟩ := hordered token rfl
        exact .token hcons hkind hstands (Nat.le_trans hstart hfrom) ⟨hlength, hstop, nofun⟩ rfl
          hoffset
      | error e => exact .error hcons ⟨hlength, Nat.le_trans hstart hoffset, nofun⟩ rfl hoffset

/-- What a look at the next token comes to.  The items stay as they are, but an error is passed. -/
inductive Shows (start finish : Nat) (lexer : Lexer) : Item × Lexer → Prop
  | token {token : Token} {rest : List Item} {after : Lexer} :
      lexer.upcoming = .ok token :: rest → after.upcoming = lexer.upcoming →
      after.Ordered start finish → lexer.offset ≤ after.offset →
      Shows start finish lexer (.ok token, after)
  | atEnd {after : Lexer} : lexer.upcoming = [] → after.upcoming = lexer.upcoming →
      after.Ordered start finish → lexer.offset ≤ after.offset →
      Shows start finish lexer (.ok (.atEnd finish), after)
  | error {e : LexicalError} {after : Lexer} : lexer.upcoming = .error e :: after.upcoming →
      after.Ordered start finish → lexer.offset ≤ after.offset →
      Shows start finish lexer (.error e, after)

theorem Ordered.shows (h : lexer.Ordered start finish) : lexer.Shows start finish lexer.peek := by
  cases hpeeked : lexer.peeked with
  | some token =>
    have hpeek : lexer.peek = (.ok token, lexer) := by simp only [peek, hpeeked]
    have hgives := h.gives
    have hnext : lexer.next = (.ok token, { lexer with peeked := none }) := by
      simp only [next, hpeeked]
    rw [hpeek]
    rw [hnext] at hgives
    cases hgives with
    | token hup => exact .token hup rfl h (Nat.le_refl _)
    | atEnd hup => exact .atEnd hup rfl h (Nat.le_refl _)
  | none =>
    have hgives := h.gives
    unfold peek
    simp only [hpeeked]
    generalize lexer.next = given at hgives
    cases hgives with
    | @token token after hup hkind hstands hstart hafter hnone hoffset =>
      obtain ⟨rest, offset, peeked⟩ := after
      obtain rfl : peeked = none := hnone
      refine .token hup ?_ ⟨hafter.size, ?_, ?_⟩ hoffset
      · rw [hup]
        exact upcoming_looked hkind
      · exact Nat.le_trans h.start_le hoffset
      · rintro _ ⟨⟩
        exact ⟨hstart, hafter.start_le, hstands⟩
    | @atEnd after hup hnil hafter hnone hoffset =>
      obtain ⟨rest, offset, peeked⟩ := after
      obtain rfl : peeked = none := hnone
      refine .atEnd hup ?_ ⟨hafter.size, ?_, ?_⟩ hoffset
      · rw [hup]
        exact (upcoming_looked_eof rfl).trans hnil
      · exact Nat.le_trans h.start_le hoffset
      · rintro _ ⟨⟩
        have hsize : lexer.offset + byteLength lexer.rest = finish := h.size
        have hstart : start ≤ finish := by have := h.start_le; omega
        exact ⟨hstart, hafter.start_le, Token.stands_atEnd finish⟩
    | error hup hafter _ hoffset => exact .error hup hafter hoffset

end Lexer

/-! ### Machines in order -/

namespace Machine

/-- The cursor at the place of a machine. -/
def cursor (s : Machine) : Cursor :=
  ⟨s.current, s.lexer.upcoming, s.lexer.offset + byteLength s.lexer.rest, s.lastEnd⟩

/-- In a text of the given size the token taken last, the current token, the token that has been
looked at and the place of the lexer stand in this order. -/
structure Ordered (finish : Nat) (s : Machine) : Prop where
  lastEnd_le : s.lastEnd ≤ s.current.span.start
  stands : s.current.Stands finish
  lexer : s.lexer.Ordered s.current.span.stop finish

theorem Ordered.cursor_finish {finish : Nat} {s : Machine} (h : s.Ordered finish) :
    s.cursor.finish = finish := h.lexer.size

/-- From one state to the other nothing moves back, and no item comes back. -/
structure UpTo (earlier later : Machine) : Prop where
  lastEnd_le : earlier.lastEnd ≤ later.lastEnd
  start_le : earlier.current.span.start ≤ later.current.span.start
  offset_le : earlier.lexer.offset ≤ later.lexer.offset
  remaining_le : later.cursor.remaining ≤ earlier.cursor.remaining

namespace UpTo

theorem refl (s : Machine) : s.UpTo s :=
  ⟨Nat.le_refl _, Nat.le_refl _, Nat.le_refl _, Nat.le_refl _⟩

theorem trans {a b c : Machine} (h₁ : a.UpTo b) (h₂ : b.UpTo c) : a.UpTo c where
  lastEnd_le := Nat.le_trans h₁.lastEnd_le h₂.lastEnd_le
  start_le := Nat.le_trans h₁.start_le h₂.start_le
  offset_le := Nat.le_trans h₁.offset_le h₂.offset_le
  remaining_le := Nat.le_trans h₂.remaining_le h₁.remaining_le

end UpTo

/-- What is kept of every state of a run that began in the state `first`. -/
structure Sound (first s : Machine) : Prop where
  ordered : s.Ordered first.cursor.finish
  depth_le : s.depth ≤ nestingLimit
  upTo : first.UpTo s

namespace Sound

variable {first s : Machine}

theorem refl {finish : Nat} (h : s.Ordered finish) (hdepth : s.depth ≤ nestingLimit) : s.Sound s :=
  ⟨h.cursor_finish.symm ▸ h, hdepth, .refl s⟩

theorem cursor_finish (h : first.Sound s) : s.cursor.finish = first.cursor.finish :=
  h.ordered.cursor_finish

theorem trans {later : Machine} (h₁ : first.Sound s) (h₂ : s.Sound later) : first.Sound later :=
  ⟨h₁.cursor_finish ▸ h₂.ordered, h₂.depth_le, h₁.upTo.trans h₂.upTo⟩

/-- The cursor follows the lexer. -/
theorem cursor_setLexer (h : first.Sound s) {start : Nat} {lexer : Lexer}
    (hlexer : lexer.Ordered start first.cursor.finish) :
    ({ s with lexer } : Machine).cursor = { s.cursor with upcoming := lexer.upcoming } := by
  unfold cursor
  rw [hlexer.size, h.ordered.lexer.size]

end Sound

/-! ### Sound runs -/

/-- Every state of the run is sound, and nothing moves back on the way. -/
structure Trace.Good (first : Machine) (t : Trace) : Prop where
  sound : ∀ s ∈ t.states, first.Sound s
  forward : t.states.Pairwise fun later earlier => earlier.UpTo later

namespace Trace.Good

variable {first : Machine} {t : Trace}

theorem now (h : t.Good first) : first.Sound t.now := h.sound _ List.mem_cons_self

theorem start {s : Machine} (h : s.Sound s) : (Trace.start s).Good s where
  sound := List.forall_mem_singleton.2 h
  forward := List.pairwise_singleton _ _

theorem upTo_now (h : t.Good first) {s : Machine} (hs : s ∈ t.states) : s.UpTo t.now := by
  obtain rfl | hpast := List.mem_cons.1 hs
  · exact .refl _
  · exact List.rel_of_pairwise_cons h.forward hpast

theorem moveTo (h : t.Good first) {s : Machine} (hordered : s.Ordered first.cursor.finish)
    (hdepth : s.depth ≤ nestingLimit) (hup : t.now.UpTo s) : (t.moveTo s).Good first where
  sound := List.forall_mem_cons.2 ⟨⟨hordered, hdepth, h.now.upTo.trans hup⟩, h.sound⟩
  forward := List.pairwise_cons.2 ⟨fun _ hs => (h.upTo_now hs).trans hup, h.forward⟩

theorem setDepth (h : t.Good first) {depth : Nat} (hdepth : depth ≤ nestingLimit) :
    (t.moveTo { t.now with depth }).Good first := by
  have ⟨hlast, hstands, hlexer⟩ := h.now.ordered
  exact h.moveTo ⟨hlast, hstands, hlexer⟩ hdepth
    ⟨Nat.le_refl _, Nat.le_refl _, Nat.le_refl _, Nat.le_refl _⟩

theorem setLexer (h : t.Good first) {lexer : Lexer}
    (hlexer : lexer.Ordered t.now.current.span.stop first.cursor.finish)
    (hlength : lexer.upcoming.length ≤ t.now.lexer.upcoming.length)
    (hoffset : t.now.lexer.offset ≤ lexer.offset) : (t.moveTo { t.now with lexer }).Good first := by
  have ⟨hlast, hstands, _⟩ := h.now.ordered
  exact h.moveTo ⟨hlast, hstands, hlexer⟩ h.now.depth_le
    ⟨Nat.le_refl _, Nat.le_refl _, hoffset, Nat.add_le_add_right hlength _⟩

end Trace.Good

/-! ### Actions of machines -/

namespace Routine

variable {fuel : Nat} {t : Trace} {token : Token} {lexer : Lexer} {e : LexicalError}

theorem advance_ok (h : t.now.lexer.next = (.ok token, lexer)) :
    (Parser.advance : Routine fuel Token) t = .ok t.now.current
      (t.moveTo { t.now with lexer, current := token, lastEnd := t.now.current.span.stop }) := by
  simp only [Parser.advance, h]

theorem advance_error (h : t.now.lexer.next = (.error e, lexer)) :
    (Parser.advance : Routine fuel Token) t =
      .error (.fault (.lexical e)) (t.moveTo { t.now with lexer }) := by
  simp only [Parser.advance, h]

theorem peek_ok (h : t.now.lexer.peek = (.ok token, lexer)) :
    (Parser.peek : Routine fuel TokenKind) t =
      .ok token.kind (t.moveTo { t.now with lexer }) := by
  simp only [Parser.peek, h]

theorem peek_error (h : t.now.lexer.peek = (.error e, lexer)) :
    (Parser.peek : Routine fuel TokenKind) t =
      .error (.fault (.lexical e)) (t.moveTo { t.now with lexer }) := by
  simp only [Parser.peek, h]

end Routine

/-- The run of a machine and the reading of a cursor are at the same place, with so many open
levels, and they fail with the same error. -/
def coupling (first : Machine) (depth : Nat) : Coupling Halt Trace where
  States t c := t.Good first ∧ t.now.depth = depth ∧ c = t.now.cursor
  Errors halt t e c := (t.Good first ∧ t.now.depth = depth ∧ c = t.now.cursor) ∧ halt = .fault e

/-- Begun with so many open levels, the routine does what the parser does, and all levels that it
opens are closed again. -/
def Tracks (first : Machine) (depth : Nat) {fuel : Nat} {τ : Type} (m : Routine fuel τ)
    (p : Parser τ) : Prop := (coupling first depth).Alike (fun a b => True → a = b) m p

variable {first : Machine} {depth fuel : Nat} {τ : Type}

theorem advance_remaining_le {c d : Cursor} {t : Token}
    (h : (Parser.advance : Parser Token) c = .ok t d) : d.remaining ≤ c.remaining := by
  obtain ⟨-, ⟨hu, rfl⟩ | ⟨u, rest, hu, rfl⟩⟩ := Parser.advance_cases h
  · simp only [Cursor.remaining, Token.atEnd, List.length_nil, if_true]
    omega
  · simp only [Cursor.remaining, hu, List.length_cons]
    split <;> omega

theorem tracks_advance :
    Tracks first depth (Parser.advance : Routine fuel Token) Parser.advance := by
  rintro t _ ⟨ht, hd, rfl⟩
  have hs := ht.now
  have hgives := hs.ordered.lexer.gives
  -- the next token is taken up, be it a token of the text or its end
  have taken : ∀ (token : Token) (lexer : Lexer), t.now.lexer.next = (.ok token, lexer) →
      (Parser.advance : Parser Token) t.now.cursor = .ok t.now.current
        ⟨token, lexer.upcoming, first.cursor.finish, t.now.current.span.stop⟩ →
      t.now.current.span.stop ≤ token.span.start → token.Stands first.cursor.finish →
      lexer.Ordered token.span.stop first.cursor.finish → t.now.lexer.offset ≤ lexer.offset →
      (coupling first depth).Results (fun a b => True → a = b)
        ((Parser.advance : Routine fuel Token) t)
        ((Parser.advance : Parser Token) t.now.cursor) := by
    intro token lexer hnext hadvance hstart hstands hlexer hoffset
    have hle := hs.ordered.stands.start_le_stop
    rw [← hlexer.size] at hadvance
    rw [Routine.advance_ok hnext, hadvance]
    refine .ok (fun _ => rfl) ⟨?_, hd, rfl⟩
    refine ht.moveTo ⟨hstart, hstands, hlexer⟩ hs.depth_le ⟨?_, ?_, hoffset, ?_⟩
    · exact Nat.le_trans hs.ordered.lastEnd_le hle
    · exact Nat.le_trans hle hstart
    · exact advance_remaining_le hadvance
  generalize hnext : t.now.lexer.next = given at hgives
  cases hgives with
  | token hup _ hstands hstart hlexer _ hoffset =>
    refine taken _ _ hnext ?_ hstart hstands hlexer hoffset
    rw [Parser.advance_cons hup, hs.cursor_finish]
    rfl
  | atEnd hup hnil hlexer _ hoffset =>
    refine taken _ _ hnext ?_ ?_ (Token.stands_atEnd _) hlexer hoffset
    · rw [Parser.advance_nil hup, hs.cursor_finish, hnil]
      rfl
    · have hsize := hs.ordered.lexer.size
      have hplace := hs.ordered.lexer.start_le
      exact Nat.le_trans hplace (hsize ▸ Nat.le_add_right _ _)
  | error hup hlexer _ hoffset =>
    rw [Routine.advance_error hnext, Parser.advance_error hup, ← hs.cursor_setLexer hlexer]
    exact .error ⟨⟨ht.setLexer hlexer (by simp [hup]) hoffset, hd, rfl⟩, rfl⟩

theorem alike_peek : (coupling first depth).Alike (· = ·)
    (Parser.peek : Routine fuel TokenKind) Parser.peek := by
  rintro t _ ⟨ht, hd, rfl⟩
  have hs := ht.now
  have hshows := hs.ordered.lexer.shows
  -- the cursor does not change where a token or the end of the text is seen
  have seen : ∀ (token : Token) (lexer : Lexer), t.now.lexer.peek = (.ok token, lexer) →
      (Parser.peek : Parser TokenKind) t.now.cursor = .ok token.kind t.now.cursor →
      lexer.upcoming = t.now.lexer.upcoming →
      lexer.Ordered t.now.current.span.stop first.cursor.finish →
      t.now.lexer.offset ≤ lexer.offset →
      (coupling first depth).Results (· = ·) ((Parser.peek : Routine fuel TokenKind) t)
        ((Parser.peek : Parser TokenKind) t.now.cursor) := by
    intro token lexer hshown hpeek hsame hlexer hoffset
    have hcursor : ({ t.now with lexer } : Machine).cursor = t.now.cursor := by
      rw [hs.cursor_setLexer hlexer, hsame]
      rfl
    rw [Routine.peek_ok hshown, hpeek]
    refine .ok rfl ⟨ht.setLexer hlexer (Nat.le_of_eq (congrArg _ hsame)) hoffset, hd, ?_⟩
    exact hcursor.symm
  generalize hshown : t.now.lexer.peek = shown at hshows
  cases hshows with
  | token hup hsame hlexer hoffset =>
    exact seen _ _ hshown (Parser.peek_cons hup) hsame hlexer hoffset
  | atEnd hup hsame hlexer hoffset =>
    exact seen _ _ hshown (Parser.peek_nil hup) hsame hlexer hoffset
  | error hup hlexer hoffset =>
    rw [Routine.peek_error hshown, Parser.peek_error hup, ← hs.cursor_setLexer hlexer]
    exact .error ⟨⟨ht.setLexer hlexer (by simp [hup]) hoffset, hd, rfl⟩, rfl⟩

/-! ### Repetitions and levels -/

/-- With fuel for each item, the rounds are made until the step itself ends them. -/
theorem alike_repeated {step : Routine fuel (Option τ)} {round : Parser (Option τ)} {rounds : Nat}
    (hround : Parser.Progresses round) (hrounds : first.cursor.remaining < rounds)
    (hstep : (coupling first depth).Alike (fun a b => a.isSome = b.isSome ∧ (True → a = b)) step
      round) :
    (coupling first depth).Alike (fun as bs => as.isEmpty = bs.isEmpty ∧ (True → as = bs))
      (Routine.repeated step rounds) (Parser.collect round) := by
  rintro t _ ⟨ht, hd, rfl⟩
  have hremaining := Nat.lt_of_le_of_lt ht.now.upTo.remaining_le hrounds
  clear hrounds
  induction rounds generalizing t with
  | zero => exact absurd hremaining (Nat.not_lt_zero _)
  | succ rounds ih =>
    have hagrees := hstep t _ ⟨ht, hd, rfl⟩
    change (coupling first depth).Results _ (EStateM.bind step _ t) _
    unfold EStateM.bind
    generalize hrun : step t = run, hreading : round t.now.cursor = reading at hagrees
    cases hagrees with
    | error he =>
      rw [Parser.collect_of_error hreading]
      exact .error he
    | @ok a b after d hab hafter =>
      obtain rfl := hab.2 trivial
      obtain ⟨hgood, hdepth, rfl⟩ := hafter
      cases a with
      | none =>
        rw [Parser.collect_of_none hreading]
        exact .ok ⟨rfl, fun _ => rfl⟩ ⟨hgood, hdepth, rfl⟩
      | some a =>
        have hlt := hround _ _ _ hreading
        rw [Parser.collect_of_some hreading hlt]
        refine Coupling.results_bind (ih after hgood hdepth (by omega)) fun as bs has => ?_
        exact Coupling.alike_pure ⟨rfl, fun _ => congrArg (a :: ·) (has.2 trivial)⟩

/-- A machine carries every action out as a parser does, if there is fuel for each item. -/
def lockstep (first : Machine) (depth : Nat) (hfuel : first.cursor.remaining < fuel) :
    Lockstep (Routine fuel) where
  comparing := True
  Alike := (coupling first depth).Alike
  alike_pure := Coupling.alike_pure
  alike_bind := Coupling.alike_bind
  alike_current := by
    rintro t _ ⟨ht, hd, rfl⟩
    exact .ok ⟨rfl, fun _ => rfl⟩ ⟨ht, hd, rfl⟩
  alike_fail fault := by
    rintro t _ ⟨ht, hd, rfl⟩
    exact .error ⟨⟨ht, hd, rfl⟩, rfl⟩
  alike_advance := tracks_advance
  alike_peek := alike_peek
  alike_spanFrom hspan := by
    rintro t _ ⟨ht, hd, rfl⟩
    obtain rfl := hspan trivial
    exact .ok (fun _ => rfl) ⟨ht, hd, rfl⟩
  alike_collect hround := alike_repeated hround hfuel

/-- A level is opened if the limit allows it, and closed again whatever comes of it. -/
theorem tracks_nested {m : Routine fuel τ} {p : Parser τ} (hm : Tracks first (depth + 1) m p)
    (hdepth : depth < nestingLimit) : Tracks first depth (Routine.nested m) p := by
  rintro t _ ⟨ht, hd, rfl⟩
  have hopen : (t.moveTo { t.now with depth := t.now.depth + 1 }).Good first :=
    ht.setDepth (hd ▸ hdepth)
  -- the cursor does not see the count of levels
  have hrun := hm _ t.now.cursor ⟨hopen, congrArg (· + 1) hd, rfl⟩
  have close : ∀ {after : Trace} {c : Cursor}, (coupling first (depth + 1)).States after c →
      (coupling first depth).States
        (after.moveTo { after.now with depth := after.now.depth - 1 }) c := by
    rintro after _ ⟨hgood, hinner, rfl⟩
    refine ⟨hgood.setDepth ?_, congrArg (· - 1) hinner, rfl⟩
    exact Nat.le_trans (Nat.sub_le _ _) hgood.now.depth_le
  unfold Routine.nested
  rw [if_neg (by omega)]
  generalize m _ = run, p t.now.cursor = reading at hrun
  cases hrun with
  | ok hab hstates => exact .ok hab (close hstates)
  | error he => exact .error ⟨close he.1, he.2⟩

theorem tracks_nested_full {m : Routine fuel τ} (hdepth : nestingLimit ≤ depth) :
    Tracks first depth (Routine.nested m) (Parser.fail .tooDeep) := by
  rintro t _ ⟨ht, hd, rfl⟩
  unfold Routine.nested
  rw [if_pos (hd ▸ hdepth)]
  exact .error ⟨⟨ht, hd, rfl⟩, rfl⟩

end Machine

end StaticCheck
