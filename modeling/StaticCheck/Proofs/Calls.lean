import StaticCheck.Proofs.Tracking

/-! # Calls made one after the other

Every routine of a machine does what the parser for the same rule does, as long as the fuel exceeds
the levels that may still be opened and the items that can still be taken together: each call
inside another one opens a level, and each round of a repetition takes a token (`tracks_expr`,
`tracks_block`, `tracks_program`).

A machine that is left behind by a call, whatever came of it, is ready for the next one
(`Ready.next`).  So any number of calls from the beginning of a text on comes to an end, opens and
closes levels within the limit, and goes only forward (`soundCalls_of_ofSource`). -/

namespace StaticCheck

open Grammar TokenKind

namespace Machine

variable {first : Machine} {depth fuel room : Nat} {τ : Type}

/-! ### Levels -/

/-- Fuel for the levels that may still be opened and for the items lets expressions be read. -/
theorem tracks_expr (hdepth : depth + room = nestingLimit)
    (hfuel : room + first.cursor.remaining < fuel) :
    Tracks first depth (Routine.expression fuel) (Expr.parser room) ∧
      Tracks first depth (Routine.operand fuel) (Expr.operandParser room) := by
  induction fuel generalizing depth room with
  | zero => exact absurd hfuel (Nat.not_lt_zero _)
  | succ fuel ih =>
    rw [Routine.expression, Routine.operand]
    cases room with
    | zero =>
      rw [Expr.parser, Expr.operandParser]
      exact ⟨tracks_nested_full (by omega), tracks_nested_full (by omega)⟩
    | succ room =>
      rw [Expr.parser, Expr.operandParser]
      obtain ⟨hE, hO⟩ := @ih (depth + 1) room (by omega) (by omega)
      have hitems : first.cursor.remaining < fuel := by omega
      let L := lockstep first (depth + 1) hitems
      exact ⟨tracks_nested (L.alike_conditional hE hO) (by omega),
        tracks_nested (L.alike_unary hE hO) (by omega)⟩

theorem tracks_block (hdepth : depth + room = nestingLimit)
    (hfuel : room + first.cursor.remaining < fuel) :
    Tracks first depth (Routine.block fuel) (Stmt.blockParser room) := by
  induction fuel generalizing depth room with
  | zero => exact absurd hfuel (Nat.not_lt_zero _)
  | succ fuel ih =>
    rw [Routine.block]
    cases room with
    | zero =>
      rw [Stmt.blockParser]
      exact tracks_nested_full (by omega)
    | succ room =>
      rw [Stmt.blockParser]
      have hlevel : depth + 1 + room = nestingLimit := by omega
      have hrest : room + first.cursor.remaining < fuel := by omega
      have hitems : first.cursor.remaining < fuel := by omega
      let L := lockstep first (depth + 1) hitems
      have hstmt := L.alike_statement (tracks_expr hlevel hrest).1 (ih hlevel hrest)
      exact tracks_nested (L.alike_braces hstmt) (by omega)

theorem tracks_stmt (hdepth : depth + room = nestingLimit)
    (hfuel : room + first.cursor.remaining < fuel) :
    Tracks first depth (Routine.stmt fuel) (Stmt.parser room) :=
  (lockstep first depth (by omega)).alike_statement (tracks_expr hdepth hfuel).1
    (tracks_block hdepth hfuel)

theorem tracks_program (hfuel : nestingLimit + first.cursor.remaining < fuel) :
    Tracks first 0 (Routine.program fuel) Program.parser :=
  (lockstep first 0 (by omega)).alike_program (tracks_stmt (Nat.zero_add _) hfuel)

/-! ### What a routine takes -/

/-- If the routine succeeds in the state, tokens have been taken, one at least. -/
def Consumes (m : Routine fuel τ) (s : Machine) : Prop :=
  ∀ a t, m (.start s) = .ok a t → ∃ token taken, s.cursor.Takes (token :: taken) t.now.cursor

/-- The levels that may still be opened. -/
theorem Sound.exists_room {s : Machine} (h : first.Sound s) :
    ∃ room, s.depth + room = nestingLimit :=
  ⟨nestingLimit - s.depth, Nat.add_sub_cancel' h.depth_le⟩

theorem Tracks.consumes {s : Machine} {m : Routine fuel τ} {p : Parser τ} {P : Phrase TokenKind τ}
    (hm : Tracks s s.depth m p) (hs : s.Sound s)
    (hp : Parser.Prompt False Parser.Always p p (Parser.Words P))
    (hne : ∀ {ks a}, P ks a → ks ≠ []) : Consumes m s := by
  intro a t hrun
  have hresults := hm (.start s) s.cursor ⟨.start hs, rfl, rfl⟩
  rw [hrun] at hresults
  generalize hreading : p s.cursor = reading at hresults
  cases hresults with
  | ok _ hstates =>
    obtain ⟨-, -, rfl⟩ := hstates
    obtain ⟨ts, htakes, ⟨b, hphrase⟩, -⟩ := hp.ok trivial hreading
    have hts : ts ≠ [] := mt List.map_eq_nil_iff.2 (hne hphrase)
    obtain ⟨token, taken, rfl⟩ := List.exists_cons_of_ne_nil hts
    exact ⟨token, taken, htakes⟩

section consumes

variable {s : Machine} (hs : s.Sound s) (hfuel : nestingLimit + s.cursor.remaining < fuel)

include hs hfuel

theorem consumes_stmt : Consumes (Routine.stmt fuel) s := by
  obtain ⟨room, hdepth⟩ := hs.exists_room
  exact (tracks_stmt hdepth (by omega)).consumes hs (Parser.accepts_stmt room) fun h =>
    Parser.stmt_ne_nil _ _ h

theorem consumes_readers : ∀ routine ∈ Routine.readers fuel, Consumes routine s := by
  obtain ⟨room, hdepth⟩ := hs.exists_room
  have hitems : s.cursor.remaining < fuel := by omega
  obtain ⟨hE, hO⟩ := @tracks_expr s s.depth fuel room hdepth (by omega)
  let L := lockstep s s.depth hitems
  obtain ⟨hE', hO'⟩ := Parser.accepts_expr room
  simp only [Routine.readers, List.forall_mem_cons, List.not_mem_nil, false_imp_iff, implies_true,
    and_true]
  refine ⟨?_, ?_, ?_, ?_, ?_, ?_, ?_, ?_⟩
  · exact hE.consumes hs hE' fun h => (expr_opens h).ne_nil
  · exact Tracks.consumes (L.alike_conditional hE hO) hs (Parser.prompt_conditional hE' hO')
      fun h => h.opens.ne_nil
  · exact Tracks.consumes (L.alike_logical hE hO) hs (Parser.prompt_logical hE' hO')
      fun h => (Logic.opens h).ne_nil
  · exact Tracks.consumes (L.alike_comparison hE hO) hs (Parser.prompt_comparison hE' hO')
      fun h => h.opens.ne_nil
  · exact Tracks.consumes (L.alike_additive hE hO) hs (Parser.prompt_additive hE' hO')
      fun h => (Add.opens h).ne_nil
  · exact Tracks.consumes (L.alike_multiplicative hE hO) hs (Parser.prompt_multiplicative hE' hO')
      fun h => (Mul.opens h).ne_nil
  · exact Tracks.consumes (L.alike_unary hE hO) hs (Parser.prompt_unary hE' hO')
      fun h => h.opens.ne_nil
  · exact Tracks.consumes (L.alike_primary hE) hs (Parser.prompt_primary hE')
      fun h => h.opens.ne_nil

end consumes

/-! ### Calls -/

/-- The states of calls made one after the other, in the order of time. -/
def history (fuel : Nat) (s : Machine) (times : Nat) : List Machine :=
  (s.parses fuel times).flatMap fun call => call.2.states.reverse

/-- What a machine brings to a call: all levels are closed, and the fuel suffices. -/
structure Ready (fuel : Nat) (s : Machine) : Prop where
  sound : s.Sound s
  depth_eq : s.depth = 0
  fuel_gt : nestingLimit + s.cursor.remaining < fuel

namespace Ready

variable {s : Machine}

theorem parse (h : s.Ready fuel) : (s.parse fuel).2.Good s ∧ (s.parse fuel).2.now.depth = 0 ∧
    ∃ outcome, s.cursor.parseProgram = (outcome, (s.parse fuel).2.now.cursor) ∧
      (s.parse fuel).1 = outcome.mapError .fault := by
  have hresults := tracks_program h.fuel_gt (.start s) s.cursor ⟨.start h.sound, h.depth_eq, rfl⟩
  unfold Machine.parse Cursor.parseProgram
  generalize Routine.program fuel (.start s) = run, Program.parser s.cursor = reading at hresults
  cases hresults with
  | ok hsame hstates =>
    obtain ⟨hgood, hdepth, rfl⟩ := hstates
    obtain rfl := hsame trivial
    exact ⟨hgood, hdepth, _, rfl, rfl⟩
  | error he =>
    obtain ⟨⟨hgood, hdepth, rfl⟩, rfl⟩ := he
    exact ⟨hgood, hdepth, _, rfl, rfl⟩

/-- A call leaves a machine behind that is ready for the next one. -/
theorem next (h : s.Ready fuel) : (s.parse fuel).2.now.Ready fuel := by
  obtain ⟨hgood, hdepth, -⟩ := h.parse
  have hnow := hgood.now
  refine ⟨.refl hnow.ordered hnow.depth_le, hdepth, ?_⟩
  have hle := hnow.upTo.remaining_le
  have hfuel := h.fuel_gt
  omega

theorem parses_depth (h : s.Ready fuel) (times : Nat) :
    ∀ call ∈ s.parses fuel times, call.2.now.depth = 0 := by
  induction times generalizing s with
  | zero => exact List.forall_mem_nil _
  | succ times ih => exact List.forall_mem_cons.2 ⟨h.next.depth_eq, ih h.next⟩

/-- Calls come to what repeated readings of the text come to. -/
theorem parses_outcomes (h : s.Ready fuel) (times : Nat) : (s.parses fuel times).map Prod.fst =
    (s.cursor.parsePrograms times).map (Except.mapError Halt.fault) := by
  induction times generalizing s with
  | zero => rfl
  | succ times ih =>
    obtain ⟨-, -, outcome, hreading, houtcome⟩ := h.parse
    simp only [parses, Cursor.parsePrograms, hreading, List.map_cons, houtcome, ih h.next]

theorem history_succ (times : Nat) : s.history fuel (times + 1) =
    (s.parse fuel).2.states.reverse ++ (s.parse fuel).2.now.history fuel times := List.flatMap_cons

theorem sound_of_mem_history (h : s.Ready fuel) (times : Nat) :
    ∀ x ∈ s.history fuel times, s.Sound x := by
  induction times generalizing s with
  | zero => exact List.forall_mem_nil _
  | succ times ih =>
    obtain ⟨hgood, -⟩ := h.parse
    rw [history_succ]
    refine List.forall_mem_append.2 ⟨fun x hx => hgood.sound x (List.mem_reverse.1 hx), ?_⟩
    exact fun x hx => hgood.now.trans (ih h.next x hx)

/-- Nothing moves back, neither within a call nor from one call to the other. -/
theorem history_forward (h : s.Ready fuel) (times : Nat) :
    (s.history fuel times).Pairwise UpTo := by
  induction times generalizing s with
  | zero => exact List.Pairwise.nil
  | succ times ih =>
    obtain ⟨hgood, -⟩ := h.parse
    rw [history_succ]
    refine List.pairwise_append.2 ⟨List.pairwise_reverse.2 hgood.forward, ih h.next, ?_⟩
    intro earlier hearlier later hlater
    have hnow := hgood.upTo_now (List.mem_reverse.1 hearlier)
    exact hnow.trans (h.next.sound_of_mem_history times later hlater).upTo

/-- At the end of the text there is nothing to be read, and a call stays there. -/
theorem parse_of_eof (h : s.Ready fuel) (hend : s.current.kind = .eof) :
    (s.parse fuel).1 = .ok ⟨[], .point s.cursor.finish⟩ ∧
      (s.parse fuel).2.now.current.kind = .eof := by
  obtain ⟨-, -, outcome, hreading, houtcome⟩ := h.parse
  have hspan : s.cursor.current.span = .point s.cursor.finish :=
    congrArg Token.span (h.sound.ordered.stands.eq_atEnd hend)
  have hprogram : Program.parser s.cursor = .ok ⟨[], .point s.cursor.finish⟩ s.cursor := by
    refine program_eq_ok_iff.2 ⟨[], .nil _, hend, .nil, ?_⟩
    rw [hspan, Span.merge_self]
  rw [Cursor.parseProgram, hprogram] at hreading
  obtain ⟨rfl, hcursor⟩ := Prod.mk.inj hreading
  refine ⟨houtcome, ?_⟩
  have hcurrent : s.current = (s.parse fuel).2.now.current := congrArg Cursor.current hcursor
  rw [← hcurrent]
  exact hend

theorem parses_of_eof (h : s.Ready fuel) (hend : s.current.kind = .eof) (times : Nat) :
    ∀ call ∈ s.parses fuel times, call.1 = .ok ⟨[], .point s.cursor.finish⟩ := by
  induction times generalizing s with
  | zero => exact List.forall_mem_nil _
  | succ times ih =>
    obtain ⟨hparse, hnext⟩ := h.parse_of_eof hend
    refine List.forall_mem_cons.2 ⟨hparse, ?_⟩
    rw [← h.parse.1.now.cursor_finish]
    exact ih h.next hnext

/-- A call that succeeds leaves the machine at the end of the text. -/
theorem eof_of_parse (h : s.Ready fuel) {p : Program} (hparse : (s.parse fuel).1 = .ok p) :
    (s.parse fuel).2.now.current.kind = .eof := by
  obtain ⟨-, -, outcome, hreading, houtcome⟩ := h.parse
  rw [hparse] at houtcome
  unfold Cursor.parseProgram at hreading
  generalize hprogram : Program.parser s.cursor = reading at hreading
  cases reading with
  | error e d =>
    obtain ⟨rfl, -⟩ := Prod.mk.inj hreading
    cases houtcome
  | ok q d =>
    obtain ⟨-, rfl⟩ := Prod.mk.inj hreading
    obtain ⟨ts, -, hend, -⟩ := program_eq_ok_iff.1 hprogram
    exact hend

theorem parses_settled (h : s.Ready fuel) (times : Nat) :
    (s.parses fuel times).Pairwise fun earlier later =>
      (∃ p, earlier.1 = .ok p) → later.1 = .ok ⟨[], .point s.cursor.finish⟩ := by
  induction times generalizing s with
  | zero => exact List.Pairwise.nil
  | succ times ih =>
    have hfinish := h.parse.1.now.cursor_finish
    rw [← hfinish]
    refine List.pairwise_cons.2 ⟨?_, ih h.next⟩
    rintro later hlater ⟨p, hparse⟩
    exact h.next.parses_of_eof (h.eof_of_parse hparse) times later hlater

end Ready

/-! ### From the beginning of a text -/

theorem ofSource_eq_ok {source : String} {start : Machine} (h : ofSource source = .ok start) :
    Cursor.ofSource source = .ok start.cursor ∧ start.Ordered source.utf8ByteSize ∧
      start.depth = 0 := by
  have hlexer : (Lexer.ofSource source).Ordered 0 source.utf8ByteSize := by
    refine ⟨?_, Nat.le_refl _, nofun⟩
    rw [utf8ByteSize_eq]
    exact Nat.zero_add _
  have hgives := hlexer.gives
  have hcursor : ∀ (token : Token) (lexer : Lexer),
      lexer.offset + byteLength lexer.rest = source.utf8ByteSize →
      (⟨lexer, token, 0, 0⟩ : Machine).cursor =
        ⟨token, lexer.upcoming, byteLength source.toList, 0⟩ := by
    intro token lexer hsize
    rw [cursor, hsize, utf8ByteSize_eq]
  unfold ofSource at h
  unfold Cursor.ofSource
  generalize (Lexer.ofSource source).next = given at h hgives
  cases hgives with
  | token hup _ hstands hstart hafter =>
    cases h
    refine ⟨?_, ⟨hstart, hstands, hafter⟩, rfl⟩
    rw [hcursor _ _ hafter.size]
    simp only [show items source = _ from hup]
  | atEnd hup hnil hafter =>
    cases h
    refine ⟨?_, ⟨Nat.zero_le _, Token.stands_atEnd _, hafter⟩, rfl⟩
    rw [hcursor _ _ hafter.size, hnil]
    simp only [show items source = _ from hup, utf8ByteSize_eq]
  | error => cases h

/-- What holds of calls made one after the other, whatever each of them comes to. -/
structure SoundCalls (source : String) (fuel times : Nat) (start : Machine) : Prop where
  /-- Every call comes to an end, with the outcome of the reading of the text. -/
  outcomes : ∃ outcomes, parseRepeatedly source times = .ok outcomes ∧
    (start.parses fuel times).map Prod.fst = outcomes.map (Except.mapError Halt.fault)
  /-- All levels are closed between the calls. -/
  closed : start.depth = 0 ∧ ∀ call ∈ start.parses fuel times, call.2.now.depth = 0
  /-- There are never too many open levels. -/
  depth_le : ∀ s ∈ start.history fuel times, s.depth ≤ nestingLimit
  /-- The tokens and the lexer stand in the order of the text. -/
  ordered : ∀ s ∈ start.history fuel times, s.Ordered source.utf8ByteSize
  /-- What reads a statement or an expression takes a token of it, in whatever state it begins. -/
  consumes : ∀ s ∈ start.history fuel times, Consumes (Routine.stmt fuel) s ∧
    ∀ routine ∈ Routine.readers fuel, Consumes routine s
  /-- Nothing ever moves back. -/
  forward : (start.history fuel times).Pairwise UpTo
  /-- After a call that succeeds there is nothing left to be read. -/
  settled : (start.parses fuel times).Pairwise fun earlier later =>
    (∃ p, earlier.1 = .ok p) → later.1 = .ok ⟨[], .point source.utf8ByteSize⟩

/-- **Calls are sound** from the beginning of a text on, with fuel for the levels and for the items
of the text. -/
theorem soundCalls_of_ofSource {source : String} {start : Machine} (h : ofSource source = .ok start)
    (hfuel : nestingLimit + start.cursor.remaining < fuel) (times : Nat) :
    start.SoundCalls source fuel times := by
  obtain ⟨hcursor, hordered, hdepth⟩ := ofSource_eq_ok h
  have hready : start.Ready fuel := ⟨.refl hordered (hdepth ▸ Nat.zero_le _), hdepth, hfuel⟩
  have hsound := hready.sound_of_mem_history times
  have hfinish := hordered.cursor_finish
  constructor
  · refine ⟨start.cursor.parsePrograms times, ?_, hready.parses_outcomes times⟩
    rw [parseRepeatedly, hcursor]
    rfl
  · exact ⟨hdepth, hready.parses_depth times⟩
  · exact fun s hs => (hsound s hs).depth_le
  · exact fun s hs => hfinish ▸ (hsound s hs).ordered
  · intro s hs
    have hself : s.Sound s := .refl (hsound s hs).ordered (hsound s hs).depth_le
    have hitems : nestingLimit + s.cursor.remaining < fuel := by
      have hle := (hsound s hs).upTo.remaining_le
      omega
    exact ⟨consumes_stmt hself hitems, consumes_readers hself hitems⟩
  · exact hready.history_forward times
  · exact hfinish ▸ hready.parses_settled times

/-- The look behind the first name meets a stray character; the second call passes it and reads two
statements, and nothing is left for the third. -/
theorem soundCalls_past_stray_char : ∃ start, ofSource "a # b; 1;" = .ok start ∧
    nestingLimit + start.cursor.remaining < 110 ∧ start.SoundCalls "a # b; 1;" 110 3 ∧
    (start.parses 110 3).map (fun call => call.1.toOption.map fun p => p.stmts.length) =
      [none, some 2, some 0] := by
  refine ⟨⟨⟨" # b; 1;".toList, 1, none⟩, ⟨.ident "a", ⟨0, 1⟩⟩, 0, 0⟩, ?_, ?_, ?_, ?_⟩
  · decide +kernel
  · decide +kernel
  · exact soundCalls_of_ofSource (by decide +kernel) (by decide +kernel) 3
  · decide +kernel

end Machine

end StaticCheck
