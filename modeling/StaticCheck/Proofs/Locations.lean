import StaticCheck.Proofs.Grammar.Parts
import StaticCheck.Proofs.Invariants
import StaticCheck.Proofs.Slices

/-! # Where failures are reported

A failure of a text is reported at a span of that text whose ends are boundaries between characters.
The span is empty only where reading stopped at the end of the text.  A violation that is about a
name shows the name, or the whole declaration or assignment that gives the name a value of another
type (`exists_reported`).

All spans come from tokens: a node covers the tokens it is derived from, and these stand together in
the text.  The text under a statement is therefore read as that statement alone (`parse_part`). -/

namespace StaticCheck

open Grammar

/-! ### Statements that give a name a value -/

namespace Stmt

/-- The name that a statement declares or assigns to. -/
def bound? : Stmt → Option String
  | declare decl _ => some decl.name
  | assign target _ _ _ => some target
  | _ => none

theorem bound?_mapSpan (σ : Span → Span) (s : Stmt) : (s.mapSpan σ).bound? = s.bound? := by
  cases s with
  | declare | assign | expr => rfl
  | ifElse test thenBlock elseBlock span =>
    rw [mapSpan_ifElse]
    rfl
  | whileDo test body span =>
    rw [mapSpan_whileDo]
    rfl
  | doWhile body test span =>
    rw [mapSpan_doWhile]
    rfl
  | block body span =>
    rw [mapSpan_block]
    rfl

end Stmt

namespace Grammar

variable {α : Type} {A : Alphabet α} {levels : Nat} {ts : List α}

/-- A declaration or an assignment shows its name and ends with a semicolon. -/
theorem stmt_bound {s : Stmt} {name : String} (h : stmt A levels ts s)
    (hname : s.bound? = some name) :
    (∃ t ∈ ts, A.kind t = .ident name ∧ s.nameSpan? = some (A.span [t])) ∧
      (∃ us semi, ts = us ++ [semi] ∧ A.kind semi = .punct .semicolon) ∧ s.span = A.span ts := by
  cases h with
  | @declare type x semi us _ _ _ _ hx _ hsemi =>
    cases hname
    exact ⟨⟨x, by simp, hx, rfl⟩, ⟨type :: x :: us, semi, rfl, hsemi⟩, rfl⟩
  | @assign x eq semi us _ _ hx _ _ hsemi =>
    cases hname
    exact ⟨⟨x, by simp, hx, rfl⟩, ⟨x :: eq :: us, semi, rfl, hsemi⟩, rfl⟩
  | ifElse | whileDo | doWhile | block | expr => cases hname

theorem stmt_declare_span {decl : Declaration} {span : Span}
    (h : stmt A levels ts (.declare decl span)) : decl.span = span := by
  cases h
  rfl

end Grammar

/-! ### The tokens of a program -/

/-- The tokens of a program, and where the statements and nodes stand among them. -/
theorem exists_tokens_of_parse {source : String} {p : Program} (h : parse source = .ok p) :
    ∃ ts : List Token, items source = ts.map .ok ∧
      (∀ s ∈ p.stmtNodes, Within (stmt .tokens nestingLimit) ts s) ∧
      ∀ x ∈ p.exprNodes, Within (node .tokens (nestingLimit - 1)) ts x := by
  obtain ⟨us, stop, htokens, hstmts, -⟩ := parse_eq_ok_iff.1 h
  obtain ⟨ts, hitems, hts⟩ := tokenize_eq_ok_iff.1 htokens
  obtain ⟨rfl, -⟩ := List.append_inj' hts rfl
  have hwithin : ∀ s ∈ p.stmtNodes, Within (stmt .tokens nestingLimit) us s :=
    contains_many (stmt_contains_stmts nestingLimit) us p.stmts hstmts
  refine ⟨us, hitems, hwithin, fun x hx => ?_⟩
  obtain ⟨s, hs, hx⟩ := List.mem_flatMap.1 hx
  obtain ⟨e, he, hx⟩ := List.mem_flatMap.1 hx
  obtain ⟨vs, hvs, hstmt⟩ := hwithin s hs
  exact (stmt_contains_nodes (Nat.le_refl nestingLimit) hstmt he hx).mono hvs

theorem exists_program_of_any {source : String} {test : Program → Bool}
    (h : (parse source).toOption.any test = true) : ∃ p, parse source = .ok p ∧ test p = true := by
  cases hparse : parse source with
  | error e =>
    rw [hparse] at h
    cases h
  | ok p =>
    rw [hparse] at h
    exact ⟨p, rfl, h⟩

section slices

variable {source : String} {ts us : List Token}

theorem mem_items_of_part (hitems : items source = ts.map .ok) (hus : us <:+: ts) :
    ∀ t ∈ us, .ok t ∈ items source := by
  intro t ht
  rw [hitems]
  exact List.mem_map_of_mem (hus.subset ht)

theorem items_around (hitems : items source = ts.map .ok) (hus : us <:+: ts) :
    ∃ its₁ its₂, items source = its₁ ++ us.map .ok ++ its₂ := by
  obtain ⟨before, after, rfl⟩ := hus
  refine ⟨before.map .ok, after.map .ok, ?_⟩
  rw [hitems, List.map_append, List.map_append]

/-- A node stands on the text from its first token to its last one. -/
theorem located_of_within {x : Expr} {levels : Nat} (hitems : items source = ts.map .ok)
    (h : Within (node .tokens levels) ts x) : x.span.Located source := by
  obtain ⟨us, hus, hnode⟩ := h
  have hspan : x.span = Alphabet.cover us := hnode.span_eq
  rw [hspan]
  refine located_cover hnode.opens.ne_nil fun t ht => ?_
  exact located_of_mem_items (mem_items_of_part hitems hus t ht)

/-- A token that is a name shows the name. -/
theorem shows_of_ident {t : Token} {name : String} (ht : .ok t ∈ items source)
    (hkind : t.kind = .ident name) : name ≠ "" ∧ t.span.Shows source name := by
  have hshows := shows_of_mem_items ht
  rwa [hkind] at hshows

/-- A text whose tokens derive a statement is read as that statement. -/
theorem exists_parse_of_stmt {s : Stmt} (hitems : items source = ts.map .ok)
    (h : stmt .tokens nestingLimit ts s) : ∃ q, parse source = .ok q ∧ q.stmts = [s] := by
  have htokens : tokenize source = .ok (ts ++ [.atEnd (byteLength source.toList)]) :=
    tokenize_eq_ok_iff.2 ⟨ts, hitems, rfl⟩
  have hmany : Many (stmt .tokens nestingLimit) ts [s] := by
    have hcons := Many.cons h .nil
    rwa [List.append_nil] at hcons
  exact ⟨⟨[s], _⟩, parse_eq_ok_iff.2 ⟨ts, _, htokens, hmany, rfl⟩, rfl⟩

/-- The text under a statement is read as that statement, placed from the start of the text. -/
theorem parse_part {s : Stmt} {last : Token} (hitems : items source = ts.map .ok)
    (hus : us ++ [last] <:+: ts) (h : stmt .tokens nestingLimit (us ++ [last]) s) :
    ∃ text front, s.span.Shows source text ∧ text = front ++ last.kind.spelling ∧
      ∃ q t, parse text = .ok q ∧ q.stmts = [t] ∧ t.mapSpan (Span.shift s.span.start) = s := by
  obtain ⟨its₁, its₂, hsplit⟩ := items_around hitems hus
  have hspan : s.span = Alphabet.cover (us ++ [last]) := stmt_span_eq h
  obtain ⟨text, front, vs, hshows, htext, hvs, hshift⟩ := exists_slice hsplit
  rw [← hspan] at hshows hshift
  -- the tokens of the slice are those of the statement, placed further to the left
  rw [hshift] at h
  obtain ⟨t, ht, hmap⟩ := (carries_stmt (translation_shift _) nestingLimit vs s).1 h
  obtain ⟨q, hq, hstmts⟩ := exists_parse_of_stmt hvs ht
  exact ⟨text, front, hshows, htext, q, t, hq, hstmts, hmap⟩

/-- The text under a declaration or an assignment ends with a semicolon, and is read as one
statement that gives the same name a value. -/
theorem parse_slice {s : Stmt} {name : String} (hitems : items source = ts.map .ok)
    (hus : us <:+: ts) (h : stmt .tokens nestingLimit us s) (hname : s.bound? = some name) :
    ∃ text, text ≠ "" ∧ s.span.Shows source text ∧ (∃ front, text = front ++ ";") ∧
      ∃ q t, parse text = .ok q ∧ q.stmts = [t] ∧ t.bound? = some name := by
  obtain ⟨-, ⟨ws, semi, rfl, hsemi⟩, -⟩ := stmt_bound h hname
  obtain ⟨text, front, hshows, htext, q, t, hq, hstmts, hmap⟩ := parse_part hitems hus h
  have hsemi : semi.kind = .punct .semicolon := hsemi
  rw [hsemi] at htext
  refine ⟨text, ?_, hshows, ⟨front, htext⟩, q, t, hq, hstmts, ?_⟩
  · rintro rfl
    have hlength := congrArg String.utf8ByteSize htext
    rw [String.utf8ByteSize_append] at hlength
    change 0 = _ + 1 at hlength
    omega
  · rwa [← hmap, Stmt.bound?_mapSpan] at hname

end slices

/-! ### Violations -/

/-- What a violation says about the text it is reported at. -/
def SemanticError.Describes (source text : String) : SemanticError → Prop
  | undeclared name _ => text = name
  | redeclared name _ => text = name
  | condition _ => True
  | expression _ => True
  | assignment name span =>
    (∃ front, text = front ++ ";") ∧
      (∃ q t, parse text = .ok q ∧ q.stmts = [t] ∧ t.bound? = some name) ∧
      ∃ p s, parse source = .ok p ∧ s ∈ p.stmtNodes ∧ s.span = span ∧ s.bound? = some name

section violations

variable {source : String} {p : Program} {err : SemanticError}

/-- A violation of an expression is reported at a text. -/
theorem describes_of_expr {ts : List Token} {e : Expr} {levels : Nat}
    (hitems : items source = ts.map .ok)
    (hnodes : ∀ x ∈ e.nodes, Within (node .tokens levels) ts x)
    (h : Expr.Offence e.nodes err) :
    ∃ text, text ≠ "" ∧ err.span.Shows source text ∧ err.Describes source text := by
  have hlocated : ∀ x ∈ e.nodes, x.span.Located source := fun x hx =>
    located_of_within hitems (hnodes x hx)
  cases h with
  | undeclared hx =>
    obtain ⟨us, hus, hnode⟩ := hnodes _ hx
    have hspan := hnode.span_eq
    obtain ⟨t, rfl, hkind⟩ := hnode.ident_inv
    have ht := mem_items_of_part hitems hus t (List.mem_singleton_self t)
    obtain ⟨hne, hshows⟩ := shows_of_ident ht hkind
    rw [Alphabet.span_tokens, Alphabet.cover_singleton] at hspan
    rw [← hspan] at hshows
    exact ⟨_, hne, hshows, rfl⟩
  | expression hx =>
    obtain ⟨text, hne, hshows⟩ := (hlocated _ hx).exists_shows
    exact ⟨text, hne, hshows, trivial⟩
  | condition hx =>
    obtain ⟨text, hne, hshows⟩ := (hlocated _ hx).exists_shows
    exact ⟨text, hne, hshows, trivial⟩
  | @comparison left right op span hx =>
    have hleft := hlocated left (Expr.mem_nodes_of_mem_nodes hx (by simp [Expr.children]))
    have hright := hlocated right (Expr.mem_nodes_of_mem_nodes hx (by simp [Expr.children]))
    obtain ⟨text, hne, hshows⟩ := (hleft.merge hright).exists_shows
    exact ⟨text, hne, hshows, trivial⟩

/-- A violation about the name of a statement is reported at the name. -/
theorem shows_of_bound {ts us : List Token} {s : Stmt} {name : String} {span : Span}
    (hitems : items source = ts.map .ok) (hus : us <:+: ts)
    (h : stmt .tokens nestingLimit us s) (hname : s.bound? = some name)
    (hspan : s.nameSpan? = some span) : name ≠ "" ∧ span.Shows source name := by
  obtain ⟨⟨t, ht, hkind, htspan⟩, -, -⟩ := stmt_bound h hname
  rw [Alphabet.span_tokens, Alphabet.cover_singleton, hspan] at htspan
  rw [Option.some.inj htspan]
  exact shows_of_ident (mem_items_of_part hitems hus t ht) hkind

/-- A violation about the value of a statement is reported at the statement. -/
theorem describes_assignment {ts : List Token} {s : Stmt} {name : String}
    (hparse : parse source = .ok p) (hitems : items source = ts.map .ok) (hs : s ∈ p.stmtNodes)
    (hwithin : Within (stmt .tokens nestingLimit) ts s) (hname : s.bound? = some name) :
    ∃ text, text ≠ "" ∧ s.span.Shows source text ∧
      SemanticError.Describes source text (.assignment name s.span) := by
  obtain ⟨us, hus, hstmt⟩ := hwithin
  obtain ⟨text, hne, hshows, hsemi, hslice⟩ := parse_slice hitems hus hstmt hname
  exact ⟨text, hne, hshows, hsemi, hslice, p, s, hparse, hs, rfl, hname⟩

theorem describes_of_offence (hparse : parse source = .ok p)
    (h : Stmt.Offence p.stmtNodes err) :
    ∃ text, text ≠ "" ∧ err.span.Shows source text ∧ err.Describes source text := by
  obtain ⟨ts, hitems, hstmts, hnodes⟩ := exists_tokens_of_parse hparse
  cases h with
  | expr hs he herr =>
    refine describes_of_expr hitems (fun x hx => hnodes x ?_) herr
    exact List.mem_flatMap.2 ⟨_, hs, List.mem_flatMap.2 ⟨_, he, hx⟩⟩
  | redeclared hs =>
    obtain ⟨us, hus, hstmt⟩ := hstmts _ hs
    obtain ⟨hne, hshows⟩ := shows_of_bound hitems hus hstmt rfl rfl
    exact ⟨_, hne, hshows, rfl⟩
  | undeclared hs =>
    obtain ⟨us, hus, hstmt⟩ := hstmts _ hs
    obtain ⟨hne, hshows⟩ := shows_of_bound hitems hus hstmt rfl rfl
    exact ⟨_, hne, hshows, rfl⟩
  | initial hs =>
    obtain ⟨us, hus, hstmt⟩ := hstmts _ hs
    rw [stmt_declare_span hstmt]
    exact describes_assignment hparse hitems hs ⟨us, hus, hstmt⟩ rfl
  | assigned hs => exact describes_assignment hparse hitems hs (hstmts _ hs) rfl

/-- A text that is read as a program fails with a violation of that program. -/
theorem offence_of_check {failure : Failure} (hparse : parse source = .ok p)
    (h : check source = .error failure) :
    ∃ err, failure = .semantic err ∧ Stmt.Offence p.stmtNodes err := by
  rw [check_of_parse_ok hparse] at h
  cases hanalyze : p.analyze with
  | ok metrics =>
    rw [hanalyze] at h
    cases h
  | error err =>
    rw [hanalyze] at h
    cases h
    exact ⟨err, rfl, Program.offence_of_analyze hanalyze⟩

end violations

/-! ### Failures -/

/-- The failure is reported at the span, under which the text stands. -/
structure Failure.Reported (failure : Failure) (source : String) (span : Span) (text : String) :
    Prop where
  span_eq : failure.span? = some span
  shows : span.Shows source text
  start_le_stop : span.start ≤ span.stop
  stop_le : span.stop ≤ source.utf8ByteSize
  start_valid : String.Pos.Raw.IsValid source ⟨span.start⟩
  stop_valid : String.Pos.Raw.IsValid source ⟨span.stop⟩
  start_lt_stop : span.start < span.stop ∨
    (∃ detail, failure = .syntactic detail span) ∧ span = .point source.utf8ByteSize
  describes : ∀ err, failure = .semantic err → err.Describes source text

section failures

variable {source text : String} {failure : Failure} {span : Span}

theorem Failure.reported_of_shows (hspan : failure.span? = some span)
    (hshows : span.Shows source text) (hne : text ≠ "")
    (hdescribes : ∀ err, failure = .semantic err → err.Describes source text) :
    failure.Reported source span text where
  span_eq := hspan
  shows := hshows
  start_le_stop := hshows.le.1
  stop_le := hshows.le.2
  start_valid := hshows.valid.1
  stop_valid := hshows.valid.2
  start_lt_stop := .inl (hshows.located hne).start_lt_stop
  describes := hdescribes

/-- What fails in reading is reported at the text that was read last. -/
theorem Failure.exists_reported_of_located (hspan : failure.span? = some span)
    (h : span.Located source) (hreading : ∀ err, failure ≠ .semantic err) :
    ∃ span text, failure.Reported source span text := by
  obtain ⟨text, hne, hshows⟩ := h.exists_shows
  exact ⟨span, text, reported_of_shows hspan hshows hne fun err herr => absurd herr (hreading err)⟩

theorem Failure.reported_atEnd (detail : String) (source : String) :
    Failure.Reported (.syntactic detail (.point source.utf8ByteSize)) source
      (.point source.utf8ByteSize) "" := by
  have hshows : Span.Shows (.point source.utf8ByteSize) source "" := by
    refine ⟨source, "", ?_, rfl⟩
    rw [String.append_empty, String.append_empty]
  exact {
    span_eq := rfl
    shows := hshows
    start_le_stop := hshows.le.1
    stop_le := hshows.le.2
    start_valid := hshows.valid.1
    stop_valid := hshows.valid.2
    start_lt_stop := .inr ⟨⟨detail, rfl⟩, rfl⟩
    describes := nofun }

theorem exists_reported_of_parse_error {e : ReadError} (h : parse source = .error e) :
    ∃ span text, (Failure.ofReadError e).Reported source span text := by
  rcases parse_error_cases h with ⟨lexical, us, rest, rfl, hitems⟩ | ⟨fault, t, rfl, hreach⟩
  · refine Failure.exists_reported_of_located rfl (located_of_lexical ?_) nofun
    rw [hitems]
    exact List.mem_append_right _ List.mem_cons_self
  · generalize hits : items source = its at hreach
    cases hreach with
    | token taken t rest =>
      refine Failure.exists_reported_of_located rfl (located_of_mem_items ?_) nofun
      rw [hits]
      exact List.mem_append_right _ List.mem_cons_self
    | atEnd taken =>
      rw [← utf8ByteSize_eq]
      exact ⟨_, _, Failure.reported_atEnd fault.detail source⟩

/-- **Every failure can be found in the text.**  A failure is reported at a span of the text between
boundaries of characters, and the span is empty only where reading stopped at the end of the text.
Under the span of a violation about a name stands the name, or the whole declaration or assignment
of the name. -/
theorem exists_reported (h : check source = .error failure) :
    ∃ span text, failure.Reported source span text := by
  cases hparse : parse source with
  | error e =>
    rw [check_of_parse_error hparse] at h
    cases h
    exact exists_reported_of_parse_error hparse
  | ok p =>
    obtain ⟨err, rfl, hoffence⟩ := offence_of_check hparse h
    obtain ⟨text, hne, hshows, hdescribes⟩ := describes_of_offence hparse hoffence
    refine ⟨err.span, text, Failure.reported_of_shows rfl hshows hne fun other hother => ?_⟩
    cases hother
    exact hdescribes

end failures

/-- A value of another type, behind a comment with characters of several bytes. -/
theorem exists_reported_assignment :
    check "/* é→ */ int x = 1.5;" = .error (.semantic (.assignment "x" ⟨12, 24⟩)) ∧
      ∃ span text, Failure.Reported (.semantic (.assignment "x" ⟨12, 24⟩)) "/* é→ */ int x = 1.5;"
        span text := by
  have hcheck : check "/* é→ */ int x = 1.5;" =
      .error (.semantic (.assignment "x" ⟨12, 24⟩)) := by
    decide +kernel
  exact ⟨hcheck, exists_reported hcheck⟩

end StaticCheck
