import StaticCheck.Proofs.Nodes
import StaticCheck.Proofs.Positions

/-! # Names are resolved lexically

The uses of names in a program are the identifiers in its expressions and the targets of its
assignments, each at its position.  The main result is `uses_resolve`: in a program that checks,
every use has a declaration in the sense of `Position.resolve`, and the checker takes the type of
that very declaration for it; a program with a use that has none does not check. -/

namespace StaticCheck

open Run Typing

/-! ### Uses of names -/

structure Use where
  pos : Position
  name : String
  span : Span
  /-- The value that is assigned to the name, if it is the target of an assignment. -/
  assigned : Option Expr

/-- The use of a name that a node is, if it is an identifier. -/
def Expr.use? (pos : Position) : Expr → Option Use
  | .ident name span => some ⟨pos, name, span, none⟩
  | _ => none

/-- The uses of names in an expression at a position. -/
def Expr.uses (pos : Position) (e : Expr) : List Use := e.nodes.filterMap (Expr.use? pos)

namespace Stmt

mutual

/-- The uses of names in a statement.  The initial value of a name stands behind the declaration of
the name, and the condition behind a body stands at the end of that body. -/
def uses (pos : Position) : Stmt → List Use
  | declare decl span => decl.init.elim [] fun e => e.uses (pos.behind (declare decl span))
  | assign target targetSpan value _ =>
    ⟨pos, target, targetSpan, some value⟩ :: value.uses pos
  | ifElse test ⟨stmts, _⟩ none _ => test.uses pos ++ usesAll (.body pos []) stmts
  | ifElse test ⟨stmts, _⟩ (some ⟨others, _⟩) _ =>
    test.uses pos ++ (usesAll (.body pos []) stmts ++ usesAll (.body pos []) others)
  | whileDo test ⟨stmts, _⟩ _ => test.uses pos ++ usesAll (.body pos []) stmts
  | doWhile ⟨stmts, _⟩ test _ => usesAll (.body pos []) stmts ++ test.uses (.body pos stmts)
  | block ⟨stmts, _⟩ _ => usesAll (.block pos []) stmts
  | expr value _ => value.uses pos
termination_by structural s => s

def usesAll (pos : Position) : List Stmt → List Use
  | [] => []
  | s :: rest => s.uses pos ++ usesAll (pos.behind s) rest
termination_by structural rest => rest

end

end Stmt

/-- All uses of names in a program, in the order in which they are checked. -/
def Program.uses (p : Program) : List Use := Stmt.usesAll (.program []) p.stmts

/-! ### What the checker makes of a use -/

/-- A use refers to a declaration, and the checker takes its type for the name: it finds that type
in its scope, and an assigned value has to fit it. -/
structure Use.RefersTo (u : Use) (decl : Declaration) : Prop where
  resolve : u.pos.resolve u.name = some decl
  lookup : u.pos.scope.lookup u.name u.span = .ok (.ofName decl.typeName)
  fits : ∀ value ∈ u.assigned, ∃ t, (value.check u.pos.scope).outcome = .ok t ∧
    t.fits (.ofName decl.typeName) = true

/-- The identifier and its type that an event records, if it is about an identifier. -/
def Event.reading? : Event → Option (String × Span × Ty)
  | .typed (.ident name span) ty => some (name, span, ty)
  | _ => none

/-- The identifier and the type of the declaration it refers to, for a use that is one. -/
def Use.reading? (u : Use) : Option (String × Span × Ty) :=
  match u.assigned with
  | some _ => none
  | none => (u.pos.resolve u.name).map fun decl => (u.name, u.span, .ofName decl.typeName)

/-- The uses all refer to declarations, and the events record their types. -/
structure Resolved (uses : List Use) (effects : Effects) : Prop where
  refers : ∀ u ∈ uses, ∃ decl, u.RefersTo decl
  readings : effects.events.filterMap Event.reading? = uses.filterMap Use.reading?

namespace Resolved

variable {us vs : List Use} {a b : Effects}

theorem append (ha : Resolved us a) (hb : Resolved vs b) : Resolved (us ++ vs) (a + b) where
  refers := List.forall_mem_append.2 ⟨ha.refers, hb.refers⟩
  readings := by
    rw [Effects.events_add, List.filterMap_append, List.filterMap_append, ha.readings, hb.readings]

/-- Effects that are not about identifiers go with no use. -/
theorem silent (h : a.events.filterMap Event.reading? = []) : Resolved [] a :=
  ⟨List.forall_mem_nil _, h⟩

theorem counted (m : Metrics) (h : Resolved us a) : Resolved us (⟨m, []⟩ + a) :=
  (silent rfl).append h

/-- The target of an assignment comes with no event of its own. -/
theorem cons_target {pos : Position} {name : String} {span : Span} {value : Expr}
    {decl : Declaration} (hu : (⟨pos, name, span, some value⟩ : Use).RefersTo decl)
    (h : Resolved us a) :
    Resolved (⟨pos, name, span, some value⟩ :: us) a where
  refers := List.forall_mem_cons.2 ⟨⟨decl, hu⟩, h.refers⟩
  readings := h.readings

theorem blockEffects (inner : Scope) (h : Resolved us a) :
    Resolved us (Stmt.blockEffects inner a) := by
  have hleft : Resolved (us ++ []) (a + ⟨0, [.left inner.depth]⟩) := h.append (silent rfl)
  rw [List.append_nil] at hleft
  exact (silent rfl).append hleft

end Resolved

/-! ### From the table to the declarations -/

theorem Position.Tracks.exists_resolve {pos : Position} (h : pos.Tracks) {name : String}
    {span : Span} {t : Ty} (hlook : pos.scope.lookup name span = .ok t) :
    ∃ decl, pos.resolve name = some decl ∧ Ty.ofName decl.typeName = t := by
  obtain ⟨b, hb, rfl⟩ := lookup_eq_ok_iff.1 hlook
  have hname := h name
  rw [hb, Option.map_some, eq_comm, Option.map_eq_some_iff] at hname
  exact hname

/-- An identifier that checks refers to a declaration, whose type it is given. -/
theorem ident_refersTo {pos : Position} {name : String} {span : Span} {t : Ty} (h : pos.Tracks)
    (ht : ((Expr.ident name span).check pos.scope).outcome = .ok t) :
    ∃ decl, (⟨pos, name, span, none⟩ : Use).RefersTo decl ∧ Ty.ofName decl.typeName = t := by
  rw [Expr.check, announce_eq_ok_iff, outcome_ofExcept] at ht
  obtain ⟨decl, hdecl, rfl⟩ := h.exists_resolve ht
  exact ⟨decl, ⟨hdecl, ht, by simp⟩, rfl⟩

theorem Expr.resolved {pos : Position} {e : Expr} {t : Ty} (h : pos.Tracks)
    (he : (e.check pos.scope).outcome = .ok t) :
    Resolved (e.uses pos) (e.check pos.scope).effects where
  refers := by
    intro u hu
    obtain ⟨n, hn, hu⟩ := List.mem_filterMap.1 hu
    obtain ⟨s, hs⟩ := exists_check_of_mem_nodes he hn
    cases n with
    | ident name span =>
      obtain rfl := Option.some.inj hu
      obtain ⟨decl, hdecl, -⟩ := ident_refersTo h hs
      exact ⟨decl, hdecl⟩
    | _ => cases hu
  readings := by
    rw [events_check he, List.filterMap_map, Expr.uses, List.filterMap_filterMap]
    refine List.filterMap_congr fun n hn => ?_
    obtain ⟨s, hs⟩ := exists_check_of_mem_nodes he hn
    cases n with
    | ident name span =>
      obtain ⟨decl, hdecl, rfl⟩ := ident_refersTo h hs
      simp [Event.reading?, Expr.use?, Use.reading?, typeIn_eq hs, hdecl.resolve]
    | _ => rfl

namespace Stmt

/-- A statement that checks has all its uses resolved, at whatever position it stands. -/
def ResolvesUses (s : Stmt) : Prop :=
  ∀ {pos : Position}, pos.Tracks → (s.check pos.scope).1.outcome = .ok () →
    Resolved (s.uses pos) (s.check pos.scope).1.effects

/-- From one statement to a list of statements: the position moves along with the scope. -/
theorem resolved_checkAll {stmts : List Stmt} (hstmts : ∀ s ∈ stmts, s.ResolvesUses)
    {pos : Position} (h : pos.Tracks) (hall : (checkAll pos.scope stmts).1.outcome = .ok ()) :
    Resolved (usesAll pos stmts) (checkAll pos.scope stmts).1.effects := by
  induction stmts generalizing pos with
  | nil => exact .silent rfl
  | cons s rest ih =>
    obtain ⟨hs, hrest⟩ := checkAll_cons_eq_ok_iff.1 hall
    obtain ⟨hhead, htail⟩ := List.forall_mem_cons.1 hstmts
    rw [checkAll_cons_effects hall, usesAll]
    rw [← pos.scope_behind s] at hrest ⊢
    exact (hhead h hs).append (ih htail (h.behind hs) hrest)

theorem resolved_body {stmts : List Stmt} (hstmts : ∀ s ∈ stmts, s.ResolvesUses) {pos : Position}
    (h : pos.Tracks) (hall : (checkAll pos.scope.enterBody stmts).1.outcome = .ok ()) :
    Resolved (usesAll (.body pos []) stmts)
      (blockEffects pos.scope.enterBody (checkAll pos.scope.enterBody stmts).1.effects) :=
  (resolved_checkAll hstmts h.body hall).blockEffects _

theorem resolved_declare (decl : Declaration) (span : Span) : (declare decl span).ResolvesUses := by
  intro pos h hok
  have hinit := (Declaration.check_eq_ok_iff.1 hok).2
  -- the initial value is checked where the name is bound already
  have behind : (pos.behind (declare decl span)).scope = decl.extend pos.scope := by
    rw [pos.scope_behind, check_scope hok]
    rfl
  have tracks := h.behind hok
  rw [check_declare, Declaration.check_effects hok, uses]
  cases hi : decl.init with
  | none => exact .silent rfl
  | some e =>
    obtain ⟨t, ht, -⟩ := hinit e hi
    rw [Option.elim_some, Option.elim_some]
    rw [← behind] at ht ⊢
    exact (Resolved.silent rfl).append (Expr.resolved tracks ht)

theorem resolved_assign (target : String) (targetSpan : Span) (value : Expr) (span : Span) :
    (assign target targetSpan value span).ResolvesUses := by
  intro pos h hok
  obtain ⟨declared, found, hlook, hfound, hfits⟩ := checkAssign_eq_ok_iff.1 hok
  obtain ⟨decl, hdecl, rfl⟩ := h.exists_resolve hlook
  have target_refers : (⟨pos, target, targetSpan, some value⟩ : Use).RefersTo decl := by
    refine ⟨hdecl, hlook, fun v hv => ?_⟩
    obtain rfl := Option.some.inj hv
    exact ⟨found, hfound, hfits⟩
  rw [check_assign, checkAssign_effects hok, uses]
  exact .cons_target target_refers (Expr.resolved h hfound)

theorem resolvesUses (s : Stmt) : s.ResolvesUses := by
  induction s with
  | declare decl span => exact resolved_declare decl span
  | assign target targetSpan value span => exact resolved_assign target targetSpan value span
  | ifThen test body span ih =>
    intro pos h hok
    obtain ⟨htest, hbody⟩ := check_ifThen_eq_ok_iff.1 hok
    rw [check_ifThen_effects hok, uses]
    exact ((Expr.resolved h htest).append (resolved_body ih h hbody)).counted _
  | ifElse test body other span ih ihOther =>
    intro pos h hok
    obtain ⟨htest, hbody, hother⟩ := check_ifElse_eq_ok_iff.1 hok
    rw [check_ifElse_effects hok, uses]
    exact ((Expr.resolved h htest).append
      ((resolved_body ih h hbody).append (resolved_body ihOther h hother))).counted _
  | whileDo test body span ih =>
    intro pos h hok
    obtain ⟨htest, hbody⟩ := check_whileDo_eq_ok_iff.1 hok
    rw [check_whileDo_effects hok, uses]
    exact ((Expr.resolved h htest).append (resolved_body ih h hbody)).counted _
  | doWhile body test span ih =>
    intro pos h hok
    obtain ⟨hbody, htest⟩ := check_doWhile_eq_ok_iff.1 hok
    -- the scope that the body leaves is the one at the end of its list
    rw [check_doWhile_effects hok, uses]
    rw [← Position.scope_body hbody] at htest ⊢
    exact ((resolved_body ih h hbody).append (Expr.resolved (h.body_end hbody) htest)).counted _
  | block body span ih =>
    intro pos h hok
    have hbody := check_block_eq_ok_iff.1 hok
    rw [check_block_effects hok, uses]
    exact (resolved_checkAll ih h.block hbody).blockEffects _
  | expr value span =>
    intro pos h hok
    obtain ⟨t, ht⟩ := check_expr_eq_ok_iff.1 hok
    rw [check_expr_effects hok, uses]
    exact Expr.resolved h ht

end Stmt

/-- **Names are resolved lexically.**  In a program that checks, every identifier and every target
of an assignment refers to the last declaration before it in the innermost list that has one, and
the checker takes the type of that declaration for it; the identifiers that the checker records, in
order, with their types, are the ones so resolved.  A program with a name that refers to no
declaration does not check. -/
theorem uses_resolve (p : Program) :
    (∀ m, p.analyze = .ok m →
      (∀ u ∈ p.uses, ∃ decl, u.RefersTo decl) ∧
        p.check.events.filterMap Event.reading? = p.uses.filterMap Use.reading?) ∧
      ((∃ u ∈ p.uses, u.pos.resolve u.name = none) → ∃ e, p.analyze = .error e) := by
  have resolved : ∀ m, p.analyze = .ok m →
      Resolved p.uses (Stmt.checkAll .empty p.stmts).1.effects :=
    fun m h => Stmt.resolved_checkAll (fun s _ => s.resolvesUses) Position.tracks_program
      (Program.analyze_eq_ok_iff.1 h).1
  refine ⟨fun m h => ⟨(resolved m h).refers, ?_⟩, ?_⟩
  · rw [Program.check_events h, List.filterMap_append]
    exact (List.append_nil _).trans (resolved m h).readings
  -- a check that succeeds would have resolved the use
  · rintro ⟨u, hu, hnone⟩
    cases h : p.analyze with
    | error e => exact ⟨e, rfl⟩
    | ok m =>
      obtain ⟨decl, hdecl⟩ := (resolved m h).refers u hu
      rw [hdecl.resolve] at hnone
      cases hnone

end StaticCheck
