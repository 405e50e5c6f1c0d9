import Mathlib.Logic.Relation
import Mathlib.Tactic.Abel
import StaticCheck.Proofs.Bindings
import StaticCheck.Proofs.Constructs
import StaticCheck.Proofs.Freshness

/-! # Statements that change places

A statement that is no declaration leaves the scope as it finds it.  So it can be left out, and it
can change places with a neighbour that is no declaration either; and the two blocks of a branch,
which are checked in scopes of their own, can change places as well.  `Replaces` says that a list of
statements checks wherever another one does, and with the same scope behind it.  Every edit has this
property, at any depth, because it passes from a block to the statement around it (`Edit.replaces`).

The main result is `analyze_interchange`: a program that checks still does after any number of such
edits, and its metrics are lower by what was left out. -/

namespace StaticCheck

namespace Stmt

/-! ### Edits -/

/-- Two statements at the front of a list, neither of them a declaration, change places, or the two
blocks of its first statement do. -/
inductive Swaps : List Stmt → List Stmt → Prop
  | neighbours {s t : Stmt} {rest : List Stmt} : s.declaration? = none → t.declaration? = none →
      Swaps (s :: t :: rest) (t :: s :: rest)
  | branches {test : Expr} {body other : Block Stmt} {span : Span} {rest : List Stmt} :
      Swaps (.ifElse test body (some other) span :: rest)
        (.ifElse test other (some body) span :: rest)

/-- The statement `s` at the front of a list, which is no declaration, is left out. -/
inductive Deletes (s : Stmt) : List Stmt → List Stmt → Prop
  | front {rest : List Stmt} : s.declaration? = none → Deletes s (s :: rest) rest

/-- Any number of swaps and deletions, one after the other and each at any place.  The constructs of
the statements that were left out add up to `removed`. -/
inductive Edited : Metrics → List Stmt → List Stmt → Prop
  | refl (stmts : List Stmt) : Edited 0 stmts stmts
  | swap {removed : Metrics} {stmts stmts' stmts'' : List Stmt} : Edited removed stmts stmts' →
      Edit Swaps stmts' stmts'' → Edited removed stmts stmts''
  | delete {removed : Metrics} {s : Stmt} {stmts stmts' stmts'' : List Stmt} :
      Edited removed stmts stmts' → Edit (Deletes s) stmts' stmts'' →
      Edited (removed + s.constructs) stmts stmts''

theorem Swaps.symm {stmts stmts' : List Stmt} (h : Swaps stmts stmts') : Swaps stmts' stmts := by
  cases h with
  | neighbours hs ht => exact .neighbours ht hs
  | branches => exact .branches

theorem Edit.symm {R : List Stmt → List Stmt → Prop}
    (hR : ∀ {rest rest'}, R rest rest' → R rest' rest) {stmts stmts' : List Stmt}
    (h : Edit R stmts stmts') : Edit R stmts' stmts := by
  induction h with
  | here h => exact .here (hR h)
  | later _ ih => exact .later ih
  | thenBlock _ ih => exact .thenBlock ih
  | elseBlock _ ih => exact .elseBlock ih
  | whileBody _ ih => exact .whileBody ih
  | doBody _ ih => exact .doBody ih
  | block _ ih => exact .block ih

/-! ### Checks -/

/-- Wherever the first list checks, the second one does, and the same scope is behind it. -/
def Replaces (stmts stmts' : List Stmt) : Prop :=
  ∀ scope, (checkAll scope stmts).1.outcome = .ok () →
    (checkAll scope stmts').1.outcome = .ok () ∧
      (checkAll scope stmts').2 = (checkAll scope stmts).2

theorem replaces_cons {s s' : Stmt} {rest rest' : List Stmt}
    (hs : ∀ scope, (s.check scope).1.outcome = .ok () →
      (s'.check scope).1.outcome = .ok () ∧ (s'.check scope).2 = (s.check scope).2)
    (hrest : Replaces rest rest') : Replaces (s :: rest) (s' :: rest') := by
  intro scope h
  obtain ⟨hfirst, hmore⟩ := checkAll_cons_eq_ok_iff.1 h
  obtain ⟨hfirst', hscope⟩ := hs scope hfirst
  obtain ⟨hmore', hlast⟩ := hrest _ hmore
  rw [← hscope] at hmore'
  refine ⟨checkAll_cons_eq_ok_iff.2 ⟨hfirst', hmore'⟩, ?_⟩
  rw [checkAll_cons_of_ok hfirst, checkAll_cons_of_ok hfirst', hscope, hlast]

theorem replaces_refl (stmts : List Stmt) : Replaces stmts stmts := fun _ h => ⟨h, rfl⟩

theorem Replaces.trans {stmts stmts' stmts'' : List Stmt} (h : Replaces stmts stmts')
    (h' : Replaces stmts' stmts'') : Replaces stmts stmts'' := by
  intro scope hok
  obtain ⟨hok', hscope⟩ := h scope hok
  obtain ⟨hok'', hscope'⟩ := h' scope hok'
  exact ⟨hok'', hscope'.trans hscope⟩

section silent

variable {s : Stmt} {scope : Scope} {rest : List Stmt} (hs : s.declaration? = none)

include hs

/-- What follows a statement that is no declaration is checked as if it stood alone. -/
theorem checkAll_cons_silent_eq_ok_iff : (checkAll scope (s :: rest)).1.outcome = .ok () ↔
    (s.check scope).1.outcome = .ok () ∧ (checkAll scope rest).1.outcome = .ok () := by
  rw [checkAll_cons_eq_ok_iff, check_scope_of_not_declaration hs]

theorem checkAll_cons_silent_scope (h : (s.check scope).1.outcome = .ok ()) :
    (checkAll scope (s :: rest)).2 = (checkAll scope rest).2 := by
  rw [checkAll_cons_of_ok h, check_scope_of_not_declaration hs]

end silent

theorem Swaps.replaces {stmts stmts' : List Stmt} (h : Swaps stmts stmts') :
    Replaces stmts stmts' := by
  cases h with
  | neighbours hs ht =>
    intro scope hok
    obtain ⟨hfirst, hok⟩ := (checkAll_cons_silent_eq_ok_iff hs).1 hok
    obtain ⟨hsecond, hok⟩ := (checkAll_cons_silent_eq_ok_iff ht).1 hok
    constructor
    · rw [checkAll_cons_silent_eq_ok_iff ht, checkAll_cons_silent_eq_ok_iff hs]
      exact ⟨hsecond, hfirst, hok⟩
    · rw [checkAll_cons_silent_scope ht hsecond, checkAll_cons_silent_scope hs hfirst,
        checkAll_cons_silent_scope hs hfirst, checkAll_cons_silent_scope ht hsecond]
  | branches =>
    refine replaces_cons (fun scope hok => ?_) (replaces_refl _)
    obtain ⟨htest, hbody, hother⟩ := check_ifElse_eq_ok_iff.1 hok
    exact ⟨check_ifElse_eq_ok_iff.2 ⟨htest, hother, hbody⟩, rfl⟩

theorem Deletes.replaces {s : Stmt} {stmts stmts' : List Stmt} (h : Deletes s stmts stmts') :
    Replaces stmts stmts' := by
  cases h with
  | front hs =>
    intro scope hok
    obtain ⟨hfirst, hok⟩ := (checkAll_cons_silent_eq_ok_iff hs).1 hok
    exact ⟨hok, (checkAll_cons_silent_scope hs hfirst).symm⟩

/-- An edit deep inside a list of statements replaces the whole list: each statement around it still
checks, and none of them sees another scope. -/
theorem Edit.replaces {R : List Stmt → List Stmt → Prop}
    (hR : ∀ {rest rest'}, R rest rest' → Replaces rest rest') {stmts stmts' : List Stmt}
    (h : Edit R stmts stmts') : Replaces stmts stmts' := by
  induction h with
  | here h => exact hR h
  | later _ ih => exact replaces_cons (fun _ hok => ⟨hok, rfl⟩) ih
  | @thenBlock test stmts stmts' rest bodySpan span other _ ih =>
    refine replaces_cons (fun scope hok => ?_) (replaces_refl rest)
    cases other with
    | none =>
      obtain ⟨htest, hbody⟩ := check_ifThen_eq_ok_iff.1 hok
      exact ⟨check_ifThen_eq_ok_iff.2 ⟨htest, (ih _ hbody).1⟩, rfl⟩
    | some other =>
      obtain ⟨htest, hbody, hother⟩ := check_ifElse_eq_ok_iff.1 hok
      exact ⟨check_ifElse_eq_ok_iff.2 ⟨htest, (ih _ hbody).1, hother⟩, rfl⟩
  | @elseBlock test stmts stmts' rest bodySpan span body _ ih =>
    refine replaces_cons (fun scope hok => ?_) (replaces_refl rest)
    obtain ⟨htest, hbody, hother⟩ := check_ifElse_eq_ok_iff.1 hok
    exact ⟨check_ifElse_eq_ok_iff.2 ⟨htest, hbody, (ih _ hother).1⟩, rfl⟩
  | @whileBody test stmts stmts' rest bodySpan span _ ih =>
    refine replaces_cons (fun scope hok => ?_) (replaces_refl rest)
    obtain ⟨htest, hbody⟩ := check_whileDo_eq_ok_iff.1 hok
    exact ⟨check_whileDo_eq_ok_iff.2 ⟨htest, (ih _ hbody).1⟩, rfl⟩
  | @doBody test stmts stmts' rest bodySpan span _ ih =>
    refine replaces_cons (fun scope hok => ?_) (replaces_refl rest)
    obtain ⟨hbody, htest⟩ := check_doWhile_eq_ok_iff.1 hok
    -- the condition sees the scope behind the body, which is the same
    obtain ⟨hbody', hscope⟩ := ih _ hbody
    rw [← hscope] at htest
    exact ⟨check_doWhile_eq_ok_iff.2 ⟨hbody', htest⟩, rfl⟩
  | @block stmts stmts' rest bodySpan span _ ih =>
    refine replaces_cons (fun scope hok => ?_) (replaces_refl rest)
    exact ⟨check_block_eq_ok_iff.2 (ih _ (check_block_eq_ok_iff.1 hok)).1, rfl⟩

/-! ### Metrics -/

theorem Swaps.metricsAll_eq {stmts stmts' : List Stmt} (h : Swaps stmts stmts') :
    metricsAll stmts = metricsAll stmts' + 0 := by
  cases h with
  | neighbours _ _ =>
    rw [metricsAll, metricsAll, metricsAll, metricsAll, add_left_comm, add_zero]
  | branches =>
    rw [metricsAll, metricsAll, metrics, metrics, add_zero]
    rw [add_comm (metricsAll _) (metricsAll _)]

theorem Deletes.metricsAll_eq {s : Stmt} {stmts stmts' : List Stmt} (h : Deletes s stmts stmts') :
    metricsAll stmts = metricsAll stmts' + s.constructs := by
  cases h with
  | front _ => rw [metricsAll, s.metrics_eq_constructs, add_comm]

/-- What an edit takes away from the place where it happens, it takes away from the whole. -/
theorem Edit.metricsAll_eq {R : List Stmt → List Stmt → Prop} {removed : Metrics}
    (hR : ∀ {rest rest'}, R rest rest' → metricsAll rest = metricsAll rest' + removed)
    {stmts stmts' : List Stmt} (h : Edit R stmts stmts') :
    metricsAll stmts = metricsAll stmts' + removed := by
  induction h with
  | here h => exact hR h
  | later _ ih => rw [metricsAll, ih, metricsAll, add_assoc]
  | @thenBlock test stmts stmts' rest bodySpan span other _ ih =>
    cases other with
    | none =>
      rw [metricsAll, metricsAll, metrics, metrics, ih]
      abel
    | some other =>
      rw [metricsAll, metricsAll, metrics, metrics, ih]
      abel
  | elseBlock _ ih | whileBody _ ih | doBody _ ih | block _ ih =>
    rw [metricsAll, metricsAll, metrics, metrics, ih]
    abel

/-! ### Edits in sequence -/

variable {removed : Metrics} {stmts stmts' : List Stmt}

theorem Edited.replaces (h : Edited removed stmts stmts') : Replaces stmts stmts' := by
  induction h with
  | refl stmts => exact replaces_refl stmts
  | swap _ hswap ih => exact ih.trans (hswap.replaces Swaps.replaces)
  | delete _ hdelete ih => exact ih.trans (hdelete.replaces Deletes.replaces)

theorem Edited.metricsAll_eq (h : Edited removed stmts stmts') :
    metricsAll stmts = metricsAll stmts' + removed := by
  induction h with
  | refl stmts => rw [add_zero]
  | swap _ hswap ih => rw [ih, hswap.metricsAll_eq Swaps.metricsAll_eq, add_zero]
  | delete _ hdelete ih =>
    rw [ih, hdelete.metricsAll_eq Deletes.metricsAll_eq, add_assoc, add_comm (constructs _)]

/-- Swaps alone are edits that leave nothing out. -/
theorem edited_of_swaps (h : Relation.ReflTransGen (Edit Swaps) stmts stmts') :
    Edited 0 stmts stmts' := by
  induction h with
  | refl => exact .refl stmts
  | tail _ hswap ih => exact .swap ih hswap

/-- What was swapped can be swapped back. -/
theorem swaps_symm (h : Relation.ReflTransGen (Edit Swaps) stmts stmts') :
    Relation.ReflTransGen (Edit Swaps) stmts' stmts := by
  induction h with
  | refl => exact .refl
  | tail _ hswap ih => exact .head (hswap.symm Swaps.symm) ih

end Stmt

/-! ### Programs -/

theorem Program.analyze_of_edited {p q : Program} {removed m : Metrics}
    (hedited : Stmt.Edited removed p.stmts q.stmts) (h : p.analyze = .ok m) :
    ∃ n, q.analyze = .ok n ∧ m = n + removed := by
  obtain ⟨hok, -⟩ := analyze_eq_ok_iff.1 h
  have hok' := (hedited.replaces .empty hok).1
  refine ⟨Stmt.metricsAll q.stmts, analyze_eq_ok_iff.2 ⟨hok', Stmt.tally_checkAll hok'⟩, ?_⟩
  rw [metrics_of_analyze h, hedited.metricsAll_eq]

/-- **Statements that declare nothing can be moved and left out.**  Edits of a program, any number
of them and at any depth, let two neighbouring statements change places or leave out a statement,
none of them a declaration, or let the two blocks of a branch change places.  If a program checks,
then so does the edited one, and each of its counters is lower by the constructs that were left out.
If nothing is left out, the one checks if and only if the other does, with the same metrics. -/
theorem analyze_interchange {p q : Program} :
    (∀ removed m, Stmt.Edited removed p.stmts q.stmts → p.analyze = .ok m →
      ∃ n, q.analyze = .ok n ∧ m = n + removed) ∧
    (Relation.ReflTransGen (Stmt.Edit Stmt.Swaps) p.stmts q.stmts →
      ∀ m, p.analyze = .ok m ↔ q.analyze = .ok m) := by
  have hswaps : ∀ {p q : Program}, Relation.ReflTransGen (Stmt.Edit Stmt.Swaps) p.stmts q.stmts →
      ∀ {m}, p.analyze = .ok m → q.analyze = .ok m := by
    intro p q h m hm
    obtain ⟨n, hn, rfl⟩ := Program.analyze_of_edited (Stmt.edited_of_swaps h) hm
    rw [hn, add_zero]
  refine ⟨fun removed m => Program.analyze_of_edited, fun h m => ⟨hswaps h, hswaps ?_⟩⟩
  exact Stmt.swaps_symm h

/-- `do { int a = 1; … } while (a < 3);` with further statements behind the declaration. -/
def loopBehind (more : List Stmt) : Program :=
  ⟨[.doWhile ⟨.declare ⟨"int", "a", ⟨9, 10⟩, some (.int "1" ⟨13, 14⟩), ⟨5, 15⟩⟩ ⟨5, 15⟩ :: more,
      ⟨3, 30⟩⟩ (.compare (.ident "a" ⟨38, 39⟩) (some ⟨.less, .int "3" ⟨42, 43⟩⟩) ⟨38, 43⟩) ⟨0, 45⟩],
    ⟨0, 45⟩⟩

/-- `a = 2;` and `-a;` in the body of a loop, behind the declaration of `a`. -/
theorem analyze_interchange_loop :
    let assign : Stmt := .assign "a" ⟨16, 17⟩ (.int "2" ⟨20, 21⟩) ⟨16, 22⟩
    let negate : Stmt := .expr (.unary .neg (.ident "a" ⟨24, 25⟩) ⟨23, 25⟩) ⟨23, 26⟩
    (loopBehind [assign, negate]).analyze = .ok ⟨1, 1, 0, 2⟩ ∧
      (loopBehind [negate, assign]).analyze = .ok ⟨1, 1, 0, 2⟩ ∧
      ∃ n, (loopBehind [assign]).analyze = .ok n ∧ (⟨1, 1, 0, 2⟩ : Metrics) = n + ⟨0, 0, 0, 1⟩ := by
  intro assign negate
  have hok : (loopBehind [assign, negate]).analyze = .ok ⟨1, 1, 0, 2⟩ := by decide +kernel
  have hswap : Stmt.Edit Stmt.Swaps (loopBehind [assign, negate]).stmts
      (loopBehind [negate, assign]).stmts :=
    .doBody (.later (.here (.neighbours rfl rfl)))
  have hdelete : Stmt.Edit (Stmt.Deletes negate) (loopBehind [negate, assign]).stmts
      (loopBehind [assign]).stmts :=
    .doBody (.later (.here (.front rfl)))
  have hedited := Stmt.Edited.delete (.swap (.refl _) hswap) hdelete
  have hremoved : 0 + negate.constructs = ⟨0, 0, 0, 1⟩ := by decide +kernel
  rw [hremoved] at hedited
  exact ⟨hok, (analyze_interchange.2 (.single hswap) _).1 hok,
    analyze_interchange.1 _ _ hedited hok⟩

end StaticCheck
