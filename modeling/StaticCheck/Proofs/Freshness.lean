import Mathlib.Algebra.Order.BigOperators.Group.List
import Mathlib.Algebra.Order.Ring.Nat
import StaticCheck.Proofs.Locations
import StaticCheck.Proofs.Renaming

/-! # Declarations of fresh names

A declaration without an initial value, of a name that occurs nowhere in a program, may be put into
the program at any place: the first violation stays the same, and the metrics count one declaration
more (`analyze_insert`).

The proof goes through a renaming that keeps all names of the program and gives no name the new one
(`avoiding`).  It leaves every tree of the program as it is (`Stmt.renameAll_eq_self`).  A scope
with the new name in it still mirrors the scope without it, since no name is renamed to the new one
(`Scope.Mirrors.insert_avoided`).  So the statements behind the new declaration are checked as
before. -/

namespace StaticCheck

open Run

/-! ### The names in a program -/

namespace Expr

def name? : Expr → Option String
  | ident name _ => some name
  | _ => none

end Expr

namespace Stmt

/-- The names that a statement declares, assigns to or uses outside its blocks. -/
def ownNames (s : Stmt) : List String :=
  s.bound?.toList ++ (s.ownExprs.flatMap Expr.nodes).filterMap Expr.name?

end Stmt

def Program.names (p : Program) : List String := p.stmtNodes.flatMap Stmt.ownNames

/-! ### Renamings that keep names -/

namespace Expr

variable {f : String → String}

/-- The renaming keeps all names in the expression. -/
def KeptBy (f : String → String) (e : Expr) : Prop :=
  ∀ name span, ident name span ∈ e.nodes → f name = name

theorem KeptBy.child {c e : Expr} (h : e.KeptBy f) (hc : c ∈ e.children) : c.KeptBy f :=
  fun name span hname => h name span (mem_nodes_of_mem_children hc hname)

theorem map_rename_eq_self {items : List Expr} (h : ∀ e ∈ items, e.rename f = e) :
    (items.map fun e => e.rename f) = items := by
  rw [List.map_congr_left h, List.map_id']

theorem map_links_eq_self {ω : Type} {rest : List (Link ω Expr)}
    (h : ∀ link ∈ rest, link.operand.rename f = link.operand) :
    (rest.map fun link => (⟨link.op, link.operand.rename f⟩ : Link ω Expr)) = rest := by
  have hlinks : ∀ link ∈ rest, (⟨link.op, link.operand.rename f⟩ : Link ω Expr) = link := by
    intro link hlink
    rw [h link hlink]
  rw [List.map_congr_left hlinks, List.map_id']

/-- The operands of a chain behind the first one. -/
theorem KeptBy.links {ω : Type} {e first : Expr} {rest : List (Link ω Expr)} (h : e.KeptBy f)
    (hchildren : e.children = first :: rest.map Link.operand) :
    ∀ link ∈ rest, link.operand.KeptBy f := by
  intro link hlink
  refine h.child ?_
  rw [hchildren]
  exact List.mem_cons_of_mem _ (List.mem_map_of_mem hlink)

theorem rename_eq_self {e : Expr} (h : e.KeptBy f) : e.rename f = e := by
  induction e with
  | int | real | bool => rw [rename]
  | ident name span => rw [rename, h name span (mem_nodes_self _)]
  | list items span ih =>
    rw [rename, map_rename_eq_self fun e he => ih e he (h.child he)]
  | unary op operand span ih => rw [rename, ih (h.child List.mem_cons_self)]
  | additive first rest span ih ihs =>
    have hrest := h.links rfl
    rw [rename, ih (h.child List.mem_cons_self),
      map_links_eq_self fun link hlink => ihs link hlink (hrest link hlink)]
  | multiplicative first rest span ih ihs =>
    have hrest := h.links rfl
    rw [rename, ih (h.child List.mem_cons_self),
      map_links_eq_self fun link hlink => ihs link hlink (hrest link hlink)]
  | logical first rest span ih ihs =>
    have hrest := h.links rfl
    rw [rename, ih (h.child List.mem_cons_self),
      map_links_eq_self fun link hlink => ihs link hlink (hrest link hlink)]
  | single left span ih => rw [rename, ih (h.child List.mem_cons_self)]
  | compare left op right span ihl ihr =>
    rw [rename, ihl (h.child (by simp [children])), ihr (h.child (by simp [children]))]
  | ternary test thenArm elseArm span ihc iht ihe =>
    rw [rename, ihc (h.child (by simp [children])), iht (h.child (by simp [children])),
      ihe (h.child (by simp [children]))]

end Expr

namespace Stmt

variable {f : String → String} {s : Stmt}

/-- The renaming keeps all names in the statement, at any depth. -/
def KeptBy (f : String → String) (s : Stmt) : Prop :=
  ∀ x ∈ s.nodes, ∀ name ∈ x.ownNames, f name = name

theorem KeptBy.bound (h : s.KeptBy f) {name : String} (hname : s.bound? = some name) :
    f name = name := by
  refine h s s.mem_nodes_self name (List.mem_append_left _ ?_)
  rw [hname]
  exact List.mem_singleton_self name

theorem KeptBy.expr (h : s.KeptBy f) {e : Expr} (he : e ∈ s.ownExprs) : e.KeptBy f := by
  intro name span hname
  refine h s s.mem_nodes_self name (List.mem_append_right _ ?_)
  exact List.mem_filterMap.2 ⟨_, List.mem_flatMap.2 ⟨e, he, hname⟩, rfl⟩

theorem KeptBy.block (h : s.KeptBy f) {b : Block Stmt} (hb : b ∈ s.blocks) :
    ∀ x ∈ b.stmts, x.KeptBy f :=
  fun _ hx y hy => h y (mem_nodes_of_mem_blocks hb hx hy)

theorem renameAll_eq_self_of_forall {stmts : List Stmt} (h : ∀ s ∈ stmts, s.rename f = s) :
    renameAll f stmts = stmts := by
  induction stmts with
  | nil => rfl
  | cons s rest ih =>
    obtain ⟨hs, hrest⟩ := List.forall_mem_cons.1 h
    rw [renameAll, hs, ih hrest]

theorem rename_eq_self (h : s.KeptBy f) : s.rename f = s := by
  induction s with
  | declare decl span =>
    have hinit : decl.init.map (Expr.rename f) = decl.init := by
      cases hi : decl.init with
      | none => rfl
      | some init =>
        have hkept : init.KeptBy f := h.expr (by simp [ownExprs, hi])
        rw [Option.map_some, Expr.rename_eq_self hkept]
    rw [rename, Declaration.rename, h.bound rfl, hinit]
  | assign target targetSpan value span =>
    rw [rename, h.bound rfl, Expr.rename_eq_self (h.expr List.mem_cons_self)]
  | ifThen test body span ih =>
    have hbody := h.block (b := body) List.mem_cons_self
    rw [rename, Expr.rename_eq_self (h.expr List.mem_cons_self),
      renameAll_eq_self_of_forall fun s hs => ih s hs (hbody s hs)]
  | ifElse test body other span ih ihOther =>
    have hbody := h.block (b := body) List.mem_cons_self
    have hother := h.block (b := other) (List.mem_cons_of_mem _ List.mem_cons_self)
    rw [rename, Expr.rename_eq_self (h.expr List.mem_cons_self),
      renameAll_eq_self_of_forall fun s hs => ih s hs (hbody s hs),
      renameAll_eq_self_of_forall fun s hs => ihOther s hs (hother s hs)]
  | whileDo test body span ih =>
    have hbody := h.block (b := body) List.mem_cons_self
    rw [rename, Expr.rename_eq_self (h.expr List.mem_cons_self),
      renameAll_eq_self_of_forall fun s hs => ih s hs (hbody s hs)]
  | doWhile body test span ih =>
    have hbody := h.block (b := body) List.mem_cons_self
    rw [rename, Expr.rename_eq_self (h.expr List.mem_cons_self),
      renameAll_eq_self_of_forall fun s hs => ih s hs (hbody s hs)]
  | block body span ih =>
    have hbody := h.block (b := body) List.mem_cons_self
    rw [rename, renameAll_eq_self_of_forall fun s hs => ih s hs (hbody s hs)]
  | expr value span => rw [rename, Expr.rename_eq_self (h.expr List.mem_cons_self)]

theorem renameAll_eq_self {stmts : List Stmt} (h : ∀ s ∈ stmts, s.KeptBy f) :
    renameAll f stmts = stmts :=
  renameAll_eq_self_of_forall fun s hs => rename_eq_self (h s hs)

end Stmt

/-! ### A renaming that avoids a name -/

/-- Keeps the given names, and makes all others longer than `x` and than the given ones. -/
def avoiding (x : String) (names : List String) (name : String) : String :=
  if name ∈ names then name
  else String.ofList (List.replicate (((x :: names).map String.length).sum + 1) ' ') ++ name

section avoiding

variable {x : String} {names : List String}

theorem length_lt_avoiding {name other : String} (h : name ∉ names) (hother : other ∈ x :: names) :
    other.length < (avoiding x names name).length := by
  have hle : other.length ≤ ((x :: names).map String.length).sum :=
    List.le_sum_of_mem (List.mem_map_of_mem hother)
  rw [avoiding, if_neg h, String.length_append, String.length_ofList, List.length_replicate]
  omega

theorem avoiding_of_mem {name : String} (h : name ∈ names) : avoiding x names name = name :=
  if_pos h

theorem avoiding_ne (hx : x ∉ names) (name : String) : avoiding x names name ≠ x := by
  by_cases h : name ∈ names
  · rw [avoiding_of_mem h]
    rintro rfl
    exact hx h
  · intro heq
    have hlt := length_lt_avoiding h (List.mem_cons_self (a := x))
    rw [heq] at hlt
    exact Nat.lt_irrefl _ hlt

theorem avoiding_injective (x : String) (names : List String) :
    Function.Injective (avoiding x names) := by
  intro a b hab
  by_cases ha : a ∈ names
  · by_cases hb : b ∈ names
    · rwa [avoiding_of_mem ha, avoiding_of_mem hb] at hab
    · have hlt := length_lt_avoiding hb (List.mem_cons_of_mem x ha)
      rw [← hab, avoiding_of_mem ha] at hlt
      exact absurd hlt (Nat.lt_irrefl _)
  · by_cases hb : b ∈ names
    · have hlt := length_lt_avoiding ha (List.mem_cons_of_mem x hb)
      rw [hab, avoiding_of_mem hb] at hlt
      exact absurd hlt (Nat.lt_irrefl _)
    · rw [avoiding, avoiding, if_neg ha, if_neg hb] at hab
      exact (String.append_right_inj _).1 hab

end avoiding

/-! ### Runs that count more -/

namespace Run

variable {α β : Type} {f : String → String} {m n : Metrics}

/-- The second run ends like the first one, with the name of a violation renamed, and counts `m`
more if they succeed. -/
structure Exceeds (f : String → String) (m : Metrics) (run run' : Run α) : Prop where
  outcome : run'.outcome = run.outcome.mapError (SemanticError.rename f)
  tally : ∀ a, run.outcome = .ok a → run'.tally = run.tally + m

theorem Mirrors.exceeds {run run' : Run α} (h : Mirrors f run run') : Exceeds f 0 run run' :=
  ⟨h.outcome, fun _ _ => h.tally.trans (Metrics.add_zero _).symm⟩

theorem exceeds_bind {run run' : Run α} {next next' : α → Run β} (h : Exceeds f m run run')
    (hnext : ∀ a, run.outcome = .ok a → Exceeds f n (next a) (next' a)) :
    Exceeds f (m + n) (run >>= next) (run' >>= next') := by
  obtain ⟨outcome, tally, events⟩ := run
  obtain ⟨outcome', tally', events'⟩ := run'
  obtain ⟨houtcome, htally⟩ := h
  change outcome' = outcome.mapError (SemanticError.rename f) at houtcome
  subst houtcome
  cases outcome with
  | error e => exact ⟨rfl, fun b hb => by cases hb⟩
  | ok a =>
    have hthen := hnext a rfl
    have hsum : tally' = tally + m := htally a rfl
    refine ⟨hthen.outcome, fun b hb => ?_⟩
    change tally' + (next' a).tally = tally + (next a).tally + (m + n)
    rw [hsum, hthen.tally b hb]
    exact add_add_add_comm _ _ _ _

theorem Exceeds.andThen {run run' : Run α} {next next' : α → Run β} (h : Exceeds f m run run')
    (hnext : ∀ a, run.outcome = .ok a → Mirrors f (next a) (next' a)) :
    Exceeds f m (run >>= next) (run' >>= next') := by
  have hboth := exceeds_bind h fun a ha => (hnext a ha).exceeds
  rwa [Metrics.add_zero] at hboth

theorem Mirrors.andThen {run run' : Run α} {next next' : α → Run β} (h : Mirrors f run run')
    (hnext : ∀ a, run.outcome = .ok a → Exceeds f m (next a) (next' a)) :
    Exceeds f m (run >>= next) (run' >>= next') := by
  have hboth := exceeds_bind h.exceeds hnext
  rwa [Metrics.zero_add] at hboth

end Run

/-! ### Edits -/

namespace Stmt

/-- At one place in a list of statements, at any depth, the rest of the list that begins there is
replaced by one that `R` relates to it. -/
inductive Edit (R : List Stmt → List Stmt → Prop) : List Stmt → List Stmt → Prop
  | here {rest rest' : List Stmt} : R rest rest' → Edit R rest rest'
  | later {s : Stmt} {rest rest' : List Stmt} : Edit R rest rest' → Edit R (s :: rest) (s :: rest')
  | thenBlock {test : Expr} {stmts stmts' rest : List Stmt} {bodySpan span : Span}
      {other : Option (Block Stmt)} : Edit R stmts stmts' →
      Edit R (.ifElse test ⟨stmts, bodySpan⟩ other span :: rest)
        (.ifElse test ⟨stmts', bodySpan⟩ other span :: rest)
  | elseBlock {test : Expr} {stmts stmts' rest : List Stmt} {bodySpan span : Span}
      {body : Block Stmt} : Edit R stmts stmts' →
      Edit R (.ifElse test body (some ⟨stmts, bodySpan⟩) span :: rest)
        (.ifElse test body (some ⟨stmts', bodySpan⟩) span :: rest)
  | whileBody {test : Expr} {stmts stmts' rest : List Stmt} {bodySpan span : Span} :
      Edit R stmts stmts' →
      Edit R (.whileDo test ⟨stmts, bodySpan⟩ span :: rest)
        (.whileDo test ⟨stmts', bodySpan⟩ span :: rest)
  | doBody {test : Expr} {stmts stmts' rest : List Stmt} {bodySpan span : Span} :
      Edit R stmts stmts' →
      Edit R (.doWhile ⟨stmts, bodySpan⟩ test span :: rest)
        (.doWhile ⟨stmts', bodySpan⟩ test span :: rest)
  | block {stmts stmts' rest : List Stmt} {bodySpan span : Span} : Edit R stmts stmts' →
      Edit R (.block ⟨stmts, bodySpan⟩ span :: rest) (.block ⟨stmts', bodySpan⟩ span :: rest)

/-- A statement is put in front of the rest of a list. -/
def Inserts (s : Stmt) (rest rest' : List Stmt) : Prop := rest' = s :: rest

/-- From this scope the second list is checked like the first one but counts `m` more, and it leaves
a mirroring scope behind. -/
structure Exceeds (f : String → String) (m : Metrics) (scope : Scope) (stmts stmts' : List Stmt) :
    Prop where
  run : Run.Exceeds f m (checkAll scope stmts).1 (checkAll scope stmts').1
  scope : (checkAll scope stmts).1.outcome = .ok () →
    (checkAll scope stmts).2.Mirrors f (checkAll scope stmts').2

end Stmt

/-! ### Statements whose names are kept -/

section kept

variable {f : String → String} {scope scope' : Scope}

theorem Expr.mirrors_checkCondition_self {e : Expr} (h : e.KeptBy f)
    (hscope : scope.Mirrors f scope') :
    Run.Mirrors f (e.checkCondition scope) (e.checkCondition scope') := by
  have htest := Stmt.mirrors_checkCondition hscope e
  rwa [rename_eq_self h] at htest

namespace Stmt

theorem mirrors_check_self (hf : Function.Injective f) {s : Stmt} (h : s.KeptBy f)
    (hscope : scope.Mirrors f scope') :
    Run.Mirrors f (s.check scope).1 (s.check scope').1 ∧
      (s.check scope).2.Mirrors f (s.check scope').2 := by
  have hs := s.mirrors_check hf scope scope' hscope
  rwa [rename_eq_self h] at hs

theorem mirrors_checkAll_self (hf : Function.Injective f) {stmts : List Stmt}
    (h : ∀ s ∈ stmts, s.KeptBy f) (hscope : scope.Mirrors f scope') :
    Run.Mirrors f (checkAll scope stmts).1 (checkAll scope' stmts).1 ∧
      (checkAll scope stmts).2.Mirrors f (checkAll scope' stmts).2 := by
  have hmirrored : ∀ s ∈ stmts, s.Mirrors f (s.rename f) := fun s _ => s.mirrors_check hf
  have hstmts := mirrors_checkAll hmirrored hscope
  rwa [renameAll_eq_self h] at hstmts

theorem mirrors_enclose_self (hf : Function.Injective f) {stmts : List Stmt}
    (h : ∀ s ∈ stmts, s.KeptBy f) (hscope : scope.Mirrors f scope') :
    Run.Mirrors f (enclose scope (checkAll scope stmts)).1
      (enclose scope' (checkAll scope' stmts)).1 := by
  refine mirrors_bind (mirrors_emit _ _) fun _ => ?_
  exact mirrors_bind (mirrors_checkAll_self hf h hscope).1 fun _ => mirrors_emit _ _

end Stmt

/-- A name that no name is renamed to may be bound to anything. -/
theorem Scope.Mirrors.insert_avoided (hscope : scope.Mirrors f scope') {b : Binding}
    (h : ∀ name, f name ≠ b.name) : scope.Mirrors f (scope'.insert b) where
  depth := hscope.depth
  shadowing := hscope.shadowing
  get? name := by rw [get?_insert_of_ne scope' (h name), hscope.get?]

/-- A statement whose names are kept does not declare a name that is avoided. -/
theorem Stmt.get?_check_avoided {s : Stmt} (hs : s.KeptBy f) {x : String} (hx : ∀ name, f name ≠ x)
    (hok : (s.check scope).1.outcome = .ok ()) : (s.check scope).2.get? x = scope.get? x := by
  rw [check_scope hok]
  cases s with
  | declare decl span =>
    have hne : x ≠ decl.name := by
      rintro rfl
      exact hx decl.name (hs.bound rfl)
    exact scope.get?_insert_of_ne hne
  | assign | ifElse | whileDo | doWhile | block | expr => rfl

end kept

/-! ### The inserted declaration -/

namespace Stmt

variable {f : String → String} {m : Metrics} {scope : Scope} {s s' : Stmt}
  {stmts stmts' rest : List Stmt}

/-- A statement that counts more and leaves the scope alone, in front of statements whose names are
kept. -/
theorem exceeds_cons (hf : Function.Injective f) (hrest : ∀ x ∈ rest, x.KeptBy f)
    (hscope : scope.Mirrors f scope) (hs : Run.Exceeds f m (s.check scope).1 (s'.check scope).1)
    (hafter : (s.check scope).2 = scope) (hafter' : (s'.check scope).2 = scope) :
    Exceeds f m scope (s :: rest) (s' :: rest) := by
  have hmore := mirrors_checkAll_self hf hrest hscope
  refine ⟨?_, fun hok => ?_⟩
  · rw [checkAll_cons_run, checkAll_cons_run, hafter, hafter']
    exact hs.andThen fun _ _ => hmore.1
  · obtain ⟨hfirst, -⟩ := checkAll_cons_eq_ok_iff.1 hok
    have hfirst' : (s'.check scope).1.outcome = .ok () := by
      rw [hs.outcome, hfirst]
      rfl
    rw [checkAll_cons_of_ok hfirst, checkAll_cons_of_ok hfirst', hafter, hafter']
    exact hmore.2

theorem Exceeds.enclose (h : Exceeds f m scope stmts stmts') :
    Run.Exceeds f m (enclose scope (checkAll scope stmts)).1
      (enclose scope (checkAll scope stmts')).1 := by
  refine (mirrors_emit _ _).andThen fun _ _ => ?_
  exact h.run.andThen fun _ _ => mirrors_emit _ _

variable {decl : Declaration} {span : Span}

/-- A declaration of an avoided name in front of statements whose names are kept. -/
theorem exceeds_declare (hf : Function.Injective f) (hname : ∀ name, f name ≠ decl.name)
    (hinit : decl.init = none) (hkept : ∀ s ∈ stmts, s.KeptBy f) (hscope : scope.Mirrors f scope)
    (hfree : scope.get? decl.name = none) :
    Exceeds f .declaration scope stmts (.declare decl span :: stmts) := by
  have hblocks : scope.blocks decl.name = false := by
    rw [Scope.blocks, hfree]
  have hok : (check scope (.declare decl span)).1.outcome = .ok () :=
    Declaration.check_eq_ok_iff.2 ⟨hblocks, by simp [hinit]⟩
  have htally : (decl.check scope).1.tally = .declaration := by
    have heffects := congrArg Effects.tally (Declaration.check_effects hok)
    rwa [hinit, Option.elim_none, Effects.add_zero] at heffects
  have hdecl : Run.Exceeds f .declaration (pure ()) (check scope (.declare decl span)).1 :=
    ⟨hok, fun _ _ => htally.trans (Metrics.zero_add _).symm⟩
  have hextend : scope.Mirrors f (check scope (.declare decl span)).2 := by
    rw [check_declare, Declaration.check_scope_eq hok]
    exact hscope.insert_avoided hname
  have hstmts := mirrors_checkAll_self hf hkept hextend
  refine ⟨?_, fun _ => ?_⟩
  · have hrun := hdecl.andThen fun _ _ => hstmts.1
    rwa [pure_bind, ← checkAll_cons_run] at hrun
  · rw [checkAll_cons_of_ok hok]
    exact hstmts.2

/-- Wherever the declaration is put in, the edited statements are checked like those without it. -/
theorem Edit.exceeds (hf : Function.Injective f) (hname : ∀ name, f name ≠ decl.name)
    (hinit : decl.init = none) (hedit : Edit (Inserts (.declare decl span)) stmts stmts')
    (hkept : ∀ s ∈ stmts, s.KeptBy f) (hscope : scope.Mirrors f scope)
    (hfree : scope.get? decl.name = none) : Exceeds f .declaration scope stmts stmts' := by
  induction hedit generalizing scope with
  | here hinserts =>
    subst hinserts
    exact exceeds_declare hf hname hinit hkept hscope hfree
  | @later s rest rest' _ ih =>
    obtain ⟨hs, hrest⟩ := List.forall_mem_cons.1 hkept
    have hself := mirrors_check_self hf hs hscope
    have hthen : (s.check scope).1.outcome = .ok () →
        Exceeds f .declaration (s.check scope).2 rest rest' := by
      intro hok
      have hget := get?_check_avoided hs hname hok
      exact ih hrest hself.2 (hget.trans hfree)
    refine ⟨?_, fun hok => ?_⟩
    · rw [checkAll_cons_run, checkAll_cons_run]
      exact hself.1.andThen fun _ hok => (hthen hok).run
    · obtain ⟨hfirst, hmore⟩ := checkAll_cons_eq_ok_iff.1 hok
      rw [checkAll_cons_of_ok hfirst, checkAll_cons_of_ok hfirst]
      exact (hthen hfirst).scope hmore
  | @thenBlock test stmts stmts' rest bodySpan span other _ ih =>
    obtain ⟨hs, hrest⟩ := List.forall_mem_cons.1 hkept
    have hbody := (ih (hs.block List.mem_cons_self) hscope.enterBody hfree).enclose
    have htest := Expr.mirrors_checkCondition_self (hs.expr List.mem_cons_self) hscope
    cases other with
    | none =>
      refine exceeds_cons hf hrest hscope ?_ rfl rfl
      exact (mirrors_count _).andThen fun _ _ => htest.andThen fun _ _ => hbody
    | some other =>
      have hother := mirrors_enclose_self hf
        (hs.block (List.mem_cons_of_mem _ List.mem_cons_self)) hscope.enterBody
      refine exceeds_cons hf hrest hscope ?_ rfl rfl
      refine (mirrors_count _).andThen fun _ _ => htest.andThen fun _ _ => ?_
      exact hbody.andThen fun _ _ => hother
  | @elseBlock test stmts stmts' rest bodySpan span body _ ih =>
    obtain ⟨hs, hrest⟩ := List.forall_mem_cons.1 hkept
    have hother := ih (hs.block (List.mem_cons_of_mem _ List.mem_cons_self)) hscope.enterBody hfree
    have htest := Expr.mirrors_checkCondition_self (hs.expr List.mem_cons_self) hscope
    have hbody := mirrors_enclose_self hf (hs.block List.mem_cons_self) hscope.enterBody
    refine exceeds_cons hf hrest hscope ?_ rfl rfl
    refine (mirrors_count _).andThen fun _ _ => htest.andThen fun _ _ => ?_
    exact hbody.andThen fun _ _ => hother.enclose
  | @whileBody test stmts stmts' rest bodySpan span _ ih =>
    obtain ⟨hs, hrest⟩ := List.forall_mem_cons.1 hkept
    have hbody := ih (hs.block List.mem_cons_self) hscope.enterBody hfree
    have htest := Expr.mirrors_checkCondition_self (hs.expr List.mem_cons_self) hscope
    refine exceeds_cons hf hrest hscope ?_ rfl rfl
    exact (mirrors_count _).andThen fun _ _ => htest.andThen fun _ _ => hbody.enclose
  | @doBody test stmts stmts' rest bodySpan span _ ih =>
    obtain ⟨hs, hrest⟩ := List.forall_mem_cons.1 hkept
    have hbody := ih (hs.block List.mem_cons_self) hscope.enterBody hfree
    refine exceeds_cons hf hrest hscope ?_ rfl rfl
    refine (mirrors_count _).andThen fun _ _ => hbody.enclose.andThen fun _ hok => ?_
    -- the condition is checked in the scope that the body leaves
    refine Expr.mirrors_checkCondition_self (hs.expr List.mem_cons_self) ?_
    exact hbody.scope (enclose_eq_ok_iff.1 hok)
  | @block stmts stmts' rest bodySpan span _ ih =>
    obtain ⟨hs, hrest⟩ := List.forall_mem_cons.1 hkept
    have hbody := ih (hs.block List.mem_cons_self) hscope.enterBlock hfree
    exact exceeds_cons hf hrest hscope hbody.enclose rfl rfl

end Stmt

/-! ### Programs -/

/-- **An unused fresh declaration is invisible.**  A declaration without an initial value, of a name
that occurs nowhere in a program, is put into some list of statements, at any depth.  The program
then fails with the same violation as before, or it has the same metrics but for one declaration
more. -/
theorem analyze_insert {p p' : Program} {decl : Declaration} {span : Span}
    (hinit : decl.init = none) (hfresh : decl.name ∉ p.names)
    (hedit : Stmt.Edit (Stmt.Inserts (.declare decl span)) p.stmts p'.stmts) :
    p'.analyze = p.analyze.map fun m => { m with declarations := m.declarations + 1 } := by
  have hf := avoiding_injective decl.name p.names
  have hname := avoiding_ne hfresh
  have hkept : ∀ s ∈ p.stmts, s.KeptBy (avoiding decl.name p.names) := fun s hs x hx name hname =>
    avoiding_of_mem (List.mem_flatMap.2 ⟨x, List.mem_flatMap.2 ⟨s, hs, hx⟩, hname⟩)
  have hself := (Stmt.mirrors_checkAll_self hf hkept .empty).1
  have hexceeds := (hedit.exceeds hf hname hinit hkept .empty rfl).run
  rw [Program.analyze_eq, Program.analyze_eq, hexceeds.outcome, ← hself.outcome]
  cases hok : (Stmt.checkAll .empty p.stmts).1.outcome with
  | error e => rfl
  | ok u =>
    change Except.ok _ = Except.ok _
    rw [hexceeds.tally u hok]
    rfl

/-- `int a = 1; do { a = 2; } while (a < 3);` with further statements in front of the assignment. -/
def loopAround (front : List Stmt) : Program :=
  ⟨[.declare ⟨"int", "a", ⟨4, 5⟩, some (.int "1" ⟨8, 9⟩), ⟨0, 10⟩⟩ ⟨0, 10⟩,
    .doWhile ⟨front ++ [.assign "a" ⟨16, 17⟩ (.int "2" ⟨20, 21⟩) ⟨16, 22⟩], ⟨14, 24⟩⟩
      (.compare (.ident "a" ⟨32, 33⟩) (some ⟨.less, .int "3" ⟨36, 37⟩⟩) ⟨32, 37⟩) ⟨11, 39⟩],
    ⟨0, 39⟩⟩

/-- A name of unknown type is declared in the body of a loop, whose condition is checked behind
it. -/
theorem analyze_insert_loop : "b" ∉ (loopAround []).names ∧
    (loopAround [.declare ⟨"foo", "b", ⟨20, 21⟩, none, ⟨16, 22⟩⟩ ⟨16, 22⟩]).analyze =
      .ok ⟨2, 1, 0, 1⟩ := by
  have hfresh : "b" ∉ (loopAround []).names := by decide +kernel
  have hedit : Stmt.Edit (Stmt.Inserts (.declare ⟨"foo", "b", ⟨20, 21⟩, none, ⟨16, 22⟩⟩ ⟨16, 22⟩))
      (loopAround []).stmts
      (loopAround [.declare ⟨"foo", "b", ⟨20, 21⟩, none, ⟨16, 22⟩⟩ ⟨16, 22⟩]).stmts :=
    .later (.doBody (.here rfl))
  have hwithout : (loopAround []).analyze = .ok ⟨1, 1, 0, 1⟩ := by decide +kernel
  refine ⟨hfresh, ?_⟩
  rw [analyze_insert rfl hfresh hedit, hwithout]
  rfl

end StaticCheck
