import Mathlib.Data.List.Induction
import StaticCheck.Proofs.Offences
import StaticCheck.Proofs.Positions

/-! # When a name may be declared again

Two rules say when a declaration is wrong: its name is declared before it in the same list of
statements, or it stands in the body of a branch or a loop and its name is visible where that body
is entered.  The checker does not look at lists; it compares the depth that the table of names has
recorded with the depth of the place.  `Position.Levelled` ties the two together, and
`Position.Levelled.blocks_iff` says that a declaration is refused exactly if it breaks a rule.

The main result is `redeclaration_discipline`: a program that checks keeps both rules in all its
lists of statements, and a redeclaration that is reported is the first one that breaks a rule. -/

namespace StaticCheck

open Run

/-! ### Names declared in a list -/

/-- The names that the members of a list of statements declare. -/
def declaredNames (stmts : List Stmt) : List String :=
  (stmts.filterMap Stmt.declaration?).map Declaration.name

theorem declaredNames_append (stmts more : List Stmt) :
    declaredNames (stmts ++ more) = declaredNames stmts ++ declaredNames more := by
  unfold declaredNames
  rw [List.filterMap_append, List.map_append]

theorem isSome_lastDeclaration?_iff {name : String} {stmts : List Stmt} :
    (lastDeclaration? name stmts).isSome = true ↔ name ∈ declaredNames stmts := by
  unfold lastDeclaration? declaredNames
  rw [List.getLast?_isSome, Ne, List.filter_eq_nil_iff, List.mem_map]
  simp only [beq_iff_eq, not_forall, not_not, exists_prop]

/-! ### The depth of a declaration -/

namespace Position

/-- The statements before the position in its own list. -/
def before : Position → List Stmt
  | program before => before
  | body _ before => before
  | block _ before => before

/-- The number of lists around the own one. -/
def depth : Position → Nat
  | program _ => 0
  | body outer _ => outer.depth + 1
  | block outer _ => outer.depth + 1

/-- Whether the own list is a bare block. -/
def inBlock : Position → Bool
  | block _ _ => true
  | _ => false

/-- The depth of the innermost list that declares a name before the position. -/
def level? (name : String) : Position → Option Nat
  | program before => (lastDeclaration? name before).map fun _ => 0
  | body outer before =>
    ((lastDeclaration? name before).map fun _ => outer.depth + 1).or (outer.level? name)
  | block outer before =>
    ((lastDeclaration? name before).map fun _ => outer.depth + 1).or (outer.level? name)

theorem isSome_level? (name : String) (pos : Position) :
    (pos.level? name).isSome = (pos.resolve name).isSome := by
  induction pos with
  | program before => simp only [level?, resolve, Option.isSome_map]
  | body outer before ih | block outer before ih =>
    simp only [level?, resolve, Option.isSome_or, Option.isSome_map, ih]

theorem le_depth_of_level? {name : String} {pos : Position} {n : Nat}
    (h : pos.level? name = some n) : n ≤ pos.depth := by
  induction pos with
  | program before =>
    obtain ⟨decl, -, rfl⟩ := Option.map_eq_some_iff.1 h
    exact Nat.le_refl _
  | body outer before ih | block outer before ih =>
    rw [level?, Option.or_eq_some_iff] at h
    rw [depth]
    rcases h with h | ⟨-, h⟩
    · obtain ⟨decl, -, rfl⟩ := Option.map_eq_some_iff.1 h
      exact Nat.le_refl _
    · have := ih h
      omega

/-- A name has the depth of the position as its level if its own list declares it, and only then:
the lists around it have smaller depths. -/
theorem level?_eq_depth_iff {name : String} {pos : Position} :
    pos.level? name = some pos.depth ↔ name ∈ declaredNames pos.before := by
  have hown : ∀ (n : Nat) (stmts : List Stmt),
      (lastDeclaration? name stmts).map (fun _ => n) = some n ↔ name ∈ declaredNames stmts := by
    intro n stmts
    rw [← isSome_lastDeclaration?_iff]
    cases lastDeclaration? name stmts <;> simp
  cases pos with
  | program stmts => exact hown 0 stmts
  | body outer stmts | block outer stmts =>
    have houter : outer.level? name ≠ some (outer.depth + 1) := by
      intro h
      have := le_depth_of_level? h
      omega
    rw [level?, depth, Option.or_eq_some_iff, hown]
    simp only [houter, and_false, or_false]
    rfl

theorem depth_behind (pos : Position) (s : Stmt) : (pos.behind s).depth = pos.depth := by
  cases pos <;> rfl

theorem inBlock_behind (pos : Position) (s : Stmt) : (pos.behind s).inBlock = pos.inBlock := by
  cases pos <;> rfl

theorem level?_behind (pos : Position) (s : Stmt) (name : String) :
    (pos.behind s).level? name =
      ((s.declaration?.filter fun decl => decl.name == name).map fun _ => pos.depth).or
        (pos.level? name) := by
  have hmap : ∀ (n : Nat) (before : List Stmt),
      (lastDeclaration? name (before ++ [s])).map (fun _ => n) =
        ((s.declaration?.filter fun decl => decl.name == name).map fun _ => n).or
          ((lastDeclaration? name before).map fun _ => n) := by
    intro n before
    rw [lastDeclaration?_append, Option.map_or]
  cases pos with
  | program before => exact hmap 0 before
  | body outer before =>
    rw [behind, level?, hmap, level?, Option.or_assoc]
    rfl
  | block outer before =>
    rw [behind, level?, hmap, level?, Option.or_assoc]
    rfl

/-- The table of names records the depths of the lists that declare them. -/
structure Levelled (pos : Position) : Prop where
  depth : pos.scope.depth = pos.depth
  shadowing : pos.scope.shadowing = pos.inBlock
  get? : ∀ name, (pos.scope.get? name).map Binding.depth = pos.level? name

namespace Levelled

variable {pos : Position}

theorem program : (program []).Levelled := ⟨rfl, rfl, fun _ => rfl⟩

theorem body (h : pos.Levelled) : (body pos []).Levelled :=
  ⟨congrArg (· + 1) h.depth, rfl, h.get?⟩

theorem block (h : pos.Levelled) : (block pos []).Levelled :=
  ⟨congrArg (· + 1) h.depth, rfl, h.get?⟩

/-- A statement that checks binds at most its own name, at the depth of the list. -/
theorem behind (h : pos.Levelled) {s : Stmt} (hs : (s.check pos.scope).1.outcome = .ok ()) :
    (pos.behind s).Levelled := by
  have hscope : (pos.behind s).scope =
      s.declaration?.elim pos.scope fun decl => decl.extend pos.scope := by
    rw [scope_behind, Stmt.check_scope hs]
  refine ⟨?_, ?_, fun name => ?_⟩
  · rw [hscope, depth_behind, ← h.depth]
    cases s.declaration? <;> rfl
  · rw [hscope, inBlock_behind, ← h.shadowing]
    cases s.declaration? <;> rfl
  · rw [hscope, level?_behind]
    cases s.declaration? with
    | none => exact h.get? name
    | some decl =>
      by_cases hname : decl.name = name
      · subst hname
        have found : (decl.extend pos.scope).get? decl.name =
            some (decl.binding pos.scope.depth) := Scope.get?_insert_self _ _
        simp [found, Declaration.binding, Option.filter, h.depth]
      · have kept : (decl.extend pos.scope).get? name = pos.scope.get? name :=
          Scope.get?_insert_of_ne _ (Ne.symm hname)
        simp [kept, hname, h.get? name, Option.filter]

/-- A declaration is refused if the name has a level, and outside bare blocks at any level. -/
theorem blocks_iff_level? (h : pos.Levelled) (name : String) :
    pos.scope.blocks name = true ↔
      ∃ n, pos.level? name = some n ∧ (pos.inBlock = false ∨ n = pos.depth) := by
  unfold Scope.blocks
  rw [h.shadowing, h.depth, ← h.get? name]
  cases pos.scope.get? name with
  | none => simp
  | some b => simp

end Levelled

end Position

/-! ### Sites of declarations -/

/-- A declaration at its position. -/
structure Site where
  pos : Position
  decl : Declaration

namespace Site

/-- The name is declared before in the same list. -/
def Repeats (x : Site) : Prop := x.decl.name ∈ declaredNames x.pos.before

/-- The site is in the body of a branch or a loop, and the name is visible where it is entered. -/
def Hides (x : Site) : Prop :=
  ∃ outer before, x.pos = .body outer before ∧ (outer.resolve x.decl.name).isSome = true

/-- The declaration breaks one of the two rules. -/
def Breaks (x : Site) : Prop := x.Repeats ∨ x.Hides

theorem not_hides_of_ne {x : Site} (h : ∀ outer before, x.pos ≠ .body outer before) :
    ¬ x.Hides := by
  rintro ⟨outer, before, hpos, -⟩
  exact h outer before hpos

theorem hides_body_iff {outer : Position} {before : List Stmt} {decl : Declaration} :
    Hides ⟨.body outer before, decl⟩ ↔ (outer.resolve decl.name).isSome = true := by
  constructor
  · rintro ⟨_, _, ⟨⟩, h⟩
    exact h
  · intro h
    exact ⟨outer, before, rfl, h⟩

/-- The depths in the table refuse exactly the declarations that break a rule. -/
theorem blocks_iff {x : Site} (h : x.pos.Levelled) :
    x.pos.scope.blocks x.decl.name = true ↔ x.Breaks := by
  obtain ⟨pos, decl⟩ := x
  rw [h.blocks_iff_level?]
  unfold Breaks Repeats
  cases pos with
  | program before =>
    have hno : ¬ Hides ⟨.program before, decl⟩ := not_hides_of_ne fun _ _ => Position.noConfusion
    have hlevel : (∃ n, (Position.program before).level? decl.name = some n) ↔
        decl.name ∈ declaredNames before := by
      rw [← Option.isSome_iff_exists, Position.isSome_level?]
      exact isSome_lastDeclaration?_iff
    simpa [Position.inBlock, Position.before, hno] using hlevel
  | body outer before =>
    have hlevel : (∃ n, (Position.body outer before).level? decl.name = some n) ↔
        decl.name ∈ declaredNames before ∨ (outer.resolve decl.name).isSome = true := by
      rw [← Option.isSome_iff_exists, Position.isSome_level?, Position.resolve, Option.isSome_or,
        Bool.or_eq_true, isSome_lastDeclaration?_iff]
    simpa [Position.inBlock, Position.before, hides_body_iff] using hlevel
  | block outer before =>
    have hno : ¬ Hides ⟨.block outer before, decl⟩ := by
      apply not_hides_of_ne
      exact fun _ _ => Position.noConfusion
    simp [Position.inBlock, hno, Position.level?_eq_depth_iff]

end Site

/-! ### The lists of a program -/

/-- A list of statements, with the position at its start. -/
structure Listing where
  start : Position
  stmts : List Stmt

/-- The position at the start of a block of a statement that stands at the given position. -/
def Stmt.entry (pos : Position) : Stmt → Position
  | block _ _ => .block pos []
  | _ => .body pos []

/-- The lists of statements of a program: its own, and every list in the braces of a statement that
is a member of such a list. -/
inductive Program.HasList (p : Program) : Listing → Prop
  | program : p.HasList ⟨.program [], p.stmts⟩
  | inner {l : Listing} {before : List Stmt} {s : Stmt} {after : List Stmt} {b : Block Stmt} :
      p.HasList l → l.stmts = before ++ s :: after → b ∈ s.blocks →
        p.HasList ⟨s.entry (l.start.behindAll before), b.stmts⟩

/-- The list keeps both rules. -/
structure Listing.Disciplined (l : Listing) : Prop where
  /-- No name is declared twice. -/
  once : (declaredNames l.stmts).Nodup
  /-- The body of a branch or a loop declares no name that is visible where it is entered. -/
  fresh : ∀ outer, l.start = .body outer [] → ∀ name ∈ declaredNames l.stmts,
    outer.resolve name = none

/-- The declaration of a site is a member of the list. -/
def Site.Within (x : Site) (l : Listing) : Prop :=
  ∃ before span after, l.stmts = before ++ .declare x.decl span :: after ∧
    x.pos = l.start.behindAll before

theorem mem_declaredNames_iff {name : String} {stmts : List Stmt} : name ∈ declaredNames stmts ↔
    ∃ before decl span after, stmts = before ++ .declare decl span :: after ∧ decl.name = name := by
  unfold declaredNames
  simp only [List.mem_map, List.mem_filterMap]
  constructor
  · rintro ⟨decl, ⟨s, hs, hdecl⟩, rfl⟩
    cases s with
    | declare d span =>
      cases hdecl
      obtain ⟨before, after, rfl⟩ := List.append_of_mem hs
      exact ⟨before, _, span, after, rfl, rfl⟩
    | _ => cases hdecl
  · rintro ⟨before, decl, span, after, rfl, rfl⟩
    exact ⟨decl, ⟨.declare decl span, by simp, rfl⟩, rfl⟩

theorem Position.before_behindAll (pos : Position) (stmts : List Stmt) :
    (pos.behindAll stmts).before = pos.before ++ stmts := by
  induction stmts generalizing pos with
  | nil => exact (List.append_nil _).symm
  | cons s rest ih =>
    have hbehind : (pos.behind s).before = pos.before ++ [s] := by
      cases pos <;> rfl
    have hstep : pos.behindAll (s :: rest) = (pos.behind s).behindAll rest := rfl
    rw [hstep, ih, hbehind, List.append_assoc, List.singleton_append]

theorem Position.eq_body_of_behindAll {pos outer : Position} {stmts before : List Stmt}
    (h : pos.behindAll stmts = .body outer before) : ∃ earlier, pos = .body outer earlier := by
  induction stmts generalizing pos with
  | nil => exact ⟨before, h⟩
  | cons s rest ih =>
    have hnext : (pos.behind s).behindAll rest = .body outer before := h
    obtain ⟨earlier, hpos⟩ := ih hnext
    cases pos with
    | body outer' earlier' =>
      cases hpos
      exact ⟨earlier', rfl⟩
    | program | block => cases hpos

theorem Program.HasList.before_start {p : Program} {l : Listing} (h : p.HasList l) :
    l.start.before = [] := by
  cases h with
  | program => rfl
  | @inner l before s after b _ _ _ => cases s <;> rfl

namespace Listing

variable {l : Listing}

/-- A name that is declared twice is declared a second time somewhere. -/
theorem nodup_of_not_repeats (hstart : l.start.before = [])
    (h : ∀ x : Site, x.Within l → ¬ x.Repeats) : (declaredNames l.stmts).Nodup := by
  -- by induction on the first part of the list, from its end
  have hfront : ∀ front rest, l.stmts = front ++ rest → (declaredNames front).Nodup := by
    intro front
    induction front using List.reverseRecOn with
    | nil => exact fun _ _ => List.nodup_nil
    | append_singleton front s ih =>
      intro rest hl
      rw [List.append_assoc, List.singleton_append] at hl
      have hnodup := ih (s :: rest) hl
      rw [declaredNames_append]
      cases s with
      | declare decl span =>
        have hfree := h ⟨l.start.behindAll front, decl⟩ ⟨front, span, rest, hl, rfl⟩
        rw [Site.Repeats, Position.before_behindAll, hstart, List.nil_append] at hfree
        exact List.nodup_append.2 ⟨hnodup, List.pairwise_singleton _ _, by
          intro a ha b hb hab
          obtain rfl := List.mem_singleton.1 hb
          exact hfree (hab ▸ ha)⟩
      | _ => exact (List.append_nil _).symm ▸ hnodup
  exact hfront l.stmts [] (List.append_nil _).symm

/-- A list keeps the rules exactly if none of the declarations in it breaks one. -/
theorem disciplined_iff (hstart : l.start.before = []) :
    l.Disciplined ↔ ∀ x : Site, x.Within l → ¬ x.Breaks := by
  constructor
  · rintro ⟨honce, hfresh⟩ ⟨pos, decl⟩ ⟨before, span, after, hl, hpos⟩ hbreaks
    change pos = _ at hpos
    subst hpos
    rcases hbreaks with hrepeats | ⟨outer, before', hbody, hvisible⟩
    · rw [Site.Repeats, Position.before_behindAll, hstart, List.nil_append] at hrepeats
      rw [hl, declaredNames_append] at honce
      have hdisjoint := (List.nodup_append.1 honce).2.2
      exact hdisjoint _ hrepeats _ List.mem_cons_self rfl
    · obtain ⟨earlier, hbody⟩ := Position.eq_body_of_behindAll hbody
      rw [hbody] at hstart
      change earlier = [] at hstart
      subst hstart
      have hnone := hfresh outer hbody decl.name
        (mem_declaredNames_iff.2 ⟨before, decl, span, after, hl, rfl⟩)
      rw [hnone] at hvisible
      cases hvisible
  · intro h
    refine ⟨nodup_of_not_repeats hstart fun x hx hr => h x hx (.inl hr), ?_⟩
    intro outer hbody name hname
    obtain ⟨before, decl, span, after, hl, rfl⟩ := mem_declaredNames_iff.1 hname
    rw [← Option.not_isSome_iff_eq_none]
    intro hvisible
    have hpos : l.start.behindAll before = .body outer before := by
      rw [hbody, Position.behindAll_body, List.nil_append]
    exact h ⟨l.start.behindAll before, decl⟩ ⟨before, span, after, hl, rfl⟩
      (.inr ⟨outer, before, hpos, hvisible⟩)

end Listing

/-! ### The declarations of a program -/

namespace Stmt

mutual

/-- The declarations in a statement, in the order in which they are checked. -/
def sites (pos : Position) : Stmt → List Site
  | declare decl _ => [⟨pos, decl⟩]
  | ifElse _ ⟨stmts, _⟩ none _ => sitesAll (.body pos []) stmts
  | ifElse _ ⟨stmts, _⟩ (some ⟨others, _⟩) _ =>
    sitesAll (.body pos []) stmts ++ sitesAll (.body pos []) others
  | whileDo _ ⟨stmts, _⟩ _ => sitesAll (.body pos []) stmts
  | doWhile ⟨stmts, _⟩ _ _ => sitesAll (.body pos []) stmts
  | block ⟨stmts, _⟩ _ => sitesAll (.block pos []) stmts
  | assign _ _ _ _ => []
  | expr _ _ => []
termination_by structural s => s

def sitesAll (pos : Position) : List Stmt → List Site
  | [] => []
  | s :: rest => s.sites pos ++ sitesAll (pos.behind s) rest
termination_by structural rest => rest

end

end Stmt

/-- All declarations of a program, in the order in which they are checked. -/
def Program.sites (p : Program) : List Site := Stmt.sitesAll (.program []) p.stmts

namespace Stmt

theorem mem_sites_iff {x : Site} {pos : Position} {s : Stmt} : x ∈ s.sites pos ↔
    (∃ span, s = .declare x.decl span ∧ x.pos = pos) ∨
      ∃ b ∈ s.blocks, x ∈ sitesAll (s.entry pos) b.stmts := by
  cases s with
  | declare decl span =>
    obtain ⟨p, d⟩ := x
    simp [sites, blocks, and_comm, eq_comm]
  | ifElse test body other span =>
    cases other <;> simp [sites, blocks, entry]
  | assign | whileDo | doWhile | block | expr => simp [sites, blocks, entry]

theorem mem_sitesAll_iff {x : Site} {pos : Position} {stmts : List Stmt} :
    x ∈ sitesAll pos stmts ↔
      ∃ before s after, stmts = before ++ s :: after ∧ x ∈ s.sites (pos.behindAll before) := by
  induction stmts generalizing pos with
  | nil => simp [sitesAll]
  | cons s rest ih =>
    rw [sitesAll, List.mem_append, ih]
    constructor
    · rintro (h | ⟨before, t, after, rfl, h⟩)
      · exact ⟨[], s, rest, rfl, h⟩
      · exact ⟨s :: before, t, after, rfl, h⟩
    · rintro ⟨before, t, after, hl, h⟩
      cases before with
      | nil =>
        cases hl
        exact .inl h
      | cons u before =>
        cases hl
        exact .inr ⟨before, t, after, rfl, h⟩

end Stmt

namespace Program

variable {p : Program} {l : Listing} {x : Site}

theorem HasList.mem_sites (h : p.HasList l) (hx : x ∈ Stmt.sitesAll l.start l.stmts) :
    x ∈ p.sites := by
  induction h with
  | program => exact hx
  | inner _ hl hb ih =>
    apply ih
    rw [Stmt.mem_sitesAll_iff]
    exact ⟨_, _, _, hl, Stmt.mem_sites_iff.2 (.inr ⟨_, hb, hx⟩)⟩

/-- The declarations in the lists of a program are declarations of the program. -/
theorem HasList.mem_sites_of_within (h : p.HasList l) (hx : x.Within l) : x ∈ p.sites := by
  obtain ⟨before, span, after, hl, hpos⟩ := hx
  apply h.mem_sites
  rw [Stmt.mem_sitesAll_iff]
  exact ⟨before, _, after, hl, Stmt.mem_sites_iff.2 (.inl ⟨span, rfl, hpos⟩)⟩

/-- Every declaration in a list or further in is a member of a list of the program. -/
theorem HasList.exists_within (h : p.HasList l) (hx : x ∈ Stmt.sitesAll l.start l.stmts) :
    ∃ m, p.HasList m ∧ x.Within m := by
  have hstmt : ∀ s : Stmt, ∀ l before after, p.HasList l → l.stmts = before ++ s :: after →
      x ∈ s.sites (l.start.behindAll before) → ∃ m, p.HasList m ∧ x.Within m := by
    intro s
    induction s using Stmt.blockInduction with
    | node s ih =>
      intro l before after hlist hl hx
      rcases Stmt.mem_sites_iff.1 hx with ⟨span, rfl, hpos⟩ | ⟨b, hb, hx⟩
      · exact ⟨l, hlist, before, span, after, hl, hpos⟩
      · obtain ⟨front, t, rest, hblock, hx⟩ := Stmt.mem_sitesAll_iff.1 hx
        have ht : t ∈ b.stmts := by
          rw [hblock]
          exact List.mem_append_right _ List.mem_cons_self
        exact ih b hb t ht _ front rest (hlist.inner hl hb) hblock hx
  obtain ⟨before, s, after, hl, hx⟩ := Stmt.mem_sitesAll_iff.1 hx
  exact hstmt s l before after h hl hx

end Program

/-! ### What the outcome says about the declarations -/

/-- The first of the declarations that breaks a rule has the given name at the given place. -/
def FirstBreak (sites : List Site) (name : String) (span : Span) : Prop :=
  ∃ earlier x later, sites = earlier ++ x :: later ∧ (∀ y ∈ earlier, ¬ y.Breaks) ∧ x.Breaks ∧
    x.decl.name = name ∧ x.decl.nameSpan = span

/-- If the run succeeds, none of the declarations breaks a rule; if it reports a redeclaration, that
is the first one that does. -/
structure Run.Polices {α : Type} (run : Run α) (sites : List Site) : Prop where
  ok : ∀ a, run.outcome = .ok a → ∀ x ∈ sites, ¬ x.Breaks
  error : ∀ name span, run.outcome = .error (.redeclared name span) → FirstBreak sites name span

namespace Run

variable {α β : Type}

/-- A run that declares nothing reports no redeclaration. -/
theorem Polices.of_blames {run : Run α} {Q : SemanticError → Prop} (h : run.Blames Q)
    (hQ : ∀ name span, ¬ Q (.redeclared name span)) : run.Polices [] where
  ok _ _ := List.forall_mem_nil _
  error name span he := absurd (h _ he) (hQ name span)

theorem Polices.bind {run : Run α} {next : α → Run β} {xs ys : List Site} (h : run.Polices xs)
    (hnext : ∀ a, run.outcome = .ok a → (next a).Polices ys) :
    (run >>= next).Polices (xs ++ ys) := by
  cases hrun : run.outcome with
  | ok a =>
    have hxs := h.ok a hrun
    have hys := hnext a hrun
    have houtcome : (run >>= next).outcome = (next a).outcome := outcome_bind_of_ok hrun
    refine ⟨fun b hb => ?_, fun name span he => ?_⟩
    · rw [houtcome] at hb
      exact List.forall_mem_append.2 ⟨hxs, hys.ok b hb⟩
    · rw [houtcome] at he
      obtain ⟨earlier, x, later, rfl, hearlier, hx⟩ := hys.error name span he
      refine ⟨xs ++ earlier, x, later, (List.append_assoc _ _ _).symm, ?_, hx⟩
      exact List.forall_mem_append.2 ⟨hxs, hearlier⟩
  | error e =>
    have houtcome : (run >>= next).outcome = .error e := by
      change (run.andThen next).outcome = _
      unfold andThen
      rw [hrun]
    refine ⟨fun b hb => ?_, fun name span he => ?_⟩
    · rw [houtcome] at hb
      cases hb
    · rw [houtcome] at he
      cases he
      obtain ⟨earlier, x, later, rfl, hx⟩ := h.error name span hrun
      exact ⟨earlier, x, later ++ ys, List.append_assoc _ _ _, hx⟩

/-- Behind the declarations nothing else is declared. -/
theorem Polices.bind_nil {run : Run α} {next : α → Run β} {xs : List Site} (h : run.Polices xs)
    (hnext : ∀ a, (next a).Polices []) : (run >>= next).Polices xs := by
  rw [← List.append_nil xs]
  exact h.bind fun a _ => hnext a

theorem Polices.cons_of_not_breaks {run : Run α} {x : Site} (h : run.Polices [])
    (hx : ¬ x.Breaks) : run.Polices [x] where
  ok _ _ := List.forall_mem_singleton.2 hx
  error name span he := by
    obtain ⟨earlier, y, later, hnil, -⟩ := h.error name span he
    cases earlier <;> cases hnil

/-- The violation is not a redeclaration. -/
def Innocent (e : SemanticError) : Prop := ∀ name span, e ≠ .redeclared name span

theorem polices_of_innocent {run : Run α} (h : run.Blames Innocent) : run.Polices [] :=
  .of_blames h fun name span hinnocent => hinnocent name span rfl

theorem polices_pure (a : α) : (pure a : Run α).Polices [] := polices_of_innocent (blames_pure a)

theorem polices_count (tally : Metrics) : (count tally).Polices [] :=
  polices_of_innocent (blames_count tally)

theorem polices_emit (event : Event) : (emit event).Polices [] :=
  polices_of_innocent (blames_emit event)

theorem polices_require {condition : Bool} {e : SemanticError} (h : Innocent e) :
    (require condition e).Polices [] :=
  polices_of_innocent (blames_require h)

end Run

/-- No expression declares a name. -/
theorem Expr.innocent_of_offence {nodes : List Expr} {e : SemanticError}
    (h : Expr.Offence nodes e) : Innocent e := by
  rintro name span rfl
  cases h

theorem Expr.polices_check (scope : Scope) (e : Expr) : (e.check scope).Polices [] :=
  polices_of_innocent ((e.blames_check scope).mono fun _ => innocent_of_offence)

theorem Expr.polices_checkCondition (scope : Scope) (e : Expr) :
    (e.checkCondition scope).Polices [] :=
  polices_of_innocent ((e.blames_checkCondition scope).mono fun _ => innocent_of_offence)

theorem Declaration.polices_check {pos : Position} (h : pos.Levelled) (decl : Declaration) :
    (decl.check pos.scope).1.Polices [⟨pos, decl⟩] := by
  have hrefused := Site.blocks_iff (x := ⟨pos, decl⟩) h
  cases hblocks : pos.scope.blocks decl.name with
  | true =>
    have hbreaks := hrefused.1 hblocks
    rw [check_of_blocks hblocks]
    refine ⟨?_, ?_⟩
    · intro a ha
      cases ha
    · intro name span he
      cases he
      exact ⟨[], ⟨pos, decl⟩, [], rfl, List.forall_mem_nil _, hbreaks, rfl, rfl⟩
  | false =>
    have hkeeps : ¬ Site.Breaks ⟨pos, decl⟩ := by
      rw [← hrefused, hblocks]
      exact Bool.false_ne_true
    rw [check_of_not_blocks hblocks]
    refine Polices.cons_of_not_breaks ?_ hkeeps
    refine (polices_count _).bind_nil fun _ => (polices_emit _).bind_nil fun _ => ?_
    cases decl.init with
    | none => exact polices_pure ()
    | some init =>
      refine (init.polices_check _).bind_nil fun found => polices_require ?_
      exact fun _ _ => SemanticError.noConfusion

namespace Stmt

/-- From the position where it stands, the check of the statement polices its declarations. -/
def Policed (s : Stmt) : Prop :=
  ∀ pos : Position, pos.Levelled → (s.check pos.scope).1.Polices (s.sites pos)

theorem polices_checkAll {stmts : List Stmt} (hstmts : ∀ s ∈ stmts, s.Policed) {pos : Position}
    (h : pos.Levelled) : (checkAll pos.scope stmts).1.Polices (sitesAll pos stmts) := by
  induction stmts generalizing pos with
  | nil => exact polices_pure ()
  | cons s rest ih =>
    obtain ⟨hs, hrest⟩ := List.forall_mem_cons.1 hstmts
    rw [checkAll_cons_run, sitesAll, ← pos.scope_behind s]
    exact (hs pos h).bind fun _ hok => ih hrest (h.behind hok)

theorem polices_enclose {inner : Scope} {body : Run Unit × Scope} {xs : List Site}
    (h : body.1.Polices xs) : (enclose inner body).1.Polices xs :=
  (polices_emit _).bind fun _ _ => h.bind_nil fun _ => polices_emit _

theorem polices_body {stmts : List Stmt} (hstmts : ∀ s ∈ stmts, s.Policed) {pos : Position}
    (h : pos.Levelled) :
    (enclose pos.scope.enterBody (checkAll pos.scope.enterBody stmts)).1.Polices
      (sitesAll (.body pos []) stmts) :=
  polices_enclose (polices_checkAll hstmts h.body)

theorem policed (s : Stmt) : s.Policed := by
  induction s with
  | declare decl span => exact fun pos h => decl.polices_check h
  | assign target targetSpan value span =>
    intro pos h
    have hlookup : (ofExcept (pos.scope.lookup target targetSpan)).Polices [] :=
      polices_of_innocent (Scope.blames_lookup fun _ _ => SemanticError.noConfusion)
    refine hlookup.bind_nil fun declared => (value.polices_check _).bind_nil fun found => ?_
    exact polices_require fun _ _ => SemanticError.noConfusion
  | ifThen test body span ih =>
    intro pos h
    exact (polices_count _).bind fun _ _ => (test.polices_checkCondition _).bind fun _ _ =>
      polices_body ih h
  | ifElse test body other span ih ihOther =>
    intro pos h
    exact (polices_count _).bind fun _ _ => (test.polices_checkCondition _).bind fun _ _ =>
      (polices_body ih h).bind fun _ _ => polices_body ihOther h
  | whileDo test body span ih =>
    intro pos h
    exact (polices_count _).bind fun _ _ => (test.polices_checkCondition _).bind fun _ _ =>
      polices_body ih h
  | doWhile body test span ih =>
    intro pos h
    exact (polices_count _).bind fun _ _ => (polices_body ih h).bind_nil fun _ =>
      test.polices_checkCondition _
  | block body span ih => exact fun pos h => polices_enclose (polices_checkAll ih h.block)
  | expr value span => exact fun pos h => (value.polices_check _).bind_nil fun _ => polices_pure ()

end Stmt

theorem Program.polices_check (p : Program) : p.check.Polices p.sites :=
  (Stmt.polices_checkAll (fun s _ => s.policed) .program).bind_nil fun _ =>
    (polices_emit _).bind_nil fun _ => polices_pure _

/-- **Redeclarations.**  In a program that checks, no list of statements declares a name twice, and
no body of a branch or a loop declares a name that is visible where it is entered; a program with a
list that breaks one of these rules does not check.  A redeclaration that is reported is the first
declaration, in the order of checking, whose name is declared before in its list or visible where
the body it stands in is entered, and the list it stands in breaks one of the rules. -/
theorem redeclaration_discipline (p : Program) :
    (∀ m, p.analyze = .ok m → ∀ l, p.HasList l → l.Disciplined) ∧
      ((∃ l, p.HasList l ∧ ¬ l.Disciplined) → ∃ e, p.analyze = .error e) ∧
      ∀ name span, p.analyze = .error (.redeclared name span) →
        ∃ earlier x later, p.sites = earlier ++ x :: later ∧ (∀ y ∈ earlier, ¬ y.Breaks) ∧
          x.Breaks ∧ x.decl.name = name ∧ x.decl.nameSpan = span ∧
            ∃ l, p.HasList l ∧ x.Within l ∧ ¬ l.Disciplined := by
  have hkeeps : ∀ m, p.analyze = .ok m → ∀ l, p.HasList l → l.Disciplined := by
    intro m hm l hl
    rw [Listing.disciplined_iff hl.before_start]
    exact fun x hx => p.polices_check.ok m hm x (hl.mem_sites_of_within hx)
  refine ⟨hkeeps, ?_, ?_⟩
  · rintro ⟨l, hl, hbreaks⟩
    cases hm : p.analyze with
    | error e => exact ⟨e, rfl⟩
    | ok m => exact absurd (hkeeps m hm l hl) hbreaks
  · intro name span he
    obtain ⟨earlier, x, later, hsites, hearlier, hx, hname⟩ := p.polices_check.error name span he
    have hmem : x ∈ p.sites := by
      rw [hsites]
      exact List.mem_append_right _ List.mem_cons_self
    obtain ⟨l, hl, hwithin⟩ := Program.HasList.program.exists_within hmem
    refine ⟨earlier, x, later, hsites, hearlier, hx, hname.1, hname.2, l, hl, hwithin, ?_⟩
    rw [Listing.disciplined_iff hl.before_start]
    exact fun h => h x hwithin hx

end StaticCheck
