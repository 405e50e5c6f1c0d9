import Mathlib.Data.Finset.Card
import Mathlib.Data.Finset.Dedup
import StaticCheck.Session

/-! # Scopes as stacks of frames

A session works on copied tables: each scope holds every visible name, and a number tells at which
depth the name was declared.  The plain picture of nested blocks is another one: a stack of frames,
each with the declarations of one block alone, searched from the inside out.

Both pictures give the same answers to every sequence of requests (`answers_eq_frames`).  What
carries the proof is `Scope.Shows`: a table binds every name as the innermost frame that declares it
does, so that a name of the top frame is known by the depth of the table and every other name has a
smaller one (`resolve?_depth_lt`). -/

namespace StaticCheck

/-! ### Frames -/

/-- A declaration of a block. -/
structure Entry where
  name : String
  ty : Ty
  span : Span

/-- The declarations of one block, and whether they may shadow those of the blocks around it. -/
structure Frame where
  entries : List Entry
  shadowing : Bool

namespace Frame

def empty (shadowing : Bool) : Frame := ⟨[], shadowing⟩

/-- The declaration of a name in this very frame. -/
def find? (frame : Frame) (name : String) : Option Entry :=
  frame.entries.find? fun e => e.name == name

def declares (frame : Frame) (name : String) : Bool := (frame.find? name).isSome

def names (frame : Frame) : List String := frame.entries.map Entry.name

def push (frame : Frame) (e : Entry) : Frame := { frame with entries := e :: frame.entries }

/-- The binding of a name in the innermost of some frames that declares it.  Its depth is the index
of that frame, counted from the outermost one. -/
def resolve? (name : String) : List Frame → Option Binding
  | [] => none
  | frame :: outer =>
    match frame.find? name with
    | some e => some ⟨e.name, e.ty, e.span, outer.length⟩
    | none => resolve? name outer

variable {frame : Frame} {frames : List Frame} {name : String}

theorem declares_iff : frame.declares name = true ↔ name ∈ frame.names := by
  unfold declares find? names
  rw [List.find?_isSome, List.mem_map]
  simp only [beq_iff_eq]

theorem find?_push_self (e : Entry) : (frame.push e).find? e.name = some e := by
  simp [find?, push]

theorem find?_push_of_ne {e : Entry} (h : name ≠ e.name) :
    (frame.push e).find? name = frame.find? name := by
  have front : (e.name == name) = false := by simp [Ne.symm h]
  simp only [find?, push, List.find?_cons, front]

theorem isSome_resolve? :
    (resolve? name frames).isSome = frames.any fun frame => frame.declares name := by
  induction frames with
  | nil => rfl
  | cons frame outer ih =>
    rw [resolve?, List.any_cons, declares]
    cases frame.find? name with
    | none => simpa using ih
    | some e => rfl

/-- The frame that declares a name has a smaller index than there are frames. -/
theorem resolve?_depth_lt {b : Binding} (h : resolve? name frames = some b) :
    b.depth < frames.length := by
  induction frames with
  | nil => cases h
  | cons frame outer ih =>
    rw [resolve?] at h
    rw [List.length_cons]
    cases hfind : frame.find? name with
    | none =>
      rw [hfind] at h
      have := ih h
      omega
    | some e =>
      rw [hfind] at h
      cases h
      exact Nat.lt_succ_self _

end Frame

/-- Nested blocks at one place: the innermost frame, and those around it from the inside out. -/
structure FrameStack where
  top : Frame
  outer : List Frame

namespace FrameStack

/-- The frame of a whole program, before its first statement. -/
def start : FrameStack := ⟨.empty false, []⟩

def frames (stack : FrameStack) : List Frame := stack.top :: stack.outer

/-- The number of frames around the top one. -/
def depth (stack : FrameStack) : Nat := stack.outer.length

/-- The number of distinct names that the frames declare. -/
def size (stack : FrameStack) : Nat := (stack.frames.flatMap Frame.names).toFinset.card

/-- Whether a declaration is refused: the top frame declares the name already, or it does not shadow
and a frame around it does. -/
def refuses (stack : FrameStack) (name : String) : Bool :=
  stack.top.declares name ||
    (!stack.top.shadowing && stack.outer.any fun frame => frame.declares name)

def enter (stack : FrameStack) (shadowing : Bool) : FrameStack :=
  ⟨.empty shadowing, stack.frames⟩

end FrameStack

/-! ### Requests about names and blocks -/

/-- A request that declares a name, asks for one, or enters or leaves a block. -/
inductive NameRequest where
  | declare (name : String) (ty : Ty) (span : Span)
  | lookup (name : String) (span : Span)
  | get (name : String)
  | contains (name : String)
  | enterBody
  | enterBlock
  | leave
deriving DecidableEq

def NameRequest.toRequest : NameRequest → Request
  | declare name ty span => .declare name ty span
  | lookup name span => .lookup name span
  | get name => .get name
  | contains name => .contains name
  | enterBody => .enterBody
  | enterBlock => .enterBlock
  | leave => .leave

/-- What a request shows: its result, and the depth and the number of names behind it. -/
structure Observation where
  result : Except Failure Reply
  depth : Nat
  size : Nat

namespace FrameStack

/-- Answers a request from the frames, and gives the stack behind it. -/
def step (stack : FrameStack) : NameRequest → Except Failure Reply × FrameStack
  | .declare name ty span =>
    if stack.refuses name then (.error (.semantic (.redeclared name span)), stack)
    else (.ok .done, { stack with top := stack.top.push ⟨name, ty, span⟩ })
  | .lookup name span =>
    match Frame.resolve? name stack.frames with
    | none => (.error (.semantic (.undeclared name span)), stack)
    | some b => (.ok (.type b.ty), stack)
  | .get name => (.ok (.binding (Frame.resolve? name stack.frames)), stack)
  | .contains name => (.ok (.truth (stack.frames.any fun frame => frame.declares name)), stack)
  | .enterBody => (.ok .done, stack.enter false)
  | .enterBlock => (.ok .done, stack.enter true)
  | .leave =>
    match stack.outer with
    | [] => (.ok .done, stack)
    | frame :: outer => (.ok .done, ⟨frame, outer⟩)

/-- What requests show that are answered in order from the frames. -/
def observations (stack : FrameStack) : List NameRequest → List Observation
  | [] => []
  | request :: rest =>
    let (result, after) := stack.step request
    ⟨result, after.depth, after.size⟩ :: after.observations rest

end FrameStack

namespace Session

/-- What requests show that are answered in order by a session. -/
def observations (session : Session) (requests : List NameRequest) : List Observation :=
  (session.answers (requests.map NameRequest.toRequest)).map fun (result, after) =>
    ⟨result, after.scope.depth, after.scope.size⟩

/-- The session behind requests. -/
def after (session : Session) (requests : List NameRequest) : Session :=
  requests.foldl (fun s request => (s.step request.toRequest).2) session

end Session

/-! ### Tables that show frames -/

namespace Scope

/-- The table of a scope shows the frame at its depth and those around it. -/
structure Shows (scope : Scope) (frame : Frame) (outer : List Frame) : Prop where
  depth : scope.depth = outer.length
  shadowing : scope.shadowing = frame.shadowing
  get? (name : String) : scope.get? name = Frame.resolve? name (frame :: outer)
  nodup : (scope.bindings.map Binding.name).Nodup

theorem isSome_get?_iff {scope : Scope} {name : String} :
    (scope.get? name).isSome = true ↔ name ∈ scope.bindings.map Binding.name := by
  unfold get?
  rw [List.find?_isSome, List.mem_map]
  simp only [beq_iff_eq]

theorem nodup_insert {scope : Scope} (h : (scope.bindings.map Binding.name).Nodup) (b : Binding) :
    ((scope.insert b).bindings.map Binding.name).Nodup := by
  have hkept : ((scope.bindings.filter fun c => c.name != b.name).map Binding.name).Nodup :=
    h.sublist (List.filter_sublist.map _)
  unfold insert
  rw [List.map_cons, List.nodup_cons]
  refine ⟨?_, hkept⟩
  intro hmem
  obtain ⟨c, hc, hname⟩ := List.mem_map.1 hmem
  simpa [hname] using (List.mem_filter.1 hc).2

namespace Shows

variable {scope : Scope} {frame : Frame} {outer : List Frame}

theorem empty : Scope.empty.Shows (.empty false) [] :=
  ⟨rfl, rfl, fun _ => rfl, List.nodup_nil⟩

theorem size (h : scope.Shows frame outer) :
    scope.size = ((frame :: outer).flatMap Frame.names).toFinset.card := by
  have hsame : (scope.bindings.map Binding.name).toFinset =
      ((frame :: outer).flatMap Frame.names).toFinset := by
    ext name
    rw [List.mem_toFinset, List.mem_toFinset, ← isSome_get?_iff, h.get?, Frame.isSome_resolve?,
      List.any_eq_true, List.mem_flatMap]
    simp only [Frame.declares_iff]
  rw [← hsame, List.toFinset_card_of_nodup h.nodup, List.length_map]
  rfl

/-- The table refuses a declaration exactly if the frames do: a name has the depth of the table if
and only if the top frame declares it. -/
theorem blocks (h : scope.Shows frame outer) (name : String) :
    scope.blocks name = FrameStack.refuses ⟨frame, outer⟩ name := by
  unfold Scope.blocks FrameStack.refuses
  rw [h.get?, h.depth, h.shadowing, Frame.resolve?, ← Frame.isSome_resolve?, Frame.declares]
  cases frame.find? name with
  | some e => simp
  | none =>
    cases hout : Frame.resolve? name outer with
    | none => simp
    | some b =>
      -- an inherited name keeps the depth of its own frame, which is smaller
      have hlt := Frame.resolve?_depth_lt hout
      have hne : (b.depth == outer.length) = false := beq_false_of_ne (Nat.ne_of_lt hlt)
      simp [hne]

theorem insert (h : scope.Shows frame outer) (e : Entry) :
    (scope.insert ⟨e.name, e.ty, e.span, scope.depth⟩).Shows (frame.push e) outer where
  depth := h.depth
  shadowing := h.shadowing
  get? name := by
    rw [Frame.resolve?]
    by_cases hname : name = e.name
    · subst hname
      rw [Frame.find?_push_self, ← h.depth]
      exact scope.get?_insert_self ⟨e.name, e.ty, e.span, scope.depth⟩
    · rw [Frame.find?_push_of_ne hname, get?_insert_of_ne scope hname, h.get?, Frame.resolve?]
  nodup := nodup_insert h.nodup _

/-- A copy of the table one level deeper shows a new frame without declarations. -/
theorem enter (h : scope.Shows frame outer) (shadowing : Bool) :
    Shows ⟨scope.bindings, scope.depth + 1, shadowing⟩ (.empty shadowing) (frame :: outer) where
  depth := by rw [h.depth, List.length_cons]
  shadowing := rfl
  get? name := h.get? name
  nodup := h.nodup

end Shows

end Scope

/-- Each table of a nest of scopes shows the frames from its own one outwards. -/
inductive ShowsAll : List Scope → List Frame → Prop
  | nil : ShowsAll [] []
  | cons {scope : Scope} {scopes : List Scope} {frame : Frame} {frames : List Frame} :
      scope.Shows frame frames → ShowsAll scopes frames →
        ShowsAll (scope :: scopes) (frame :: frames)

/-! ### Sessions that show stacks -/

/-- The scopes of a session show the frames of a stack. -/
def Session.Shows (session : Session) (stack : FrameStack) : Prop :=
  ShowsAll (session.scope :: session.outer) stack.frames

namespace Session.Shows

variable {session : Session} {stack : FrameStack}

theorem start : Session.start.Shows .start := .cons .empty .nil

theorem scope (h : session.Shows stack) : session.scope.Shows stack.top stack.outer := by
  cases h with
  | cons h _ => exact h

theorem outer (h : session.Shows stack) : ShowsAll session.outer stack.outer := by
  cases h with
  | cons _ h => exact h

/-- One request is answered alike, and the session still shows the stack behind it. -/
theorem step (h : session.Shows stack) (request : NameRequest) :
    (session.step request.toRequest).1 = (stack.step request).1 ∧
      (session.step request.toRequest).2.Shows (stack.step request).2 := by
  cases request with
  | declare name ty span =>
    have hblocks : session.scope.blocks name = stack.refuses name := h.scope.blocks name
    simp only [NameRequest.toRequest, Session.step, FrameStack.step, Scope.declare, hblocks]
    cases stack.refuses name with
    | true => exact ⟨rfl, h⟩
    | false => exact ⟨rfl, .cons (h.scope.insert ⟨name, ty, span⟩) h.outer⟩
  | lookup name span =>
    have hget : session.scope.get? name = Frame.resolve? name stack.frames := h.scope.get? name
    simp only [NameRequest.toRequest, Session.step, FrameStack.step, Scope.lookup, hget]
    cases Frame.resolve? name stack.frames with
    | none => exact ⟨rfl, h⟩
    | some b => exact ⟨rfl, h⟩
  | get name =>
    have hget : session.scope.get? name = Frame.resolve? name stack.frames := h.scope.get? name
    simp only [NameRequest.toRequest, Session.step, FrameStack.step, hget]
    exact ⟨trivial, h⟩
  | contains name =>
    have hget : session.scope.get? name = Frame.resolve? name stack.frames := h.scope.get? name
    simp only [NameRequest.toRequest, Session.step, FrameStack.step, Scope.contains, hget,
      Frame.isSome_resolve?]
    exact ⟨trivial, h⟩
  | enterBody => exact ⟨rfl, .cons (h.scope.enter false) h⟩
  | enterBlock => exact ⟨rfl, .cons (h.scope.enter true) h⟩
  | leave =>
    have houter := h.outer
    simp only [NameRequest.toRequest, Session.step, FrameStack.step]
    cases hs : session.outer with
    | nil =>
      cases hf : stack.outer with
      | nil => exact ⟨rfl, h⟩
      | cons frame frames =>
        rw [hs, hf] at houter
        cases houter
    | cons scope scopes =>
      cases hf : stack.outer with
      | nil =>
        rw [hs, hf] at houter
        cases houter
      | cons frame frames =>
        rw [hs, hf] at houter
        exact ⟨rfl, houter⟩

theorem observations (h : session.Shows stack) (requests : List NameRequest) :
    session.observations requests = stack.observations requests := by
  induction requests generalizing session stack with
  | nil => rfl
  | cons request rest ih =>
    obtain ⟨hresult, hafter⟩ := h.step request
    have hfirst : (⟨(session.step request.toRequest).1,
        (session.step request.toRequest).2.scope.depth,
        (session.step request.toRequest).2.scope.size⟩ : Observation) =
        ⟨(stack.step request).1, (stack.step request).2.depth, (stack.step request).2.size⟩ := by
      rw [hresult, hafter.scope.depth, hafter.scope.size]
      rfl
    have hrest := ih hafter
    unfold Session.observations at hrest ⊢
    rw [List.map_cons, Session.answers, List.map_cons, hrest, FrameStack.observations]
    exact congrArg (· :: _) hfirst

end Session.Shows

/-! ### Leaving a block -/

namespace NameRequest

def enters : NameRequest → Bool
  | enterBody | enterBlock => true
  | _ => false

/-- Requests in which every block that is entered is left again, and none else is left. -/
inductive Balanced : List NameRequest → Prop
  | nil : Balanced []
  | plain {request : NameRequest} {rest : List NameRequest} :
      request.enters = false → request ≠ leave → Balanced rest → Balanced (request :: rest)
  | block {enter : NameRequest} {inner rest : List NameRequest} :
      enter.enters = true → Balanced inner → Balanced rest →
      Balanced (enter :: (inner ++ leave :: rest))

end NameRequest

namespace Session

theorem after_cons (session : Session) (request : NameRequest) (rest : List NameRequest) :
    session.after (request :: rest) = (session.step request.toRequest).2.after rest := rfl

theorem after_append (session : Session) (first second : List NameRequest) :
    session.after (first ++ second) = (session.after first).after second :=
  List.foldl_append

/-- A request that neither enters nor leaves a block changes at most the innermost scope. -/
theorem step_plain (session : Session) {request : NameRequest} (henter : request.enters = false)
    (hleave : request ≠ .leave) :
    (session.step request.toRequest).2.outer = session.outer ∧
      (session.step request.toRequest).2.metrics = session.metrics := by
  cases request with
  | declare name ty span =>
    simp only [NameRequest.toRequest, step]
    cases session.scope.declare name ty span with
    | error e => exact ⟨rfl, rfl⟩
    | ok scope => exact ⟨rfl, rfl⟩
  | lookup name span => exact ⟨rfl, rfl⟩
  | get name => exact ⟨rfl, rfl⟩
  | contains name => exact ⟨rfl, rfl⟩
  | enterBody => cases henter
  | enterBlock => cases henter
  | leave => exact absurd rfl hleave

theorem step_enters (session : Session) {request : NameRequest} (henter : request.enters = true) :
    (session.step request.toRequest).2.outer = session.scope :: session.outer ∧
      (session.step request.toRequest).2.metrics = session.metrics := by
  cases request with
  | enterBody => exact ⟨rfl, rfl⟩
  | enterBlock => exact ⟨rfl, rfl⟩
  | _ => cases henter

theorem step_leave {session : Session} {scope : Scope} {outer : List Scope}
    (h : session.outer = scope :: outer) :
    (session.step NameRequest.leave.toRequest).2 = ⟨scope, outer, session.metrics⟩ := by
  simp only [NameRequest.toRequest, step, h]

/-- The requests change at most the innermost scope of a session. -/
def Keeps (requests : List NameRequest) : Prop :=
  ∀ session : Session, (session.after requests).outer = session.outer ∧
    (session.after requests).metrics = session.metrics

/-- Leaving a block restores the session as it was before the block was entered. -/
theorem after_block (session : Session) {enter : NameRequest} {inner : List NameRequest}
    (henter : enter.enters = true) (hinner : Keeps inner) :
    session.after (enter :: (inner ++ [.leave])) = session := by
  obtain ⟨houter, hmetrics⟩ := session.step_enters henter
  obtain ⟨hkept, hkept'⟩ := hinner (session.step enter.toRequest).2
  have hleft := step_leave (hkept.trans houter)
  rw [hkept', hmetrics] at hleft
  rw [after_cons, after_append]
  exact hleft

theorem keeps_of_balanced {requests : List NameRequest} (h : NameRequest.Balanced requests) :
    Keeps requests := by
  induction h with
  | nil => exact fun _ => ⟨rfl, rfl⟩
  | @plain request rest henter hleave _ ih =>
    intro session
    obtain ⟨houter, hmetrics⟩ := session.step_plain henter hleave
    obtain ⟨houter', hmetrics'⟩ := ih (session.step request.toRequest).2
    exact ⟨houter'.trans houter, hmetrics'.trans hmetrics⟩
  | @block enter inner rest henter _ _ ihInner ihRest =>
    intro session
    have hsplit : enter :: (inner ++ .leave :: rest) = enter :: (inner ++ [.leave]) ++ rest := by
      simp
    rw [hsplit, after_append, session.after_block henter ihInner]
    exact ihRest session

end Session

/-- **Copied tables are a stack of frames.**  From an empty scope on, every sequence of requests
shows on a session what it shows on a stack of frames: the same results, depths and numbers of
names.  Leaving a block restores exactly the session before the block was entered. -/
theorem answers_eq_frames (requests : List NameRequest) :
    Session.start.observations requests = FrameStack.start.observations requests ∧
      ∀ enter inner, enter.enters = true → NameRequest.Balanced inner →
        Session.start.after (requests ++ enter :: (inner ++ [.leave])) =
          Session.start.after requests := by
  refine ⟨Session.Shows.start.observations requests, ?_⟩
  intro enter inner henter hinner
  rw [Session.after_append]
  exact Session.after_block _ henter (Session.keeps_of_balanced hinner)

/-- A bare block declares a visible name anew, and leaving it brings the old one back. -/
theorem answers_eq_frames_shadowing :
    Session.start.observations [.declare "a" .int ⟨0, 1⟩] =
        FrameStack.start.observations [.declare "a" .int ⟨0, 1⟩] ∧
      Session.start.after ([.declare "a" .int ⟨0, 1⟩] ++
          .enterBlock :: ([.declare "a" .bool ⟨2, 3⟩] ++ [.leave])) =
        Session.start.after [.declare "a" .int ⟨0, 1⟩] := by
  obtain ⟨hshown, hleft⟩ := answers_eq_frames [.declare "a" .int ⟨0, 1⟩]
  exact ⟨hshown, hleft .enterBlock [.declare "a" .bool ⟨2, 3⟩] rfl (.plain rfl (by decide) .nil)⟩

end StaticCheck
