import StaticCheck.Proofs.Tokenization

/-! # Looking ahead

The items of a text make up one endless stream, with the end of the text for ever behind the last of
them.  A reader that is asked for items and for looks at them, in any order, stands at one place of
this stream: an item that is asked for is passed, a token that is looked at is not, and an error
that is looked at is (`Lexer.answers_eq_stream`).

The reader itself keeps its place in two parts, the text that is still to be read and the token that
was looked at already; `Lexer.StandsAt` says which place they make up. -/

namespace StaticCheck

open Lexer (Call)

/-! ### Places in a stream -/

/-- Items without end. -/
abbrev ItemStream := Nat → Item

namespace ItemStream

/-- The tokens and errors of a text in order, and then the end of the text for ever. -/
def ofSource (source : String) : ItemStream :=
  fun place => (items source).getD place (.ok (.atEnd source.utf8ByteSize))

/-- Answers a request at a place, and gives the place behind it. -/
def call (stream : ItemStream) (place : Nat) : Call → Item × Nat
  | .next => (stream place, place + 1)
  | .peek =>
    match stream place with
    | .ok token => (.ok token, place)
    | .error e => (.error e, place + 1)

/-- Answers requests in order, each at the place that the one before left behind. -/
def answers (stream : ItemStream) (place : Nat) : List Call → List Item
  | [] => []
  | c :: calls =>
    let (item, after) := stream.call place c
    item :: stream.answers after calls

variable {stream : ItemStream} {place : Nat}

theorem call_peek_ok {token : Token} (h : stream place = .ok token) :
    stream.call place .peek = (.ok token, place) := by
  simp only [call, h]

theorem call_peek_error {e : LexicalError} (h : stream place = .error e) :
    stream.call place .peek = (.error e, place + 1) := by
  simp only [call, h]

end ItemStream

namespace Lexer

/-! ### The place of a reader -/

/-- The reader stands at the place of the stream: the items from there on are those of the text that
it has still to read, behind the token that it has looked at. -/
inductive StandsAt (source : String) : Lexer → Nat → Prop
  | fresh {rest : List Char} {offset place : Nat} :
      locate offset (pieces rest) = (items source).drop place →
      offset + byteLength rest = source.utf8ByteSize → StandsAt source ⟨rest, offset, none⟩ place
  | looked {rest : List Char} {offset place : Nat} {token : Token} :
      ItemStream.ofSource source place = .ok token →
      locate offset (pieces rest) = (items source).drop (place + 1) →
      offset + byteLength rest = source.utf8ByteSize →
      StandsAt source ⟨rest, offset, some token⟩ place

section standing

variable {source : String}

theorem standsAt_ofSource (source : String) : StandsAt source (ofSource source) 0 := by
  apply StandsAt.fresh
  · rfl
  · rw [utf8ByteSize_eq, Nat.zero_add]

/-- Reading on from a place gives the item at the place and what stands behind it. -/
theorem scan_of_drop {rest : List Char} {offset place : Nat}
    (h : locate offset (pieces rest) = (items source).drop place)
    (hsize : offset + byteLength rest = source.utf8ByteSize) :
    ∃ more after, scan offset rest = (ItemStream.ofSource source place, more, after) ∧
      locate after (pieces more) = (items source).drop (place + 1) ∧
      after + byteLength more = source.utf8ByteSize := by
  have hfront : ((items source).drop place)[0]? = (items source)[place]? := by
    rw [List.getElem?_drop, Nat.add_zero]
  have hbehind : ((items source).drop place).tail = (items source).drop (place + 1) :=
    List.tail_drop
  unfold ItemStream.ofSource
  rw [List.getD_eq_getElem?_getD]
  rw [← h] at hfront hbehind
  rw [← hfront, ← hbehind]
  obtain ⟨hnil, hscan⟩ | ⟨item, more, after, hcons, hscan, hlength⟩ := scan_cases offset rest
  · refine ⟨[], offset + byteLength rest, ?_, ?_, hsize⟩
    · rw [hscan, hnil, hsize]
      rfl
    · rw [hnil, pieces]
      rfl
  · refine ⟨more, after, ?_, ?_, hlength.trans hsize⟩
    · rw [hscan, hcons]
      rfl
    · rw [hcons]
      rfl

variable {lexer : Lexer} {place : Nat}

theorem StandsAt.next (h : StandsAt source lexer place) :
    lexer.next.1 = ItemStream.ofSource source place ∧ StandsAt source lexer.next.2 (place + 1) := by
  cases h with
  | fresh hrest hsize =>
    obtain ⟨more, after, hscan, hmore, hlength⟩ := scan_of_drop hrest hsize
    simp only [Lexer.next, hscan]
    exact ⟨trivial, .fresh hmore hlength⟩
  | looked htoken hrest hsize => exact ⟨htoken.symm, .fresh hrest hsize⟩

theorem StandsAt.peek (h : StandsAt source lexer place) :
    lexer.peek.1 = ((ItemStream.ofSource source).call place .peek).1 ∧
      StandsAt source lexer.peek.2 ((ItemStream.ofSource source).call place .peek).2 := by
  cases h with
  | fresh hrest hsize =>
    obtain ⟨more, after, hscan, hmore, hlength⟩ := scan_of_drop hrest hsize
    cases hitem : ItemStream.ofSource source place with
    | ok token =>
      rw [hitem] at hscan
      rw [ItemStream.call_peek_ok hitem]
      simp only [Lexer.peek, Lexer.next, hscan]
      exact ⟨trivial, .looked hitem hmore hlength⟩
    | error e =>
      rw [hitem] at hscan
      rw [ItemStream.call_peek_error hitem]
      simp only [Lexer.peek, Lexer.next, hscan]
      exact ⟨trivial, .fresh hmore hlength⟩
  | looked htoken hrest hsize =>
    rw [ItemStream.call_peek_ok htoken]
    exact ⟨rfl, .looked htoken hrest hsize⟩

/-- A request is answered from the place at which the reader stands. -/
theorem StandsAt.call (h : StandsAt source lexer place) (c : Call) :
    (lexer.call c).1 = ((ItemStream.ofSource source).call place c).1 ∧
      StandsAt source (lexer.call c).2 ((ItemStream.ofSource source).call place c).2 := by
  cases c with
  | next => exact h.next
  | peek => exact h.peek

theorem StandsAt.answers (h : StandsAt source lexer place) (calls : List Call) :
    lexer.answers calls = (ItemStream.ofSource source).answers place calls := by
  induction calls generalizing lexer place with
  | nil => rfl
  | cons c calls ih =>
    obtain ⟨hitem, hafter⟩ := h.call c
    rw [Lexer.answers, ItemStream.answers]
    simp only [hitem, ih hafter]

end standing

end Lexer

/-! ### What is delivered -/

namespace Lexer

/-- The answer to the request is taken out of the stream. -/
def Call.takes : Call → Item → Bool
  | .next, _ => true
  | .peek, .ok _ => false
  | .peek, .error _ => true

/-- The requests whose answers are taken out of the stream, with these answers. -/
def delivered (calls : List Call) (answers : List Item) : List (Call × Item) :=
  (calls.zip answers).filter fun exchange => exchange.1.takes exchange.2

/-- The answers to the requests for the next item. -/
def nextAnswers (calls : List Call) (answers : List Item) : List Item :=
  ((calls.zip answers).filter fun exchange => exchange.1 = .next).map Prod.snd

/-- What is taken are the answers to requests for the next item and the errors. -/
theorem mem_delivered_iff {calls : List Call} {answers : List Item} {c : Call} {item : Item} :
    (c, item) ∈ delivered calls answers ↔
      (c, item) ∈ calls.zip answers ∧ (c = .next ∨ ∃ e, item = .error e) := by
  have htakes : c.takes item = true ↔ c = .next ∨ ∃ e, item = .error e := by
    cases c with
    | next => simp [Call.takes]
    | peek => cases item <;> simp [Call.takes]
  rw [delivered, List.mem_filter, htakes]

end Lexer

namespace ItemStream

open Lexer (delivered nextAnswers)

variable (stream : ItemStream)

theorem answers_next (n place : Nat) :
    stream.answers place (List.replicate n .next) = (List.range' place n).map stream := by
  induction n generalizing place with
  | zero => rfl
  | succ n ih =>
    rw [List.replicate_succ, answers, List.range'_succ, List.map_cons, ← ih]
    rfl

/-- The place moves on with the requests that take their answer, and with no other. -/
theorem call_eq (place : Nat) (c : Call) :
    stream.call place c =
      (stream place, if c.takes (stream place) then place + 1 else place) := by
  cases c with
  | next => rfl
  | peek =>
    cases hitem : stream place with
    | ok token => exact call_peek_ok hitem
    | error e => exact call_peek_error hitem

/-- What is taken out of the stream are its items from the place on, each of them once. -/
theorem delivered_answers (place : Nat) (calls : List Call) :
    (delivered calls (stream.answers place calls)).map Prod.snd =
      (List.range' place (delivered calls (stream.answers place calls)).length).map stream := by
  induction calls generalizing place with
  | nil => rfl
  | cons c calls ih =>
    simp only [answers, call_eq, delivered, List.zip_cons_cons, List.filter_cons]
    by_cases htakes : c.takes (stream place) = true
    · simp only [htakes, if_true, List.map_cons, List.length_cons, List.range'_succ]
      exact congrArg _ (ih (place + 1))
    · simp only [htakes, if_false, Bool.false_eq_true]
      exact ih place

/-- Each request for the next item takes an item out of the stream. -/
theorem count_next_le_delivered (place : Nat) (calls : List Call) :
    calls.count .next ≤ (delivered calls (stream.answers place calls)).length := by
  induction calls generalizing place with
  | nil => exact Nat.le_refl 0
  | cons c calls ih =>
    have hrest := ih (stream.call place c).2
    cases c with
    | next =>
      simp only [List.count_cons_self, answers]
      exact Nat.succ_le_succ hrest
    | peek =>
      simp only [answers, delivered, List.zip_cons_cons]
      refine (List.count_cons_of_ne (by decide)).le.trans (hrest.trans ?_)
      exact ((List.sublist_cons_self _ _).filter _).length_le

/-- Looking at tokens does not change what the requests for the next item are answered with. -/
theorem nextAnswers_answers (hok : ∀ place e, stream place ≠ .error e) (place : Nat)
    (calls : List Call) :
    nextAnswers calls (stream.answers place calls) =
      stream.answers place (calls.filter (· = .next)) := by
  induction calls generalizing place with
  | nil => rfl
  | cons c calls ih =>
    cases c with
    | next => exact congrArg (stream place :: ·) (ih (place + 1))
    | peek =>
      cases hitem : stream place with
      | ok token =>
        rw [answers, call_peek_ok hitem]
        exact ih place
      | error e => exact absurd hitem (hok place e)

theorem ofSource_ne_error {source : String} (h : ∀ e, .error e ∉ items source) (place : Nat)
    (e : LexicalError) : ofSource source place ≠ .error e := by
  unfold ofSource
  rw [List.getD_eq_getElem?_getD]
  cases hitem : (items source)[place]? with
  | none => intro heq; cases heq
  | some item =>
    rintro rfl
    exact h e (List.mem_of_getElem? hitem)

end ItemStream

namespace Lexer

/-- Requests for items and looks at them, in any order, are answered from one place in the stream
that the requests for items alone would give.  So what is taken is the stream from its start on, in
order and each item once, the tokens by requests for them and the errors also by looks; and without
errors in the text, looking changes no other answer. -/
theorem answers_eq_stream (source : String) (calls : List Call) :
    (∀ n, (ofSource source).answers (List.replicate n .next) =
      (List.range n).map (ItemStream.ofSource source)) ∧
    (ofSource source).answers calls = (ItemStream.ofSource source).answers 0 calls ∧
    (∃ n, calls.count .next ≤ n ∧
      (delivered calls ((ofSource source).answers calls)).map Prod.snd =
        (List.range n).map (ItemStream.ofSource source)) ∧
    (∀ c item, (c, item) ∈ delivered calls ((ofSource source).answers calls) ↔
      (c, item) ∈ calls.zip ((ofSource source).answers calls) ∧
        (c = .next ∨ ∃ e, item = .error e)) ∧
    ((∀ e, .error e ∉ items source) →
      nextAnswers calls ((ofSource source).answers calls) =
        (ofSource source).answers (calls.filter (· = .next))) := by
  have hanswers : ∀ calls, (ofSource source).answers calls =
      (ItemStream.ofSource source).answers 0 calls := (standsAt_ofSource source).answers
  refine ⟨?_, hanswers calls, ?_, ?_, ?_⟩
  · intro n
    rw [hanswers, ItemStream.answers_next, List.range_eq_range']
  · rw [hanswers]
    refine ⟨_, (ItemStream.ofSource source).count_next_le_delivered 0 calls, ?_⟩
    rw [List.range_eq_range']
    exact ItemStream.delivered_answers _ 0 calls
  · intro c item
    exact mem_delivered_iff
  · intro h
    rw [hanswers, hanswers]
    exact ItemStream.nextAnswers_answers _ (ItemStream.ofSource_ne_error h) 0 calls

theorem answers_eq_stream_minus :
    (∀ e, .error e ∉ items "-1") ∧
      nextAnswers [.peek, .peek, .next, .peek, .next, .peek, .next]
        ((ofSource "-1").answers [.peek, .peek, .next, .peek, .next, .peek, .next]) =
        (ofSource "-1").answers [.next, .next, .next] := by
  have hitems : items "-1" = [.ok ⟨.punct .minus, ⟨0, 1⟩⟩, .ok ⟨.int "1", ⟨1, 2⟩⟩] := by
    decide +kernel
  have hok : ∀ e, .error e ∉ items "-1" := by simp [hitems]
  exact ⟨hok, (answers_eq_stream "-1" _).2.2.2.2 hok⟩

-- An error that was looked at is gone, and the end of the text stays.
example : (ofSource "#a").answers [.peek, .peek, .peek, .next, .next, .peek, .next] =
    [.error ⟨"#", ⟨0, 1⟩⟩, .ok ⟨.ident "a", ⟨1, 2⟩⟩, .ok ⟨.ident "a", ⟨1, 2⟩⟩,
      .ok ⟨.ident "a", ⟨1, 2⟩⟩, .ok ⟨.eof, ⟨2, 2⟩⟩, .ok ⟨.eof, ⟨2, 2⟩⟩, .ok ⟨.eof, ⟨2, 2⟩⟩] := by
  decide +kernel

end Lexer

end StaticCheck
