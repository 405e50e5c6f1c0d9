import StaticCheck.Command
import StaticCheck.Proofs.Invariants
import StaticCheck.Proofs.Slices

/-! # Options and verdicts

What is shown on the way does not change the verdict (`verdict_of_options`).  Only one option can
change the outcome at all: to list the tokens, all of them are looked at before anything is read, so
that a lexical error is found first which a reading might never come to.  Such a reading has stopped
at a fault in front of the error. -/

namespace StaticCheck

/-! ### Reading a text with a lexical error -/

/-- A token that a reading can stand on is none that stands behind a lexical error. -/
theorem Reachable.mem {finish : Nat} {t : Token} {us : List Token} {e : LexicalError}
    {rest : List Item} (h : Reachable finish (us.map .ok ++ .error e :: rest) t) : t ∈ us := by
  generalize hits : us.map .ok ++ .error e :: rest = its at h
  cases h with
  | token taken t later =>
    induction us generalizing taken with
    | nil => cases taken <;> simp at hits
    | cons u us ih =>
      cases taken with
      | nil =>
        obtain ⟨hu, -⟩ := List.cons.inj hits
        rw [Except.ok.inj hu]
        exact List.mem_cons_self
      | cons v taken => exact List.mem_cons_of_mem u (ih taken (List.cons.inj hits).2)
  | atEnd taken =>
    have herror : .error e ∈ taken.map (Except.ok (ε := LexicalError)) := by
      rw [← hits]
      simp
    simp at herror

/-- The first error is unique. -/
theorem error_unique {us vs : List Token} {e e' : LexicalError} {rest rest' : List Item}
    (h : us.map .ok ++ .error e :: rest = vs.map .ok ++ .error e' :: rest') : e = e' := by
  induction us generalizing vs with
  | nil =>
    cases vs with
    | nil => exact Except.error.inj (List.cons.inj h).1
    | cons v vs => cases (List.cons.inj h).1
  | cons u us ih =>
    cases vs with
    | nil => cases (List.cons.inj h).1
    | cons v vs => exact ih (List.cons.inj h).2

/-- Only a text without lexical errors is a program. -/
theorem exists_tokenize_of_parse {source : String} {p : Program} (h : parse source = .ok p) :
    ∃ ts, tokenize source = .ok ts := by
  obtain ⟨ts, stop, htok, -⟩ := parse_eq_ok_iff.1 h
  exact ⟨_, htok⟩

/-- A text with a lexical error is read up to that error, or to a fault in front of it. -/
theorem check_of_tokenize_error {source : String} {e : LexicalError}
    (h : tokenize source = .error e) : check source = .error (.ofLexicalError e) ∨
      ∃ (fault : Fault) (span : Span), check source = .error (.syntactic fault.detail span) ∧
        span.stop ≤ e.span.start := by
  obtain ⟨us, rest, hitems⟩ := tokenize_eq_error_iff.1 h
  cases hparse : parse source with
  | ok p =>
    obtain ⟨ts, hts⟩ := exists_tokenize_of_parse hparse
    rw [h] at hts
    cases hts
  | error raised =>
    rw [check_of_parse_error hparse]
    obtain ⟨first, vs, rest', rfl, hitems'⟩ | ⟨fault, t, rfl, ht⟩ := parse_error_cases hparse
    · rw [error_unique (hitems.symm.trans hitems')]
      exact .inl rfl
    · rw [hitems] at ht
      exact .inr ⟨fault, t.span, rfl, stop_le_of_items hitems t ht.mem⟩

/-! ### Outcomes under options -/

theorem outcome_of_tokenNotes {options : Options} {source : String} {notes : List String}
    (h : options.tokenNotes source = .ok notes) :
    (checkWith options source).outcome = check source := by
  have silent : Options.none.tokenNotes source = .ok [] := rfl
  unfold check checkWith
  rw [h, silent]
  cases parse source <;> rfl

theorem outcome_of_not_listTokens {options : Options} (h : options.listTokens = false)
    (source : String) : (checkWith options source).outcome = check source := by
  have hnotes : options.tokenNotes source = .ok [] := by
    rw [Options.tokenNotes, h]
    rfl
  exact outcome_of_tokenNotes hnotes

theorem outcome_of_tokenize_ok {source : String} {ts : List Token} (h : tokenize source = .ok ts)
    (options : Options) : (checkWith options source).outcome = check source := by
  cases hlist : options.listTokens with
  | false => exact outcome_of_not_listTokens hlist source
  | true =>
    have hnotes : options.tokenNotes source = .ok (tokenListing ts) := by
      rw [Options.tokenNotes, hlist, h]
      rfl
    exact outcome_of_tokenNotes hnotes

theorem outcome_of_tokenize_error {source : String} {e : LexicalError} {options : Options}
    (h : tokenize source = .error e) (hlist : options.listTokens = true) :
    (checkWith options source).outcome = .error (.ofLexicalError e) := by
  have hnotes : options.tokenNotes source = .error (.ofLexicalError e) := by
    rw [Options.tokenNotes, hlist, h]
    rfl
  rw [checkWith, hnotes]

/-- A text is accepted under all options or under none. -/
theorem outcome_eq_ok_iff (options : Options) (source : String) (m : Metrics) :
    (checkWith options source).outcome = .ok m ↔ check source = .ok m := by
  cases htok : tokenize source with
  | ok ts => rw [outcome_of_tokenize_ok htok]
  | error e =>
    have hcheck : check source ≠ .ok m := by
      intro hok
      obtain h | ⟨fault, span, h, -⟩ := check_of_tokenize_error htok
      · rw [h] at hok
        cases hok
      · rw [h] at hok
        cases hok
    cases hlist : options.listTokens with
    | false => rw [outcome_of_not_listTokens hlist]
    | true =>
      rw [outcome_of_tokenize_error htok hlist]
      exact iff_of_false (by simp) hcheck

/-! ### Commands -/

/-- The status of a command that checks a text. -/
def statusOf (source : String) : Nat :=
  match check source with
  | .ok _ => 0
  | .error _ => 1

/-- What a command that checks a text writes: the report of a text that is accepted. -/
def reportOf (source : String) (quiet : Bool) : String :=
  match check source with
  | .ok metrics => if quiet then "" else metrics.report ++ "\n"
  | .error _ => ""

theorem checkFile_eq (path source : String) (i : Invocation) (log : Option LogLevel) :
    (checkFile path source i log).status = statusOf source ∧
      (checkFile path source i log).stdout = reportOf source i.quiet := by
  unfold checkFile statusOf reportOf
  cases hcheck : check source with
  | ok m =>
    simp only [(outcome_eq_ok_iff i.options source m).2 hcheck, and_self]
  | error failure =>
    cases houtcome : (checkWith i.options source).outcome with
    | ok m =>
      rw [(outcome_eq_ok_iff i.options source m).1 houtcome] at hcheck
      cases hcheck
    | error _ => simp only [houtcome, and_self]

/-- A command line that asks for the given options. -/
def Invocation.args (i : Invocation) : List String :=
  notesIf i.verbose ["--verbose"] ++ notesIf i.quiet ["--quiet"] ++
    notesIf i.listTree ["--dump-ast"] ++ notesIf i.listTokens ["--dump-tokens"] ++
    "--" :: i.path.toList

theorem ofArgs_args {i : Invocation} {path : String} (hi : i.path = some path) (hpath : path ≠ "") :
    Command.ofArgs i.args = .check path i := by
  have hread : Invocation.empty.readAll i.args = .ok i := by
    obtain ⟨_, verbose, quiet, listTree, listTokens⟩ := i
    cases hi
    cases verbose <;> cases quiet <;> cases listTree <;> cases listTokens <;>
      simp [Invocation.args, notesIf, Invocation.readAll, Invocation.setPath, Invocation.read,
        Flag.ofWord?, Invocation.set, Invocation.empty, hpath, bind, Except.bind, pure, Except.pure]
  rw [Command.ofArgs, hread]
  dsimp only
  rw [hi]

/-- **Options do not change the verdict.**  A text has the same metrics under all options, and a
text without lexical errors the same outcome.  Of a text with a lexical error, the outcome is that
error if the tokens are listed, and else that error or a fault in front of it.  So for every
combination of options a command ends with the same status, and writes the report unless it is
quiet. -/
theorem verdict_of_options (source : String) :
    (∀ o₁ o₂ : Options, ∀ m, (checkWith o₁ source).outcome = .ok m ↔
      (checkWith o₂ source).outcome = .ok m) ∧
    (∀ o₁ o₂ : Options, (∃ ts, tokenize source = .ok ts) ∨ o₁.listTokens = o₂.listTokens →
      (checkWith o₁ source).outcome = (checkWith o₂ source).outcome) ∧
    (∀ e, tokenize source = .error e → ∀ o : Options,
      (o.listTokens = true → (checkWith o source).outcome = .error (.ofLexicalError e)) ∧
      (o.listTokens = false → (checkWith o source).outcome = .error (.ofLexicalError e) ∨
        ∃ (fault : Fault) (span : Span),
          (checkWith o source).outcome = .error (.syntactic fault.detail span) ∧
            span.stop ≤ e.span.start)) ∧
    (∀ (i : Invocation) (path : String), i.path = some path → path ≠ "" →
      Command.ofArgs i.args = .check path i) ∧
    ∀ (args : List String) (path : String) (i : Invocation) (file : String → FileContent)
      (log : Option LogLevel), Command.ofArgs args = .check path i →
      (file path).text = .ok source →
      ((Command.ofArgs args).run file log).status = statusOf source ∧
        ((Command.ofArgs args).run file log).stdout = reportOf source i.quiet := by
  refine ⟨fun o₁ o₂ m => ?_, fun o₁ o₂ h => ?_, fun e he o => ⟨fun ho => ?_, fun ho => ?_⟩,
    fun i path hi hpath => ofArgs_args hi hpath, fun args path i file log hargs htext => ?_⟩
  · rw [outcome_eq_ok_iff, outcome_eq_ok_iff]
  · cases htok : tokenize source with
    | ok ts => rw [outcome_of_tokenize_ok htok, outcome_of_tokenize_ok htok]
    | error e =>
      obtain ⟨ts, hts⟩ | hlist := h
      · rw [hts] at htok
        cases htok
      cases ho : o₂.listTokens with
      | false =>
        rw [ho] at hlist
        rw [outcome_of_not_listTokens hlist, outcome_of_not_listTokens ho]
      | true =>
        rw [ho] at hlist
        rw [outcome_of_tokenize_error htok hlist, outcome_of_tokenize_error htok ho]
  · exact outcome_of_tokenize_error he ho
  · rw [outcome_of_not_listTokens ho]
    exact check_of_tokenize_error he
  · rw [hargs, Command.run, htext]
    exact checkFile_eq path source i log

/-- A fault in front of a stray character, with the tokens listed and without. -/
theorem verdict_of_options_stray :
    tokenize "; @" = .error ⟨"@", ⟨2, 3⟩⟩ ∧
    (checkWith ⟨true, false, true⟩ "; @").outcome =
      .error (.lexical "unexpected character '@'" ⟨2, 3⟩) ∧
    (checkWith ⟨false, true, false⟩ "; @").outcome =
      .error (.syntactic "unexpected token in expression: ';'" ⟨0, 1⟩) ∧
    Command.ofArgs ["-v", "--dump-tokens", "a.txt"] =
      .check "a.txt" ⟨some "a.txt", true, false, false, true⟩ ∧
    ∀ log, ((Command.ofArgs ["-v", "--dump-tokens", "a.txt"]).run
      (fun _ => .bytes "; @".toUTF8) log).status = 1 := by
  have htok : tokenize "; @" = .error ⟨"@", ⟨2, 3⟩⟩ := by decide +kernel
  have hargs : Command.ofArgs ["-v", "--dump-tokens", "a.txt"] =
      .check "a.txt" ⟨some "a.txt", true, false, false, true⟩ := by decide +kernel
  have hstatus : statusOf "; @" = 1 := by decide +kernel
  obtain ⟨-, -, hstray, -, hrun⟩ := verdict_of_options "; @"
  refine ⟨htok, (hstray _ htok _).1 rfl, by decide +kernel, hargs, fun log => ?_⟩
  rw [← hstatus]
  exact (hrun _ _ _ _ log hargs (by decide +kernel)).1

end StaticCheck
