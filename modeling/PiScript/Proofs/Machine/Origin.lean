import PiScript.Proofs.Grammar.ErrorPlace
import PiScript.Proofs.Grammar.RoundTrip
import PiScript.Proofs.Machine.Output
import PiScript.Proofs.Machine.Truncation

/-!
# Where the errors of a run come from

On a sink that never fails there are three origins of an error. The text of an included file may be
no program, and then the error is the one that this text gives, with its place there. An included
file may be unreadable. Every other error is made by executing a statement, and has no place. The
origin of an error is told by its kind (`errors_have_known_origin`).

Files count only if an inclusion names them that a run can reach: in the program, in a stored
function, or in a file that is included in this way itself.
-/

namespace PiScript

open Grammar

/-! ## What a run can reach -/

/-- The statement can come up in a run of the program: it stands in the program or in a stored
function, in a block of such a statement, or in a file that such a statement includes. -/
inductive InReach (files : Files) (env : Env) (p : Program) : Stmt → Prop where
  | program {s : Stmt} (h : s ∈ p) : InReach files env p s
  | stored {name : String} {body : Program} {s : Stmt} (hbody : env.function? name = some body)
      (h : s ∈ body) : InReach files env p s
  | block {s t : Stmt} (hs : InReach files env p s) (h : t ∈ s.block) : InReach files env p t
  | included {path : String} {body : Program} {s : Stmt}
      (hpath : InReach files env p (.inclusion path)) (hload : files.load path = .ok body)
      (h : s ∈ body) : InReach files env p s

theorem closed_inReach (files : Files) (env : Env) (p : Program) :
    Closed files (InReach files env p) where
  block hs _ ht := .block hs ht
  included hpath hload _ hs := .included hpath hload hs

theorem holds_inReach (files : Files) (env : Env) (p : Program) :
    env.Holds (InReach files env p) :=
  fun _ _ hbody _ hs => .stored hbody hs

/-! ## Errors of single tasks -/

def ErrorKind.ofExecution : List ErrorKind :=
  [.undeclaredName, .type, .arithmetic, .unsupportedOperation]

/-- Where an error comes from, if the inclusions are those of `C`. -/
inductive Error.Origin (files : Files) (C : Stmt → Prop) : Error → Prop where
  | rejected {path content : String} {e : Error} (h : C (.inclusion path))
      (hfile : files path = .ok content) (htext : Program.ofText content = .error e) :
      Error.Origin files C e
  | unreadable {path : String} {reason : ReadError} (h : C (.inclusion path))
      (hfile : files path = .error reason) :
      Error.Origin files C ⟨.unreadableFile path reason, none⟩
  | execution {cause : Cause} (h : cause.kind ∈ ErrorKind.ofExecution) :
      Error.Origin files C ⟨cause, none⟩

theorem Operator.kind_of_apply {op : Operator} {l r : Value} {cause : Cause}
    (h : op.apply l r = .error cause) : cause.kind ∈ ErrorKind.ofExecution := by
  unfold Operator.apply at h
  split at h
  · cases h
    simp [Cause.kind, ErrorKind.ofExecution]
  · cases h
    simp [Cause.kind, ErrorKind.ofExecution]
  · cases h

theorem Expr.kind_of_eval {env : Env} {e : Expr} {cause : Cause} (h : e.eval env = .error cause) :
    cause.kind ∈ ErrorKind.ofExecution := by
  cases e with
  | operand v => cases h
  | binary op left right => exact Operator.kind_of_apply h

theorem Expr.kind_of_evalCondition {env : Env} {e : Expr} {cause : Cause}
    (h : e.evalCondition env = .error cause) : cause.kind ∈ ErrorKind.ofExecution := by
  unfold Expr.evalCondition at h
  split at h
  · cases h
  · cases h
    decide
  · cases h
    exact Expr.kind_of_eval ‹_›

theorem Expr.kind_of_stepTarget {e : Expr} {cause : Cause} (h : e.stepTarget = .error cause) :
    cause.kind ∈ ErrorKind.ofExecution := by
  unfold Expr.stepTarget at h
  split at h
  · split at h
    · split at h
      · cases h
      · cases h
        decide
    · cases h
      decide
  · cases h
    decide

theorem Files.origin_of_load {files : Files} {C : Stmt → Prop} {path : String} {e : Error}
    (hpath : C (.inclusion path)) (h : files.load path = .error e) : e.Origin files C := by
  unfold Files.load at h
  cases hfile : files path with
  | error reason =>
    rw [hfile] at h
    obtain rfl := Except.error.inj h
    exact .unreadable hpath hfile
  | ok content =>
    rw [hfile] at h
    exact .rejected hpath hfile h

theorem Task.Fails.origin {files : Files} {C : Stmt → Prop} {env : Env} {t : Task} {e : Error}
    (h : t.Fails files env e) (ht : t.Of C) : e.Origin files C := by
  cases h with
  | stepTarget h => exact .execution (Expr.kind_of_stepTarget h)
  | stepValue htarget h => exact .execution (Expr.kind_of_eval h)
  | inclusion h => exact Files.origin_of_load ht h
  | print h => exact .execution (Expr.kind_of_eval h)
  | declare name h => exact .execution (Expr.kind_of_eval h)
  | unboundSource item body h => exact .execution (by simp [Cause.kind, ErrorKind.ofExecution])
  | notIterable item body hv h => exact .execution (by simp [Cause.kind, ErrorKind.ofExecution])
  | loopCondition step body h => exact .execution (Expr.kind_of_evalCondition h)
  | branchValue body h => exact .execution (Expr.kind_of_eval h)
  | branchCondition body hv h => exact .execution (by simp [Cause.kind, ErrorKind.ofExecution])
  | call h => exact .execution (by simp [Cause.kind, ErrorKind.ofExecution])

/-! ## Errors of runs -/

theorem Runs.origin {files : Files} {C : Stmt → Prop} (hC : Closed files C) {ts : List Task}
    {env : Env} {trace : List Event} {e : Error} (h : Runs files ts env trace (.ended (some e)))
    (henv : env.Holds C) (hts : ∀ t ∈ ts, t.Of C) : e.Origin files C := by
  -- What is left and what is stored stay code of `C`, so the task that fails is one of `C`.
  generalize hending : Ending.ended (some e) = ending at h
  induction h with
  | finished env => cases hending
  | unfinished ts env => cases hending
  | failed ts hfails =>
    cases hending
    exact hfails.origin (hts _ List.mem_cons_self)
  | step hperforms rest ih =>
    obtain ⟨henv', hts'⟩ := hperforms.keeps hC henv hts
    exact ih henv' hts' hending

theorem Program.Ends.origin {files : Files} {p : Program} {m m' : Machine} {e : Error}
    (hsink : m.sink.Unlimited) (hrun : p.Ends files m (.failed e m')) :
    e.Origin files (InReach files m.env p) := by
  have hended : p.Ends files ⟨m.env, m.sink⟩ (.ended (some e) m') := hrun
  obtain ⟨-, trace, htrace, -⟩ := hended.exists_trace hsink.limit_eq hsink.flushFails_eq
  exact htrace.origin (closed_inReach files m.env p) (holds_inReach files m.env p)
    (Task.of_ofBlock fun s hs => .program hs)

/-- The error of a text that is no program has both coordinates. -/
theorem placed_of_ofText {s : String} {e : Error} (h : Program.ofText s = .error e) :
    (e.report.kind = .lexical ∨ e.report.kind = .grammar) ∧ e.report.line.isSome ∧
      e.report.col.isSome := by
  obtain ⟨t, -, -, hpos, hkind⟩ := exists_offender h
  refine ⟨?_, ?_, ?_⟩
  · show e.cause.kind = _ ∨ e.cause.kind = _
    rw [hkind]
    split <;> simp
  · simp [Error.report, hpos]
  · simp [Error.report, hpos]

theorem ErrorKind.ne_of_ofExecution {k : ErrorKind} (h : k ∈ ofExecution) :
    k ≠ .lexical ∧ k ≠ .grammar ∧ k ≠ .inputOutput := by
  cases k <;> simp [ofExecution] at h ⊢

/-- On a sink that never fails, a lexical or grammar error is the one that the text of a reachable
included file gives, with both coordinates; an error of input is a reachable included file that could
not be read, without a place; and any other error is made by executing a statement and has no place
either. Without a reachable inclusion only the last is possible. -/
theorem errors_have_known_origin {files : Files} {p : Program} {m m' : Machine} {e : Error}
    (hsink : m.sink.Unlimited) (hrun : p.Ends files m (.failed e m')) :
    (e.report.kind ∈ [.lexical, .grammar] →
      ∃ path content, InReach files m.env p (.inclusion path) ∧ files path = .ok content ∧
        Program.ofText content = .error e ∧ e.report.line.isSome ∧ e.report.col.isSome) ∧
    (e.report.kind = .inputOutput →
      ∃ path reason, InReach files m.env p (.inclusion path) ∧ files path = .error reason ∧
        e.report = { kind := .inputOutput
                     message := "Failed to read file '" ++ path ++ "': " ++ reason.message }) ∧
    (e.report.kind ∉ [.lexical, .grammar, .inputOutput] →
      e.report.kind ∈ [.undeclaredName, .type, .arithmetic, .unsupportedOperation] ∧
        e.report.line = none ∧ e.report.col = none) ∧
    ((∀ path, ¬InReach files m.env p (.inclusion path)) →
      e.report.kind ∉ [.lexical, .grammar, .inputOutput]) := by
  -- The kind of the error tells the three origins apart.
  cases hrun.origin hsink with
  | rejected hpath hfile htext =>
    obtain ⟨hkind, hline, hcol⟩ := placed_of_ofText htext
    refine ⟨fun _ => ⟨_, _, hpath, hfile, htext, hline, hcol⟩, ?_, ?_, ?_⟩
    · intro hinput
      simp [hinput] at hkind
    · intro hother
      rcases hkind with hkind | hkind <;> simp [hkind] at hother
    · intro hnone
      exact absurd hpath (hnone _)
  | unreadable hpath hfile =>
    refine ⟨?_, fun _ => ⟨_, _, hpath, hfile, rfl⟩, ?_, ?_⟩
    · intro hkind
      simp [Error.report, Cause.kind] at hkind
    · intro hother
      simp [Error.report, Cause.kind] at hother
    · intro hnone
      exact absurd hpath (hnone _)
  | execution h =>
    have hne := ErrorKind.ne_of_ofExecution h
    refine ⟨?_, fun hinput => absurd hinput hne.2.2, fun _ => ⟨h, rfl, rfl⟩, fun _ => ?_⟩
    · intro hkind
      simp [Error.report, hne] at hkind
    · simp [Error.report, hne]

/-! A stored function includes a file, which includes another, which is no program. -/

theorem exec_inclusion_of_error {files : Files} {path : String} {e : Error}
    (h : files.load path = .error e) (fuel : Nat) (m : Machine) :
    Stmt.exec files (fuel + 1) (.inclusion path) m = .failed e m := by
  rw [Stmt.exec, h]

theorem exec_inclusion_of_ok {files : Files} {path : String} {body : Program}
    (h : files.load path = .ok body) (fuel : Nat) (m : Machine) :
    Stmt.exec files (fuel + 1) (.inclusion path) m = runBlock (Stmt.exec files fuel) body m := by
  rw [Stmt.exec, h]

theorem isName_inner : IsName "inner" := by
  decide +kernel

def includingText : String := "-- +inner+ 3.\n"

def includingTree : ProgramTree :=
  .cons (.simple (.inclusion inclusionWord (.ofName isName_inner) stopWord)) .nil

theorem ofText_includingText : Program.ofText includingText = .ok [.inclusion "inner"] :=
  ofText_eq_ok_iff.mpr ⟨includingTree, by decide +kernel, rfl⟩

def oopsText : String := "oops\n"

def oopsError : Error :=
  ⟨.unexpectedWord "oops", some ⟨1, 1⟩⟩

theorem lex_oopsText :
    Token.lex oopsText = [⟨.malformed, "oops", ⟨1, 1⟩⟩, ⟨.eof, "", ⟨2, 1⟩⟩] := by
  rw [Token.lex_eq]
  decide +kernel

theorem ofText_oopsText : Program.ofText oopsText = .error oopsError := by
  rw [Program.ofText, lex_oopsText]
  rfl

theorem offender?_oopsText : offender? oopsText = some ⟨.malformed, "oops", ⟨1, 1⟩⟩ := by
  rw [offender?, lex_oopsText]
  rfl

def nestedFiles : Files
  | "outer" => .ok includingText
  | "inner" => .ok oopsText
  | _ => .error .notFound

def includingEnv : Env :=
  Env.empty.defineFunction "f" [.inclusion "outer"]

theorem nested_inclusion_rejected :
    ∃ e m, Program.Ends nestedFiles [.call "f"] ⟨includingEnv, .unlimited⟩ (.failed e m) ∧
      e.report.kind = .lexical ∧
      ∃ path content, InReach nestedFiles includingEnv [.call "f"] (.inclusion path) ∧
        nestedFiles path = .ok content ∧ Program.ofText content = .error e := by
  have houter : nestedFiles.load "outer" = .ok [.inclusion "inner"] := ofText_includingText
  have hinner : nestedFiles.load "inner" = .error oopsError := ofText_oopsText
  let m : Machine := ⟨includingEnv, .unlimited⟩
  have hrun : Program.Ends nestedFiles [.call "f"] m (.failed oopsError m) := by
    refine ⟨by simp, 3, ?_⟩
    show Program.flush ((runBlock (Stmt.exec nestedFiles 2) [.inclusion "outer"] m).andThen _) = _
    rw [runBlock, exec_inclusion_of_ok houter, runBlock, exec_inclusion_of_error hinner]
    rfl
  obtain ⟨path, content, hpath, hfile, htext, -⟩ :=
    (errors_have_known_origin ⟨rfl, rfl⟩ hrun).1 (by decide)
  exact ⟨oopsError, m, hrun, rfl, path, content, hpath, hfile, htext⟩

end PiScript
