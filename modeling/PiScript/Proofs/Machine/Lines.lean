import PiScript.Proofs.Machine.Reached
import PiScript.Proofs.Machine.Truncation

/-!
# Output line by line

On a sink that accepts everything, a run writes one line for every `print` that it executes and an
empty line for every list of statements that it brings to its end; a list that an error abandons
writes nothing more. Programs that are read from texts never print a line feed, so the lines can be
told apart in the output again: cut at its line feeds, it gives back what was printed.
-/

namespace PiScript

open Grammar Token

/-! ## Lines of a trace -/

def Event.line? : Event → Option String
  | .printed none => some ""
  | .printed (some v) => some v.render
  | .closed => some ""
  | .bound _ _ | .unbound _ | .stored _ _ => none

/-- The lines of a trace: what was printed, and an empty line for the end of each list of
statements. -/
def linesOf (trace : List Event) : List String :=
  trace.filterMap Event.line?

def unlines : List String → String
  | [] => ""
  | l :: lines => l ++ "\n" ++ unlines lines

theorem Event.output_effect (a : Event) :
    a.effect.output = (unlines a.line?.toList).toUTF8 := by
  cases a with
  | printed v => cases v <;> simp [effect, line?, Effect.output, unlines]
  | _ => simp [effect, line?, Effect.output, unlines]

theorem unlines_append (lines more : List String) :
    unlines (lines ++ more) = unlines lines ++ unlines more := by
  induction lines with
  | nil => exact String.empty_append.symm
  | cons l lines ih => rw [List.cons_append, unlines, unlines, ih, ← String.append_assoc]

theorem outputOf_trace (trace : List Event) :
    outputOf (trace.map Event.effect) = (unlines (linesOf trace)).toUTF8 := by
  induction trace with
  | nil => rfl
  | cons a trace ih =>
    have hlines : linesOf (a :: trace) = a.line?.toList ++ linesOf trace := by
      rw [linesOf, List.filterMap_cons]
      cases a.line? <;> rfl
    rw [List.map_cons, outputOf, ih, Event.output_effect, hlines, unlines_append]
    exact String.toByteArray_append.symm

/-- Lines without line feeds can be told apart. -/
theorem splitOn_unlines {lines : List String} (h : ∀ l ∈ lines, '\n' ∉ l.toList) :
    (unlines lines).toList.splitOn '\n' = lines.map String.toList ++ [[]] := by
  induction lines with
  | nil => exact List.splitOn_nil '\n'
  | cons l lines ih =>
    obtain ⟨hl, hlines⟩ := List.forall_mem_cons.mp h
    have htext : (unlines (l :: lines)).toList = l.toList ++ '\n' :: (unlines lines).toList := by
      rw [unlines, String.toList_append, String.toList_append, List.append_assoc]
      rfl
    rw [htext, List.splitOn_append_cons_self, List.splitOn_eq_singleton hl, ih hlines]
    rfl

theorem feed_not_mem_linesOf {trace : List Event} (h : ∀ a ∈ trace, a.WellFormed) :
    ∀ l ∈ linesOf trace, '\n' ∉ l.toList := by
  -- A line feed is a blank, and what is printed has none; the other lines are empty.
  intro l hl
  obtain ⟨a, ha, hline⟩ := List.mem_filterMap.mp hl
  have hwf := h a ha
  cases a with
  | printed v =>
    cases v with
    | none =>
      cases hline
      simp
    | some v =>
      cases hline
      exact Text.Unbroken.feed_not_mem (hwf v rfl)
  | closed =>
    cases hline
    simp
  | _ => cases hline

/-! ## Traces of runs -/

/-- A run that ended has worked off its first tasks, or it has failed in them. -/
theorem Runs.split {files : Files} {ts us : List Task} {env : Env} {trace : List Event}
    {result : Option Error} (h : Runs files (ts ++ us) env trace (.ended result)) :
    (∃ done rest, Runs files ts env done (.ended none) ∧ trace = done ++ rest ∧
      Runs files us (env.after done) rest (.ended result)) ∨
    ∃ e, result = some e ∧ Runs files ts env trace (.ended (some e)) := by
  generalize htasks : ts ++ us = tasks at h
  generalize hending : Ending.ended result = ending at h
  induction h generalizing ts with
  | finished env =>
    obtain ⟨rfl, rfl⟩ := List.append_eq_nil_iff.mp htasks
    cases hending
    exact .inl ⟨[], [], .finished env, rfl, .finished env⟩
  | unfinished tasks env => cases hending
  | @failed t env e rest hfails =>
    cases hending
    cases ts with
    | nil =>
      obtain rfl : us = t :: rest := htasks
      exact .inl ⟨[], [], .finished env, rfl, .failed rest hfails⟩
    | cons u ts =>
      cases htasks
      exact .inr ⟨e, rfl, .failed ts hfails⟩
  | @step t rest more env shown trace ending hperforms hrest ih =>
    subst hending
    cases ts with
    | nil =>
      obtain rfl : us = t :: rest := htasks
      exact .inl ⟨[], _, .finished env, rfl, .step hperforms hrest⟩
    | cons u ts =>
      obtain ⟨rfl, rfl⟩ := List.cons_eq_cons.mp htasks
      -- What takes the place of the first task stands before the same other tasks.
      rcases ih (List.append_assoc more ts us) rfl with
        ⟨done, later, hdone, rfl, hlater⟩ | ⟨e, hresult, hfailed⟩
      · refine .inl ⟨shown ++ done, later, .step hperforms hdone, ?_, ?_⟩
        · rw [List.append_assoc]
        · rwa [Env.after_append]
      · exact .inr ⟨e, hresult, .step hperforms hfailed⟩

/-- A list of statements comes to its end and shows that, or the run ends in it. -/
theorem Runs.ofBlock_cases {files : Files} {body : Program} {ts : List Task} {env : Env}
    {trace : List Event} {result : Option Error}
    (h : Runs files (Task.ofBlock body ++ ts) env trace (.ended result)) :
    (∃ inner rest, Runs files (body.map .run) env inner (.ended none) ∧
      trace = inner ++ .closed :: rest ∧ Runs files ts (env.after inner) rest (.ended result)) ∨
    ∃ e, result = some e ∧ Runs files (body.map .run) env trace (.ended (some e)) := by
  rw [Task.ofBlock, List.append_assoc] at h
  -- Behind its statements stands the task that closes the list, and that one cannot fail.
  rcases h.split with ⟨inner, behind, hinner, rfl, hbehind⟩ | hfailed
  · cases hbehind with
    | failed ts hfails => cases hfails
    | step hperforms hrest =>
      cases hperforms
      exact .inl ⟨inner, _, hinner, rfl, hrest⟩
  · exact .inr hfailed

/-! ## Programs read from texts -/

/-- Behind programs that were read from texts, such a program prints texts without blanks and keeps
no others in its variables, whatever it includes, and for however long it runs. On a sink that
accepts everything, its output cut at the line feeds is what its trace shows line by line. A list of
statements adds an empty line when it comes to its end, and none if an error abandons it. -/
theorem source_output_line_by_line {env : Env} (henv : env.Reached) {text : String} {p : Program}
    (hp : Program.ofText text = .ok p) (files : Files) :
    (∀ trace ending, Runs files (Task.ofBlock p) env trace ending →
      (∀ done, done <+: trace →
        ∀ x s, (env.after done).get? x = some (.text s) → Text.Unbroken s) ∧
      ∀ v, .printed (some v) ∈ trace → Text.Unbroken v.render) ∧
    (∀ sink result m, sink.Unlimited → p.Ends files ⟨env, sink⟩ (.ended result m) →
      ∃! trace, Runs files (Task.ofBlock p) env trace (.ended result) ∧
        m.env = env.after trace ∧
        ∃ out : String, m.sink.written = sink.written ++ out.toUTF8 ∧
          out.toList.splitOn '\n' = (linesOf trace).map String.toList ++ [[]]) ∧
    ∀ body ts env' trace result,
      Runs files (Task.ofBlock body ++ ts) env' trace (.ended result) →
      (∃ inner rest, Runs files (body.map .run) env' inner (.ended none) ∧
        trace = inner ++ .closed :: rest ∧ Runs files ts (env'.after inner) rest (.ended result)) ∨
      ∃ e, result = some e ∧ Runs files (body.map .run) env' trace (.ended (some e)) := by
  have hwf := henv.wellFormed
  -- Stored functions and included files are well-formed too, so all that is shown is.
  have hall : ∀ trace ending, Runs files (Task.ofBlock p) env trace ending →
      ∀ a ∈ trace, a.WellFormed := fun trace ending htrace =>
    htrace.wellFormed hwf (Task.wellFormed_ofBlock (wellFormed_of_ofText hp))
  refine ⟨fun trace ending htrace => ⟨?_, ?_⟩, ?_, ?_⟩
  · intro done hdone x s hx
    have hafter := hwf.after fun a ha => hall trace ending htrace a (hdone.subset ha)
    exact (hafter.vars x _ hx).2
  · intro v hv
    exact hall trace ending htrace _ hv v rfl
  · intro sink result m hsink hrun
    obtain ⟨fuel, trace, htrace, rfl, -⟩ :=
      hrun.exists_trace hsink.limit_eq hsink.flushFails_eq
    refine ⟨trace, ⟨htrace, rfl, unlines (linesOf trace), ?_, ?_⟩, ?_⟩
    · rw [← outputOf_trace]
      rfl
    · exact splitOn_unlines (feed_not_mem_linesOf (hall trace _ htrace))
    · rintro other ⟨hother, -⟩
      exact (hother.unique htrace).1
  · intro body ts env' trace result h
    exact h.ofBlock_cases

/-! Two branches, the second of which calls a function that is not defined. -/

def printLineTree (s : String) : LineTree .inside :=
  .simple (.print (.operand (.ofValue (.text s))) stopWord)

def takenTree (body : LinesTree .inside) : LineTree .outside :=
  .block (.branch branchWord (.operand (.ofValue (.truth true))) stopWord) body endWord stopWord

def branchesTree : ProgramTree :=
  .cons (takenTree (.cons (printLineTree "a") .nil))
    (.cons (takenTree (.cons (printLineTree "b")
      (.cons (.simple (.call callWord (.ofName isName_f) stopWord)) .nil))) .nil)

def branchesText : String :=
  "3.14 +true+ 3.\n+a+ 3.\n3.14159265 3.\n" ++
    "3.14 +true+ 3.\n+b+ 3.\n3.1415926535 +f+ 3.\n3.14159265 3."

def branchesProgram : Program :=
  [.branch (.operand (.truth true)) [.print (some (.operand (.text "a")))],
   .branch (.operand (.truth true)) [.print (some (.operand (.text "b"))), .call "f"]]

/-- The first branch ends with an empty line; the second branch and the program are abandoned. -/
theorem branchesText_lines :
    Env.empty.Reached ∧ Program.ofText branchesText = .ok branchesProgram ∧
    ∃ m, Program.Ends (fun _ => .error .notFound) branchesProgram ⟨.empty, .unlimited⟩
        (.ended (some ⟨.undeclaredFunction "f", none⟩) m) ∧
      m.sink.written = "a\n\nb\n".toUTF8 ∧
      ∃ trace, Runs (fun _ => .error .notFound) (Task.ofBlock branchesProgram) .empty trace
          (.ended (some ⟨.undeclaredFunction "f", none⟩)) ∧
        (linesOf trace).map String.toList ++ [[]] = [['a'], [], ['b'], []] := by
  have hp : Program.ofText branchesText = .ok branchesProgram := by
    have ha : Value.ofLiteral "+a+" = .text "a" := by decide +kernel
    have hb : Value.ofLiteral "+b+" = .text "b" := by decide +kernel
    have htrue : Value.ofLiteral "+true+" = .truth true := by decide +kernel
    refine ofText_eq_ok_iff.mpr ⟨branchesTree, by decide +kernel, ?_⟩
    show [Stmt.branch (.operand (Value.ofLiteral "+true+"))
        [.print (some (.operand (Value.ofLiteral "+a+")))],
      .branch (.operand (Value.ofLiteral "+true+"))
        [.print (some (.operand (Value.ofLiteral "+b+"))), .call "f"]] = _
    rw [ha, hb, htrue]
    rfl
  have hrun : ∃ m, Program.Ends (fun _ => .error .notFound) branchesProgram ⟨.empty, .unlimited⟩
      (.ended (some ⟨.undeclaredFunction "f", none⟩) m) ∧ m.sink.written = "a\n\nb\n".toUTF8 :=
    ⟨_, ⟨Outcome.ended_ne_outOfFuel _ _, 3, rfl⟩, by decide +kernel⟩
  obtain ⟨m, hrun, hwritten⟩ := hrun
  refine ⟨.empty, hp, m, hrun, hwritten, ?_⟩
  obtain ⟨trace, ⟨htrace, -, out, hout, hlines⟩, -⟩ :=
    (source_output_line_by_line .empty hp _).2.1 _ _ _ ⟨rfl, rfl⟩ hrun
  have hempty : Sink.unlimited.written ++ out.toUTF8 = out.toUTF8 := ByteArray.empty_append
  rw [hempty, hwritten] at hout
  obtain rfl : "a\n\nb\n" = out := String.toByteArray_inj.mp hout
  refine ⟨trace, htrace, ?_⟩
  rw [← hlines]
  decide +kernel

end PiScript
