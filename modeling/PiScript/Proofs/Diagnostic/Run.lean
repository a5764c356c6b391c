import PiScript.CommandLine
import PiScript.Proofs.Diagnostic.Excerpt
import PiScript.Proofs.Machine.Entries
import PiScript.Proofs.Machine.Origin

/-!
# Diagnostics of runs

A failed run is reported against the text that was run, by the command line as in a session. Errors
without a place show no line of it. An error with a place has it in an included text that is no
program, and the line that is shown is the one that has the same number in the text that was run.
The caret points at the offending token only if the two texts agree on that line
(`run_diagnostic_places`); in general they do not (`included_error_shown_elsewhere`).
-/

namespace PiScript

namespace Diagnostic

open Text Grammar

/-- Without a place, the text does not matter. -/
theorem render_of_pos_eq_none {e : Error} (h : e.pos = none) (source other : String) :
    render source e = render other e := by
  rw [render, render, h]

section

variable {files : Files} {fuel : Nat} {env : Env} {source : String} {p : Program} {e : Error}
  {m : Machine}

theorem submit_of_failed (hp : Program.ofText source = .ok p)
    (hrun : p.run files fuel { env := env } = .failed e m) (pending : String) :
    Session.submit files fuel ⟨env, pending⟩ source =
      some { out := m.sink.written, err := render source e, next := some { env := m.env } } := by
  simp only [Session.submit, hp, hrun]

theorem runText_of_failed (hp : Program.ofText source = .ok p)
    (hrun : p.run files fuel {} = .failed e m) :
    CommandLine.runText files fuel {} source =
      some { code := 1, out := m.sink.written, err := render source e } := by
  rw [Program.ofText] at hp
  simp only [CommandLine.runText, hp, hrun]
  rfl

/-- The command line and a session show a failed run by the same diagnostic. If all included texts
in reach are programs, the error has no place and the diagnostic does not depend on the text that was
run. An error with a place is that of an included text in reach which is no program; the line shown
is the line of the text that was run, and its caret is right if the included text has the same line
there. -/
theorem run_diagnostic_places (hp : Program.ofText source = .ok p)
    (hrun : p.run files fuel { env := env } = .failed e m) :
    (∀ pending, Session.submit files fuel ⟨env, pending⟩ source =
      some { out := m.sink.written, err := render source e, next := some { env := m.env } }) ∧
    (env = .empty → CommandLine.runText files fuel {} source =
      some { code := 1, out := m.sink.written, err := render source e }) ∧
    ((∀ path text, InReach files env p (.inclusion path) → files path = .ok text →
        ∃ q, Program.ofText text = .ok q) →
      e.pos = none ∧ ∀ other, render other e = render source e) ∧
    (∀ pos, e.pos = some pos →
      ∃ path text t, InReach files env p (.inclusion path) ∧ files path = .ok text ∧
        Program.ofText text = .error e ∧ offender? text = some t ∧ t.pos = pos ∧
        ∀ line, shownLine? source pos = some line →
          ShowsCaret (render source e) line pos.col ∧
            (shownLine? text pos = some line → PointsAt line t)) := by
  have hends : p.Ends files { env := env } (.failed e m) := ⟨by simp, fuel, hrun⟩
  -- On a sink that never fails, only a rejected file gives an error with a place.
  have horigin := hends.origin ⟨rfl, rfl⟩
  refine ⟨submit_of_failed hp hrun, ?_, ?_, ?_⟩
  · rintro rfl
    exact runText_of_failed hp hrun
  · intro hprograms
    have hpos : e.pos = none := by
      cases horigin with
      | rejected hpath hfile htext =>
        obtain ⟨q, hq⟩ := hprograms _ _ hpath hfile
        rw [hq] at htext
        cases htext
      | unreadable => rfl
      | execution => rfl
    exact ⟨hpos, fun other => render_of_pos_eq_none hpos other source⟩
  · intro pos hpos
    cases horigin with
    | rejected hpath hfile htext =>
      obtain ⟨t, ht, hoffender, hplace, -⟩ := exists_offender htext
      obtain rfl : t.pos = pos := Option.some.inj (hplace.symm.trans hpos)
      refine ⟨_, _, t, hpath, hfile, htext, hoffender, rfl, ?_⟩
      intro line hline
      exact ⟨showsCaret_render hpos hline, pointsAt_of_mem_lex ht⟩
    | unreadable => cases hpos
    | execution => cases hpos

end

def callText : String := "3.1415926535 +f+ 3."

/-- A call of a function that does not exist shows no line. -/
theorem callText_shows_no_line :
    ∃ e m, Program.run (fun _ => .error .notFound) 1 [.call "f"] {} = .failed e m ∧
      CommandLine.runText (fun _ => .error .notFound) 1 {} callText =
        some { code := 1, out := m.sink.written, err := render "" e } := by
  have hp : Program.ofText callText = .ok [.call "f"] :=
    ofText_eq_ok_iff.mpr ⟨callTree, by decide +kernel, rfl⟩
  have hrun : Program.run (fun _ => .error .notFound) 1 [.call "f"] {} =
      .failed ⟨.undeclaredFunction "f", none⟩ {} := rfl
  obtain ⟨-, htext, hnone, -⟩ := run_diagnostic_places hp hrun
  refine ⟨_, _, hrun, ?_⟩
  rw [htext rfl, (hnone (fun path text _ hfile => by cases hfile)).2 ""]

/-! ## A caret at the wrong place -/

def oopsFiles : Files
  | "inner" => .ok oopsText
  | _ => .error .notFound

/-- A text includes a file that is no program. On the command line and in a session, the diagnostic
shows the line of the text that includes it, which is no line of the file, with the caret under a
word that is not the offending one. -/
theorem included_error_shown_elsewhere :
    Program.ofText includingText = .ok [.inclusion "inner"] ∧
    Program.run oopsFiles 1 [.inclusion "inner"] {} = .failed oopsError {} ∧
    CommandLine.runText oopsFiles 1 {} includingText =
      some { code := 1, err := render includingText oopsError } ∧
    Session.submit oopsFiles 1 {} includingText =
      some { err := render includingText oopsError, next := some {} } ∧
    oopsFiles "inner" = .ok oopsText ∧ Program.ofText oopsText = .error oopsError ∧
    ∃ t line, offender? oopsText = some t ∧ oopsError.pos = some t.pos ∧
      shownLine? includingText t.pos = some line ∧
      ShowsCaret (render includingText oopsError) line t.pos.col ∧
      line ∉ lines oopsText.toList ∧ ¬t.text.toList <+: line.drop (t.pos.col - 1) := by
  have hload : oopsFiles.load "inner" = .error oopsError := ofText_oopsText
  have hrun : Program.run oopsFiles 1 [.inclusion "inner"] {} = .failed oopsError {} := by
    rw [Program.run, runBlock, exec_inclusion_of_error hload]
    rfl
  refine ⟨ofText_includingText, hrun, runText_of_failed ofText_includingText hrun,
    submit_of_failed ofText_includingText hrun "", rfl, ofText_oopsText, ?_⟩
  have hline : shownLine? includingText ⟨1, 1⟩ = some "-- +inner+ 3.".toList := by decide +kernel
  refine ⟨⟨.malformed, "oops", ⟨1, 1⟩⟩, _, offender?_oopsText, rfl, hline,
    showsCaret_render rfl hline, ?_, ?_⟩
  · decide +kernel
  · decide +kernel

end Diagnostic

end PiScript
