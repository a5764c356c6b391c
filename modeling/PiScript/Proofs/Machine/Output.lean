import PiScript.Proofs.Machine.Simulation

/-!
# Output on a sink that accepts everything

Such a sink only ever grows, and what a run adds to it does not depend on what it held before. The
statements of a program therefore do the same behind any output, and end it with an empty line.
-/

namespace PiScript

def newline : ByteArray :=
  "\n".toUTF8

structure Sink.Unlimited (s : Sink) : Prop where
  limit_eq : s.limit = none
  flushFails_eq : s.flushFails = false

theorem Sink.write_unlimited {s : Sink} (h : s.Unlimited) (text : String) :
    s.write text = ({ s with written := s.written ++ text.toUTF8 }, none) := by
  have hfits : s.fits text.toUTF8.size = true := by
    rw [Sink.fits, h.limit_eq]
  rw [Sink.write, if_pos hfits]

theorem Sink.flush_unlimited {s : Sink} (h : s.Unlimited) : s.flush = none := by
  rw [Sink.flush, h.flushFails_eq]
  rfl

namespace Machine

/-- The machine `after` holds the output of `before` and `out` behind it. -/
structure Wrote (before after : Machine) (out : ByteArray) : Prop where
  unlimited : after.sink.Unlimited
  written_eq : after.sink.written = before.sink.written ++ out

def outputSince (after before : Machine) : ByteArray :=
  after.sink.written.extract before.sink.written.size after.sink.written.size

theorem Wrote.outputSince_eq {before after : Machine} {out : ByteArray}
    (h : before.Wrote after out) : after.outputSince before = out := by
  rw [outputSince, h.written_eq, ByteArray.extract_append_eq_right rfl ByteArray.size_append]

theorem Wrote.nil {m : Machine} (h : m.sink.Unlimited) : m.Wrote m .empty :=
  ⟨h, ByteArray.append_empty.symm⟩

theorem Wrote.trans {m m₁ m₂ : Machine} {out₁ out₂ : ByteArray} (h₁ : m.Wrote m₁ out₁)
    (h₂ : m₁.Wrote m₂ out₂) : m.Wrote m₂ (out₁ ++ out₂) := by
  refine ⟨h₂.unlimited, ?_⟩
  rw [h₂.written_eq, h₁.written_eq, ByteArray.append_assoc]

theorem exists_printLine {m : Machine} (h : m.sink.Unlimited) (text : String) :
    ∃ m₁, m.printLine text = .done m₁ ∧ m₁.env = m.env ∧
      m.Wrote m₁ (text ++ "\n").toUTF8 := by
  refine ⟨{ m with sink := { m.sink with written := m.sink.written ++ (text ++ "\n").toUTF8 } },
    ?_, rfl, ⟨h.limit_eq, h.flushFails_eq⟩, rfl⟩
  rw [printLine, Sink.write_unlimited h]

/-! ## Behind different outputs -/

/-- The machines have the same namespaces, and wrote the same since they were `start` and
`start'`. -/
def Alongside (start start' m m' : Machine) : Prop :=
  m.env = m'.env ∧ ∃ out, start.Wrote m out ∧ start'.Wrote m' out

theorem respected_alongside (start start' : Machine) :
    Machine.Respected (Alongside start start') where
  env_eq h := h.1
  setEnv env h := by
    obtain ⟨-, out, h₁, h₂⟩ := h
    exact ⟨rfl, out, ⟨h₁.unlimited, h₁.written_eq⟩, ⟨h₂.unlimited, h₂.written_eq⟩⟩
  printLine {m m'} text h := by
    -- Neither sink refuses, so both machines write the whole line.
    obtain ⟨henv, out, hout, hout'⟩ := h
    obtain ⟨m₁, hprint, henv₁, hm₁⟩ := exists_printLine hout.unlimited text
    obtain ⟨m₂, hprint', henv₂, hm₂⟩ := exists_printLine hout'.unlimited text
    rw [hprint, hprint']
    refine .done ⟨?_, _, hout.trans hm₁, hout'.trans hm₂⟩
    rw [henv₁, henv₂, henv]

theorem alongside_start {m m' : Machine} (henv : m.env = m'.env) (h : m.sink.Unlimited)
    (h' : m'.sink.Unlimited) : Alongside m m' m m' :=
  ⟨henv, .empty, .nil h, .nil h'⟩

end Machine

/-! ## Runs -/

open Outcome (Below)

/-- Statements do and write the same behind different outputs. -/
theorem runAll_alongside (files : Files) (fuel : Nat) (p : Program) {m m' : Machine}
    (henv : m.env = m'.env) (h : m.sink.Unlimited) (h' : m'.sink.Unlimited) :
    Below (m.Alongside m') (runAll (Stmt.exec files fuel) p m)
      (runAll (Stmt.exec files fuel) p m') :=
  (Machine.respected_alongside m m').runAll_below files (Nat.le_refl fuel) p
    (Machine.alongside_start henv h h')

namespace Program

/-- Flushing changes nothing, so a run is a run of the statements and an empty line. -/
theorem run_eq {m : Machine} (h : m.sink.Unlimited) (files : Files) (fuel : Nat) (p : Program) :
    p.run files fuel m =
      (runAll (Stmt.exec files fuel) p m).andThen fun m => m.printLine "" := by
  have hbelow := runAll_alongside files fuel p rfl h h
  rw [run, runBlock_eq]
  generalize runAll (Stmt.exec files fuel) p m = o at hbelow
  -- Every machine that the run can end in has a sink that accepts everything.
  cases hbelow with
  | outOfFuel o => rfl
  | @done m₁ _ h =>
    obtain ⟨-, out, hout, -⟩ := h
    obtain ⟨m₂, hprint, -, hm₂⟩ := Machine.exists_printLine hout.unlimited ""
    show flush (m₁.printLine "") = m₁.printLine ""
    rw [hprint, flush, Sink.flush_unlimited hm₂.unlimited]
  | @failed e m₁ _ h =>
    obtain ⟨-, out, hout, -⟩ := h
    show flush (.failed e m₁) = .failed e m₁
    rw [flush, Sink.flush_unlimited hout.unlimited]

section

variable {files : Files} {fuel : Nat} {p : Program} {m m₁ m' : Machine}

/-- Where a run ends well, the statements end well behind any other output, and write the same but
for the last line end. -/
theorem runAll_of_run_done (h : m.sink.Unlimited) (h' : m'.sink.Unlimited)
    (henv : m.env = m'.env) (hrun : p.run files fuel m = .done m₁) :
    ∃ front m₂, runAll (Stmt.exec files fuel) p m' = .done m₂ ∧ m₁.env = m₂.env ∧
      m.Wrote m₁ (front ++ newline) ∧ m'.Wrote m₂ front := by
  have hbelow := runAll_alongside files fuel p henv h h'
  rw [run_eq h] at hrun
  generalize runAll (Stmt.exec files fuel) p m = o at hbelow hrun
  generalize runAll (Stmt.exec files fuel) p m' = o' at hbelow
  cases hbelow with
  | outOfFuel o => cases hrun
  | failed e h => cases hrun
  | @done m₀ m₂ h =>
    -- The run wrote what the statements wrote, and then the empty line.
    obtain ⟨henv₂, front, hfront, hfront'⟩ := h
    obtain ⟨m₃, hprint, henv₃, hm₃⟩ := Machine.exists_printLine hfront.unlimited ""
    have hlast : Outcome.done m₃ = .done m₁ := by
      rw [← hprint]
      exact hrun
    cases hlast
    exact ⟨front, m₂, rfl, henv₃.trans henv₂, hfront.trans hm₃, hfront'⟩

/-- Where a run fails, the statements fail behind any other output, and write the same. -/
theorem runAll_of_run_failed {e : Error} (h : m.sink.Unlimited) (h' : m'.sink.Unlimited)
    (henv : m.env = m'.env) (hrun : p.run files fuel m = .failed e m₁) :
    ∃ out m₂, runAll (Stmt.exec files fuel) p m' = .failed e m₂ ∧ m₁.env = m₂.env ∧
      m.Wrote m₁ out ∧ m'.Wrote m₂ out := by
  have hbelow := runAll_alongside files fuel p henv h h'
  rw [run_eq h] at hrun
  generalize runAll (Stmt.exec files fuel) p m = o at hbelow hrun
  generalize runAll (Stmt.exec files fuel) p m' = o' at hbelow
  cases hbelow with
  | outOfFuel o => cases hrun
  | @done m₀ m₂ h =>
    -- The empty line at the end cannot fail.
    obtain ⟨-, out, hout, -⟩ := h
    obtain ⟨m₃, hprint, -⟩ := Machine.exists_printLine hout.unlimited ""
    have hlast : Outcome.done m₃ = .failed e m₁ := by
      rw [← hprint]
      exact hrun
    cases hlast
  | @failed e' m₀ m₂ h =>
    obtain ⟨henv₂, out, hout, hout'⟩ := h
    cases hrun
    exact ⟨out, m₂, rfl, henv₂, hout, hout'⟩

end

end Program

end PiScript
