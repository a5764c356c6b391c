import PiScript.Proofs.Machine.Agenda

/-!
# Sinks with a limit

A run on a sink that accepts a limited number of bytes against the run on one that accepts them
all. Both play out the same effects, so either all output fits and the two runs end alike, or the
limited one stops at the first line that does not fit and keeps what does: the first bytes of the
whole output.
-/

namespace PiScript

/-! ## The output of effects -/

def Effect.output : Effect → ByteArray
  | .line text => (text ++ "\n").toUTF8
  | _ => .empty

def outputOf : List Effect → ByteArray
  | [] => .empty
  | a :: as => a.output ++ outputOf as

def Sink.put (s : Sink) (bytes : ByteArray) : Sink :=
  { s with written := s.written ++ bytes }

theorem Sink.put_empty (s : Sink) : s.put .empty = s := by
  rw [Sink.put, ByteArray.append_empty]

theorem Sink.put_append (s : Sink) (b c : ByteArray) : s.put (b ++ c) = (s.put b).put c := by
  rw [Sink.put, ← ByteArray.append_assoc]
  rfl

/-- Bytes fit if their first part fits and the rest fits behind it. -/
theorem Sink.fits_append (s : Sink) (b c : ByteArray) :
    s.fits (b ++ c).size = (s.fits b.size && (s.put b).fits c.size) := by
  have hput : (s.put b).limit = s.limit := rfl
  cases hlimit : s.limit with
  | none => simp only [Sink.fits, hput, hlimit, Bool.and_self]
  | some limit =>
    simp only [Sink.fits, hput, hlimit]
    rw [Bool.eq_iff_iff, Bool.and_eq_true, decide_eq_true_iff, decide_eq_true_iff,
      decide_eq_true_iff, Sink.put, ByteArray.size_append, ByteArray.size_append]
    omega

theorem Sink.write_of_fits {s : Sink} {text : String} (h : s.fits text.toUTF8.size = true) :
    s.write text = (s.put text.toUTF8, none) := by
  rw [Sink.write, if_pos h]
  rfl

theorem Effect.on_of_fits {a : Effect} {s : Sink} (h : s.fits a.output.size = true) (env : Env) :
    a.on ⟨env, s⟩ = .done ⟨a.onEnv env, s.put a.output⟩ := by
  cases a with
  | line text =>
    rw [Effect.on, Machine.printLine, Sink.write_of_fits h]
    rfl
  | _ =>
    show Outcome.done _ = Outcome.done ⟨_, s.put .empty⟩
    rw [Sink.put_empty]

/-- If all output fits, the effects are played out to their end. -/
theorem play_of_fits {as : List Effect} {ending : Ending} {s : Sink} {env : Env}
    (h : s.fits (outputOf as).size = true) :
    play as ending ⟨env, s⟩ = ending.outcome ⟨env.behind as, s.put (outputOf as)⟩ := by
  induction as generalizing s env with
  | nil =>
    rw [outputOf, Sink.put_empty]
    rfl
  | cons a as ih =>
    rw [outputOf, Sink.fits_append, Bool.and_eq_true] at h
    rw [play, Effect.on_of_fits h.1]
    show play as ending _ = _
    rw [ih h.2, outputOf, Sink.put_append]
    rfl

/-! ## Output that does not fit -/

def Sink.refusalError (s : Sink) : Error :=
  ⟨.refusedOutput s.refusal, none⟩

theorem extract_of_size_le {b : ByteArray} {n : Nat} (h : b.size ≤ n) : b.extract 0 n = b := by
  apply ByteArray.ext
  rw [ByteArray.data_extract]
  exact Array.extract_eq_self_of_le h

theorem extract_append_of_le_size {b : ByteArray} {n : Nat} (c : ByteArray) (h : n ≤ b.size) :
    (b ++ c).extract 0 n = b.extract 0 n := by
  have hnone : c.extract 0 0 = .empty := ByteArray.extract_same
  rw [ByteArray.extract_append, Nat.zero_sub, Nat.sub_eq_zero_of_le h, hnone,
    ByteArray.append_empty]

/-- The sink with as much of the bytes written as its limit `n` allows. -/
def Sink.cut (s : Sink) (n : Nat) (bytes : ByteArray) : Sink :=
  { s with written := (s.written ++ bytes).extract 0 n }

theorem Sink.write_of_not_fits {s : Sink} {text : String} {n : Nat} (hlimit : s.limit = some n)
    (hsize : s.written.size ≤ n) (h : s.fits text.toUTF8.size = false) :
    s.write text = (s.cut n text.toUTF8, some s.refusal) := by
  have hfitting : s.fitting text.toUTF8 = text.toUTF8.extract 0 (n - s.written.size) := by
    rw [Sink.fitting, hlimit]
  -- What was written before lies within the limit, so it is kept whole.
  rw [Sink.write, if_neg (by rw [h]; simp), hfitting, Sink.cut, ByteArray.extract_append,
    Nat.zero_sub, extract_of_size_le hsize]

theorem Effect.on_of_not_fits {a : Effect} {s : Sink} {n : Nat} (hlimit : s.limit = some n)
    (hsize : s.written.size ≤ n) (h : s.fits a.output.size = false) (env : Env) :
    a.on ⟨env, s⟩ = .failed s.refusalError ⟨env, s.cut n a.output⟩ := by
  cases a with
  | line text =>
    rw [Effect.on, Machine.printLine, Sink.write_of_not_fits hlimit hsize h]
    rfl
  | _ =>
    -- Nothing is written, and nothing always fits.
    rw [Sink.fits, hlimit] at h
    exact absurd h (by simp [Effect.output])

/-- If the output goes past the limit, playing the effects out fails there and leaves the bytes up
to the limit. -/
theorem play_of_not_fits {as : List Effect} {s : Sink} {n : Nat} (hlimit : s.limit = some n)
    (hsize : s.written.size ≤ n) (h : s.fits (outputOf as).size = false) (ending : Ending)
    (env : Env) :
    ∃ env', play as ending ⟨env, s⟩ = .failed s.refusalError ⟨env', s.cut n (outputOf as)⟩ := by
  induction as generalizing s env with
  | nil =>
    rw [Sink.fits, hlimit] at h
    exact absurd h (by simp [outputOf])
  | cons a as ih =>
    rw [play, outputOf]
    by_cases ha : s.fits a.output.size = true
    -- The effect fits: the limit is passed further on.
    · rw [outputOf, Sink.fits_append, ha, Bool.true_and] at h
      have hput : (s.put a.output).written.size ≤ n := by
        rw [Sink.fits, hlimit, decide_eq_true_iff] at ha
        rw [Sink.put, ByteArray.size_append]
        omega
      obtain ⟨env', hplay⟩ := ih (s := s.put a.output) hlimit hput h (a.onEnv env)
      refine ⟨env', ?_⟩
      rw [Effect.on_of_fits ha]
      show play as ending _ = _
      rw [hplay, Sink.cut, Sink.cut, ← ByteArray.append_assoc]
      rfl
    -- The effect does not fit, so all behind it is cut off.
    · rw [Bool.not_eq_true] at ha
      refine ⟨env, ?_⟩
      rw [Effect.on_of_not_fits hlimit hsize ha]
      show Outcome.failed _ _ = _
      have hfull : n ≤ (s.written ++ a.output).size := by
        rw [Sink.fits, hlimit, decide_eq_false_iff_not] at ha
        rw [ByteArray.size_append]
        omega
      rw [Sink.cut, Sink.cut, ← ByteArray.append_assoc, extract_append_of_le_size _ hfull]

/-! ## Runs -/

def Sink.limitedTo (n : Nat) : Sink :=
  { limit := some n }

theorem Program.flush_ended_of_flushes {m : Machine} (h : m.sink.flushFails = false)
    (result : Option Error) : flush (.ended result m) = .ended result m := by
  have hflush : m.sink.flush = none := by
    rw [Sink.flush, h]
    rfl
  rw [flush_ended, hflush]

/-- A run that ends on a sink that accepts everything shows one trace to its end, and plays it out
on every sink. -/
theorem Program.Ends.exists_trace {files : Files} {p : Program} {env : Env} {sink : Sink}
    {result : Option Error} {m : Machine} (hlimit : sink.limit = none)
    (hflush : sink.flushFails = false) (hrun : p.Ends files ⟨env, sink⟩ (.ended result m)) :
    ∃ fuel trace, Runs files (Task.ofBlock p) env trace (.ended result) ∧
      m = ⟨env.after trace, sink.put (outputOf (trace.map Event.effect))⟩ ∧
      ∀ s, p.run files fuel ⟨env, s⟩ =
        flush (play (trace.map Event.effect) (.ended result) ⟨env, s⟩) := by
  obtain ⟨-, fuel, hrun⟩ := hrun
  obtain ⟨trace, ending, htrace, hplay⟩ := Program.run_follows files fuel p env
  have hfits : sink.fits (outputOf (trace.map Event.effect)).size = true := by
    rw [Sink.fits, hlimit]
  have hplayed := hplay sink
  rw [hrun, play_of_fits hfits] at hplayed
  -- Flushing cannot fail either, so the run ends as its trace does.
  cases ending with
  | outOfFuel => exact absurd hplayed (Outcome.ended_ne_outOfFuel _ _)
  | ended r =>
    rw [Ending.outcome, Program.flush_ended_of_flushes hflush] at hplayed
    obtain ⟨rfl, hm⟩ := Outcome.ended_inj hplayed
    exact ⟨fuel, trace, htrace, hm, hplay⟩

theorem Program.Ends.exists_effects {files : Files} {p : Program} {env : Env}
    {result : Option Error} {m : Machine}
    (hrun : p.Ends files ⟨env, .unlimited⟩ (.ended result m)) :
    ∃ fuel as, m = ⟨env.behind as, Sink.unlimited.put (outputOf as)⟩ ∧
      ∀ sink, p.run files fuel ⟨env, sink⟩ = flush (play as (.ended result) ⟨env, sink⟩) := by
  obtain ⟨fuel, trace, -, hm, hplay⟩ := hrun.exists_trace rfl rfl
  exact ⟨fuel, trace.map Event.effect, hm, hplay⟩

/-- Where the run on an unlimited sink ends, a limit either leaves room for its output, and then
changes nothing, or it stops the run and leaves the first bytes of that output. -/
theorem limited_run_truncates {files : Files} {p : Program} {env : Env} {result : Option Error}
    {m : Machine} (hrun : p.Ends files ⟨env, .unlimited⟩ (.ended result m)) (n : Nat) :
    (m.sink.written.size ≤ n →
      ∃ m', p.Ends files ⟨env, .limitedTo n⟩ (.ended result m') ∧ m'.env = m.env ∧
        m'.sink.written = m.sink.written) ∧
    (n < m.sink.written.size →
      ∃ e m', p.Ends files ⟨env, .limitedTo n⟩ (.failed e m') ∧
        e.report = { kind := .inputOutput, message := "Failed to write output: sink full" } ∧
        m'.sink.written = m.sink.written.extract 0 n) := by
  -- The effects of the unlimited run are played out on the limited sink as well.
  obtain ⟨fuel, as, rfl, hplay⟩ := hrun.exists_effects
  have hlimited := hplay (.limitedTo n)
  have hwritten : (Sink.unlimited.put (outputOf as)).written = outputOf as :=
    ByteArray.empty_append
  have hfits : (Sink.limitedTo n).fits (outputOf as).size = decide ((outputOf as).size ≤ n) := rfl
  simp only [hwritten]
  constructor
  · intro hle
    rw [decide_eq_true hle] at hfits
    refine ⟨⟨env.behind as, (Sink.limitedTo n).put (outputOf as)⟩, ⟨?_, fuel, ?_⟩, rfl, ?_⟩
    · exact Outcome.ended_ne_outOfFuel _ _
    · rw [hlimited, play_of_fits hfits]
      exact Program.flush_ended_of_flushes rfl result
    · exact ByteArray.empty_append
  · intro hlt
    rw [decide_eq_false (Nat.not_le_of_lt hlt)] at hfits
    obtain ⟨env', hfull⟩ := play_of_not_fits rfl (Nat.zero_le n) hfits (.ended result) env
    refine ⟨(Sink.limitedTo n).refusalError, ⟨env', (Sink.limitedTo n).cut n (outputOf as)⟩,
      ⟨by simp, fuel, ?_⟩, ?_, ?_⟩
    · rw [hlimited, hfull]
      exact Program.flush_ended_of_flushes (m := ⟨env', _⟩) rfl (some (Sink.limitedTo n).refusalError)
    · show Error.report ⟨.refusedOutput .full, none⟩ = _
      decide +kernel
    · show (ByteArray.empty ++ outputOf as).extract 0 n = _
      rw [ByteArray.empty_append]

def shortProgram : Program :=
  [.print (some (.operand (.text "ab")))]

theorem shortProgram_truncated :
    Program.Ends (fun _ => .error .notFound) shortProgram ⟨.empty, .unlimited⟩
      (.ended none ⟨.empty, Sink.unlimited.put "ab\n\n".toUTF8⟩) ∧
    ∃ e m, Program.Ends (fun _ => .error .notFound) shortProgram ⟨.empty, .limitedTo 3⟩
        (.failed e m) ∧
      e.report = { kind := .inputOutput, message := "Failed to write output: sink full" } ∧
      m.sink.written = "ab\n".toUTF8 := by
  have hrun : Program.Ends (fun _ => .error .notFound) shortProgram ⟨.empty, .unlimited⟩
      (.ended none ⟨.empty, Sink.unlimited.put "ab\n\n".toUTF8⟩) :=
    ⟨Outcome.ended_ne_outOfFuel _ _, 1, rfl⟩
  have hcut : (Sink.unlimited.put "ab\n\n".toUTF8).written.extract 0 3 = "ab\n".toUTF8 := by
    decide +kernel
  refine ⟨hrun, ?_⟩
  rw [← hcut]
  exact (limited_run_truncates hrun 3).2 (by decide +kernel)

end PiScript
