import PiScript.Proofs.Grammar.Text
import PiScript.Proofs.Session.Input

/-!
# Turns of a session

A session answers its input line by line. Every line but a command goes into the pending text, and
the pending text leaves it only as an entry, whole and as soon as it is complete. So no line gets
lost, none is run twice, and how lines are grouped into entries depends on nothing but the lines: an
entry that fails leaves nothing pending, just as one that runs.
-/

namespace PiScript

open CommandLine

/-! ## What becomes of one line -/

theorem head?_trimEnd {c : Char} (hc : Text.isBlank c = false) (cs : List Char) :
    (Text.trimEnd cs).head? = some c ↔ cs.head? = some c := by
  cases cs with
  | nil => rfl
  | cons x cs =>
    rw [Text.trimEnd, List.reverse_cons, List.dropWhile_append]
    split
    · by_cases hx : Text.isBlank x = true
      · rw [List.dropWhile_cons_of_pos hx]
        simp only [List.dropWhile_nil, List.reverse_nil, List.head?_nil, List.head?_cons,
          Option.some.injEq, reduceCtorEq, false_iff]
        rintro rfl
        simp [hc] at hx
      · rw [List.dropWhile_cons_of_neg hx]
        rfl
    · simp

namespace Action

def isCommand : Action → Bool
  | .command _ => true
  | _ => false

/-- The entry that is handed to the parser. -/
def submitted : Action → Option String
  | .submit entry => some entry
  | _ => none

def quits : Action → Bool
  | .command .quit => true
  | _ => false

/-- What is pending behind a line if `pending` was pending in front of it. -/
def pendingAfter (pending : String) : Action → String
  | .command _ => pending
  | .wait text => text
  | .submit _ => ""

theorem pendingAfter_of_quits {a : Action} (h : a.quits = true) (pending : String) :
    a.pendingAfter pending = pending := by
  cases a with
  | command c => rfl
  | wait text => cases h
  | submit entry => cases h

theorem pendingAfter_of_submitted {a : Action} (h : a.submitted.isSome = true) {pending : String} :
    a.pendingAfter pending = "" := by
  cases a with
  | command c => cases h
  | wait text => cases h
  | submit entry => rfl

/-- A line is a command, or the pending text grows by it and either waits or is complete. -/
theorem ofLine_cases (pending line : String) :
    (pending = "" ∧ line.toList.head? = some ':' ∧ ∃ c, ofLine pending line = .command c) ∨
    (¬(pending = "" ∧ line.toList.head? = some ':') ∧
      ((isComplete (pending ++ line) = true ∧ ofLine pending line = .submit (pending ++ line)) ∨
       (isComplete (pending ++ line) = false ∧ ofLine pending line = .wait (pending ++ line)))) := by
  rw [← head?_trimEnd (by decide) line.toList]
  unfold ofLine
  by_cases hcommand : pending = "" ∧ (Text.trimEnd line.toList).head? = some ':'
  · rw [if_pos hcommand]
    exact .inl ⟨hcommand.1, hcommand.2, _, rfl⟩
  · rw [if_neg hcommand]
    refine .inr ⟨hcommand, ?_⟩
    by_cases hcomplete : isComplete (pending ++ line) = true
    · exact .inl ⟨hcomplete, if_pos hcomplete⟩
    · exact .inr ⟨Bool.not_eq_true _ ▸ hcomplete, if_neg hcomplete⟩

theorem isCommand_ofLine (pending line : String) :
    (ofLine pending line).isCommand = true ↔
      pending = "" ∧ line.toList.head? = some ':' := by
  rcases ofLine_cases pending line with ⟨hpending, hhead, c, hact⟩ | ⟨hno, ⟨-, hact⟩ | ⟨-, hact⟩⟩
  · rw [hact]
    exact iff_of_true rfl ⟨hpending, hhead⟩
  · rw [hact]
    exact iff_of_false Bool.false_ne_true hno
  · rw [hact]
    exact iff_of_false Bool.false_ne_true hno

theorem submitted_append_pendingAfter (pending line : String) :
    ((ofLine pending line).submitted.getD "") ++ (ofLine pending line).pendingAfter pending =
      pending ++ if (ofLine pending line).isCommand then "" else line := by
  rcases ofLine_cases pending line with ⟨-, -, c, hact⟩ | ⟨-, ⟨-, hact⟩ | ⟨-, hact⟩⟩
  · rw [hact]
    simp [submitted, pendingAfter, isCommand]
  · rw [hact]
    simp [submitted, pendingAfter, isCommand]
  · rw [hact]
    simp [submitted, pendingAfter, isCommand]

end Action

/-! ## Pending texts -/

def EndsInFeed (text : String) : Prop :=
  text.toList.getLast? = some '\n'

/-- Nothing in front of a line end is complete. -/
def Unfinished (text : String) : Prop :=
  ∀ front back, text = front ++ back → EndsInFeed front → isComplete front = false

theorem unfinished_empty : Unfinished "" := by
  intro front back htext hends
  obtain ⟨rfl, -⟩ := String.append_eq_empty_iff.mp htext.symm
  cases hends

/-- A line ends only with its last character, so a cut at a line end either lies in the text in
front of the line or takes in the whole line. -/
theorem front_cases {pending line front back : String} (hline : IsLine line)
    (htext : pending ++ line = front ++ back) (hends : EndsInFeed front) :
    (∃ between, pending = front ++ between) ∨ back = "" := by
  have hchars : pending.toList ++ line.toList = front.toList ++ back.toList := by
    rw [← String.toList_append, htext, String.toList_append]
  rcases List.append_eq_append_iff.mp hchars with ⟨between, hfront, hrest⟩ | ⟨between, hpending, -⟩
  · cases hlast : between.getLast? with
    -- The cut is right behind the pending text.
    | none =>
      obtain rfl := List.getLast?_eq_none_iff.mp hlast
      refine .inl ⟨"", ?_⟩
      rw [String.append_empty, ← String.toList_inj, hfront, List.append_nil]
    | some c =>
      obtain ⟨init, rfl⟩ := List.getLast?_eq_some_iff.mp hlast
      have hc : c = '\n' := by
        rw [EndsInFeed, hfront, ← List.append_assoc, List.getLast?_concat] at hends
        exact Option.some.inj hends
      subst hc
      right
      -- The cut is behind a line feed of the line, and nothing follows that.
      have hnil := hline.eq_nil_of_lineFeed init back.toList (by rw [hrest]; simp)
      exact String.toList_eq_nil_iff.mp hnil
  · refine .inl ⟨String.ofList between, ?_⟩
    rw [← String.toList_inj, hpending, String.toList_append, String.toList_ofList]

theorem Unfinished.pendingAfter {pending line : String} (hpending : Unfinished pending)
    (hline : IsLine line) : Unfinished ((Action.ofLine pending line).pendingAfter pending) := by
  rcases Action.ofLine_cases pending line with ⟨-, -, c, hact⟩ | ⟨-, ⟨-, hact⟩ | ⟨hwait, hact⟩⟩
  · rw [hact]
    exact hpending
  · rw [hact]
    exact unfinished_empty
  · rw [hact]
    intro front back htext hends
    rcases front_cases hline htext hends with ⟨between, hbetween⟩ | rfl
    · exact hpending front between hbetween hends
    · rw [String.append_empty] at htext
      exact htext ▸ hwait

/-- An entry is as short as whole lines allow. -/
theorem Unfinished.submitted {pending line entry : String} (hpending : Unfinished pending)
    (hline : IsLine line) (h : (Action.ofLine pending line).submitted = some entry) :
    entry ≠ "" ∧ isComplete entry = true ∧
      ∀ front back, entry = front ++ back → back ≠ "" → EndsInFeed front →
        isComplete front = false := by
  rcases Action.ofLine_cases pending line with ⟨-, -, c, hact⟩ | ⟨-, ⟨hcomplete, hact⟩ | ⟨-, hact⟩⟩
  · rw [hact] at h
    cases h
  · rw [hact] at h
    cases h
    refine ⟨?_, hcomplete, ?_⟩
    · intro hempty
      exact hline.ne_empty (String.append_eq_empty_iff.mp hempty).2
    · intro front back htext hback hends
      rcases front_cases hline htext hends with ⟨between, hbetween⟩ | hnone
      · exact hpending front between hbetween hends
      · exact absurd hnone hback
  · rw [hact] at h
    cases h

/-! ## Turns -/

namespace Session

structure Turn where
  session : Session
  line : String
  next : Option Session

def Turn.action (t : Turn) : Action :=
  .ofLine t.session.pending t.line

structure Course where
  turns : List Turn
  /-- The session in which it ends. There is none while an entry still runs. -/
  last : Option Session
  closing : String

namespace Course

def behind (t : Turn) (c : Course) : Course :=
  { c with turns := t :: c.turns }

/-- The texts that are handed to the parser, in order. -/
def entries (c : Course) : List String :=
  c.turns.filterMap fun t => t.action.submitted

/-- The lines that are not handled as commands, in order. -/
def textLines (c : Course) : List String :=
  (c.turns.filter fun t => !t.action.isCommand).map Turn.line

theorem join_entries_behind (t : Turn) (c : Course) :
    String.join (c.behind t).entries =
      t.action.submitted.getD "" ++ String.join c.entries := by
  cases hsub : t.action.submitted <;> simp [entries, behind, hsub]

theorem join_textLines_behind (t : Turn) (c : Course) :
    String.join (c.behind t).textLines =
      (if t.action.isCommand then "" else t.line) ++ String.join c.textLines := by
  cases hcommand : t.action.isCommand <;> simp [textLines, behind, hcommand]

/-- If a course keeps what a turn left pending, the course with that turn in front keeps what was
pending in front of it. -/
theorem keeps_behind {t : Turn} {c : Course} {pending : String}
    (h : String.join c.entries ++ pending =
      t.action.pendingAfter t.session.pending ++ String.join c.textLines) :
    String.join (c.behind t).entries ++ pending =
      t.session.pending ++ String.join (c.behind t).textLines := by
  have hstep := Action.submitted_append_pendingAfter t.session.pending t.line
  rw [join_entries_behind, join_textLines_behind, String.append_assoc, h, ← String.append_assoc,
    ← String.append_assoc]
  exact congrArg (· ++ String.join c.textLines) hstep

end Course

/-- The course of a session through lines of input, each `none` if it is not text. -/
def course (files : Files) (fuel : Nat) : List (Option String) → Session → Course
  | [], s => ⟨[], some s, s.prompt ++ endOfInput⟩
  | none :: _, s => ⟨[], some s, s.prompt ++ inputError⟩
  | some line :: rest, s =>
    match s.feed files fuel line with
    | none => ⟨[⟨s, line, none⟩], none, ""⟩
    | some reply =>
      match reply.next with
      | none => ⟨[⟨s, line, none⟩], some s, ""⟩
      | some s' => (course files fuel rest s').behind ⟨s, line, some s'⟩

/-- What the lines of an input become while `pending` is pending, whatever comes of the entries. -/
def grouping (pending : String) : List (Option String) → List Action
  | [] => []
  | none :: _ => []
  | some line :: rest =>
    let action := Action.ofLine pending line
    if action.quits then [action]
    else action :: grouping (action.pendingAfter pending) rest

theorem next_of_submit {files : Files} {fuel : Nat} {s : Session} {entry : String} {reply : Reply}
    (h : s.submit files fuel entry = some reply) :
    ∃ s', reply.next = some s' ∧ s'.pending = "" := by
  unfold submit at h
  split at h
  · cases h
    exact ⟨_, rfl, rfl⟩
  · split at h
    · cases h
      exact ⟨_, rfl, rfl⟩
    · cases h
      exact ⟨_, rfl, rfl⟩
    · cases h

/-- A session goes on with what the line leaves pending, unless the line ends it. Whether an entry
runs or fails makes no difference. -/
theorem next_of_feed {files : Files} {fuel : Nat} {s : Session} {line : String} {reply : Reply}
    (h : s.feed files fuel line = some reply) :
    ((Action.ofLine s.pending line).quits = true ∧ reply.next = none) ∨
    ((Action.ofLine s.pending line).quits = false ∧ ∃ s', reply.next = some s' ∧
      s'.pending = (Action.ofLine s.pending line).pendingAfter s.pending) := by
  unfold feed at h
  cases hact : Action.ofLine s.pending line with
  | command c =>
    rw [hact] at h
    cases h
    cases c with
    | quit => exact .inl ⟨rfl, rfl⟩
    | _ => exact .inr ⟨rfl, _, rfl, rfl⟩
  | wait text =>
    rw [hact] at h
    cases h
    exact .inr ⟨rfl, _, rfl, rfl⟩
  | submit entry =>
    rw [hact] at h
    exact .inr ⟨rfl, next_of_submit h⟩

/-- The line that completes an entry is answered by the entry as a whole, which is read as a program
and run. -/
theorem feed_of_submitted {s : Session} {line entry : String}
    (h : (Action.ofLine s.pending line).submitted = some entry) (files : Files) (fuel : Nat) :
    s.feed files fuel line = s.submit files fuel entry := by
  unfold feed
  cases hact : Action.ofLine s.pending line with
  | command c =>
    rw [hact] at h
    cases h
  | wait text =>
    rw [hact] at h
    cases h
  | submit text =>
    rw [hact] at h
    obtain rfl : text = entry := Option.some.inj h
    rfl

theorem course_cases (files : Files) (fuel : Nat) (line : String) (rest : List (Option String))
    (s : Session) :
    (course files fuel (some line :: rest) s = ⟨[⟨s, line, none⟩], none, ""⟩) ∨
    ((Action.ofLine s.pending line).quits = true ∧
      course files fuel (some line :: rest) s = ⟨[⟨s, line, none⟩], some s, ""⟩) ∨
    ((Action.ofLine s.pending line).quits = false ∧ ∃ s',
      s'.pending = (Action.ofLine s.pending line).pendingAfter s.pending ∧
      course files fuel (some line :: rest) s =
        (course files fuel rest s').behind ⟨s, line, some s'⟩) := by
  -- An entry that still runs, the end of the session, or a session that goes on.
  cases hfeed : s.feed files fuel line with
  | none =>
    left
    rw [course, hfeed]
  | some reply =>
    right
    rcases next_of_feed hfeed with ⟨hquits, hnext⟩ | ⟨hgoes, s', hnext, hpending⟩
    · left
      refine ⟨hquits, ?_⟩
      simp only [course, hfeed, hnext]
    · right
      refine ⟨hgoes, s', hpending, ?_⟩
      simp only [course, hfeed, hnext]

/-- What holds where a course ends, and in front of a turn if it holds behind it, holds of every
course. -/
theorem course_induct (files : Files) (fuel : Nat) {motive : List (Option String) → Session → Prop}
    (ended : ∀ s, motive [] s) (notText : ∀ rest s, motive (none :: rest) s)
    (running : ∀ line rest s,
      course files fuel (some line :: rest) s = ⟨[⟨s, line, none⟩], none, ""⟩ →
        motive (some line :: rest) s)
    (quit : ∀ line rest s, (Action.ofLine s.pending line).quits = true →
      course files fuel (some line :: rest) s = ⟨[⟨s, line, none⟩], some s, ""⟩ →
        motive (some line :: rest) s)
    (next : ∀ line rest s s', (Action.ofLine s.pending line).quits = false →
      s'.pending = (Action.ofLine s.pending line).pendingAfter s.pending →
      course files fuel (some line :: rest) s =
        (course files fuel rest s').behind ⟨s, line, some s'⟩ →
      motive rest s' → motive (some line :: rest) s)
    (input : List (Option String)) (s : Session) : motive input s := by
  induction input generalizing s with
  | nil => exact ended s
  | cons line rest ih =>
    cases line with
    | none => exact notText rest s
    | some line =>
      rcases course_cases files fuel line rest s with
        h | ⟨hquits, h⟩ | ⟨hgoes, s', hpending, h⟩
      · exact running line rest s h
      · exact quit line rest s hquits h
      · exact next line rest s s' hgoes hpending h (ih s')

/-! ### What a session prints -/

def Transcript.turn (files : Files) (fuel : Nat) (t : Transcript) (turn : Turn) : Transcript :=
  match turn.session.feed files fuel turn.line with
  | none => t
  | some reply => (t.print turn.session.prompt).add reply

theorem Transcript.print_print (t : Transcript) (a b : String) :
    (t.print a).print b = t.print (a ++ b) := by
  simp [Transcript.print, ByteArray.append_assoc]

theorem Transcript.print_empty (t : Transcript) : t.print "" = t := by
  simp [Transcript.print]

def Course.transcript (files : Files) (fuel : Nat) (t : Transcript) (c : Course) :
    Option Transcript :=
  c.last.map fun _ => (c.turns.foldl (Transcript.turn files fuel) t).print c.closing

section Course

variable (files : Files) (fuel : Nat)

/-- A session prints what the turns of its course print, one behind the other. -/
theorem converse_eq_course (input : List (Option String)) (s : Session) (t : Transcript) :
    converse files fuel input s t =
      Course.transcript files fuel t (course files fuel input s) := by
  induction input generalizing s t with
  | nil => simp [converse, course, Course.transcript, Transcript.print_print]
  | cons line rest ih =>
    cases line with
    | none => simp [converse, course, Course.transcript, Transcript.print_print]
    | some line =>
      cases hfeed : s.feed files fuel line with
      | none => simp only [converse, course, Course.transcript, hfeed, Option.map_none]
      | some reply =>
        cases hnext : reply.next with
        | none =>
          simp only [converse, course, Course.transcript, hfeed, hnext, Option.map_some,
            List.foldl_cons, List.foldl_nil, Transcript.turn, Transcript.print_empty]
        | some s' =>
          simp only [converse, course, Course.transcript, Course.behind, hfeed, hnext,
            List.foldl_cons, Transcript.turn, ih]

/-! ### What holds of a whole course -/

/-- The lines of a course are read in order, and none is left out. -/
theorem lines_course_prefix (input : List (Option String)) (s : Session) :
    ((course files fuel input s).turns.map fun t => some t.line) <+: input := by
  induction input, s using course_induct files fuel with
  | ended s => exact List.nil_prefix
  | notText rest s => exact List.nil_prefix
  | running line rest s h =>
    rw [h]
    exact List.prefix_append [some line] rest
  | quit line rest s hquits h =>
    rw [h]
    exact List.prefix_append [some line] rest
  | next line rest s s' hgoes hpending h ih =>
    rw [h]
    exact (List.prefix_cons_inj _).mpr ih

/-- What the lines of a course become is what they become by themselves. Only an entry that does not
end keeps later lines from being read. -/
theorem grouping_eq_actions (input : List (Option String)) (s : Session) :
    ∃ unread, grouping s.pending input =
        (course files fuel input s).turns.map Turn.action ++ unread ∧
      ((course files fuel input s).last.isSome = true → unread = []) := by
  induction input, s using course_induct files fuel with
  | ended s => exact ⟨[], rfl, fun _ => rfl⟩
  | notText rest s => exact ⟨[], rfl, fun _ => rfl⟩
  | running line rest s h =>
    rw [h, grouping]
    split
    · exact ⟨[], rfl, fun _ => rfl⟩
    · exact ⟨_, rfl, fun hends => absurd hends Bool.false_ne_true⟩
  | quit line rest s hquits h =>
    rw [h, grouping, if_pos hquits]
    exact ⟨[], rfl, fun _ => rfl⟩
  | next line rest s s' hgoes hpending h ih =>
    obtain ⟨unread, hgroup, hall⟩ := ih
    rw [h, grouping, if_neg (by rw [hgoes]; exact Bool.false_ne_true), ← hpending, hgroup]
    exact ⟨unread, rfl, hall⟩

/-- No text gets lost: what is not in an entry is still pending. -/
theorem join_entries_course (input : List (Option String)) (s last : Session)
    (hlast : (course files fuel input s).last = some last) :
    String.join (course files fuel input s).entries ++ last.pending =
      s.pending ++ String.join (course files fuel input s).textLines := by
  induction input, s using course_induct files fuel with
  | ended s =>
    cases hlast
    simp [course, Course.entries, Course.textLines]
  | notText rest s =>
    cases hlast
    simp [course, Course.entries, Course.textLines]
  | running line rest s h =>
    rw [h] at hlast
    cases hlast
  | quit line rest s hquits h =>
    rw [h] at hlast ⊢
    obtain rfl : s = last := Option.some.inj hlast
    -- The turn that quits stands in front of a course without turns.
    refine Course.keeps_behind (t := ⟨s, line, none⟩) (c := ⟨[], some s, ""⟩) ?_
    rw [Turn.action, Action.pendingAfter_of_quits hquits]
    simp [Course.entries, Course.textLines]
  | next line rest s s' hgoes hpending h ih =>
    rw [h] at hlast ⊢
    refine Course.keeps_behind (t := ⟨s, line, some s'⟩) ?_
    rw [Turn.action, ← hpending]
    exact ih hlast

theorem pending_of_mem_course (input : List (Option String)) (s : Session) :
    ∀ t ∈ (course files fuel input s).turns, ∀ s', t.next = some s' →
      s'.pending = t.action.pendingAfter t.session.pending := by
  induction input, s using course_induct files fuel with
  | ended s => simp [course]
  | notText rest s => simp [course]
  | running line rest s h => simp [h]
  | quit line rest s hquits h => simp [h]
  | next line rest s s' hgoes hpending h ih =>
    rw [h]
    refine List.forall_mem_cons.mpr ⟨?_, ih⟩
    intro s'' hnext
    cases hnext
    exact hpending

/-- At no time could something that is pending have been run. -/
theorem unfinished_course (input : List (Option String)) (s : Session)
    (hinput : ∀ line, some line ∈ input → IsLine line) (hs : Unfinished s.pending) :
    (∀ t ∈ (course files fuel input s).turns, Unfinished t.session.pending) ∧
      ∀ last, (course files fuel input s).last = some last → Unfinished last.pending := by
  induction input, s using course_induct files fuel with
  | ended s => simpa [course] using hs
  | notText rest s => simpa [course] using hs
  | running line rest s h => simpa [h] using hs
  | quit line rest s hquits h => simpa [h] using hs
  | next line rest s s' hgoes hpending h ih =>
    obtain ⟨hturns, hlast⟩ := ih (fun l hl => hinput l (List.mem_cons_of_mem _ hl)) (by
      rw [hpending]
      exact hs.pendingAfter (hinput line List.mem_cons_self))
    rw [h]
    exact ⟨List.forall_mem_cons.mpr ⟨hs, hturns⟩, hlast⟩

end Course

/-- Lines that a session reads go into its entries, in order, whole and once. What is in no entry is
pending in the end, and nothing of it could have been run. An entry is handed on as soon as it is
complete and not before, and it is what is read and run. A line is a command if nothing is pending
and it starts with a colon. What the lines become is decided by the lines alone, whatever becomes of
the entries. -/
theorem every_line_in_one_entry (files : Files) (fuel : Nat) (input : ByteArray) :
    let lines := inputLines input
    let c := course files fuel lines {}
    transcript files fuel lines = c.transcript files fuel (Transcript.print {} banner) ∧
    ((c.turns.map fun t => some t.line) <+: lines) ∧
    (∀ last, c.last = some last →
      String.join c.entries ++ last.pending = String.join c.textLines ∧
        Unfinished last.pending) ∧
    (∀ entry ∈ c.entries, entry ≠ "" ∧ isComplete entry = true ∧
      ∀ front back, entry = front ++ back → back ≠ "" → EndsInFeed front →
        isComplete front = false) ∧
    (∀ t ∈ c.turns, ∀ entry, t.action.submitted = some entry →
      t.session.feed files fuel t.line = t.session.submit files fuel entry) ∧
    (∀ t ∈ c.turns, t.action.isCommand = true ↔
      t.session.pending = "" ∧ t.line.toList.head? = some ':') ∧
    (∀ t ∈ c.turns, t.action.submitted.isSome = true →
      ∀ s', t.next = some s' → s'.pending = "") ∧
    ∃ unread, grouping "" lines = c.turns.map Turn.action ++ unread ∧
      (c.last.isSome = true → unread = []) := by
  intro lines c
  have hlines : ∀ line, some line ∈ lines → IsLine line := fun _ => isLine_of_mem_inputLines
  have hread := lines_course_prefix files fuel lines {}
  -- In front of every turn, no part of the pending text that ends with a line is complete.
  have hunfinished := unfinished_course files fuel lines {} hlines unfinished_empty
  refine ⟨converse_eq_course files fuel lines {} _, hread, ?_, ?_, ?_, ?_, ?_,
    grouping_eq_actions files fuel lines {}⟩
  · intro last hlast
    refine ⟨?_, hunfinished.2 last hlast⟩
    rw [join_entries_course files fuel lines {} last hlast]
    exact String.empty_append
  · intro entry hentry
    obtain ⟨t, ht, hsub⟩ := List.mem_filterMap.mp hentry
    have hline : IsLine t.line := hlines t.line (hread.subset (List.mem_map_of_mem ht))
    exact (hunfinished.1 t ht).submitted hline hsub
  · intro t _ entry hsub
    exact feed_of_submitted hsub files fuel
  · intro t _
    exact Action.isCommand_ofLine t.session.pending t.line
  · intro t ht hsome s' hnext
    rw [pending_of_mem_course files fuel lines {} t ht s' hnext]
    exact Action.pendingAfter_of_submitted hsome

def strayWord : String := "3.2\n"

def openBranch : String := "3.14 +true+ 3.\n"

/-- An entry that fails, a command, and an entry that waits for more. -/
def strayWordInput : ByteArray := (strayWord ++ ":help\n" ++ openBranch).toUTF8

theorem inputLines_strayWordInput :
    inputLines strayWordInput = [some strayWord, some ":help\n", some openBranch] := by
  decide +kernel

theorem lex_strayWord :
    Token.lex strayWord = [⟨.malformed, "3.2", ⟨1, 1⟩⟩, ⟨.eof, "", ⟨2, 1⟩⟩] := by
  rw [Token.lex_eq]
  decide +kernel

theorem lex_openBranch : Token.lex openBranch =
    [⟨.branch, "3.14", ⟨1, 1⟩⟩, ⟨.operand, "+true+", ⟨1, 6⟩⟩, ⟨.lineEnd, "3.", ⟨1, 13⟩⟩,
     ⟨.eof, "", ⟨2, 1⟩⟩] := by
  rw [Token.lex_eq]
  decide +kernel

theorem ofLine_strayWord : Action.ofLine "" strayWord = .submit strayWord := by
  have hcomplete : isComplete strayWord = true := by
    rw [isComplete, lex_strayWord]
    rfl
  rw [Action.ofLine, if_neg (by decide +kernel)]
  exact if_pos hcomplete

theorem ofLine_openBranch : Action.ofLine "" openBranch = .wait openBranch := by
  have hcomplete : isComplete openBranch = false := by
    rw [isComplete, lex_openBranch]
    rfl
  rw [Action.ofLine, if_neg (by decide +kernel)]
  exact if_neg (by rw [String.empty_append, hcomplete]; exact Bool.false_ne_true)

theorem feed_strayWord (files : Files) (fuel : Nat) :
    feed files fuel {} strayWord = some
      { err := Diagnostic.render strayWord ⟨.unexpectedWord "3.2", some ⟨1, 1⟩⟩
        next := some {} } := by
  have hfind : (Token.lex strayWord).find? (·.kind = .malformed) =
      some ⟨.malformed, "3.2", ⟨1, 1⟩⟩ := by
    rw [lex_strayWord]
    rfl
  rw [feed, ofLine_strayWord]
  show submit files fuel {} strayWord = _
  rw [submit, Program.ofText, Grammar.ofTokens_of_find? hfind]

theorem feed_help (files : Files) (fuel : Nat) :
    feed files fuel {} ":help\n" = some (say {} help) := by
  have hcommand : Command.ofText (String.ofList (Text.trimEnd ":help\n".toList)) = .help := by
    decide +kernel
  rw [feed, Action.ofLine, if_pos (by decide +kernel), hcommand]
  rfl

theorem feed_openBranch (files : Files) (fuel : Nat) :
    feed files fuel {} openBranch =
      some { next := some ⟨.empty, openBranch⟩ } := by
  rw [feed, ofLine_openBranch]

theorem course_strayWordInput (files : Files) (fuel : Nat) :
    course files fuel (inputLines strayWordInput) {} =
      ⟨[⟨{}, strayWord, some {}⟩, ⟨{}, ":help\n", some {}⟩,
        ⟨{}, openBranch, some ⟨.empty, openBranch⟩⟩],
       some ⟨.empty, openBranch⟩,
       prompt ⟨.empty, openBranch⟩ ++ endOfInput⟩ := by
  rw [inputLines_strayWordInput]
  simp only [course, feed_strayWord, feed_help, feed_openBranch, say, Course.behind]

/-- The failing entry leaves nothing pending, and the branch behind it waits as a whole. -/
theorem strayWordInput_accounted :
    let c := course (fun _ => .error .notFound) 0 (inputLines strayWordInput) {}
    String.join c.entries ++ openBranch = String.join c.textLines ∧
      isComplete strayWord = true ∧
      grouping "" (inputLines strayWordInput) = c.turns.map Turn.action := by
  intro c
  obtain ⟨-, -, hkept, hentries, -, -, -, unread, hgroup, hall⟩ :=
    every_line_in_one_entry (fun _ => .error .notFound) 0 strayWordInput
  have hcourse : c = _ := course_strayWordInput (fun _ => .error .notFound) 0
  have hlast : c.last = some ⟨.empty, openBranch⟩ := by rw [hcourse]
  have hentry : strayWord ∈ c.entries := by
    rw [hcourse]
    refine List.mem_filterMap.mpr ⟨⟨{}, strayWord, some {}⟩, List.mem_cons_self, ?_⟩
    rw [Turn.action, ofLine_strayWord]
    rfl
  refine ⟨(hkept _ hlast).1, (hentries strayWord hentry).2.1, ?_⟩
  rw [hgroup, hall (by rw [hlast]; rfl), List.append_nil]

end Session

end PiScript
