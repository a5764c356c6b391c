import PiScript.Decimal.Truncation
import PiScript.Env
import PiScript.Statement.Assemble
import PiScript.Value.Apply

/-!
# Running programs

The machine holds the namespaces and the output sink. A run ends well, or fails at the first error,
in either case with a machine that shows what was done until then.

Only loops, calls and inclusions can keep a program running, and nothing bounds them. Execution is
therefore given an amount of fuel: one unit is used up by every nesting of statements and by every
round of a loop. Running out of fuel is a result of its own and says nothing about the program.
-/

namespace PiScript

structure Machine where
  env : Env := .empty
  sink : Sink := {}

inductive Outcome where
  | done (m : Machine)
  | failed (e : Error) (m : Machine)
  | outOfFuel

@[inline]
def Outcome.andThen (o : Outcome) (next : Machine → Outcome) : Outcome :=
  match o with
  | .done m => next m
  | .failed e m => .failed e m
  | .outOfFuel => .outOfFuel

namespace Machine

/-! ## Single steps -/

def printLine (m : Machine) (text : String) : Outcome :=
  match m.sink.write (text ++ "\n") with
  | (sink, none) => .done { m with sink := sink }
  | (sink, some e) => .failed ⟨.refusedOutput e, none⟩ { m with sink := sink }

/-- Stops at an error that has no place in a text. -/
def fail (m : Machine) (cause : Cause) : Outcome :=
  .failed ⟨cause, none⟩ m

def define (m : Machine) (name : String) (v : Value) : Machine :=
  { m with env := m.env.define name v }

end Machine

def Expr.eval (env : Env) : Expr → Except Cause Value
  | .operand v => .ok (env.resolve v)
  | .binary op left right => op.apply (env.resolve left) (env.resolve right)

def Expr.evalCondition (env : Env) (e : Expr) : Except Cause Bool :=
  match e.eval env with
  | .ok (.truth b) => .ok b
  | .ok _ => .error .loopCondition
  | .error cause => .error cause

/-- The variable that a loop step assigns: the left side of an arithmetic expression. -/
def Expr.stepTarget : Expr → Except Cause String
  | .binary op left _ =>
    if op.isArithmetic then
      match left with
      | .text name => .ok name
      | _ => .error .stepTarget
    else
      .error .stepNotArithmetic
  | .operand _ => .error .stepNotArithmetic

/-- Assigns the value of a loop step to the variable on its left side. -/
def Machine.step (m : Machine) (e : Expr) : Outcome :=
  match e.stepTarget with
  | .error cause => m.fail cause
  | .ok name =>
    match e.eval m.env with
    | .error cause => m.fail cause
    | .ok v => .done (m.define name v)

/-! ## Blocks and repetition -/

/-- Runs statements one after another and then ends the block with an empty line. -/
def runBlock (exec : Stmt → Machine → Outcome) : Program → Machine → Outcome
  | [], m => m.printLine ""
  | s :: rest, m => (exec s m).andThen (runBlock exec rest)

inductive Items where
  | numbers (first count : Nat)
  | chars (cs : List Char)

namespace Items

/-- The items of a value, if it has any. A number counts from one to its integer part. -/
def ofValue? : Value → Option Items
  | .number d => some (.numbers 1 d.truncate.toNat)
  | .text s => some (.chars s.toList)
  | .truth _ => none
  | .null => none

def ofCount (i : Nat) : Value :=
  .number (.ofInt i)

def ofChar (c : Char) : Value :=
  .text (String.ofList [c])

def toList : Items → List Value
  | .numbers first count => (List.range' first count).map ofCount
  | .chars cs => cs.map ofChar

def runNumbers (round : Value → Machine → Outcome) : (count first : Nat) → Machine → Outcome
  | 0, _, m => .done m
  | count + 1, first, m =>
    (round (ofCount first) m).andThen (runNumbers round count (first + 1))

def runChars (round : Value → Machine → Outcome) : List Char → Machine → Outcome
  | [], m => .done m
  | c :: cs, m => (round (ofChar c) m).andThen (runChars round cs)

/-- Runs `round` for every item. Numbers are counted out one by one, so that a large count costs
nothing when an early round fails. -/
def run (round : Value → Machine → Outcome) : Items → Machine → Outcome
  | .numbers first count, m => runNumbers round count first m
  | .chars cs, m => runChars round cs m

end Items

/-- Runs `round` as long as the condition holds, for as many rounds as there is fuel. -/
def runLoop (cond : Env → Except Cause Bool) (round : Machine → Outcome) :
    Nat → Machine → Outcome
  | 0, _ => .outOfFuel
  | fuel + 1, m =>
    match cond m.env with
    | .error cause => m.fail cause
    | .ok false => .done m
    | .ok true => (round m).andThen (runLoop cond round fuel)

/-! ## Statements -/

def Files.load (files : Files) (path : String) : Except Error Program :=
  match files path with
  | .error reason => .error ⟨.unreadableFile path reason, none⟩
  | .ok text => Program.ofText text

def Stmt.exec (files : Files) : Nat → Stmt → Machine → Outcome
  | 0, _, _ => .outOfFuel
  | fuel + 1, s, m =>
    match s with
    | .inclusion path =>
      match files.load path with
      | .error e => .failed e m
      | .ok body => runBlock (exec files fuel) body m
    | .print none => m.printLine ""
    | .print (some e) =>
      match e.eval m.env with
      | .error cause => m.fail cause
      | .ok v => m.printLine v.render
    | .declare name none => .done (m.define name .null)
    | .declare name (some e) =>
      match e.eval m.env with
      | .error cause => m.fail cause
      | .ok v => .done (m.define name v)
    | .forEach source item body =>
      match m.env.get? source with
      | none => m.fail (.undeclaredVariable source)
      | some v =>
        match Items.ofValue? v with
        | none => m.fail (.notIterable v.sort)
        | some items =>
          let round := fun v m => runBlock (exec files fuel) body (m.define item v)
          -- The variable is only unbound when every round ended well.
          (items.run round m).andThen fun m => .done { m with env := m.env.remove item }
    | .loop cond step body =>
      let round := fun m =>
        (runBlock (exec files fuel) body m).andThen fun m => m.step step
      runLoop cond.evalCondition round fuel m
    | .branch cond body =>
      match cond.eval m.env with
      | .error cause => m.fail cause
      | .ok (.truth true) => runBlock (exec files fuel) body m
      | .ok (.truth false) => .done m
      | .ok v => m.fail (.branchCondition v.sort)
    | .define name body => .done { m with env := m.env.defineFunction name body }
    | .call name =>
      match m.env.function? name with
      | none => m.fail (.undeclaredFunction name)
      | some body => runBlock (exec files fuel) body m

namespace Program

/-- Flushes the sink behind a run. A failure to flush takes the place of an earlier error. -/
def flush : Outcome → Outcome
  | .done m =>
    match m.sink.flush with
    | none => .done m
    | some e => m.fail (.refusedOutput e)
  | .failed err m =>
    match m.sink.flush with
    | none => .failed err m
    | some e => m.fail (.refusedOutput e)
  | .outOfFuel => .outOfFuel

def run (files : Files) (fuel : Nat) (p : Program) (m : Machine) : Outcome :=
  flush (runBlock (Stmt.exec files fuel) p m)

end Program

end PiScript
