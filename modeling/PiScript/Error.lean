import PiScript.Decimal.Division
import PiScript.Files
import PiScript.Sink
import PiScript.Token
import PiScript.Value

/-!
# Errors

Every failure has a cause, and a place if it was found in a program text. The kind of an error and
its message are functions of the cause. A `Report` is an error as it is told to others.
-/

namespace PiScript

inductive Cause where
  | unexpectedWord (text : String)
  | expectedLineEnd (found : TokenKind)
  | expectedOperand (found : TokenKind)
  | missingPath
  | pathNotText
  | missingVariable
  | variableNotText
  /-- A declaration that stops behind its name. -/
  | unfinishedDeclaration
  /-- A loop without a condition or without a step. -/
  | incompleteLoop
  | missingCondition
  | missingFunction
  /-- A function name that is not a text, or a call without one. -/
  | functionNotText
  | unterminatedBlock
  /-- A variable that is iterated over but not declared. -/
  | undeclaredVariable (name : String)
  | undeclaredFunction (name : String)
  | invalidOperation (op : Operator) (left right : ValueSort)
  | division (e : DivisionError)
  /-- A loop condition that is not a truth value. -/
  | loopCondition
  /-- A branch condition that is not a truth value. -/
  | branchCondition (found : ValueSort)
  /-- A loop step whose left side is not a name. -/
  | stepTarget
  /-- A loop step that computes no value. -/
  | stepNotArithmetic
  | notIterable (found : ValueSort)
  | unreadableFile (path : String) (reason : ReadError)
  | refusedOutput (reason : WriteError)
deriving DecidableEq

inductive ErrorKind where
  | lexical
  | grammar
  | undeclaredName
  | type
  | arithmetic
  | unsupportedOperation
  | inputOutput
deriving DecidableEq

namespace ErrorKind

def all : List ErrorKind :=
  [.lexical, .grammar, .undeclaredName, .type, .arithmetic, .unsupportedOperation, .inputOutput]

def name : ErrorKind → String
  | .lexical => "Lex"
  | .grammar => "Parse"
  | .undeclaredName => "UndeclaredName"
  | .type => "Type"
  | .arithmetic => "Arithmetic"
  | .unsupportedOperation => "UnsupportedOperation"
  | .inputOutput => "Io"

/-- The heading under which errors of a kind are shown. -/
def label : ErrorKind → String
  | .lexical => "Lex error"
  | .grammar => "Parse error"
  | .undeclaredName | .type | .arithmetic | .unsupportedOperation => "Runtime error"
  | .inputOutput => "IO error"

end ErrorKind

def DivisionError.message : DivisionError → String
  | .undefined => "Division undefined"
  | .byZero => "Division by zero"
  | .nonTerminating =>
    "Non-terminating decimal expansion; no exact representable decimal result."

namespace Cause

def kind : Cause → ErrorKind
  | .unexpectedWord _ => .lexical
  | .expectedLineEnd _ | .expectedOperand _ | .missingPath | .pathNotText | .missingVariable
  | .variableNotText | .unfinishedDeclaration | .incompleteLoop | .missingCondition
  | .missingFunction | .functionNotText | .unterminatedBlock => .grammar
  | .undeclaredVariable _ | .undeclaredFunction _ => .undeclaredName
  | .invalidOperation .. => .type
  | .division _ => .arithmetic
  | .loopCondition | .branchCondition _ | .stepTarget | .stepNotArithmetic | .notIterable _ =>
    .unsupportedOperation
  | .unreadableFile .. | .refusedOutput _ => .inputOutput

def message : Cause → String
  | .unexpectedWord text => "Unexpected token " ++ text
  | .expectedLineEnd found => "Expecting new line. " ++ found.name
  | .expectedOperand found => "Expecting user value. " ++ found.name
  | .missingPath => "Missing include file name"
  | .pathNotText => "Expecting file name to be a string"
  | .missingVariable => "Expecting variable name."
  | .variableNotText => "Variable name should be a string."
  | .unfinishedDeclaration => "Unfinished variable declaration."
  | .incompleteLoop =>
    "Expecting condition expression and after loop expression in for-loop."
  | .missingCondition => "Expecting condition in if statement"
  | .missingFunction => "Expecting function name"
  | .functionNotText => "Function name should be a string."
  | .unterminatedBlock => "Expected end of block statement."
  | .undeclaredVariable name => "Variable " ++ name ++ " is used before declaration."
  | .undeclaredFunction name => "Function " ++ name ++ " should be declared before usage."
  | .invalidOperation op left right =>
    "Invalid operation '" ++ op.name ++ "' on " ++ left.name ++ " and " ++ right.name
  | .division e => e.message
  | .loopCondition => "For condition should return a boolean."
  | .branchCondition found => found.name ++ " is not available in if condition."
  | .stepTarget => "Expect left handside to be a variable."
  | .stepNotArithmetic => "Expecting a arithmetic expression."
  | .notIterable found => "For each is not supported on " ++ found.name
  | .unreadableFile path reason =>
    "Failed to read file '" ++ path ++ "': " ++ reason.message
  | .refusedOutput reason => "Failed to write output: " ++ reason.message

end Cause

/-- A failure and, if it was found in a program text, its place there. -/
structure Error where
  cause : Cause
  pos : Option Position := none
deriving DecidableEq

/-- An error as it is told to others. Either coordinate of the place may be unknown. -/
structure Report where
  kind : ErrorKind
  message : String
  line : Option Nat := none
  col : Option Nat := none
deriving DecidableEq

namespace Report

def display (r : Report) : String :=
  match r.line, r.col with
  | some line, some col => r.message ++ " at " ++ toString line ++ ":" ++ toString col
  | _, _ => r.message

end Report

def Error.report (e : Error) : Report :=
  { kind := e.cause.kind
    message := e.cause.message
    line := e.pos.map Position.line
    col := e.pos.map Position.col }

end PiScript
