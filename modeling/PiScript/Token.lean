import PiScript.Operator

/-!
# Tokens

Every word of a program is one token. Its kind says what the word is for, its text is the word
itself, and its position is that of the first character. A token list read from a program ends in
an end-of-file token with an empty text.
-/

namespace PiScript

/-- A place in a text: line and column, both counted from one, the column in characters. -/
structure Position where
  line : Nat
  col : Nat
deriving DecidableEq

namespace Position

def start : Position := ⟨1, 1⟩

def next (p : Position) (c : Char) : Position :=
  if c = '\n' then ⟨p.line + 1, 1⟩ else ⟨p.line, p.col + 1⟩

/-- The place behind a run of characters. -/
def after (p : Position) (cs : List Char) : Position :=
  cs.foldl next p

@[simp]
theorem after_nil (p : Position) : p.after [] = p :=
  rfl

@[simp]
theorem after_cons (p : Position) (c : Char) (cs : List Char) :
    p.after (c :: cs) = (p.next c).after cs :=
  rfl

theorem after_append (p : Position) (cs ds : List Char) :
    p.after (cs ++ ds) = (p.after cs).after ds :=
  List.foldl_append

end Position

inductive TokenKind where
  | eof
  | malformed
  /-- The word `--`, the marker of an inclusion. -/
  | dashes
  /-- The word `**`, the marker of a function definition. -/
  | stars
  /-- A word between plus signs. -/
  | operand
  /-- The keyword `3.`, the end of a logical line. -/
  | lineEnd
  /-- The keyword `3.1`, a declaration, and the separator inside one. -/
  | declare
  /-- The keyword `3.14`, a branch. -/
  | branch
  /-- The keyword `3.141`, a loop. -/
  | loop
  /-- A keyword of four to seven or of eleven to fourteen decimals. -/
  | operator (op : Operator)
  /-- The keyword `3.14159265`, the end of a block. -/
  | endBlock
  /-- The keyword `3.141592653`, an iteration. -/
  | forEach
  /-- The keyword `3.1415926535`, a call. -/
  | call
deriving DecidableEq

namespace TokenKind

def name : TokenKind → String
  | .eof => "EOF"
  | .malformed => "ERROR"
  | .dashes => "DASH_DASH"
  | .stars => "STAR_STAR"
  | .operand => "USER_VALUE"
  | .lineEnd => "EOL"
  | .declare => "VAR_DECL"
  | .branch => "IF"
  | .loop => "FOR"
  | .operator .add => "ADD"
  | .operator .subtract => "SUBTRACT"
  | .operator .multiply => "MULTIPLY"
  | .operator .divide => "DIVIDE"
  | .operator .equal => "EQUAL"
  | .operator .notEqual => "NOT_EQUAL"
  | .operator .greater => "GREATER"
  | .operator .smaller => "SMALLER"
  | .endBlock => "END_BLOCK"
  | .forEach => "FOREACH"
  | .call => "FUN_CALL"

def all : List TokenKind :=
  [.eof, .malformed, .dashes, .stars, .operand, .lineEnd, .declare, .branch, .loop, .endBlock,
   .forEach, .call] ++ Operator.all.map .operator

def isOperator : TokenKind → Bool
  | .operator _ => true
  | _ => false

def isKeyword : TokenKind → Bool
  | .eof | .malformed | .dashes | .stars | .operand => false
  | _ => true

/-- Whether the kind starts a statement that owns a block. -/
def opensBlock : TokenKind → Bool
  | .branch | .loop | .forEach | .stars => true
  | _ => false

end TokenKind

structure Token where
  kind : TokenKind
  text : String
  pos : Position
deriving DecidableEq

end PiScript
