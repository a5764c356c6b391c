import PiScript.Proofs.Decimal.Rational
import PiScript.Statement
import PiScript.Text.Blank

/-!
# Writing programs out

The source text of a program: every statement on a line of its own, its words separated by spaces
and closed by `3.`, and the end of every block on a line of its own. Names and operands are written
between plus signs.

A program can only be written out if its names survive that (`WellFormed`), and reading it again
gives the same numbers at scales that may differ (`Same`).
-/

namespace PiScript

/-! ## Words and lines -/

def Operator.word : Operator → String
  | .add => "3.1415"
  | .subtract => "3.14159"
  | .multiply => "3.141592"
  | .divide => "3.1415926"
  | .equal => "3.14159265358"
  | .notEqual => "3.141592653589"
  | .greater => "3.1415926535897"
  | .smaller => "3.14159265358979"

def nameWord (s : String) : String :=
  "+" ++ s ++ "+"

def Expr.words : Expr → List String
  | .operand v => [v.literal]
  | .binary op left right => [left.literal, op.word, right.literal]

def optionalWords (e : Option Expr) : List String :=
  (e.map Expr.words).getD []

def blockEnd : List String :=
  ["3.14159265", "3."]

mutual

/-- The lines that write a statement, each as its words. -/
def Stmt.lines : Stmt → List (List String)
  | .inclusion path => [["--", nameWord path, "3."]]
  | .print e => [optionalWords e ++ ["3."]]
  | .declare name init => ["3.1" :: nameWord name :: "3.1" :: (optionalWords init ++ ["3."])]
  | .forEach source item body =>
    ["3.141592653", nameWord source, nameWord item, "3."] :: (Program.lines body ++ [blockEnd])
  | .loop cond step body =>
    ("3.141" :: (cond.words ++ (step.words ++ ["3."]))) :: (Program.lines body ++ [blockEnd])
  | .branch cond body =>
    ("3.14" :: (cond.words ++ ["3."])) :: (Program.lines body ++ [blockEnd])
  | .define name body => ["**", nameWord name, "3."] :: (Program.lines body ++ [blockEnd])
  | .call name => [["3.1415926535", nameWord name, "3."]]

def Program.lines : List Stmt → List (List String)
  | [] => []
  | s :: rest => s.lines ++ Program.lines rest

end

def Program.source (p : Program) : String :=
  "\n".intercalate ((Program.lines p).map (" ".intercalate ·))

/-! ## What can be written -/

/-- A text that survives being written between plus signs: it has no blanks, and it is neither a
constant nor a numeral. -/
structure IsName (s : String) : Prop where
  not_blank : ∀ c ∈ s.toList, Text.isBlank c = false
  ne_null : s ≠ "null"
  ne_true : s ≠ "true"
  ne_false : s ≠ "false"
  not_number : Decimal.ofNumeral? s.toList = none

instance : DecidablePred IsName := fun s =>
  haveI : Decidable (∀ c ∈ s.toList, Text.isBlank c = false) := List.decidableBAll _ _
  decidable_of_iff
    ((∀ c ∈ s.toList, Text.isBlank c = false) ∧ s ≠ "null" ∧ s ≠ "true" ∧ s ≠ "false" ∧
      Decimal.ofNumeral? s.toList = none)
    ⟨fun ⟨hblank, hnull, htrue, hfalse, hnumber⟩ => ⟨hblank, hnull, htrue, hfalse, hnumber⟩,
      fun h => ⟨h.not_blank, h.ne_null, h.ne_true, h.ne_false, h.not_number⟩⟩

/-- A text is a name, and a scale fits a signed 64-bit word. -/
def Value.WellFormed : Value → Prop
  | .text s => IsName s
  | .number d => Decimal.minWord ≤ d.scale ∧ d.scale ≤ Decimal.maxWord
  | .truth _ => True
  | .null => True

def Expr.WellFormed : Expr → Prop
  | .operand v => v.WellFormed
  | .binary _ left right => left.WellFormed ∧ right.WellFormed

mutual

/-- Every name is one, and every `print` has something to print. -/
def Stmt.WellFormed : Stmt → Prop
  | .inclusion path => IsName path
  | .print e => ∃ x, e = some x ∧ x.WellFormed
  | .declare name init => IsName name ∧ ∀ x ∈ init, x.WellFormed
  | .forEach source item body => IsName source ∧ IsName item ∧ Program.WellFormed body
  | .loop cond step body => cond.WellFormed ∧ step.WellFormed ∧ Program.WellFormed body
  | .branch cond body => cond.WellFormed ∧ Program.WellFormed body
  | .define name body => IsName name ∧ Program.WellFormed body
  | .call name => IsName name

def Program.WellFormed : List Stmt → Prop
  | [] => True
  | s :: rest => s.WellFormed ∧ Program.WellFormed rest

end

/-! ## Programs up to the scales of their numbers -/

/-- The values are equal, numbers as numbers. -/
inductive Value.Same : Value → Value → Prop where
  | text (s : String) : Value.Same (.text s) (.text s)
  | number {d e : Decimal} (h : d.toRat = e.toRat) : Value.Same (.number d) (.number e)
  | truth (b : Bool) : Value.Same (.truth b) (.truth b)
  | null : Value.Same .null .null

inductive Expr.Same : Expr → Expr → Prop where
  | operand {v w : Value} (h : v.Same w) : Expr.Same (.operand v) (.operand w)
  | binary (op : Operator) {l r l' r' : Value} (hl : l.Same l') (hr : r.Same r') :
      Expr.Same (.binary op l r) (.binary op l' r')

mutual

inductive Stmt.Same : Stmt → Stmt → Prop where
  | inclusion (path : String) : Stmt.Same (.inclusion path) (.inclusion path)
  | print {e e' : Option Expr} (h : Option.Rel Expr.Same e e') : Stmt.Same (.print e) (.print e')
  | declare (name : String) {e e' : Option Expr} (h : Option.Rel Expr.Same e e') :
      Stmt.Same (.declare name e) (.declare name e')
  | forEach (source item : String) {b b' : List Stmt} (h : Program.Same b b') :
      Stmt.Same (.forEach source item b) (.forEach source item b')
  | loop {c c' s s' : Expr} {b b' : List Stmt} (hc : c.Same c') (hs : s.Same s')
      (h : Program.Same b b') : Stmt.Same (.loop c s b) (.loop c' s' b')
  | branch {c c' : Expr} {b b' : List Stmt} (hc : c.Same c') (h : Program.Same b b') :
      Stmt.Same (.branch c b) (.branch c' b')
  | define (name : String) {b b' : List Stmt} (h : Program.Same b b') :
      Stmt.Same (.define name b) (.define name b')
  | call (name : String) : Stmt.Same (.call name) (.call name)

/-- The programs are equal, numbers compared as numbers. -/
inductive Program.Same : List Stmt → List Stmt → Prop where
  | nil : Program.Same [] []
  | cons {s s' : Stmt} {p p' : List Stmt} (h : s.Same s') (rest : Program.Same p p') :
      Program.Same (s :: p) (s' :: p')

end

end PiScript
