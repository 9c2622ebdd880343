/-! Syntax of rule files, as far as rules depend on it: literals, parameters, functions and the
values of expression statements. Everything else is kept only as being there. -/

namespace HouseRules.Python

/-- The displays of several values. -/
inductive Display where
  | list
  | tuple
  | set
  deriving DecidableEq

/-- An expression. Literals keep the text of their tokens. -/
inductive Expr where
  /-- One string token or several next to each other. -/
  | string (tokens : List (List Char))
  | integer (token : List Char)
  | float (token : List Char)
  | bool (b : Bool)
  /-- The word `None`. -/
  | null
  /-- A minus or plus sign before an operand. -/
  | signed (negative : Bool) (operand : Expr)
  | parenthesized (inner : Expr)
  | display (kind : Display) (items : List Expr)
  | dict (pairs : List (Expr × Expr))
  /-- A name, an attribute or a subscript: what can be assigned to. -/
  | place
  /-- A place after a star. -/
  | starredPlace
  /-- Brackets in which a line is continued by a backslash right before an item, a comma or the
  closing bracket. -/
  | spliced (inner : Expr)
  | other
  deriving Inhabited

/-- A parameter of a function. -/
inductive Parameter where
  | plain (name : String) (annotated : Bool)
  /-- A parameter with a default and the source text of that. -/
  | defaulted (name : String) (annotated : Bool) (default : Expr) (source : String)
  /-- A tuple of names. -/
  | tuple
  /-- The slash. -/
  | slash
  /-- The star on its own. -/
  | star
  /-- A star with a name. -/
  | rest (annotated : Bool)
  /-- Two stars with a name. -/
  | keywords (annotated : Bool)
  deriving Inhabited

/-- A statement. -/
inductive Statement where
  | expression (values : List Expr)
  | function (isAsync : Bool) (name : String) (parameters : List Parameter)
      (body : List Statement)
  | other
  deriving Inhabited

/-- The statements of a file. -/
abbrev Module := List Statement

namespace Expr

mutual

/-- Whether an expression can be assigned to. -/
def isTarget : Expr → Bool
  | place | starredPlace => true
  | parenthesized e => e.isTarget
  | display kind items => kind ≠ .set && allTargets items
  | spliced e => e.isTarget
  | _ => false

/-- Whether each expression can be assigned to. -/
def allTargets : List Expr → Bool
  | [] => true
  | e :: es => e.isTarget && allTargets es

end

end Expr

end HouseRules.Python
