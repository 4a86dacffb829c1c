import RuleLang.Text.Basic

/-!
# RuleLang.Catalog.Depth

The three nesting depths of a rule document: the document itself, a rule, and a pattern nested in
a rule.
-/

namespace RuleLang

inductive Depth where
  | root
  | rule
  | pattern
deriving Repr, DecidableEq

namespace Depth

/-- Number of enclosing levels. -/
def level : Depth → Nat
  | root => 0
  | rule => 1
  | pattern => 2

def ofLevel? (n : Int) : Option Depth :=
  if n = 0 then some root else if n = 1 then some rule else if n = 2 then some pattern else none

def name : Depth → Text
  | root => txt "root"
  | rule => txt "rule"
  | pattern => txt "pattern"

/-- The name of any level number; numbers outside the language are shown as such. -/
def levelName (n : Int) : Text :=
  match ofLevel? n with
  | some d => d.name
  | none => txt "depth(" ++ Text.ofInt n ++ txt ")"

end Depth

end RuleLang
