import RuleLang.Numeral.Integer
import RuleLang.Indent.Style

/-!
# RuleLang.Config.Basic

The settings of the program and the environment variables that hold them. A variable without a
sensible value counts as not set.
-/

namespace RuleLang

/-- Environment variables by name. -/
abbrev Env := List (Text × Text)

namespace Env

/-- The value of a variable, empty if it is not set. -/
def value (e : Env) (name : String) : Text := (e.lookup (txt name)).getD []

end Env

structure Config where
  tabSize : Int := 2
  useTabs : Bool := false
  catalogPath : Text := []
  cacheSize : Int := 128
deriving Repr, DecidableEq

namespace Config

/-- A positive decimal integer, or the fallback. -/
def positiveOr (fallback : Int) (raw : Text) : Int :=
  match Numeral.decimal? raw.trim with
  | .ok n => if 0 < n then n else fallback
  | .error _ => fallback

def ofEnv (e : Env) : Config where
  tabSize := positiveOr 2 (e.value "SEMGREP_LSP_TAB_SIZE")
  useTabs := (Numeral.bool? (e.value "SEMGREP_LSP_USE_TABS").trim).getD false
  catalogPath := (e.value "SEMGREP_LSP_CATALOG").trim
  cacheSize := positiveOr 128 (e.value "SEMGREP_LSP_CACHE_SIZE")

/-- The indentation that the settings ask for. -/
def style (c : Config) : Style := (⟨!c.useTabs, c.tabSize⟩ : Style).bounded

end Config

end RuleLang
