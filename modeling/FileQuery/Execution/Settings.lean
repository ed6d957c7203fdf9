import FileQuery.Fault
import FileQuery.Report.Basic

/-! What statements run with. A setting of the wrong type is held as what its first use is refused
with. -/
set_option autoImplicit false
namespace FileQuery

/-- How many scripts may be open at once, and how that number is written. -/
structure LoadLimit where
  levels : Int
  text : String
  deriving DecidableEq, Repr

structure Settings where
  matcher : Matcher := .commonest
  encoding : Store.Encoding := .utf8
  contentLimit : Except String Int := .ok 10485760
  loadLimit : Except String LoadLimit := .ok ⟨8, "8"⟩
  style : Except Fault Report.Style := .ok {}

def Settings.levels (s : Settings) : Nat :=
  match s.loadLimit with
  | .ok limit => limit.levels.toNat
  | .error _ => 0

end FileQuery
