/-!
# Failed requests

A request fails with an answer that says why, or it breaks down without one. The breakdowns listed
here are those of a request whose body was read; a body that is nested too deeply breaks down while
it is read, which is left out.
-/
namespace PhasePortrait

/-- The groups that refusals are reported in. -/
inductive RefusalKind where
  | validation | parse | calculation
deriving DecidableEq, Repr

def RefusalKind.label : RefusalKind → String
  | validation => "validation"
  | parse => "parse"
  | calculation => "calculation"

inductive Breakdown where
  /-- A whole number too large for a double, or an infinity where a whole number should be. -/
  | overflow
  /-- A whole number outside the range of machine integers. -/
  | wideInteger
  /-- Parameter names given as a value that holds no names. -/
  | namesNotListed
  /-- A list or an object as a parameter name. -/
  | nameNotAtomic
  /-- A name declared twice. -/
  | repeatedName
  /-- Parameters given as a value that is neither absent nor text. -/
  | parametersNotText
  /-- A whole number with more digits than are read, in a formula that is to be echoed. -/
  | longNumber
deriving DecidableEq, Repr

inductive Failure where
  | refused (kind : RefusalKind) (message : String) (faultLabel : Option String)
  | brokenDown (cause : Breakdown)
deriving DecidableEq, Repr

def Failure.validation (message : String) : Failure := .refused .validation message none

end PhasePortrait
