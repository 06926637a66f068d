import Relock.Report.Diagnostic
import Relock.Source.Provider

/-!
# Why a dependency is left out

`ResolveError` is the reason why an import path has no root or a root no version. It ends nothing:
the dependency is left out and the rest goes on.
-/

namespace Relock

/-- Why a dependency cannot be resolved. -/
inductive ResolveError where
  /-- No repository was found for an import path or at a root. -/
  | unresolvable (root : String)
  /-- The provider failed on a root. -/
  | provider (root : String) (message : String)
deriving DecidableEq

namespace ResolveError

/-- The import path or root that the error is about. -/
def root : ResolveError → String
  | unresolvable root => root
  | provider root _ => root

/-- The text of the error. -/
def message : ResolveError → String
  | unresolvable root => "unable to resolve project root for `" ++ root ++ "`"
  | provider root message => "source error for `" ++ root ++ "`: " ++ message

/-- What to tell a user about the error. -/
def diagnostic : ResolveError → Diagnostic
  | unresolvable root =>
    Diagnostic.warning ("could not find a repository for `" ++ root ++ "`")
      |>.withNote "the dependency was left out of the manifest and lock"
      |>.withSuggestion "Check that the import path is spelled correctly"
      |>.withSuggestion "Ensure the repository is reachable from this machine"
  | provider root message =>
    Diagnostic.warning ("error listing versions of `" ++ root ++ "`")
      |>.withNote message
      |>.withSuggestion "Check your network connection"

/-- What a failing existence question about `root` means. -/
def ofProbe (root : ProjectRoot) (error : SourceError) : ResolveError :=
  provider root.text error.message

/-- What a failing listing of `root` means: a missing repository is no failure of the provider. -/
def ofListing (root : ProjectRoot) : SourceError → ResolveError
  | .notFound _ => unresolvable root.text
  | .other fault => provider root.text fault.text

end ResolveError

end Relock
