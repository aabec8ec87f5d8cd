import SpendScript.Engine.State
import SpendScript.Settings.Json

/-!
# Policy settings

* `Flags.ofEntries?`: the policy that entries set. What they leave out has its default.
* `Flags.ofJson?`: the policy of a JSON document.
-/

namespace SpendScript

namespace Flags

/-- The names of the settings, in the order of their fields. -/
def names : List String :=
  ["strict-encoding", "minimal-data", "minimal-if", "sig-cache-size"]

/-- The policy that entries set, among which there may be others. -/
def ofEntries? (es : Settings.Entries) : Option Flags := do
  return ⟨← es.truth? "strict-encoding", ← es.truth? "minimal-data", ← es.truth? "minimal-if",
    ← es.count? "sig-cache-size" default.cacheSize⟩

/-- The policy of a JSON document, which says nothing else. -/
def ofJson? (text : String) : Option Flags := do
  let es ← Settings.Json.read? names text
  if es.areAmong names then ofEntries? es else none

end Flags

end SpendScript
