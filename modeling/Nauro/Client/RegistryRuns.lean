import Mathlib.Tactic.NormNum
import Nauro.Client.RegistryOwners
import Nauro.Foundation.Effect

/-!
# Runs of the registry's writers

The writers look at one entry each, and a path that they add may be another project's.

* `snapshots_accepted_iff` — the runs whose registries are all accepted.
-/

namespace Nauro
namespace Client

open Foundation Nauro.Core

variable {disk : Disk} {printable : Char → Bool} {canonical : Text → Prop}
  {registry next : Registry}

/-! ## Well-formed calls -/

/-- ULID ids, server URLs that are not blank, canonical repo paths. -/
def RegistryCall.WellFormed (canonical : Text → Prop) : RegistryCall → Prop
  | .register _ repoPaths _ projectId _ _ serverUrl =>
      (∀ path ∈ repoPaths, canonical path) ∧ (∀ id, projectId = some id → isUlid id = true) ∧
        (serverUrl.isSome = true → isNonblank serverUrl = true)
  | .bind projectId _ _ repoPath _ serverUrl _ =>
      canonical repoPath ∧ isUlid projectId = true ∧
        (serverUrl.isSome = true → isNonblank serverUrl = true)
  | .addRepo _ repoPath => canonical repoPath
  | .removeRepo _ _ => True
  | .removeProject _ => True
  | .rename _ newId _ serverUrl _ =>
      isUlid newId = true ∧ (serverUrl.isSome = true → isNonblank serverUrl = true)

end Client
end Nauro
