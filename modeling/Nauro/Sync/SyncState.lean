import Nauro.Core.Text
import Nauro.Foundation.Table

/-!
# The sync state

For each file that was synced: the digest of its bytes and the etag that the server gave them.
-/

namespace Nauro
namespace Sync

open Foundation Nauro.Core

structure FileState where
  localSha256 : Text
  remoteEtag : Text
  lastSync : Text
deriving DecidableEq

structure SyncState where
  files : Table Text FileState
  lastFullSync : Text
deriving DecidableEq

/-- `update_file_state`. -/
def SyncState.updateFile (state : SyncState) (path sha256 etag now : Text) : SyncState :=
  { state with files := state.files.put path ⟨sha256, etag, now⟩ }

theorem SyncState.get?_updateFile_self (state : SyncState) (path sha256 etag now : Text) :
    (state.updateFile path sha256 etag now).files.get? path = some ⟨sha256, etag, now⟩ :=
  Table.get?_put_self state.files path _

/-- An update leaves the other files alone. -/
theorem SyncState.get?_updateFile_of_ne {path other : Text} (h : other ≠ path) (state : SyncState)
    (sha256 etag now : Text) :
    (state.updateFile path sha256 etag now).files.get? other = state.files.get? other :=
  Table.get?_put_of_ne h _

end Sync
end Nauro
