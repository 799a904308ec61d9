import MetalBear.Library.CString
import MetalBear.Server.Auth
import MetalBear.Sync.ListRepos

/-!
# Proxying to the AppView

Where a request that is proxied goes, and for whom its service token is meant. The header
`atproto-proxy` names a service by DID and service id; the audience is what stands before its last
`#`, the document is fetched from the host before its first one. The network, the accounts and the
signing of service tokens are parameters.
-/

namespace MetalBear.Appview

open OAuth Server
open MetalBear.Sync (XrpcError)

/-! ## The service of a DID document -/

/-- `did_len > 0 && did_len < 256`. -/
def didFits (did : String) : Prop := did ≠ "" ∧ did.utf8ByteSize < 256

instance decidableDidFits (did : String) : Decidable (didFits did) :=
  inferInstanceAs (Decidable (_ ∧ _))

variable {w : ProxyWorld} {route : ProxyRoute} {req : ProxyRequest} {sent : Sent}
  {header did svc upstream : String}

/-! ### Splitting -/

end MetalBear.Appview
