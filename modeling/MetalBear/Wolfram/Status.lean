import Mathlib

/-!
# Status codes

The status codes of the protocol library, in which every store and every route of the
server reports its outcome.
-/

namespace MetalBear

/-- `wf_status`, as far as the server names it. -/
inductive WfStatus where
  | ok
  | alloc
  | invalidArg
  | internal
  | notFound
  | permission
  | parse
  | crypto
  | conflict
  | network
  | timeout
  deriving DecidableEq, Repr

/-- A status other than `WF_OK`, which is what a failed call returns. -/
structure WfError where
  status : WfStatus
  ne_ok : status ≠ .ok
  deriving DecidableEq, Repr

namespace WfError

def invalidArg : WfError := ⟨.invalidArg, by decide⟩
def internal : WfError := ⟨.internal, by decide⟩
def notFound : WfError := ⟨.notFound, by decide⟩
def permission : WfError := ⟨.permission, by decide⟩
def alloc : WfError := ⟨.alloc, by decide⟩
def parse : WfError := ⟨.parse, by decide⟩
def conflict : WfError := ⟨.conflict, by decide⟩
def crypto : WfError := ⟨.crypto, by decide⟩

@[simp] theorem status_ne_ok (e : WfError) : e.status ≠ .ok := e.ne_ok

end WfError

end MetalBear
