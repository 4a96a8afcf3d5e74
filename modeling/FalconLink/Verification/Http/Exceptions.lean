import FalconLink.Verification.Http.Answers

/-! # Exceptions that leave the handler -/

namespace FalconLink.Http

open Framing Connection Session

/-- The calls have returned, and the connection is open or deleted. -/
def Status.Returned (status : Status) : Prop :=
  status = .kept ∨ status = .deleted

end FalconLink.Http
