import AtMostOnce.Proofs.Catalog
import AtMostOnce.Proofs.Http.Refused
import Mathlib.Data.List.Pairwise

/-! Effects. What a conversation does to the catalog is done by the executions at the two endpoints,
and what callers are told of is what one of these has done. -/
namespace AtMostOnce

namespace Outcome
variable {V : Type}

end Outcome

namespace Http

namespace Endpoint

end Endpoint

namespace Server
variable {s : Server} {e : Endpoint} {r : Request} {o : Order}

section
variable {bounds : Bounds} {access : Access} {journal : Journal} {origin : Nat}
  {steps : List Step} {response : Response}

end

section
variable (bounds : Bounds) (access : Access) (journal : Journal) (origin : Nat)
  (steps : List Step)

end

end Server
end Http
end AtMostOnce
