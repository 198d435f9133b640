import Engine.Store.Orphans

/-! What one pruning does when nothing else runs. -/
namespace Engine.Pruning
open Concurrent Program Redis TransactionDB

section
variable {s : Store} {keep : ℕ} {batchSize : ℕ+}

/-- Two queued transactions. -/
def twoQueued : Store :=
  (Op.set (queuedWithId "b") 7).after 2 ((Op.set (queuedWithId "a") 5).after 2 fun _ => none)

end
end Engine.Pruning
