import Tink.Db.Dispatch
import Tink.Db.Integrity
import Tink.Kube.Contexts
import Tink.Worker.Job

/-!
# Accesses to the action list

A worker looks an index of the context up in the action list it has read after the context.  On the Kubernetes backend
the index is a number of successes, which is at most the position of the current action, and a list has the length of
the total; only a workflow without actions has no position at all.  On the database backend a streamed row stands at
an action of its list, but the list is empty if the query for it fails, or if the workflow has been deleted in
between.
-/

namespace Tink.Worker

open Machine

variable {cfg : Config} {c : WorkflowContext} {actions : List WorkflowAction} {workerID : String}

end Tink.Worker
