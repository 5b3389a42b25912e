/-! # Phases of a bulk load

A load is created, initialized, bound, sends its rows and finishes. A load whose rows stopped
early stays in the sending phase, marked as aborted, until it is finished.
-/
namespace BulkLoad

inductive Completion
  | succeeded
  | failed
deriving DecidableEq

inductive Phase
  | created
  | initialized
  | bound
  | sending (aborted : Bool)
  | finished (completion : Completion)
deriving DecidableEq

def Phase.text : Phase → String
  | created => "Created"
  | initialized => "Initialized"
  | bound => "Bound"
  | sending false => "Sending"
  | sending true => "Sending(aborted)"
  | finished .succeeded => "Finished(ok)"
  | finished .failed => "Finished(failed)"

end BulkLoad
