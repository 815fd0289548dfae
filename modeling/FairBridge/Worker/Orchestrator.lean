import FairBridge.Signer.Buy
import FairBridge.Signer.Fair

/-!
The workers of the queues. The queue hands a job to a worker, one at a time, and learns how
its attempt has ended; a job that cannot be retried is not attempted again.
-/

namespace FairBridge
open Async

/-- An error that will not go away is alerted and passed on. -/
def alertPermanent (cfg : Config) (message : String) (process : Promise Unit) :
    Promise Unit :=
  tryCatch process fun err => do
    if err.nonRetryable then alert cfg message
    throw err

def mintProcessor (cfg : Config) (job : MintJob) : Promise Unit :=
  alertPermanent cfg "mint job failed permanently" (signMint cfg job)

def releaseProcessor (cfg : Config) (job : ReleaseJob) : Promise Unit :=
  alertPermanent cfg "release job failed permanently" (signRelease cfg job)

def buyProcessor (cfg : Config) (buyOrderId : ObjectId) : Promise Unit :=
  alertPermanent cfg "buy job failed permanently" (processBuy cfg buyOrderId)

/-- What the queue does with a job: it is taken, processed, and its end recorded. -/
def attempt (job : JobRef) (processor : Promise Unit) : Promise Unit := do
  call (.takeJob job)
  let raised ← tryCatch (do processor; return none) fun err => return some err
  call (.finishJob job raised)

end FairBridge
