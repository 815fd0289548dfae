import FairBridge.Model.World

/-!
The fetch of a block. The node gives the txids of a block and decodes one transaction at a
time; workers that share a cursor fetch them, at most `limit` at once. Between two awaits
a worker runs undisturbed, so a step of the pool is a call that settles and what its
worker does up to its next await.
-/

namespace FairBridge

/-- A worker awaits the call for an index, has returned, or has rejected. -/
inductive PoolWorker (ε : Type) where
  | awaits (index : Nat)
  | returned
  | rejected (e : ε)
  deriving DecidableEq, Repr

def PoolWorker.inFlight {ε : Type} : PoolWorker ε → Bool
  | .awaits _ => true
  | _ => false

def PoolWorker.fulfilled {ε : Type} : PoolWorker ε → Bool
  | .returned => true
  | _ => false

/-- `results` starts with as many holes as there are items. `rejection` is the first that
`Promise.all` sees. `calls` records the calls of the task, in order. -/
structure WorkerPool (α β ε : Type) where
  results : List (Option β)
  cursor : Nat := 0
  workers : List (PoolWorker ε) := []
  rejection : Option ε := none
  calls : List (α × Nat) := []
  deriving DecidableEq, Repr

namespace WorkerPool
variable {α β ε : Type}

/-- A worker goes on to its next await: it takes the index at the cursor, and calls the task
if there is an item. -/
def takeNext (items : List α) (s : WorkerPool α β ε) : PoolWorker ε × WorkerPool α β ε :=
  match items[s.cursor]? with
  | none => (.returned, { s with cursor := s.cursor + 1 })
  | some item => (.awaits s.cursor,
      { s with cursor := s.cursor + 1, calls := s.calls ++ [(item, s.cursor)] })

/-- Workers are started one after the other, each up to its first await. -/
def spawn (items : List α) : Nat → WorkerPool α β ε
  | 0 => { results := List.replicate items.length none }
  | n + 1 =>
      let (worker, s) := (spawn items n).takeNext items
      { s with workers := s.workers ++ [worker] }

/-- The call that a worker awaits settles. -/
def settle (items : List α) (task : α → Nat → Except ε β) (w : Nat) (s : WorkerPool α β ε) :
    Option (WorkerPool α β ε) :=
  match s.workers[w]? with
  | some (.awaits index) =>
      (items[index]?).map fun item =>
        match task item index with
        | .ok b =>
            let (worker, s) := { s with results := s.results.set index (some b) }.takeNext items
            { s with workers := s.workers.set w worker }
        | .error e =>
            { s with
              workers := s.workers.set w (.rejected e)
              rejection := s.rejection.or (some e) }
  | _ => none

/-- Calls settle in the order of the workers listed. -/
def run (items : List α) (task : α → Nat → Except ε β) :
    WorkerPool α β ε → List Nat → Option (WorkerPool α β ε)
  | s, [] => some s
  | s, w :: ws => (s.settle items task w).bind fun s => run items task s ws

/-- What has become of the pool's promise. -/
def outcome (s : WorkerPool α β ε) : Option (Except ε (List (Option β))) :=
  match s.rejection with
  | some e => some (.error e)
  | none =>
      if s.workers.all PoolWorker.fulfilled then some (.ok s.results) else none

def inFlight (s : WorkerPool α β ε) : Nat :=
  s.workers.countP PoolWorker.inFlight

end WorkerPool

/-- The pool once all its workers are started. -/
def mapWithConcurrency {α : Type} (β ε : Type) (items : List α) (limit : Nat) :
    WorkerPool α β ε :=
  .spawn items (min limit items.length)

def perTxFetchConcurrency : Nat := 5

structure RawBlock where
  hash : String
  height : Nat
  confirmations : Int
  time : Nat
  previousblockhash : Option String := none
  tx : List Txid
  deriving DecidableEq, Repr

structure RawTransaction where
  txid : Txid
  vout : Option (List TxVout) := none
  deriving DecidableEq

/-- A block as it is handed on; its list of transactions could have holes. -/
structure BlockVerbose where
  hash : String
  height : Nat
  confirmations : Int
  time : Nat
  previousblockhash : Option String
  tx : List (Option BlockTx)
  deriving DecidableEq

/-- The node's answers, each parsed; those for a transaction may differ from call to call. -/
structure FairRpc (ε : Type) where
  getblockhash : Nat → Except ε String
  getblock : String → Except ε RawBlock
  getrawtransaction : Txid → Nat → Except ε RawTransaction

def RawTransaction.decoded (raw : RawTransaction) : BlockTx := ⟨raw.txid, raw.vout.getD []⟩

/-- The task of the pool. -/
def FairRpc.fetchTx {ε : Type} (rpc : FairRpc ε) (txid : Txid) (index : Nat) :
    Except ε BlockTx := do
  return (← rpc.getrawtransaction txid index).decoded

/-- Where a fetch of a block has got to. -/
inductive BlockFetch (ε : Type) where
  | hash
  | block (hash : String)
  | txs (rawBlock : RawBlock) (pool : WorkerPool Txid BlockTx ε)
  | rejected (e : ε)
  deriving DecidableEq

namespace BlockFetch
variable {ε : Type}

/-- An answer arrives: to one of the first two requests, or to a worker. -/
def next (rpc : FairRpc ε) (height : Nat) : BlockFetch ε → Option Nat → Option (BlockFetch ε)
  | .hash, none => some <| match rpc.getblockhash height with
      | .ok blockHash => .block blockHash
      | .error e => .rejected e
  | .block blockHash, none => some <| match rpc.getblock blockHash with
      | .ok rawBlock => .txs rawBlock
          (mapWithConcurrency BlockTx ε rawBlock.tx perTxFetchConcurrency)
      | .error e => .rejected e
  | .txs rawBlock pool, some w => (pool.settle rawBlock.tx rpc.fetchTx w).map (.txs rawBlock)
  | _, _ => none

def run (rpc : FairRpc ε) (height : Nat) :
    BlockFetch ε → List (Option Nat) → Option (BlockFetch ε)
  | f, [] => some f
  | f, answer :: answers => (f.next rpc height answer).bind fun f => run rpc height f answers

def outcome : BlockFetch ε → Option (Except ε BlockVerbose)
  | .hash | .block _ => none
  | .txs rawBlock pool => pool.outcome.map fun r =>
      r.map fun decodedTxs => ⟨rawBlock.hash, rawBlock.height, rawBlock.confirmations, rawBlock.time,
        rawBlock.previousblockhash, decodedTxs⟩
  | .rejected e => some (.error e)

end BlockFetch

def getBlockWithTxs (ε : Type) : BlockFetch ε := .hash

end FairBridge
