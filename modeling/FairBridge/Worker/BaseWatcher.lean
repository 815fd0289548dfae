import FairBridge.Model.Requests

/-!
The watcher of the Base chain. It scans burn logs window by window, records each
burn as a withdrawal and enqueues its release, and re-enqueues the releases of
CONFIRMED withdrawals that are a while old.
-/

namespace FairBridge
open Store Async

def initialBackfillBlocks : Nat := 50

def maxLogRange : Int := 10

def orphanWithdrawalAgeMs : Nat := 5 * 60 * 1000

/-- The last day's withdrawals of an address, refused ones left out. -/
def recentWithdrawal (now : Nat) (fromBaseAddress : Address) (d : WithdrawalDoc) : Bool :=
  d.fromBaseAddress == fromBaseAddress && now ≤ d.createdAt + dayMs &&
    (d.status == .confirmed || d.status == .signing || d.status == .broadcast ||
      d.status == .final)

def sumDailyWithdrawalSatsForAddress (fromBaseAddress : Address) : Promise Int := do
  let now ← call .dateNow
  let rows ← call (.withdrawal (.find (recentWithdrawal now fromBaseAddress) none))
  return (rows.map WithdrawalDoc.amountSats).sum

/-- A burn log with its identifiers, decoded. -/
structure BurnLog where
  txHash : Hash
  logIndex : Nat
  blockNumber : Nat
  burn : DecodedBurn
  deriving DecidableEq, Repr

namespace BurnLog

def key (l : BurnLog) : Hash × Nat := (l.txHash, l.logIndex)

def faircoinAddress (l : BurnLog) : String :=
  decodeFaircoinAddressBytes l.burn.faircoinAddress

def amountSats (l : BurnLog) : Int := bigIntDiv l.burn.amount satsToWei

/-- The row of a burn that is not released. -/
def refused (l : BurnLog) : WithdrawalDoc where
  baseBurnTxHash := l.txHash
  baseBlockNumber := l.blockNumber
  logIndex := l.logIndex
  fromBaseAddress := l.burn.source
  destinationFairAddress := l.faircoinAddress
  amountWei := l.burn.amount
  amountSats := l.amountSats
  status := .failed

/-- The row of a burn whose release is enqueued. -/
def confirmed (l : BurnLog) (releaseAmountSats : Int) : WithdrawalDoc where
  baseBurnTxHash := l.txHash
  baseBlockNumber := l.blockNumber
  logIndex := l.logIndex
  fromBaseAddress := l.burn.source
  destinationFairAddress := l.faircoinAddress
  amountWei := releaseAmountSats * satsToWei
  amountSats := releaseAmountSats
  status := .confirmed

def job (l : BurnLog) (withdrawalId : ObjectId) (releaseAmountSats : Int) : ReleaseJob where
  withdrawalId := withdrawalId
  destinationFairAddress := l.faircoinAddress
  amountSats := releaseAmountSats
  baseBurnTxHash := l.txHash
  logIndex := l.logIndex

end BurnLog

/-- A log that lacks an identifier or does not decode is skipped. -/
def Log.burnLog (log : Log) : Option BurnLog := do
  return ⟨← log.transactionHash, ← log.logIndex, ← log.blockNumber, ← log.burn⟩

/-- Release a burn that passed its checks. -/
def confirmBurn (cfg : Config) (l : BurnLog) : Promise Unit := do
  let releaseAmountSats ← Promise.of (applyFee l.amountSats cfg.bridgeFeeBps)
  let doc ← call (.withdrawal (.create (l.confirmed releaseAmountSats)))
  call (.addReleaseJob (l.job doc.id releaseAmountSats))

def refuseBurn (cfg : Config) (l : BurnLog) (reason : String) : Promise Unit := do
  let _ ← call (.withdrawal (.create l.refused))
  alert cfg reason

def recordBurn (cfg : Config) (l : BurnLog) : Promise Unit := do
  match ← call (.withdrawal (.findOne
    (fun d => d.baseBurnTxHash == l.txHash && d.logIndex == l.logIndex) none)) with
  | some _ => return
  | none =>
      let perAddressCapSats ← Promise.of cfg.perAddressDailyCapFair.toSats
      if ← tryCatch (call (.validateAddress l.faircoinAddress)) fun _ => pure false then
        let dailySoFar ← sumDailyWithdrawalSatsForAddress l.burn.source
        if dailySoFar + l.amountSats > perAddressCapSats then
          refuseBurn cfg l "withdrawal exceeds per-address daily cap"
        else confirmBurn cfg l
      else refuseBurn cfg l "invalid faircoin address in bridge burn"

def processLog (cfg : Config) (log : Log) : Promise Unit :=
  match log.burnLog with
  | some l => recordBurn cfg l
  | none => pure ()

def orphanWithdrawal (now : Nat) (d : WithdrawalDoc) : Bool :=
  d.status == .confirmed && d.createdAt + orphanWithdrawalAgeMs < now

def WithdrawalDoc.job (d : WithdrawalDoc) : ReleaseJob where
  withdrawalId := d.id
  destinationFairAddress := d.destinationFairAddress
  amountSats := d.amountSats
  baseBurnTxHash := d.baseBurnTxHash
  logIndex := d.logIndex

/-- The reconciler enqueues what the first pass over the log enqueues. -/
theorem job_confirmed (l : BurnLog) (id : ObjectId) (now : Nat) (releaseAmountSats : Int) :
    (withdrawalSchema.assign id now (l.confirmed releaseAmountSats)).job =
      l.job id releaseAmountSats := rfl

def enqueueReleases : List WithdrawalDoc → Promise Unit
  | [] => pure ()
  | orphan :: orphans => do
      call (.addReleaseJob orphan.job)
      enqueueReleases orphans

def reconcileOrphanWithdrawals : Promise Unit := do
  let now ← call .dateNow
  enqueueReleases (← call (.withdrawal (.find (orphanWithdrawal now) (some 50))))

/-- The logs of one window, until the signal aborts. -/
def processLogs (cfg : Config) : List Log → Promise Unit
  | [] => pure ()
  | log :: logs => do
      if ← call (.signalAborted (log :: logs)) then return
      else
        processLog cfg log
        processLogs cfg logs

/-- The last block of the window that starts at `windowFrom`. -/
def windowTo (safeTip windowFrom : Int) : Int :=
  let windowEnd := windowFrom + maxLogRange - 1
  if windowEnd > safeTip then safeTip else windowEnd

theorem windowTo_mem {safeTip windowFrom : Int} (h : windowFrom ≤ safeTip) :
    windowFrom ≤ windowTo safeTip windowFrom ∧ windowTo safeTip windowFrom ≤ safeTip := by
  have hr : maxLogRange = 10 := rfl
  by_cases he : windowFrom + maxLogRange - 1 > safeTip
  · rw [windowTo, if_pos he]
    omega
  · rw [windowTo, if_neg he]
    omega

/-- Scan at most `n` windows from `windowFrom` up to `safeTip`. The cursor is
moved after every window, also after one that was broken off. -/
def scanWindows (cfg : Config) (safeTip : Int) : Nat → Int → Promise Unit
  | 0, _ => pure ()
  | n + 1, windowFrom =>
      if windowFrom ≤ safeTip then do
        if ← call (.signalAborted []) then return
        else
          let toBlock := windowTo safeTip windowFrom
          processLogs cfg (← call (.getLogs windowFrom toBlock))
          call (.cursorSet .base toBlock)
          scanWindows cfg safeTip n (toBlock + 1)
      else pure ()

/-- Every window takes in a block, so as many windows as blocks are enough. -/
theorem scanWindows_enough (cfg : Config) (safeTip : Int) {n : Nat} {windowFrom : Int}
    (h : safeTip < windowFrom + n) (m : Nat) :
    scanWindows cfg safeTip (n + m) windowFrom = scanWindows cfg safeTip n windowFrom := by
  induction n generalizing windowFrom with
  | zero =>
      have hlt : ¬ windowFrom ≤ safeTip := by omega
      cases m with
      | zero => rfl
      | succ m =>
          rw [Nat.zero_add]
          simp only [scanWindows, if_neg hlt]
  | succ n ih =>
      rw [Nat.succ_add_eq_add_succ, Nat.add_succ]
      simp only [scanWindows]
      split
      · rename_i hle
        have hto := (windowTo_mem hle).1
        rw [ih (by omega)]
      · rfl

/-- One round of the watcher's loop; its errors are logged. -/
def baseWatcherTick (cfg : Config) : Promise Unit :=
  tryCatch (do
    reconcileOrphanWithdrawals
    let tip ← call .getBlockNumber
    let last ← call (.cursorUpsert .base (tip - initialBackfillBlocks : Nat))
    let safeTip := tip - (← Promise.of cfg.baseConfirmations.toBigInt)
    scanWindows cfg safeTip (safeTip - last).toNat (last + 1)) fun _ => pure ()

/-- The watcher's loop, observed for at most so many rounds. -/
def startBaseWatcher (cfg : Config) : Nat → Promise Unit
  | 0 => pure ()
  | rounds + 1 => do
      if ← call (.signalAborted []) then return
      else
        baseWatcherTick cfg
        startBaseWatcher cfg rounds

end FairBridge
