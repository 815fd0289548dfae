import FairBridge.Model.Requests

/-!
The mint signer. In direct_eoa mode it broadcasts `mintForDeposit` itself, in
safe_proposal mode it proposes the call to the Safe service and leaves the
deposit in MINTING. An identifier on the deposit is meant to turn every later
run into a reconciliation.
-/

namespace FairBridge
open Store Async

/-- The 0x-prefixed word of a 64-digit transaction id. -/
def fairTxidToBytes32 (txid : Txid) : Except JsError String :=
  let hex := if ['0', 'x'] <+: txid.toList then txid.toList.drop 2 else txid.toList
  if hex.length = 64 then .ok ("0x" ++ String.ofList hex)
  else .error (.error s!"invalid fairTxid length: {txid}")

def mintArgs (job : MintJob) : Except JsError MintCall := do
  return ⟨job.baseAddress, job.amountWei, ← fairTxidToBytes32 job.fairTxid, job.fairVout⟩

def buildMintCalldata (job : MintJob) : Except JsError MintCall := do
  let args ← mintArgs job
  if args.encodable then return args
  else throw (.error "Number is not in safe integer range")

/-- Neither a transaction nor a Safe proposal is on file. -/
def DepositDoc.unsent (d : DepositDoc) : Bool :=
  d.baseMintTxHash.isNone && d.safeTxHash.isNone

/-- The statuses and the two null identifiers the claim filter asks for. -/
def claimable (d : DepositDoc) : Bool :=
  (d.status == .confirmed || d.status == .minting) &&
    d.baseMintTxHash == none && d.safeTxHash == none

def claimMint (depositId : ObjectId) : Promise (Option DepositDoc) :=
  call (.deposit (.findOneAndUpdate
    (fun d => d.id == depositId && claimable d) none { status := some .minting }))

theorem effect_claimMint (row : Option ObjectId) (id : ObjectId) (w : World) :
    effect row (.deposit (.findOneAndUpdate (fun d => d.id == id && claimable d) none
      { status := some .minting })) w =
    match (w.deposits.get id).filter claimable with
    | none => some (.ok none, w)
    | some d => some (.ok (some { d with status := .minting }),
        w.setDeposit id { status := some .minting }) := by
  have h := Collection.update_byId (ε := JsError) w.deposits refusals.duplicate id claimable
    { status := some .minting } fun _ => rfl
  refine (congrArg (fun r => some (r.1, { w with deposits := r.2 })) h).trans ?_
  cases (w.deposits.get id).filter claimable with
  | none => rfl
  | some d => rfl

/-- The update that puts the hash of a broadcast on the row. -/
def Op.filesMintHash {β : Type} : Op β → Bool
  | .deposit (.updateOne _ u) => u.baseMintTxHash.isSome
  | _ => false

def requireWallet (cfg : Config) : Except JsError Unit :=
  if cfg.bridgeEoaPrivateKey.isSome then .ok ()
  else .error (.error "BRIDGE_EOA_PRIVATE_KEY not configured — cannot sign Base txs")

def broadcastDirectEoa (cfg : Config) (job : MintJob) : Promise Hash := do
  Promise.of (requireWallet cfg)
  let args ← Promise.of (mintArgs job)
  call (.writeContract args)

def finalizeDirectEoa (cfg : Config) (depositId : ObjectId) (txHash : Hash) :
    Promise Unit := do
  let receipt ← call (.waitForTransactionReceipt txHash)
  if receipt.success then
    Deposit.updateById depositId
      { status := some .minted, baseMintBlockNumber := some receipt.blockNumber }
  else do
    Deposit.updateById depositId { status := some .failed }
    alert cfg "mint tx reverted"
    throw (.error s!"mint tx reverted: {txHash}")

def signDirectEoa (cfg : Config) (job : MintJob) (deposit : DepositDoc) : Promise Hash :=
  match deposit.baseMintTxHash with
  | some existing => do
      finalizeDirectEoa cfg deposit.id existing
      return existing
  | none => do
      let txHash ← broadcastDirectEoa cfg job
      Deposit.updateById deposit.id { baseMintTxHash := some txHash }
      finalizeDirectEoa cfg deposit.id txHash
      return txHash

def buildSafeContext (cfg : Config) : Promise Unit := do
  if cfg.bridgeEoaPrivateKey.isSome then call .safeInit
  else throw (.error "BRIDGE_EOA_PRIVATE_KEY required for safe_proposal mode")

/-- Any failure counts as "not found". -/
def safeProposalExists (safeTxHash : Hash) : Promise Bool :=
  tryCatch (do call (.safeGetTransaction safeTxHash); return true) fun _ => pure false

def signSafeProposal (cfg : Config) (job : MintJob) (deposit : DepositDoc) :
    Promise Hash := do
  buildSafeContext cfg
  match deposit.safeTxHash with
  | some existing =>
      if ← safeProposalExists existing then
        return existing
      else
        alert cfg "safe proposal hash on file but not found in Safe service"
        throw (.error
          s!"safe proposal {existing} missing from service; manual review required")
  | none =>
      let data ← Promise.of (buildMintCalldata job)
      call (.safeCreateTransaction data)
      let safeTxHash ← call (.safeTransactionHash data)
      Deposit.updateById deposit.id { safeTxHash := some safeTxHash }
      call (.safeSignTransaction safeTxHash)
      call (.safeProposeTransaction safeTxHash data)
      alert cfg "mint proposal ready for Safe approval"
      return safeTxHash

/-- The deposit a run works on: the row it read if that carries an identifier,
else the row as claimed, else the row as it reads once the claim has failed. -/
def claimOrReread (depositId : ObjectId) (initial : DepositDoc) :
    Promise (Option DepositDoc) :=
  if initial.unsent then do
    match ← claimMint depositId with
    | some claimed => return some claimed
    | none => Deposit.findById depositId
  else return some initial

/-- The mode-specific path and the audit row; errors are logged and rethrown. -/
def signClaimed (cfg : Config) (job : MintJob) (deposit : DepositDoc) : Promise Unit := do
  let txHash ← match cfg.mintAuthMode with
    | .safeProposal => signSafeProposal cfg job deposit
    | .directEoa => signDirectEoa cfg job deposit
  call (.auditLog (.signMint deposit.id cfg.mintAuthMode txHash job.baseAddress
    job.amountWei job.fairTxid job.fairVout))

def signMint (cfg : Config) (job : MintJob) : Promise Unit := do
  match ← Deposit.findById job.depositId with
  | none => return
  | some initial =>
      if initial.status = .minted then return
      else if initial.status = .failed then
        throw (.nonRetryableError s!"deposit {job.depositId} is FAILED")
      else
        match ← claimOrReread job.depositId initial with
        | none => return
        | some deposit =>
            if deposit.status = .minting then signClaimed cfg job deposit
            else return

/-- What a signer puts on a row: a hash, or a status it may move on to. -/
structure DepositSet.OfSigner (u : DepositSet) : Prop where
  txid : u.fairTxid = none
  vout : u.fairVout = none
  sats : u.amountSats = none
  wei : u.amountWei = none
  status : ∀ st, u.status = some st → st = .minting ∨ st = .minted ∨ st = .failed

/-- The requests a run of the signer can come to make. -/
def Op.signsMint (job : MintJob) {β : Type} : Op β → Prop
  | .deposit (.findOneAndUpdate _ _ u) | .deposit (.updateOne _ u) => u.OfSigner
  | .deposit (.findOne _ _) => True
  | .writeContract call | .safeProposeTransaction _ call => mintArgs job = .ok call
  | .waitForTransactionReceipt _ | .safeInit | .safeCreateTransaction _
  | .safeTransactionHash _ | .safeSignTransaction _ | .safeGetTransaction _
  | .auditLog _ | .webhook _ => True
  | _ => False

section Requests
variable {cfg : Config} {job : MintJob}

theorem alert_signs (message : String) :
    (alert cfg message).Only fun op => op.signsMint job :=
  alert_only (fun _ => trivial) message

theorem updateById_signs {id : ObjectId} {u : DepositSet} (hu : u.OfSigner) :
    (Deposit.updateById id u).Only fun op => op.signsMint job := .request hu

theorem finalizeDirectEoa_signs (id : ObjectId) (txHash : Hash) :
    (finalizeDirectEoa cfg id txHash).Only fun op => op.signsMint job := by
  refine .bind (.request trivial) fun receipt => ?_
  split
  · refine updateById_signs ⟨rfl, rfl, rfl, rfl, ?_⟩
    intro st hst
    cases hst
    exact Or.inr (Or.inl rfl)
  · refine .bind (updateById_signs ⟨rfl, rfl, rfl, rfl, ?_⟩) fun _ =>
      .bind (alert_signs _) fun _ => trivial
    intro st hst
    cases hst
    exact Or.inr (Or.inr rfl)

theorem signDirectEoa_signs (deposit : DepositDoc) :
    (signDirectEoa cfg job deposit).Only fun op => op.signsMint job := by
  rw [signDirectEoa]
  split
  · exact .bind (finalizeDirectEoa_signs _ _) fun _ => trivial
  · refine .bind ?_ fun txHash => .bind (updateById_signs ⟨rfl, rfl, rfl, rfl, ?_⟩) fun _ =>
      .bind (finalizeDirectEoa_signs _ _) fun _ => trivial
    · exact .bind (.ofExcept _) fun _ => .bind_ofExcept fun _ hargs => .request hargs
    · intro st hst
      cases hst

theorem buildMintCalldata_ok {call : MintCall} (h : buildMintCalldata job = .ok call) :
    mintArgs job = .ok call := by
  cases hargs : mintArgs job with
  | error e =>
      rw [buildMintCalldata, hargs] at h
      cases h
  | ok args =>
      rw [buildMintCalldata, hargs] at h
      change (if args.encodable then Except.ok args else _) = Except.ok call at h
      split at h
      · exact h
      · cases h

theorem signSafeProposal_signs (deposit : DepositDoc) :
    (signSafeProposal cfg job deposit).Only fun op => op.signsMint job := by
  refine .bind ?_ fun _ => ?_
  · rw [buildSafeContext]
    split
    · exact .request trivial
    · trivial
  · split
    · refine .bind (.tryCatch (.bind (.request trivial) fun _ => trivial) fun _ => trivial)
        fun known => ?_
      split
      · trivial
      · exact .bind (alert_signs _) fun _ => trivial
    · refine .bind_ofExcept fun data hdata => .bind (.request trivial) fun _ =>
        .bind (.request trivial) fun hash =>
        .bind (updateById_signs ⟨rfl, rfl, rfl, rfl, ?_⟩) fun _ =>
        .bind (.request trivial) fun _ => .bind (.request (buildMintCalldata_ok hdata))
          fun _ => .bind (alert_signs _) fun _ => trivial
      intro st hst
      cases hst

theorem claimOrReread_signs (id : ObjectId) (initial : DepositDoc) :
    (claimOrReread id initial).Only fun op => op.signsMint job := by
  rw [claimOrReread]
  split
  · refine .bind (.request ⟨rfl, rfl, rfl, rfl, ?_⟩) fun claimed => ?_
    · intro st hst
      cases hst
      exact Or.inl rfl
    · cases claimed with
      | some _ => trivial
      | none => exact .request trivial
  · trivial

theorem signClaimed_signs (deposit : DepositDoc) :
    (signClaimed cfg job deposit).Only fun op => op.signsMint job := by
  rw [signClaimed]
  split
  · refine .bind (signSafeProposal_signs deposit) fun _ => ?_
    exact .request trivial
  · refine .bind (signDirectEoa_signs deposit) fun _ => ?_
    exact .request trivial

theorem signMint_signs : (signMint cfg job).Only fun op => op.signsMint job := by
  refine .bind (.request trivial) fun initial => ?_
  cases initial with
  | none => trivial
  | some initial =>
      simp only
      split
      · trivial
      · split
        · trivial
        · refine .bind (claimOrReread_signs _ _) fun deposit => ?_
          cases deposit with
          | none => trivial
          | some deposit =>
              simp only
              split
              · exact signClaimed_signs deposit
              · trivial

end Requests

end FairBridge
