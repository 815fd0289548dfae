import FairBridge.Model.Frame
import FairBridge.Service

/-!
Rows in MINTING with an identifier on file, signed under modes that change
between runs. Each mode looks for its own kind of identifier only, so a row is
safe from another broadcast or proposal exactly if it carries the identifier of
every mode it is signed under, or if there is no key to sign with.
-/

namespace FairBridge
open Store Async Async.Rules

/-- Any number of slots that sign one row's mint under any of the modes. Any
request may raise and any run may die. -/
def mintModeRuns (ι : Type) (id : ObjectId) (modes : MintAuthMode → Bool) : Faults ι where
  ready _ _ t := match t with
    | .signMint mode job => job.depositId == id && modes mode
    | _ => false
  may _ _ _ _ := true
  mayKill _ _ _ := true
  row _ := some id

/-- The requests that broadcast or propose a mint. -/
def Op.issuesMint {β : Type} : Op β → Bool
  | .writeContract _ | .safeProposeTransaction _ _ => true
  | _ => false

/-- The identifier that a mode looks for is on file. -/
def DepositDoc.issuedUnder (d : DepositDoc) : MintAuthMode → Bool
  | .directEoa => d.baseMintTxHash.isSome
  | .safeProposal => d.safeTxHash.isSome

section Only
variable {cfg : Config}

theorem alert_issues_nothing (message : String) :
    (alert cfg message).Only fun op => op.issuesMint = false :=
  alert_only (fun _ => rfl) message

theorem finalizeDirectEoa_issues_nothing (id : ObjectId) (h : Hash) :
    (finalizeDirectEoa cfg id h).Only fun op => op.issuesMint = false := by
  refine .bind (.request rfl) ?_
  intro r
  split
  · exact .request rfl
  · refine .bind (.request rfl) ?_
    intro _
    exact .bind (alert_issues_nothing _) fun _ => trivial

/-- A row that carries the mode's identifier is only reconciled; without a key
nothing can be issued at all. -/
theorem signClaimed_issues_nothing (job : MintJob) (d : DepositDoc)
    (h : cfg.bridgeEoaPrivateKey = none ∨ d.issuedUnder cfg.mintAuthMode = true) :
    (signClaimed cfg job d).Only fun op => op.issuesMint = false := by
  rw [signClaimed]
  cases hmode : cfg.mintAuthMode with
  | directEoa =>
      refine .bind ?_ fun _ => .request rfl
      rw [signDirectEoa]
      split
      · exact .bind (finalizeDirectEoa_issues_nothing _ _) fun _ => trivial
      · rename_i hnone
        have hkey : cfg.bridgeEoaPrivateKey = none :=
          h.resolve_right (by simp [DepositDoc.issuedUnder, hmode, hnone])
        have hthrow : broadcastDirectEoa cfg job = .throw
            (.error "BRIDGE_EOA_PRIVATE_KEY not configured — cannot sign Base txs") := by
          simp only [broadcastDirectEoa, requireWallet, hkey]
          rfl
        rw [hthrow]
        trivial
  | safeProposal =>
      refine .bind ?_ fun _ => .request rfl
      rw [signSafeProposal]
      cases hkey : cfg.bridgeEoaPrivateKey with
      | none =>
          have hthrow : buildSafeContext cfg = .throw
              (.error "BRIDGE_EOA_PRIVATE_KEY required for safe_proposal mode") := by
            simp only [buildSafeContext, hkey]
            rfl
          rw [hthrow]
          trivial
      | some key =>
          have hissued : d.issuedUnder .safeProposal = true :=
            hmode ▸ h.resolve_left (by simp [hkey])
          refine .bind ?_ ?_
          · simp only [buildSafeContext, hkey]
            exact .request rfl
          · intro _
            split
            · refine .bind (.tryCatch ?_ fun _ => trivial) ?_
              · exact .bind (.request rfl) fun _ => trivial
              · intro found
                split
                · trivial
                · exact .bind (alert_issues_nothing _) fun _ => trivial
            · rename_i hnone
              simp [DepositDoc.issuedUnder, hnone] at hissued

end Only

section Rules
variable {ι β : Type} {cfg : Config} {id : ObjectId} {modes : MintAuthMode → Bool}

/-- An identifier is on file, and the one of every mode in force unless there is
no key. -/
structure Issued (cfg : Config) (modes : MintAuthMode → Bool) (d : DepositDoc) : Prop where
  sent : d.unsent = false
  modes : cfg.bridgeEoaPrivateKey = none ∨ ∀ mode, modes mode = true →
    d.issuedUnder mode = true

theorem Issued.apply {d : DepositDoc} (h : Issued cfg modes d) (u : DepositSet) :
    Issued cfg modes (u.apply d) := by
  refine ⟨?_, h.modes.imp_right ?_⟩
  · have hs := h.sent
    cases hh : u.baseMintTxHash <;> cases hp : u.safeTxHash <;>
      simp_all [DepositDoc.unsent, DepositSet.apply]
  · intro hm mode hmode
    have := hm mode hmode
    cases mode <;> simp_all [DepositDoc.issuedUnder, DepositSet.apply]

/-- A request that does not issue a mint adds no such call and leaves the row
with its identifiers. -/
theorem answer_issues_nothing {row : Option ObjectId} {op : Op β} {out : Outcome}
    (hop : op.issuesMint = false) {w w' : World} {r : Except JsError β}
    (h : answer row op out w = some (r, w')) {d : DepositDoc} (hd : w.deposits.get id = some d)
    (hi : Issued cfg modes d) :
    (w'.base.calls = w.base.calls ∧ w'.safe.calls = w.safe.calls) ∧
      ∃ e, w'.deposits.get id = some e ∧ Issued cfg modes e := by
  have hframe := answer_frame h
  refine ⟨⟨hframe.calls ?_, congrArg _ (hframe.safe ?_)⟩, ?_⟩
  · intro hpart
    cases op <;> cases hpart
    cases hop
  · intro hpart
    cases op <;> cases hpart
    cases hop
  · by_cases hpart : op.part = .deposits
    · cases op with
      | deposit q =>
          obtain ⟨_, _, _, rfl⟩ | ⟨x, hx, _⟩ := answer_cases h
          · exact ⟨d, hd, hi⟩
          · cases hx
            exact q.run_keeps (P := Issued cfg modes) (fun u _ h => h.apply u) refusals w.now hd hi
      | _ => cases hpart
    · exact ⟨d, hframe.deposits hpart ▸ hd, hi⟩

/-- No mint has been issued since `w₀`, and none of the modes has a reason to. -/
structure NothingIssued (cfg : Config) (modes : MintAuthMode → Bool) (id : ObjectId)
    (w₀ w : World) : Prop where
  row : ∃ d, w.deposits.get id = some d ∧ Issued cfg modes d
  calls : w.base.calls = w₀.base.calls
  proposals : w.safe.calls = w₀.safe.calls

def mintModeRules (cfg : Config) (ι : Type) (id : ObjectId) (modes : MintAuthMode → Bool)
    (w₀ : World) : Rules (service cfg (mintModeRuns ι id modes)) World where
  world w := w
  inv := NothingIssued cfg modes id w₀
  rely _ _ _ := True
  guar _ _ _ := True
  rest _ _ := True
  hist _ _ := True
  rely_refl _ _ := trivial
  rely_trans _ _ := trivial
  guar_refl _ _ := trivial
  guar_rely _ _ _ _ := trivial
  rest_stable _ _ _ _ := trivial
  hist_refl _ := trivial
  hist_trans _ _ := trivial
  guar_hist _ _ _ := trivial
  env_step := by
    intro e s w hi he
    have hsur := EnvEvent.occur_surroundings he
    obtain ⟨d, hd, hd'⟩ := hi.row
    exact ⟨w, rfl, ⟨⟨d, hsur.deposits id d hd, hd'⟩, hsur.calls.trans hi.calls,
      (congrArg SafeService.calls hsur.proposals).trans hi.proposals⟩, trivial,
      fun _ => trivial⟩

theorem performs_issuing_nothing {w₀ : World} {i : ι} (op : Op β)
    (hop : op.issuesMint = false) :
    (mintModeRules cfg ι id modes w₀).Performs i (fun _ => True) op fun _ _ => True := by
  intro s out r w hi _ _ _ hans
  obtain ⟨d, hrow, hissued⟩ := hi.row
  obtain ⟨⟨hb, hp⟩, hrow⟩ := answer_issues_nothing hop hans hrow hissued
  exact ⟨w, rfl, ⟨hrow, hb.trans hi.calls, hp.trans hi.proposals⟩, trivial, trivial⟩

theorem triple_issuing_nothing {w₀ : World} {i : ι} {p : Promise Unit}
    (h : p.Only fun op => op.issuesMint = false) :
    (mintModeRules cfg ι id modes w₀).Triple i (fun _ => True) p (fun _ _ => True)
      fun _ _ => True :=
  .harmless h (fun _ _ _ _ _ _ => trivial) (fun _ _ _ => trivial) performs_issuing_nothing

/-- The row that the run reads carries what its mode looks for, so it is neither
claimed nor issued again. -/
theorem mintMode_signMint {w₀ : World} {i : ι} {mode : MintAuthMode} {job : MintJob}
    (hmode : modes mode = true) :
    (mintModeRules cfg ι job.depositId modes w₀).Triple i (fun _ => True)
      (signMint { cfg with mintAuthMode := mode } job) (fun _ _ => True)
      fun _ _ => True := by
  have stable : ∀ P : Prop, (mintModeRules cfg ι job.depositId modes w₀).Stable i
      fun _ => P := fun _ _ _ _ _ _ h => h
  refine .bind (M := Found (fun d _ => Issued cfg modes d) fun _ => True) ?_ ?_
  · refine .call (stable True) (.of_rest fun _ _ _ => trivial) ?_ ?_ (stable True)
    · refine Deposit.performs_findById ?_ fun _ _ _ => trivial
      intro s hi _
      obtain ⟨d, hd, hissued⟩ := hi.row
      change Found _ _ (s.deposits.get job.depositId) s
      rw [hd]
      exact hissued
    · intro a
      cases a with
      | none => exact stable True
      | some d => exact stable _
  · intro a
    cases a with
    | none => exact triple_issuing_nothing trivial
    | some d =>
        refine .fact (fun _ _ h => h) ?_
        intro hd
        refine Triple.pre (P := fun _ => True) ?_ fun _ _ _ => trivial
        have hclaim : claimOrReread job.depositId d = .pure (some d) := by
          have := hd.sent
          rw [claimOrReread, if_neg (Bool.eq_false_iff.mp this)]
          rfl
        refine triple_issuing_nothing ?_
        simp only [hclaim]
        split
        · trivial
        · split
          · trivial
          · change Program.Only _ (if d.status = .minting then _ else _)
            split
            · exact signClaimed_issues_nothing job d
                (hd.modes.imp_right fun h => h mode hmode)
            · trivial

theorem mintMode_starts (cfg : Config) (ι : Type) (id : ObjectId)
    (modes : MintAuthMode → Bool) (w₀ : World) :
    (mintModeRules cfg ι id modes w₀).Starts := by
  intro i t s hi _ hready
  cases t with
  | signMint mode job =>
      obtain ⟨hid, hmode⟩ : job.depositId = id ∧ modes mode = true := by
        simpa [service, mintModeRuns] using hready
      subst hid
      exact mintMode_signMint hmode s hi trivial
  | _ => cases hready

end Rules

section Issue
variable {ι : Type} {cfg c : Config} {id : ObjectId} {modes : MintAuthMode → Bool} {w : World}
  {d : DepositDoc}

/-- A job whose arguments can be encoded. -/
def plainJob (id : ObjectId) : MintJob := ⟨id, ⟨0⟩, 0, Sample.txid, 0⟩

theorem plainJob_args (id : ObjectId) : ∃ args, mintArgs (plainJob id) = .ok args ∧
    buildMintCalldata (plainJob id) = .ok args := by
  have h : fairTxidToBytes32 Sample.txid = .ok ("0x" ++ Sample.txid) := by decide
  refine ⟨⟨⟨0⟩, 0, "0x" ++ Sample.txid, 0⟩, ?_, ?_⟩
  · simp only [mintArgs, plainJob, h]
    rfl
  · simp only [buildMintCalldata, mintArgs, plainJob, h]
    rfl

theorem drive_signMint [DecidableEq ι] (i : ι) (hd : w.deposits.get id = some d)
    (hst : d.status = .minting) (hsent : d.unsent = false) {outs : List Outcome}
    {P : Promise Unit × World → Prop} (h : ∃ x,
      (service cfg (mintModeRuns ι id modes)).drive i (signClaimed c (plainJob id) d) w outs =
        some x ∧ P x) :
    ∃ x, (service cfg (mintModeRuns ι id modes)).drive i (signMint c (plainJob id)) w
      (.done :: outs) = some x ∧ P x := by
  have hclaim : claimOrReread id d = .pure (some d) := by
    rw [claimOrReread, if_neg (Bool.eq_false_iff.mp hsent)]
    rfl
  refine System.drive_step _ rfl (congrArg (fun r => some (Except.ok r, w)) hd) ?_
  simp only [Program.ofExcept, Program.pure_bind]
  rw [if_neg (by simp [hst]), if_neg (by simp [hst])]
  change ∃ x, System.drive _ i (Program.bind (claimOrReread id d) _) w outs = some x ∧ P x
  rw [hclaim]
  simpa only [Program.pure_bind, hst, if_true] using h

theorem drive_broadcast [DecidableEq ι] (i : ι) (hmode : c.mintAuthMode = .directEoa)
    (hkey : c.bridgeEoaPrivateKey.isSome = true) (hnone : d.baseMintTxHash = none) : ∃ x,
    (service cfg (mintModeRuns ι id modes)).drive i (signClaimed c (plainJob id) d) w
      [.fail (.error "timeout")] = some x ∧
    x.2.base.calls.length = w.base.calls.length + 1 := by
  obtain ⟨args, hargs, _⟩ := plainJob_args id
  rw [signClaimed, hmode]
  simp only [signDirectEoa, hnone, broadcastDirectEoa, requireWallet, hkey, hargs,
    Promise.of, Program.ofExcept, if_true, Program.bind_eq, Program.pure_bind]
  refine System.drive_step _ rfl rfl ?_
  exact ⟨_, rfl, by simp [recordCall]⟩

theorem drive_propose [DecidableEq ι] (i : ι) (hmode : c.mintAuthMode = .safeProposal)
    (hkey : c.bridgeEoaPrivateKey.isSome = true) (hnone : d.safeTxHash = none) : ∃ x,
    (service cfg (mintModeRuns ι id modes)).drive i (signClaimed c (plainJob id) d) w
      [.done, .done, .done, .done, .done, .fail (.error "timeout")] = some x ∧
    x.2.safe.calls.length = w.safe.calls.length + 1 := by
  obtain ⟨args, _, hargs⟩ := plainJob_args id
  rw [signClaimed, hmode]
  simp only [signSafeProposal, buildSafeContext, hnone, hkey, hargs,
    Promise.of, Program.ofExcept, if_true, Program.bind_eq, Program.pure_bind]
  refine System.drive_step _ rfl rfl <| System.drive_step _ rfl rfl <|
    System.drive_step _ rfl rfl ?_
  refine System.drive_step _ rfl (Deposit.effect_updateById (some id) d.id
    { safeTxHash := some (w.safe.hashFor w.safe.proposals.length args) } rfl rfl w) ?_
  refine System.drive_step _ rfl rfl <| System.drive_step _ rfl rfl ?_
  exact ⟨_, rfl, by simp [recordCall, World.setDeposit]⟩

/-- A mode whose identifier is missing issues the mint again, if it can sign. -/
theorem issues_again [DecidableEq ι] (i : ι) {mode : MintAuthMode} (hm : modes mode = true)
    (hd : w.deposits.get id = some d) (hst : d.status = .minting) (hsent : d.unsent = false)
    (hkey : cfg.bridgeEoaPrivateKey.isSome = true) (hissued : d.issuedUnder mode = false) :
    ∃ es q, (service cfg (mintModeRuns ι id modes)).exec (.init w) es = some q ∧
      ¬ (q.world.base.calls = w.base.calls ∧ q.world.safe.calls = w.safe.calls) := by
  obtain ⟨outs, x, hx, hcalls⟩ : ∃ outs x,
      (service cfg (mintModeRuns ι id modes)).drive i
        (signMint { cfg with mintAuthMode := mode } (plainJob id)) w outs = some x ∧
      (x.2.base.calls.length = w.base.calls.length + 1 ∨
        x.2.safe.calls.length = w.safe.calls.length + 1) := by
    cases mode with
    | directEoa =>
        obtain ⟨x, hx, hc⟩ := drive_signMint i hd hst hsent
          (drive_broadcast (c := { cfg with mintAuthMode := .directEoa }) i rfl hkey
            (by simpa [DepositDoc.issuedUnder] using hissued))
        exact ⟨_, x, hx, Or.inl hc⟩
    | safeProposal =>
        obtain ⟨x, hx, hc⟩ := drive_signMint i hd hst hsent
          (drive_propose (c := { cfg with mintAuthMode := .safeProposal }) i rfl hkey
            (by simpa [DepositDoc.issuedUnder] using hissued))
        exact ⟨_, x, hx, Or.inr hc⟩
  have hready : (service cfg (mintModeRuns ι id modes)).ready w i
      (.signMint mode (plainJob id)) = true := by
    simp [service, mintModeRuns, plainJob, hm]
  obtain ⟨q, hq, hw⟩ := System.exec_start_drive _ hready hx
  refine ⟨_, q, hq, ?_⟩
  intro h
  rw [← hw, h.1, h.2] at hcalls
  omega

end Issue

/-- The row was proposed to the Safe; a retry in direct_eoa mode mints it as well. -/
def proposedWorld : World where
  deposits := Collection.empty.insert 0
    { Sample.deposit with status := .minting, safeTxHash := some ⟨5⟩ }
  safe := { proposals := [(⟨5⟩, ⟨⟨7⟩, 50000000000, "0x" ++ Sample.txid, 0⟩)] }

theorem proposed_row_is_broadcast : ∃ q,
    (service Sample.config (mintModeRuns Unit 0 fun _ => true)).exec (.init proposedWorld)
      [.start () (.signMint .directEoa Sample.mintJob), .step () .done, .step () .done] =
        some q ∧
    q.world.base.calls.length = 1 ∧ q.world.base.txs.length = 1 ∧
    proposedWorld.base.calls = [] :=
  ⟨_, rfl, rfl, rfl, rfl⟩

/-- A MINTING row with an identifier on file is never broadcast or proposed
again if and only if there is no key to sign with or every mode in force finds
its own identifier. -/
theorem never_issued_again_iff (cfg : Config) {ι : Type} [DecidableEq ι] (i : ι)
    (id : ObjectId) (modes : MintAuthMode → Bool) {w : World} {d : DepositDoc}
    (hd : w.deposits.get id = some d) (hst : d.status = .minting)
    (hid : d.baseMintTxHash ≠ none ∨ d.safeTxHash ≠ none) :
    (∀ es q, (service cfg (mintModeRuns ι id modes)).exec (.init w) es = some q →
      q.world.base.calls = w.base.calls ∧ q.world.safe.calls = w.safe.calls) ↔
    cfg.bridgeEoaPrivateKey = none ∨
      ∀ mode, modes mode = true → d.issuedUnder mode = true := by
  have hsent : d.unsent = false := by
    cases hid with
    | inl h => simp [DepositDoc.unsent, h]
    | inr h => simp [DepositDoc.unsent, Option.isSome_iff_ne_none.mpr h]
  constructor
  · intro h
    by_contra hneg
    simp only [not_or, not_forall] at hneg
    obtain ⟨hkey, mode, hm, hissued⟩ := hneg
    obtain ⟨es, q, hq, hcalls⟩ := issues_again i hm hd hst hsent
      (Option.isSome_iff_ne_none.mpr hkey) (Bool.eq_false_iff.mpr hissued)
    exact hcalls (h es q hq)
  · intro h es q hq
    have hinit : (mintModeRules cfg ι id modes w).Good (.init w) w :=
      .init rfl ⟨⟨d, hd, hsent, h⟩, rfl, rfl⟩ fun _ => trivial
    obtain ⟨t, ht, _⟩ := hinit.exec (fun _ _ _ => trivial) (mintMode_starts cfg ι id modes w) hq
    rw [← ht.world]
    exact ⟨ht.inv.calls, ht.inv.proposals⟩

theorem never_issued_again_both :
    (∀ es q, (service Sample.config (mintModeRuns Unit 0 fun _ => true)).exec
        (.init proposedWorld) es = some q →
      q.world.base.calls = proposedWorld.base.calls ∧
      q.world.safe.calls = proposedWorld.safe.calls) ↔
    Sample.config.bridgeEoaPrivateKey = none ∨ ∀ mode, true = true →
      DepositDoc.issuedUnder
        { Sample.deposit with status := .minting, safeTxHash := some ⟨5⟩ } mode = true :=
  never_issued_again_iff Sample.config () 0 (fun _ => true) rfl rfl
    (Or.inr (by intro h; cases h))

end FairBridge
