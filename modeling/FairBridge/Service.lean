import FairBridge.Async.Rules
import FairBridge.Api.Deposit
import FairBridge.Model.Environment
import FairBridge.Signer.Base
import FairBridge.Signer.Buy
import FairBridge.Signer.Fair
import FairBridge.Worker.BaseWatcher
import FairBridge.Worker.Buyback
import FairBridge.Worker.BuyWatcher
import FairBridge.Worker.FairWatcher
import FairBridge.Worker.MasternodeReward
import FairBridge.Worker.Orchestrator

/-!
The service as a system of asynchronous programs: its tasks, the faults that
can strike them, and what an awaited request can do.
-/

namespace FairBridge
open Store Async

inductive Task where
  | postIntent (baseAddress : Address) (clientIp : Option String)
  | signMint (mode : MintAuthMode) (job : MintJob)
  | signRelease (job : ReleaseJob)
  | processBuy (buyOrderId : ObjectId)
  | processLog (log : Log)
  | reconcileOrphanWithdrawals
  | startBaseWatcher (rounds : Nat)
  | processBlock (height tip : Nat)
  | reconcileOrphanDeposits
  | startFairWatcher (rounds heights : Nat)
  | startBuyWatcher (rounds : Nat)
  | attemptBuy (buyOrderId : ObjectId)
  | runOneCycle
  | runMasternodeRewardTick

/-- The mode in force may differ from run to run. -/
def Task.program (cfg : Config) : Task → Promise Unit
  | .postIntent baseAddress clientIp => FairBridge.postIntent cfg baseAddress clientIp
  | .signMint mode job => FairBridge.signMint { cfg with mintAuthMode := mode } job
  | .signRelease job => FairBridge.signRelease cfg job
  | .processBuy buyOrderId => FairBridge.processBuy cfg buyOrderId
  | .processLog log => FairBridge.processLog cfg log
  | .reconcileOrphanWithdrawals => FairBridge.reconcileOrphanWithdrawals
  | .startBaseWatcher rounds => FairBridge.startBaseWatcher cfg rounds
  | .processBlock height tip => FairBridge.processBlock cfg height tip
  | .reconcileOrphanDeposits => FairBridge.reconcileOrphanDeposits
  | .startFairWatcher rounds heights => FairBridge.startFairWatcher cfg rounds heights
  | .startBuyWatcher rounds => FairBridge.startBuyWatcher cfg rounds
  | .attemptBuy buyOrderId => attempt (.buy buyOrderId) (buyProcessor cfg buyOrderId)
  | .runOneCycle => do let _ ← FairBridge.runOneCycle cfg
  | .runMasternodeRewardTick => FairBridge.runMasternodeRewardTick cfg

/-- Which tasks may start where, which faults can strike their requests, whose row
a slot signs for, if it is a signer's, and what may happen around the service. -/
structure Faults (ι : Type) where
  ready : World → ι → Task → Bool
  may : {β : Type} → ι → Op β → Outcome → World → Bool
  mayKill : {β : Type} → ι → Op β → World → Bool
  row : ι → Option ObjectId
  env : EnvEvent → World → Bool := fun _ _ => true

/-- Synchronous reads neither raise nor are they a place to die. -/
def service {ι : Type} (cfg : Config) (f : Faults ι) :
    System Op JsError World ι Task EnvEvent where
  program := Task.program cfg
  ready := f.ready
  answer i op out w := answer (f.row i) op out w
  env e w := if f.env e w then e.occur w else none
  may i op out w := (!op.synchronous || out.isDone) && f.may i op out w
  mayKill i op w := !op.synchronous && f.mayKill i op w

/-- Every request is served, and nothing steps in between. -/
def calm : Faults Unit where
  ready _ _ _ := true
  may _ _ out _ := out.isDone
  mayKill _ _ _ := false
  row _ := none
  env _ _ := false

/-- The same faults, but a request is performed only where `c` holds. -/
def Faults.guarded {ι : Type} (f : Faults ι)
    (c : {β : Type} → ι → Op β → World → Bool) : Faults ι :=
  { f with may := fun i op out w => f.may i op out w && c i op w }

theorem Faults.guarded_may {ι β : Type} {f : Faults ι}
    {c : {β : Type} → ι → Op β → World → Bool} {i : ι} {op : Op β} {out : Outcome} {w : World}
    (h : (f.guarded c).may i op out w = true) : c i op w = true :=
  (Bool.and_eq_true _ _ ▸ h).2

theorem service_env {ι : Type} {cfg : Config} {f : Faults ι} {e : EnvEvent} {w w' : World}
    (h : (service cfg f).env e w = some w') : f.env e w = true ∧ e.occur w = some w' := by
  simp only [service] at h
  split at h
  · exact ⟨‹_›, h⟩
  · cases h

theorem service_guarded {ι : Type} (cfg : Config) (f : Faults ι)
    (c : {β : Type} → ι → Op β → World → Bool) :
    (service cfg f).guarded c = service cfg (f.guarded c) := by
  simp only [System.guarded, service, Faults.guarded, Bool.and_assoc]
  rfl

/-- A refused request leaves the world as it was but for the record of the call,
every other outcome has the request's effect. -/
theorem answer_cases {β : Type} {row : Option ObjectId} {op : Op β} {out : Outcome}
    {w w' : World} {r : Except JsError β} (h : answer row op out w = some (r, w')) :
    (∃ e, out = .fail e ∧ r = .error e ∧ w' = recordCall op w) ∨
    (∃ x, effect row op (recordCall op w) = some (x, w') ∧
      (out = .done ∧ r = x ∨ ∃ e, out = .lost e ∧ r = .error e)) := by
  cases out with
  | done => exact Or.inr ⟨r, h, Or.inl ⟨rfl, rfl⟩⟩
  | fail e =>
      cases h
      exact Or.inl ⟨e, rfl, rfl, rfl⟩
  | lost e =>
      obtain ⟨⟨x, v⟩, hx, hr⟩ := Option.map_eq_some_iff.mp h
      cases hr
      exact Or.inr ⟨x, hx, Or.inr ⟨e, rfl, rfl⟩⟩

section Alone
variable {ι β : Type} {cfg : Config} {f : Faults ι} {i : ι} {op : Op β} {k : β → Promise Unit}
  {w w' : World}

/-- A program alone goes on with the answer of its request. -/
theorem alone_answered {a : β}
    (h : effect (f.row i) op (recordCall op w) = some (.ok a, w')) :
    (service cfg f).alone i (call op >>= k) w = (service cfg f).alone i (k a) w' :=
  congrArg (fun r => r.bind fun r => (service cfg f).alone i
    ((Program.ofExcept r.1 : Promise β).bind k) r.2) h

/-- A handler is not needed for a request that is answered. -/
theorem alone_attempted {handler : JsError → Promise β} {a : β}
    (h : effect (f.row i) op (recordCall op w) = some (.ok a, w')) :
    (service cfg f).alone i (tryCatch (call op) handler >>= k) w =
      (service cfg f).alone i (k a) w' :=
  congrArg (fun r => r.bind fun r => (service cfg f).alone i
    (((Program.ofExcept r.1 : Promise β).tryCatch handler).bind k) r.2) h

theorem alone_raised {e : JsError}
    (h : effect (f.row i) op (recordCall op w) = some (.error e, w')) :
    (service cfg f).alone i (call op >>= k) w = some (.error e, w') :=
  congrArg (fun r => r.bind fun r => (service cfg f).alone i
    ((Program.ofExcept r.1 : Promise β).bind k) r.2) h

end Alone

section Alert
variable {ι S τ : Type} {sys : System Op JsError World ι τ EnvEvent} {R : Rules sys S}
  {i : ι} {P : S → Prop} {cfg : Config}

theorem alert_keeps (hP : R.Stable i P) (hrest : ∀ s, R.inv s → P s → R.rest i s)
    (h : ∀ message, R.Performs i P (.webhook message) (Rules.Answered (fun _ => P) P))
    (message : String) :
    R.Triple i P (alert cfg message) (fun _ => P) (fun _ => P) := by
  rw [alert]
  split
  · exact .pure hP fun _ _ h => h
  · refine .tryCatch (M := fun _ => P) ?_ fun _ => .pure hP fun _ _ h => h
    exact .call hP (.of_rest hrest) (h message) (fun _ => hP) hP

theorem alert_rest
    (h : ∀ message, R.Performs i (R.rest i) (.webhook message)
      (Rules.Answered (fun _ => R.rest i) (R.rest i))) (message : String) :
    R.Triple i (R.rest i) (alert cfg message) (fun _ => R.rest i) (fun _ => R.rest i) :=
  alert_keeps .rest (fun _ _ h => h) h message

end Alert

section Performs
variable {ι S β : Type} {cfg : Config} {f : Faults ι} {R : Rules (service cfg f) S}
  {i : ι} {P : S → Prop}

/-- A request either is refused or has its effect, and then it is answered or
its answer is lost. -/
theorem performs_permitted {op : Op β} {M : Except JsError β → S → Prop}
    (hfail : ∀ s e, R.inv s → P s → op.synchronous = false →
      f.may i op (.fail e) (R.world s) = true →
      ∃ t, R.world t = recordCall op (R.world s) ∧ R.inv t ∧ R.guar i s t ∧ M (.error e) t)
    (heffect : ∀ s x w out, R.inv s → P s → R.permits i op s →
      f.may i op out (R.world s) = true →
      effect (f.row i) op (recordCall op (R.world s)) = some (x, w) →
      ∃ t, R.world t = w ∧ R.inv t ∧ R.guar i s t ∧ (out = .done → M x t) ∧
        ∀ e, out = .lost e → op.synchronous = false → M (.error e) t) :
    R.Performs i P op M := by
  intro s out r w hi hs hperm hmay hans
  simp only [service, Bool.and_eq_true, Bool.or_eq_true, Bool.not_eq_true'] at hmay
  cases answer_cases hans with
  | inl h =>
      obtain ⟨e, rfl, rfl, rfl⟩ := h
      exact hfail s e hi hs (hmay.1.resolve_right (by simp [Outcome.isDone])) hmay.2
  | inr h =>
      obtain ⟨x, hx, hout⟩ := h
      obtain ⟨t, hw, hit, hg, hdone, hlost⟩ := heffect s x w out hi hs hperm hmay.2 hx
      refine ⟨t, hw, hit, hg, ?_⟩
      cases hout with
      | inl h =>
          obtain ⟨hd, rfl⟩ := h
          exact hdone hd
      | inr h =>
          obtain ⟨e, rfl, rfl⟩ := h
          exact hlost e rfl (hmay.1.resolve_right (by simp [Outcome.isDone]))

theorem performs {op : Op β} {M : Except JsError β → S → Prop}
    (hfail : ∀ s e, R.inv s → P s → op.synchronous = false →
      f.may i op (.fail e) (R.world s) = true →
      ∃ t, R.world t = recordCall op (R.world s) ∧ R.inv t ∧ R.guar i s t ∧ M (.error e) t)
    (heffect : ∀ s x w out, R.inv s → P s → f.may i op out (R.world s) = true →
      effect (f.row i) op (recordCall op (R.world s)) = some (x, w) →
      ∃ t, R.world t = w ∧ R.inv t ∧ R.guar i s t ∧ (out = .done → M x t) ∧
        ∀ e, out = .lost e → op.synchronous = false → M (.error e) t) :
    R.Performs i P op M :=
  performs_permitted hfail fun s x w out hi hs _ => heffect s x w out hi hs

/-- A request that changes nothing: its answer is what the world holds. -/
theorem performs_read {op : Op β} {M : β → S → Prop} {N : S → Prop}
    (hrec : ∀ w, recordCall op w = w)
    (hread : ∀ w x w', effect (f.row i) op w = some (x, w') → w' = w)
    (hok : ∀ s x, R.inv s → P s →
      effect (f.row i) op (R.world s) = some (x, R.world s) → Rules.Answered M N x s)
    (herr : ∀ s, R.inv s → P s → op.synchronous = false → N s) :
    R.Performs i P op (Rules.Answered M N) := by
  refine performs ?_ ?_
  · intro s e hi hs hop _
    exact ⟨s, (hrec _).symm, hi, R.guar_refl i s, herr s hi hs hop⟩
  · intro s x w out hi hs _ hx
    rw [hrec] at hx
    have hw := hread _ _ _ hx
    subst hw
    exact ⟨s, rfl, hi, R.guar_refl i s, fun _ => hok s x hi hs hx,
      fun e _ hop => herr s hi hs hop⟩

variable {M N : S → Prop}

/-- A request that changes nothing and whose answer does not matter. -/
theorem performs_idle {op : Op β} (hrec : ∀ w, recordCall op w = w)
    (hread : ∀ w x w', effect (f.row i) op w = some (x, w') → w' = w)
    (h : ∀ s, R.inv s → P s → N s) : R.Performs i P op (Rules.Answered (fun _ => P) N) := by
  refine performs_read hrec hread ?_ fun s hi hs _ => h s hi hs
  intro s x hi hs _
  cases x with
  | ok _ => exact hs
  | error _ => exact h s hi hs

theorem performs_webhook {message : String} (h : ∀ s, R.inv s → P s → N s) :
    R.Performs i P (.webhook message) (Rules.Answered (fun _ => P) N) := by
  refine performs_idle (fun _ => rfl) ?_ h
  intro w x w' hx
  cases hx
  rfl

/-- The clock always answers. -/
theorem performs_dateNow : R.Performs i P .dateNow (Rules.Answered (fun _ => P) N) := by
  refine performs_read (fun _ => rfl) ?_ ?_ (by intro _ _ _ h; cases h)
  · intro w x w' hx
    cases hx
    rfl
  · intro s x _ hs hx
    cases hx
    exact hs

theorem performs_validateAddress {address : String} (h : ∀ s, R.inv s → P s → N s) :
    R.Performs i P (.validateAddress address) (Rules.Answered (fun _ => P) N) := by
  refine performs_idle (fun _ => rfl) ?_ h
  intro w x w' hx
  cases hx
  rfl

theorem performs_getRawTransaction {txid : Txid} (h : ∀ s, R.inv s → P s → N s) :
    R.Performs i P (.getRawTransaction txid) (Rules.Answered (fun _ => P) N) := by
  refine performs_idle (fun _ => rfl) ?_ h
  intro w x w' hx
  simp only [effect] at hx
  split at hx <;> cases hx <;> rfl

theorem performs_waitForTransactionReceipt {hash : Hash} {mined : Receipt → S → Prop}
    (h : ∀ s r, R.inv s → P s → (R.world s).base.receipts hash = some r → mined r s)
    (herr : ∀ s, R.inv s → P s → N s) :
    R.Performs i P (.waitForTransactionReceipt hash) (Rules.Answered mined N) := by
  refine performs_read (fun _ => rfl) ?_ ?_ fun s hi hs _ => herr s hi hs
  · intro w x w' hx
    obtain ⟨r, _, hr⟩ := Option.map_eq_some_iff.mp hx
    cases hr
    rfl
  · intro s x hi hs hx
    obtain ⟨r, hr, hx⟩ := Option.map_eq_some_iff.mp hx
    cases hx
    exact h s r hi hs hr

/-- Only audit rows and buy orders differ. -/
structure SameBooks (w w' : World) : Prop where
  deposits : w'.deposits = w.deposits
  withdrawals : w'.withdrawals = w.withdrawals
  mintQueue : w'.mintQueue = w.mintQueue
  releaseQueue : w'.releaseQueue = w.releaseQueue
  base : w'.base = w.base
  fair : w'.fair = w.fair
  addressCache : w'.addressCache = w.addressCache
  minedSinceRead : w'.minedSinceRead = w.minedSinceRead

theorem performs_aside {op : Op β} (hrec : ∀ w, recordCall op w = w)
    (heff : ∀ w x w', effect (f.row i) op w = some (x, w') → SameBooks w w')
    (h : ∀ s w, R.inv s → P s → SameBooks (R.world s) w →
      ∃ t, R.world t = w ∧ R.inv t ∧ R.guar i s t ∧ M t)
    (hN : ∀ s, R.inv s → M s → N s) (hP : ∀ s, R.inv s → P s → M s) :
    R.Performs i P op (Rules.Answered (fun _ => M) N) := by
  refine performs ?_ ?_
  · intro s e hi hs _ _
    exact ⟨s, (hrec _).symm, hi, R.guar_refl i s, hN s hi (hP s hi hs)⟩
  · intro s x w out hi hs _ hx
    rw [hrec] at hx
    obtain ⟨t, hw, hit, hg, hM⟩ := h s w hi hs (heff _ _ _ hx)
    refine ⟨t, hw, hit, hg, fun _ => ?_, fun _ _ _ => hN t hit hM⟩
    cases x with
    | ok _ => exact hM
    | error _ => exact hN t hit hM

/-- An audit row is added, or nothing happens. -/
theorem performs_audit {entry : AuditLogEntry}
    (h : ∀ s, R.inv s → M s →
      ∃ t, R.world t = { R.world s with audit := (R.world s).audit ++ [entry] } ∧ R.inv t ∧
        R.guar i s t ∧ M t) :
    R.Performs i M (.auditLog entry) (Rules.Answered (fun _ => M) M) := by
  refine performs ?_ ?_
  · intro s e hi hs _ _
    exact ⟨s, rfl, hi, R.guar_refl i s, hs⟩
  · intro s x w out hi hs _ hx
    cases hx
    obtain ⟨t, hw, hit, hg, hM⟩ := h s hi hs
    exact ⟨t, hw, hit, hg, fun _ => hM, fun _ _ _ => hM⟩

theorem performs_auditLog {entry : AuditLogEntry}
    (h : ∀ s w, R.inv s → M s → SameBooks (R.world s) w →
      ∃ t, R.world t = w ∧ R.inv t ∧ R.guar i s t ∧ M t) :
    R.Performs i M (.auditLog entry) (Rules.Answered (fun _ => M) M) :=
  performs_audit fun s hi hs => h s _ hi hs ⟨rfl, rfl, rfl, rfl, rfl, rfl, rfl, rfl⟩

theorem performs_buyOrder {q : Query BuyOrderDoc BuyOrderSet β}
    (h : ∀ s w, R.inv s → M s → SameBooks (R.world s) w →
      ∃ t, R.world t = w ∧ R.inv t ∧ R.guar i s t ∧ M t) :
    R.Performs i M (.buyOrder q) (Rules.Answered (fun _ => M) M) := by
  refine performs_aside (fun _ => rfl) ?_ h (fun _ _ h => h) fun _ _ h => h
  intro w x w' hx
  cases hx
  exact ⟨rfl, rfl, rfl, rfl, rfl, rfl, rfl, rfl⟩

/-- `M` of a row that was created, `taken` if the store says that its vout has a row,
and `N` if it raises anything else. -/
def Created (M : DepositDoc → S → Prop) (taken N : S → Prop) :
    Except JsError DepositDoc → S → Prop
  | .ok d => M d
  | .error e => fun s => N s ∧ (e.includes "E11000" = true → taken s)

namespace Deposit
variable {held : DepositDoc → S → Prop}

theorem performs_findById {id : ObjectId}
    (h : ∀ s, R.inv s → P s → Rules.Found held M ((R.world s).deposits.get id) s)
    (herr : ∀ s, R.inv s → P s → N s) :
    R.Performs i P (.deposit (.findOne (fun d => d.id == id) none))
      (Rules.Answered (Rules.Found held M) N) := by
  refine performs_read (fun _ => rfl) ?_ ?_ fun s hi hs _ => herr s hi hs
  · intro w x w' hx
    cases hx
    rfl
  · intro s x hi hs hx
    cases hx
    exact h s hi hs

theorem performs_updateById {id : ObjectId} {u : DepositSet} (htxid : u.fairTxid = none)
    (hvout : u.fairVout = none)
    (h : ∀ s, R.inv s → P s →
      ∃ t, R.world t = (R.world s).setDeposit id u ∧ R.inv t ∧ R.guar i s t ∧ M t ∧ N t)
    (hfail : ∀ s e, R.inv s → P s →
      f.may i (.deposit (.updateOne (fun d => d.id == id && true) u) : Op Unit) (.fail e)
        (R.world s) = true → N s) :
    R.Performs i P (.deposit (.updateOne (fun d => d.id == id && true) u))
      (Rules.Answered (fun _ => M) N) := by
  refine performs ?_ ?_
  · intro s e hi hs _ hmay
    exact ⟨s, rfl, hi, R.guar_refl i s, hfail s e hi hs hmay⟩
  · intro s x w out hi hs _ hx
    obtain ⟨t, hw, hit, hg, hM, hN⟩ := h s hi hs
    cases (effect_updateById (f.row i) id u htxid hvout (R.world s)).symm.trans hx
    exact ⟨t, hw, hit, hg, fun _ => hM, fun _ _ _ => hN⟩

theorem performs_claimMint {id : ObjectId}
    (hsome : ∀ s d out, R.inv s → P s → (R.world s).deposits.get id = some d →
      claimable d = true →
      f.may i (.deposit (.findOneAndUpdate (fun d => d.id == id && claimable d) none
        { status := some .minting }) : Op (Option DepositDoc)) out (R.world s) = true →
      ∃ t, R.world t = (R.world s).setDeposit id { status := some .minting } ∧ R.inv t ∧ R.guar i s t ∧ held { d with status := .minting } t ∧ N t)
    (hnone : ∀ s, R.inv s → P s → ((R.world s).deposits.get id).filter claimable = none →
      M s)
    (hfail : ∀ s, R.inv s → P s → N s) :
    R.Performs i P (.deposit (.findOneAndUpdate (fun d => d.id == id && claimable d) none
      { status := some .minting })) (Rules.Answered (Rules.Found held M) N) := by
  refine performs ?_ ?_
  · intro s e hi hs _ _
    exact ⟨s, rfl, hi, R.guar_refl i s, hfail s hi hs⟩
  · intro s x w out hi hs hmay hx
    have heff := effect_claimMint (f.row i) id (R.world s)
    cases hd : ((R.world s).deposits.get id).filter claimable with
    | none =>
        rw [hd] at heff
        cases heff.symm.trans hx
        exact ⟨s, rfl, hi, R.guar_refl i s, fun _ => hnone s hi hs hd,
          fun _ _ _ => hfail s hi hs⟩
    | some d =>
        rw [hd] at heff
        cases heff.symm.trans hx
        obtain ⟨hg, hc⟩ := Option.filter_eq_some_iff.mp hd
        obtain ⟨t, hw, hit, hgu, hM, hN⟩ := hsome s d out hi hs hg hc hmay
        exact ⟨t, hw, hit, hgu, fun _ => hM, fun _ _ _ => hN⟩

theorem performs_findOne {filter : DepositDoc → Bool} {sort : Option (DepositDoc → Nat)}
    (hsome : ∀ s d, R.inv s → P s → d ∈ (R.world s).deposits.docs → filter d = true →
      held d s)
    (hnone : ∀ s, R.inv s → P s → M s) (herr : ∀ s, R.inv s → P s → N s) :
    R.Performs i P (.deposit (.findOne filter sort))
      (Rules.Answered (Rules.Found held M) N) := by
  refine performs_read (fun _ => rfl) ?_ ?_ fun s hi hs _ => herr s hi hs
  · intro w x w' hx
    cases hx
    rfl
  · intro s x hi hs hx
    cases hx
    change Rules.Found held M (pick filter sort (R.world s).deposits.docs) s
    cases hp : pick filter sort (R.world s).deposits.docs with
    | none => exact hnone s hi hs
    | some d => exact hsome s d hi hs (pick_some hp).1 (pick_some hp).2

theorem performs_find {filter : DepositDoc → Bool} {limit : Option Nat}
    {listed : List DepositDoc → S → Prop}
    (h : ∀ s ds, R.inv s → P s →
      (∀ d ∈ ds, d ∈ (R.world s).deposits.docs ∧ filter d = true) → listed ds s)
    (herr : ∀ s, R.inv s → P s → N s) :
    R.Performs i P (.deposit (.find filter limit)) (Rules.Answered listed N) := by
  refine performs_read (fun _ => rfl) ?_ ?_ fun s hi hs _ => herr s hi hs
  · intro w x w' hx
    cases limit <;> cases hx <;> rfl
  · intro s x hi hs hx
    cases limit with
    | none =>
        cases hx
        exact h s _ hi hs fun d hd => List.mem_filter.mp hd
    | some n =>
        cases hx
        exact h s _ hi hs fun d hd => List.mem_filter.mp (List.mem_of_mem_take hd)

/-- A sum over all the rows there are. -/
theorem performs_findAll {filter : DepositDoc → Bool} {listed : List DepositDoc → S → Prop}
    (h : ∀ s out, R.inv s → P s →
      f.may i (.deposit (.find filter none) : Op (List DepositDoc)) out (R.world s) = true →
      listed ((R.world s).deposits.docs.filter filter) s)
    (herr : ∀ s, R.inv s → P s → N s) :
    R.Performs i P (.deposit (.find filter none)) (Rules.Answered listed N) := by
  refine performs ?_ ?_
  · intro s e hi hs _ _
    exact ⟨s, rfl, hi, R.guar_refl i s, herr s hi hs⟩
  · intro s x w out hi hs hmay hx
    cases hx
    exact ⟨s, rfl, hi, R.guar_refl i s, fun _ => h s out hi hs hmay,
      fun _ _ _ => herr s hi hs⟩

/-- `taken` is known if the store says that a row has the vout already. -/
theorem performs_created {doc : DepositDoc} (taken : S → Prop)
    (hok : ∀ s, R.inv s → P s →
      (∀ e ∈ (R.world s).deposits.docs,
        ¬ (e.fairTxid = doc.fairTxid ∧ e.fairVout = doc.fairVout)) →
      ∃ t, R.world t = (R.world s).insertDeposit doc ∧ R.inv t ∧ R.guar i s t ∧
        held { doc with id := (R.world s).deposits.nextId, createdAt := (R.world s).now } t ∧
        N t ∧ taken t)
    (herr : ∀ s, R.inv s → P s → N s)
    (htaken : ∀ s d, R.inv s → P s → d ∈ (R.world s).deposits.docs →
      d.fairTxid = doc.fairTxid → d.fairVout = doc.fairVout → taken s)
    (hfault : ∀ s e out, R.inv s → P s → out = .fail e ∨ out = .lost e →
      f.may i (.deposit (.create doc) : Op DepositDoc) out (R.world s) = true →
      e.includes "E11000" = true → taken s) :
    R.Performs i P (.deposit (.create doc)) (Created held taken N) := by
  refine performs ?_ ?_
  · intro s e hi hs _ hmay
    exact ⟨s, rfl, hi, R.guar_refl i s, herr s hi hs,
      hfault s e (.fail e) hi hs (Or.inl rfl) hmay⟩
  · intro s x w out hi hs hmay hx
    cases effect_createDeposit hx with
    | inl h =>
        obtain ⟨e, rfl, rfl, hdup⟩ := h
        refine ⟨s, rfl, hi, R.guar_refl i s, fun _ => ⟨herr s hi hs, ?_⟩, ?_⟩
        · intro he
          obtain ⟨d, hd, htxid, hvout⟩ := hdup he
          exact htaken s d hi hs hd htxid hvout
        · rintro e' rfl _
          exact ⟨herr s hi hs, hfault s e' (.lost e') hi hs (Or.inr rfl) hmay⟩
    | inr h =>
        obtain ⟨rfl, rfl, hnew⟩ := h
        obtain ⟨t, hw, hit, hg, hM, hN, hD⟩ := hok s hi hs hnew
        exact ⟨t, hw, hit, hg, fun _ => hM, fun _ _ _ => ⟨hN, fun _ => hD⟩⟩

theorem performs_create {doc : DepositDoc}
    (hok : ∀ s, R.inv s → P s →
      (∀ e ∈ (R.world s).deposits.docs,
        ¬ (e.fairTxid = doc.fairTxid ∧ e.fairVout = doc.fairVout)) →
      ∃ t, R.world t = (R.world s).insertDeposit doc ∧ R.inv t ∧ R.guar i s t ∧
        held { doc with id := (R.world s).deposits.nextId, createdAt := (R.world s).now } t ∧
        N t)
    (herr : ∀ s, R.inv s → P s → N s) :
    R.Performs i P (.deposit (.create doc)) (Rules.Answered held N) := by
  refine Rules.Performs.post (M := Created held (fun _ => True) N) (performs_created _ ?_ herr
    (fun _ _ _ _ _ _ _ => trivial) fun _ _ _ _ _ _ _ _ => trivial) ?_
  · intro s hi hs hnew
    obtain ⟨t, hw, hit, hg, hM, hN⟩ := hok s hi hs hnew
    exact ⟨t, hw, hit, hg, hM, hN, trivial⟩
  · intro r _ _ h
    cases r with
    | ok d => exact h
    | error e => exact h.1

theorem performs_addMintJob {job : MintJob}
    (h : ∀ s, R.inv s → P s →
      ∃ t, R.world t = (R.world s).enqueueMint job ∧ R.inv t ∧ R.guar i s t ∧ M t ∧ N t)
    (herr : ∀ s, R.inv s → P s → N s) :
    R.Performs i P (.addMintJob job) (Rules.Answered (fun _ => M) N) := by
  refine performs ?_ ?_
  · intro s e hi hs _ _
    exact ⟨s, rfl, hi, R.guar_refl i s, herr s hi hs⟩
  · intro s x w out hi hs _ hx
    obtain ⟨t, hw, hit, hg, hM, hN⟩ := h s hi hs
    cases hx
    exact ⟨t, hw, hit, hg, fun _ => hM, fun _ _ _ => hN⟩

section Vout
variable {id : ObjectId} {cond : DepositDoc → Bool} {u : DepositSet} {txid : Txid} {n : Nat}

/-- The row with the identifier gets the vout, unless a row has it already. -/
theorem performs_setVout (htxid : u.fairTxid = some txid) (hvout : u.fairVout = some n)
    (hopen : ∀ s d, R.inv s → P s → (R.world s).deposits.get id = some d → d.fairTxid = none)
    (h : ∀ s d, R.inv s → P s → (R.world s).deposits.get id = some d → cond d = true →
      (∀ e ∈ (R.world s).deposits.docs, ¬ (e.fairTxid = some txid ∧ e.fairVout = some n)) →
      ∃ t, R.world t = (R.world s).setDeposit id u ∧ R.inv t ∧ R.guar i s t ∧
        held (u.apply d) t ∧ N t)
    (hmiss : ∀ s, R.inv s → P s → ((R.world s).deposits.get id).filter cond = none → M s)
    (herr : ∀ s, R.inv s → P s → N s) :
    R.Performs i P (.deposit (.findOneAndUpdate (fun d => d.id == id && cond d) none u))
      (Rules.Answered (Rules.Found held M) N) := by
  refine performs ?_ ?_
  · intro s e hi hs _ _
    exact ⟨s, rfl, hi, R.guar_refl i s, herr s hi hs⟩
  · intro s x w out hi hs _ hx
    cases effect_setVout hx htxid hvout (fun d => hopen s d hi hs) with
    | inl hu =>
        obtain ⟨rfl, hu⟩ := hu
        refine ⟨s, rfl, hi, R.guar_refl i s, fun _ => ?_, fun _ _ _ => herr s hi hs⟩
        cases hu with
        | inl hu =>
            obtain ⟨rfl, hnone⟩ := hu
            exact hmiss s hi hs hnone
        | inr hu =>
            obtain ⟨e, rfl⟩ := hu
            exact herr s hi hs
    | inr hu =>
        obtain ⟨d, hd, hc, rfl, rfl, hnew⟩ := hu
        obtain ⟨t, hw, hit, hg, hM, hN⟩ := h s d hi hs hd hc hnew
        exact ⟨t, hw, hit, hg, fun _ => hM, fun _ _ _ => hN⟩

/-- The same, without a look at the row. -/
theorem performs_setVoutById (htxid : u.fairTxid = some txid) (hvout : u.fairVout = some n)
    (hopen : ∀ s d, R.inv s → P s → (R.world s).deposits.get id = some d → d.fairTxid = none)
    (h : ∀ s d, R.inv s → P s → (R.world s).deposits.get id = some d →
      (∀ e ∈ (R.world s).deposits.docs, ¬ (e.fairTxid = some txid ∧ e.fairVout = some n)) →
      ∃ t, R.world t = (R.world s).setDeposit id u ∧ R.inv t ∧ R.guar i s t ∧ M t ∧ N t)
    (hmiss : ∀ s, R.inv s → P s → (R.world s).deposits.get id = none → M s)
    (herr : ∀ s, R.inv s → P s → N s) :
    R.Performs i P (.deposit (.updateOne (fun d => d.id == id && true) u))
      (Rules.Answered (fun _ => M) N) := by
  refine performs ?_ ?_
  · intro s e hi hs _ _
    exact ⟨s, rfl, hi, R.guar_refl i s, herr s hi hs⟩
  · intro s x w out hi hs _ hx
    have hmap : effect (f.row i) (.deposit (.updateOne (fun d => d.id == id && true) u))
        (R.world s) = (effect (f.row i) (.deposit
          (.findOneAndUpdate (fun d => d.id == id && true) none u)) (R.world s)).map
            fun r => (r.1.map fun _ => (), r.2) := rfl
    obtain ⟨⟨y, v⟩, hy, hr⟩ := Option.map_eq_some_iff.mp (hmap.symm.trans hx)
    cases hr
    cases effect_setVout hy htxid hvout (fun d => hopen s d hi hs) with
    | inl hu =>
        obtain ⟨rfl, hu⟩ := hu
        refine ⟨s, rfl, hi, R.guar_refl i s, fun _ => ?_, fun _ _ _ => herr s hi hs⟩
        cases hu with
        | inl hu =>
            obtain ⟨rfl, hnone⟩ := hu
            exact hmiss s hi hs (Option.eq_none_iff_forall_ne_some.mpr (by simpa using hnone))
        | inr hu =>
            obtain ⟨e, rfl⟩ := hu
            exact herr s hi hs
    | inr hu =>
        obtain ⟨d, hd, _, rfl, rfl, hnew⟩ := hu
        obtain ⟨t, hw, hit, hg, hM, hN⟩ := h s d hi hs hd hnew
        exact ⟨t, hw, hit, hg, fun _ => hM, fun _ _ _ => hN⟩

end Vout

end Deposit

namespace Withdrawal
variable {held : WithdrawalDoc → S → Prop}

theorem performs_findById {id : ObjectId}
    (h : ∀ s, R.inv s → P s → Rules.Found held M ((R.world s).withdrawals.get id) s)
    (herr : ∀ s, R.inv s → P s → N s) :
    R.Performs i P (.withdrawal (.findOne (fun d => d.id == id) none))
      (Rules.Answered (Rules.Found held M) N) := by
  refine performs_read (fun _ => rfl) ?_ ?_ fun s hi hs _ => herr s hi hs
  · intro w x w' hx
    cases hx
    rfl
  · intro s x hi hs hx
    cases hx
    exact h s hi hs

theorem performs_findOne {filter : WithdrawalDoc → Bool}
    (hsome : ∀ s d, R.inv s → P s → d ∈ (R.world s).withdrawals.docs → filter d = true →
      held d s)
    (hnone : ∀ s, R.inv s → P s → M s) (herr : ∀ s, R.inv s → P s → N s) :
    R.Performs i P (.withdrawal (.findOne filter none))
      (Rules.Answered (Rules.Found held M) N) := by
  refine performs_read (fun _ => rfl) ?_ ?_ fun s hi hs _ => herr s hi hs
  · intro w x w' hx
    cases hx
    rfl
  · intro s x hi hs hx
    cases hx
    change Rules.Found held M (pick filter none (R.world s).withdrawals.docs) s
    cases hp : pick filter none (R.world s).withdrawals.docs with
    | none => exact hnone s hi hs
    | some d => exact hsome s d hi hs (pick_some hp).1 (pick_some hp).2

theorem performs_find {filter : WithdrawalDoc → Bool} {limit : Option Nat}
    {listed : List WithdrawalDoc → S → Prop}
    (h : ∀ s ds, R.inv s → P s →
      (∀ d ∈ ds, d ∈ (R.world s).withdrawals.docs ∧ filter d = true) → listed ds s)
    (herr : ∀ s, R.inv s → P s → N s) :
    R.Performs i P (.withdrawal (.find filter limit)) (Rules.Answered listed N) := by
  refine performs_read (fun _ => rfl) ?_ ?_ fun s hi hs _ => herr s hi hs
  · intro w x w' hx
    cases limit <;> cases hx <;> rfl
  · intro s x hi hs hx
    cases limit with
    | none =>
        cases hx
        exact h s _ hi hs fun d hd => List.mem_filter.mp hd
    | some n =>
        cases hx
        exact h s _ hi hs fun d hd => List.mem_filter.mp (List.mem_of_mem_take hd)

/-- A sum over all the rows there are. -/
theorem performs_findAll {filter : WithdrawalDoc → Bool}
    {listed : List WithdrawalDoc → S → Prop}
    (h : ∀ s, R.inv s → P s → listed ((R.world s).withdrawals.docs.filter filter) s)
    (herr : ∀ s, R.inv s → P s → N s) :
    R.Performs i P (.withdrawal (.find filter none)) (Rules.Answered listed N) := by
  refine performs_read (fun _ => rfl) ?_ ?_ fun s hi hs _ => herr s hi hs
  · intro w x w' hx
    cases hx
    rfl
  · intro s x hi hs hx
    cases hx
    exact h s hi hs

theorem performs_create {doc : WithdrawalDoc}
    (hok : ∀ s, R.inv s → P s →
      (∀ e ∈ (R.world s).withdrawals.docs, e.key ≠ doc.key) →
      ∃ t, R.world t = (R.world s).insertWithdrawal doc ∧ R.inv t ∧ R.guar i s t ∧
        held { doc with id := (R.world s).withdrawals.nextId, createdAt := (R.world s).now } t ∧
        N t)
    (herr : ∀ s, R.inv s → P s → N s) :
    R.Performs i P (.withdrawal (.create doc)) (Rules.Answered held N) := by
  refine performs ?_ ?_
  · intro s e hi hs _ _
    exact ⟨s, rfl, hi, R.guar_refl i s, herr s hi hs⟩
  · intro s x w out hi hs _ hx
    rcases effect_createWithdrawal hx with ⟨e, rfl, rfl⟩ | ⟨rfl, rfl, hnew⟩
    · exact ⟨s, rfl, hi, R.guar_refl i s, fun _ => herr s hi hs, fun _ _ _ => herr s hi hs⟩
    · obtain ⟨t, hw, hit, hg, hM, hN⟩ := hok s hi hs hnew
      exact ⟨t, hw, hit, hg, fun _ => hM, fun _ _ _ => hN⟩

theorem performs_addReleaseJob {job : ReleaseJob}
    (h : ∀ s, R.inv s → P s →
      ∃ t, R.world t = (R.world s).enqueueRelease job ∧ R.inv t ∧ R.guar i s t ∧ M t ∧ N t)
    (herr : ∀ s, R.inv s → P s → N s) :
    R.Performs i P (.addReleaseJob job) (Rules.Answered (fun _ => M) N) := by
  refine performs ?_ ?_
  · intro s e hi hs _ _
    exact ⟨s, rfl, hi, R.guar_refl i s, herr s hi hs⟩
  · intro s x w out hi hs _ hx
    obtain ⟨t, hw, hit, hg, hM, hN⟩ := h s hi hs
    cases hx
    exact ⟨t, hw, hit, hg, fun _ => hM, fun _ _ _ => hN⟩

theorem performs_updateById {id : ObjectId} {u : WithdrawalSet}
    (h : ∀ s, R.inv s → P s →
      ∃ t, R.world t = (R.world s).setWithdrawal id u ∧ R.inv t ∧ R.guar i s t ∧ M t ∧ N t)
    (hfail : ∀ s e, R.inv s → P s →
      f.may i (.withdrawal (.updateOne (fun d => d.id == id && true) u) : Op Unit) (.fail e)
        (R.world s) = true → N s) :
    R.Performs i P (.withdrawal (.updateOne (fun d => d.id == id && true) u))
      (Rules.Answered (fun _ => M) N) := by
  refine performs ?_ ?_
  · intro s e hi hs _ hmay
    exact ⟨s, rfl, hi, R.guar_refl i s, hfail s e hi hs hmay⟩
  · intro s x w out hi hs _ hx
    obtain ⟨t, hw, hit, hg, hM, hN⟩ := h s hi hs
    cases (effect_updateById (f.row i) id u (R.world s)).symm.trans hx
    exact ⟨t, hw, hit, hg, fun _ => hM, fun _ _ _ => hN⟩

theorem performs_claimRelease {id : ObjectId}
    (hsome : ∀ s d out, R.inv s → P s → (R.world s).withdrawals.get id = some d →
      releasable d = true →
      f.may i (.withdrawal (.findOneAndUpdate (fun d => d.id == id && releasable d) none
        { status := some .signing }) : Op (Option WithdrawalDoc)) out (R.world s) = true →
      ∃ t, R.world t = (R.world s).setWithdrawal id { status := some .signing } ∧ R.inv t ∧
        R.guar i s t ∧ held { d with status := .signing } t ∧ N t)
    (hnone : ∀ s, R.inv s → P s →
      ((R.world s).withdrawals.get id).filter releasable = none → M s)
    (hfail : ∀ s, R.inv s → P s → N s) :
    R.Performs i P (.withdrawal (.findOneAndUpdate (fun d => d.id == id && releasable d) none
      { status := some .signing })) (Rules.Answered (Rules.Found held M) N) := by
  refine performs ?_ ?_
  · intro s e hi hs _ _
    exact ⟨s, rfl, hi, R.guar_refl i s, hfail s hi hs⟩
  · intro s x w out hi hs hmay hx
    have heff := effect_claimRelease (f.row i) id (R.world s)
    cases hd : ((R.world s).withdrawals.get id).filter releasable with
    | none =>
        rw [hd] at heff
        cases heff.symm.trans hx
        exact ⟨s, rfl, hi, R.guar_refl i s, fun _ => hnone s hi hs hd,
          fun _ _ _ => hfail s hi hs⟩
    | some d =>
        rw [hd] at heff
        cases heff.symm.trans hx
        obtain ⟨hg, hc⟩ := Option.filter_eq_some_iff.mp hd
        obtain ⟨t, hw, hit, hgu, hM, hN⟩ := hsome s d out hi hs hg hc hmay
        exact ⟨t, hw, hit, hgu, fun _ => hM, fun _ _ _ => hN⟩

end Withdrawal

end Performs

/-! Small worlds to run the service in: one confirmed deposit of 5 sats whose mint
is to be signed, one confirmed withdrawal of 5 sats whose release is, and one intent
that is paid twice. -/

namespace Sample

def config : Config := { bridgeEoaPrivateKey := some "key" }

def txid : Txid := String.ofList (List.replicate 64 'a')

def deposit : DepositDoc where
  baseAddress := ⟨7⟩
  fairAddress := "fAddress"
  hdIndex := 0
  status := .confirmed
  fairTxid := some txid
  fairVout := some 0
  amountSats := 5
  amountWei := 50000000000

def mintJob : MintJob := ⟨0, ⟨7⟩, 50000000000, txid, 0⟩

def mintWorld : World := { deposits := Collection.empty.insert 0 deposit }

def withdrawal : WithdrawalDoc where
  baseBurnTxHash := ⟨9⟩
  baseBlockNumber := 1
  logIndex := 0
  fromBaseAddress := ⟨7⟩
  destinationFairAddress := "fAddress"
  amountWei := 50000000000
  amountSats := 5
  status := .confirmed

def releaseJob : ReleaseJob := ⟨0, "fAddress", 5, ⟨9⟩, 0⟩

def releaseWorld : World where
  withdrawals := Collection.empty.insert 0 withdrawal
  fair := { custodySats := 100 }

def laterTxid : Txid := String.ofList (List.replicate 64 'b')

def payment (txid : Txid) : Block where
  tx := [⟨txid, [{ value := 10, n := 0, address := some "fAddress" }]⟩]
  distinct := by simp

/-- One intent, and two payments of 10 FAIR to its address. -/
def capWorld : World where
  deposits := Collection.empty.insert 0
    { baseAddress := ⟨7⟩, fairAddress := "fAddress", hdIndex := 0 }
  fair := { blocks := [payment txid, payment laterTxid] }
  addressCache := ["fAddress"]

end Sample
end FairBridge
