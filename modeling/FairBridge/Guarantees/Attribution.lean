import FairBridge.Ledger.Scans
import FairBridge.Worker.LoopOutline

/-!
Attribution. Every intent gets an index, and so an address, of its own. Rows that
are made for further payments to the address inherit its owner, and what is minted
for a payment goes to that owner.
-/

namespace FairBridge
open Store Async Async.Rules

inductive AttributionSlot where
  | watcher
  | request (n : Nat)
  | signer (n : Nat)
  deriving DecidableEq

/-- One watcher, which scans blocks and enqueues old deposits again; any number of
requests for intents, and of runs of queued mints. Every request may raise, and
every run may die. Payments go to addresses that `POST /intent` has returned, or to
ones that are `foreign` to the bridge. -/
def attributionFaults (foreign : String → Bool) : Faults AttributionSlot where
  ready w i t := match i, t with
    | .watcher, .processBlock _ _ | .watcher, .reconcileOrphanDeposits
    | .watcher, .startFairWatcher _ _ => true
    | .request _, .postIntent _ _ => true
    | .signer _, .signMint _ job => w.mintQueue.any fun j => decide (j.data = job)
    | _, _ => false
  may _ _ _ _ := true
  mayKill _ _ _ := true
  row _ := none
  env e w := match e with
    | .intent _ _ _ _ => false
    | .fairBlock b => b.vouts.all fun x => (voutAddress x.2).all fun a =>
        foreign a || w.intents.any fun r => r.fairAddress == a
    | _ => true

/-- Nothing was asked of the bridge yet, and nothing was paid to it. -/
structure Unused (foreign : String → Bool) (w : World) : Prop where
  deposits : w.deposits.docs = []
  intents : w.intents = []
  addressCache : w.addressCache = []
  mintQueue : w.mintQueue = []
  calls : w.base.calls = []
  safeCalls : w.safe.calls = []
  paid : ∀ x ∈ w.fair.vouts, ∀ a, voutAddress x.2 = some a → foreign a = true

/-- The job mints for a payment to the address of an intent, and to its owner. -/
def MintDue (cfg : Config) (w : World) (job : MintJob) : Prop :=
  ∃ x ∈ w.fair.vouts, ∃ r ∈ w.intents, voutAddress x.2 = some r.fairAddress ∧
    job.baseAddress = r.baseAddress ∧ job.fairTxid = x.1 ∧ job.fairVout = x.2.n ∧
    applyFee (fairValueToSats x.2.value * satsToWei) cfg.bridgeFeeBps = .ok job.amountWei

/-- The mint calls and the Safe proposals to make them. -/
def World.mintCalls (w : World) : List MintCall := w.base.calls ++ w.safe.calls.map Prod.snd

/-- What holds throughout. -/
structure Attributed (cfg : Config) (foreign : String → Bool) (w : World) : Prop where
  derived : ∀ r ∈ w.intents,
    deriveDepositAddress cfg r.hdIndex = .ok r.fairAddress ∧ r.hdIndex < w.nextIndex
  distinct : (w.intents.map DepositIntent.hdIndex).Nodup
  rows : ∀ d ∈ w.deposits.docs, ∃ i : Nat, d.hdIndex = i ∧ i < w.nextIndex ∧
    deriveDepositAddress cfg i = .ok d.fairAddress
  owners : ∀ d ∈ w.deposits.docs, ∀ e ∈ w.deposits.docs, d.fairAddress = e.fairAddress →
    d.baseAddress = e.baseAddress ∧ d.hdIndex = e.hdIndex
  intentRows : ∀ r ∈ w.intents, ∃ d ∈ w.deposits.docs, d.fairAddress = r.fairAddress ∧
    d.baseAddress = r.baseAddress ∧ d.hdIndex = r.hdIndex
  cached : ∀ a ∈ w.addressCache, ∃ i, deriveDepositAddress cfg i = .ok a
  paid : ∀ x ∈ w.fair.vouts, ∀ a, voutAddress x.2 = some a →
    foreign a = true ∨ ∃ r ∈ w.intents, r.fairAddress = a
  unmatched : IntentsUnmatched w
  due : ∀ d ∈ w.deposits.docs, d.status = .confirmed → ∀ job, d.job = some job →
    MintDue cfg w job
  jobs : ∀ j ∈ w.mintQueue, MintDue cfg w j.data
  calls : ∀ c ∈ w.mintCalls, ∃ job, MintDue cfg w job ∧ mintArgs job = .ok c

section Books
variable {cfg : Config} {foreign : String → Bool} {w w' : World} {job : MintJob}

theorem Unused.attributed (h : Unused foreign w) : Attributed cfg foreign w := by
  refine ⟨?_, ?_, ?_, ?_, ?_, ?_, fun x hx a ha => Or.inl (h.paid x hx a ha), ?_, ?_, ?_, ?_⟩
  · simp [h.intents]
  · simp [h.intents]
  · simp [h.deposits]
  · simp [h.deposits]
  · simp [h.intents]
  · simp [h.addressCache]
  · intro id d hd
    have hmem : d ∈ w.deposits.docs := Collection.get_mem hd
    rw [h.deposits] at hmem
    cases hmem
  · simp [h.deposits]
  · simp [h.mintQueue]
  · simp [World.mintCalls, h.calls, h.safeCalls]

/-- Payments and answers stay. -/
structure History (w w' : World) : Prop where
  vouts : ∀ x ∈ w.fair.vouts, x ∈ w'.fair.vouts
  intents : ∀ r ∈ w.intents, r ∈ w'.intents

theorem History.refl (w : World) : History w w := ⟨fun _ h => h, fun _ h => h⟩

theorem History.trans {w'' : World} (h : History w w') (h' : History w' w'') : History w w'' :=
  ⟨fun x hx => h'.vouts x (h.vouts x hx), fun r hr => h'.intents r (h.intents r hr)⟩

theorem MintDue.later (hd : MintDue cfg w job) (h : History w w') : MintDue cfg w' job := by
  obtain ⟨x, hx, r, hr, hrest⟩ := hd
  exact ⟨x, h.vouts x hx, r, h.intents r hr, hrest⟩

/-- A step that has to do with neither rows nor jobs nor answers. -/
theorem Attributed.aside (h : Attributed cfg foreign w) (hd : w'.deposits = w.deposits)
    (hr : w'.intents = w.intents) (hn : w.nextIndex ≤ w'.nextIndex)
    (hv : ∀ x ∈ w.fair.vouts, x ∈ w'.fair.vouts)
    (hc : ∀ a ∈ w'.addressCache, ∃ i, deriveDepositAddress cfg i = .ok a)
    (hp : ∀ x ∈ w'.fair.vouts, ∀ a, voutAddress x.2 = some a →
      foreign a = true ∨ ∃ r ∈ w.intents, r.fairAddress = a)
    (hq : ∀ j ∈ w'.mintQueue, MintDue cfg w j.data)
    (hcalls : ∀ c ∈ w'.mintCalls, ∃ job, MintDue cfg w job ∧ mintArgs job = .ok c) :
    Attributed cfg foreign w' := by
  have hist : History w w' := ⟨hv, fun r hr' => hr ▸ hr'⟩
  refine ⟨?_, hr ▸ h.distinct, ?_, hd ▸ h.owners, ?_, hc, hr ▸ hp, ?_, ?_, ?_, ?_⟩
  · intro r hr'
    obtain ⟨hder, hlt⟩ := h.derived r (hr ▸ hr')
    exact ⟨hder, by omega⟩
  · intro d hd'
    obtain ⟨i, hi, hlt, hder⟩ := h.rows d (hd ▸ hd')
    exact ⟨i, hi, by omega, hder⟩
  · rw [hr, hd]
    exact h.intentRows
  · intro id d hd'
    exact h.unmatched id d (hd ▸ hd')
  · intro d hd' hst job hjob
    exact (h.due d (hd ▸ hd') hst job hjob).later hist
  · exact fun j hj => (hq j hj).later hist
  · intro c hc'
    obtain ⟨job, hdue, hargs⟩ := hcalls c hc'
    exact ⟨job, hdue.later hist, hargs⟩

variable {id : ObjectId} {d : DepositDoc}

/-- An update leaves a row its address and its owner. -/
theorem mem_setDeposit_owner {u : DepositSet} {e : DepositDoc}
    (he : e ∈ (w.setDeposit id u).deposits.docs) : ∃ d ∈ w.deposits.docs,
      e.fairAddress = d.fairAddress ∧ e.baseAddress = d.baseAddress ∧ e.hdIndex = d.hdIndex := by
  cases Collection.mem_modify.mp he with
  | inl h =>
      obtain ⟨d, hd, rfl⟩ := h
      exact ⟨d, Collection.get_mem hd, rfl, rfl, rfl⟩
  | inr h => exact ⟨e, h.1, rfl, rfl, rfl⟩

theorem get_setDeposit_owner {u : DepositSet} (hd : w.deposits.get id = some d) (j : ObjectId) :
    ∃ e, (w.setDeposit j u).deposits.get id = some e ∧ e.fairAddress = d.fairAddress ∧
      e.baseAddress = d.baseAddress ∧ e.hdIndex = d.hdIndex := by
  by_cases hj : id = j
  · subst hj
    exact ⟨_, World.get_setDeposit hd u, rfl, rfl, rfl⟩
  · exact ⟨d, (Collection.get_modify_other _ u hj).trans hd, rfl, rfl, rfl⟩

theorem Attributed.setDeposit (h : Attributed cfg foreign w)
    (hd : w.deposits.get id = some d) {u : DepositSet}
    (hopen : (u.apply d).isOpen = true → (u.apply d).fairTxid = none)
    (hdue : (u.apply d).status = .confirmed → ∀ job, (u.apply d).job = some job →
      MintDue cfg w job) : Attributed cfg foreign (w.setDeposit id u) := by
  refine ⟨h.derived, h.distinct, ?_, ?_, ?_, h.cached, h.paid, h.unmatched.setDeposit hd hopen,
    ?_, h.jobs, h.calls⟩
  · intro e he
    obtain ⟨d', hd', haddr, _, hidx⟩ := mem_setDeposit_owner he
    rw [haddr, hidx]
    exact h.rows d' hd'
  · intro e he e' he' haddr
    obtain ⟨d₁, hd₁, ha₁, hb₁, hi₁⟩ := mem_setDeposit_owner he
    obtain ⟨d₂, hd₂, ha₂, hb₂, hi₂⟩ := mem_setDeposit_owner he'
    rw [hb₁, hb₂, hi₁, hi₂]
    exact h.owners d₁ hd₁ d₂ hd₂ (ha₁.symm.trans (haddr.trans ha₂))
  · intro r hr
    obtain ⟨e, he, haddr, hbase, hidx⟩ := h.intentRows r hr
    obtain ⟨e', he', ha, hb, hi⟩ := get_setDeposit_owner (u := u) (Collection.get_of_mem he) id
    exact ⟨e', Collection.get_mem he', ha.trans haddr, hb.trans hbase, hi.trans hidx⟩
  · intro e he hst job hjob
    cases Collection.mem_modify.mp he with
    | inl hself =>
        obtain ⟨d', hd', rfl⟩ := hself
        cases hd.symm.trans hd'
        exact hdue hst job hjob
    | inr hother => exact h.due e hother.1 hst job hjob

theorem Attributed.insertDeposit (h : Attributed cfg foreign w)
    (hrow : ∃ i : Nat, d.hdIndex = i ∧ i < w.nextIndex ∧
      deriveDepositAddress cfg i = .ok d.fairAddress)
    (howner : ∀ e ∈ w.deposits.docs, e.fairAddress = d.fairAddress →
      e.baseAddress = d.baseAddress ∧ e.hdIndex = d.hdIndex)
    (hopen : d.isOpen = true → d.fairTxid = none)
    (hdue : d.status = .confirmed → ∀ id now job,
      ({ d with id := id, createdAt := now } : DepositDoc).job = some job → MintDue cfg w job) :
    Attributed cfg foreign (w.insertDeposit d) := by
  refine ⟨h.derived, h.distinct, ?_, ?_, ?_, h.cached, h.paid, h.unmatched.insertDeposit hopen,
    ?_, h.jobs, h.calls⟩
  · intro e he
    cases List.mem_append.mp he with
    | inl he => exact h.rows e he
    | inr he =>
        rw [List.mem_singleton.mp he]
        exact hrow
  · intro e he e' he' haddr
    cases List.mem_append.mp he with
    | inl hold =>
        cases List.mem_append.mp he' with
        | inl hold' => exact h.owners e hold e' hold' haddr
        | inr hnew' =>
            rw [List.mem_singleton.mp hnew'] at haddr ⊢
            exact howner e hold haddr
    | inr hnew =>
        rw [List.mem_singleton.mp hnew] at haddr ⊢
        cases List.mem_append.mp he' with
        | inl hold' =>
            obtain ⟨hb, hi⟩ := howner e' hold' haddr.symm
            exact ⟨hb.symm, hi.symm⟩
        | inr hnew' =>
            rw [List.mem_singleton.mp hnew']
            exact ⟨rfl, rfl⟩
  · intro r hr
    obtain ⟨e, he, hrest⟩ := h.intentRows r hr
    exact ⟨e, List.mem_append_left _ he, hrest⟩
  · intro e he hst job hjob
    cases List.mem_append.mp he with
    | inl he => exact h.due e he hst job hjob
    | inr he =>
        rw [List.mem_singleton.mp he] at hst hjob
        exact hdue hst _ _ job hjob

theorem Attributed.enqueue (h : Attributed cfg foreign w) (hdue : MintDue cfg w job) :
    Attributed cfg foreign (w.enqueueMint job) := by
  refine h.aside rfl rfl (Nat.le_refl _) (fun _ hx => hx) h.cached h.paid ?_ h.calls
  intro j hj
  cases JobQueue.mem_add hj with
  | inl hj => exact h.jobs j hj
  | inr hj =>
      subst hj
      exact hdue

/-- What a signer files on a row is neither a vout nor an amount. -/
theorem DepositSet.OfSigner.apply_job {u : DepositSet} (hu : u.OfSigner) (d : DepositDoc) :
    (u.apply d).fairTxid = d.fairTxid ∧ (u.apply d).job = d.job := by
  simp [DepositSet.apply, DepositDoc.job, hu.txid, hu.vout, hu.wei]

theorem DepositSet.OfSigner.apply_confirmed {u : DepositSet} (hu : u.OfSigner)
    (h : (u.apply d).status = .confirmed) : d.status = .confirmed := by
  cases hst : u.status with
  | none => simpa [DepositSet.apply, hst] using h
  | some st =>
      have hs : st = .confirmed := by simpa [DepositSet.apply, hst] using h
      rw [hs] at hst
      cases hu.status _ hst with
      | inl hc => cases hc
      | inr hc => cases hc with
        | inl hc => cases hc
        | inr hc => cases hc

theorem DepositSet.OfSigner.apply_open {u : DepositSet} (hu : u.OfSigner)
    (h : (u.apply d).isOpen = true) : d.isOpen = true := by
  cases hst : u.status with
  | none => simpa [DepositSet.apply, DepositDoc.isOpen, hst] using h
  | some st =>
      have hs : (u.apply d).status = st := by simp [DepositSet.apply, hst]
      rw [DepositDoc.isOpen, hs] at h
      cases hu.status _ hst with
      | inl hc =>
          rw [hc] at h
          cases h
      | inr hc => cases hc with
        | inl hc | inr hc =>
            rw [hc] at h
            cases h

theorem Attributed.file (h : Attributed cfg foreign w) (hd : w.deposits.get id = some d)
    {u : DepositSet} (hu : u.OfSigner) : Attributed cfg foreign (w.setDeposit id u) := by
  refine h.setDeposit hd ?_ ?_
  · intro ho
    rw [(hu.apply_job d).1]
    exact h.unmatched id d hd (hu.apply_open ho)
  · intro hst job hjob
    rw [(hu.apply_job d).2] at hjob
    exact h.due d (Collection.get_mem hd) (hu.apply_confirmed hst) job hjob

/-- What a request of a signer changes: a row's record of the mint, and the calls made
for the job. -/
structure SignEffect (job : MintJob) (w w' : World) : Prop where
  deposits : w'.deposits = w.deposits ∨ ∃ id d u, w.deposits.get id = some d ∧
    u.OfSigner ∧ w'.deposits = (w.setDeposit id u).deposits
  calls : ∀ c ∈ w'.mintCalls, c ∈ w.mintCalls ∨ mintArgs job = .ok c
  intents : w'.intents = w.intents
  nextIndex : w'.nextIndex = w.nextIndex
  addressCache : w'.addressCache = w.addressCache
  mintQueue : w'.mintQueue = w.mintQueue
  fair : w'.fair = w.fair

theorem SignEffect.refl (job : MintJob) (w : World) : SignEffect job w w :=
  ⟨Or.inl rfl, fun _ h => Or.inl h, rfl, rfl, rfl, rfl, rfl⟩

/-- The signer queries the deposits. -/
theorem SignEffect.query {row : Option ObjectId} {β : Type}
    {q : Query DepositDoc DepositSet β} {x : Except JsError β}
    (hq : (Op.deposit q).signsMint job) (h : effect row (.deposit q) w = some (x, w')) :
    SignEffect job w w' := by
  have updated : ∀ filter sort u, u.OfSigner →
      w'.deposits = (w.deposits.update refusals.duplicate filter sort u).2 →
      w'.deposits = w.deposits ∨ ∃ id d u, w.deposits.get id = some d ∧
        u.OfSigner ∧ w'.deposits = (w.setDeposit id u).deposits := by
    intro filter sort u hu hw
    have hcases : _ ∨ _ ∨ _ := w.deposits.update_cases refusals.duplicate filter sort u
    cases hcases with
    | inl hc => exact Or.inl (by rw [hw, hc.2])
    | inr hc =>
        cases hc with
        | inl hc =>
            obtain ⟨_, _, _, _, _, hc⟩ := hc
            exact Or.inl (by rw [hw, hc])
        | inr hc =>
            obtain ⟨d, hd, _, _, _, hc⟩ := hc
            exact Or.inr ⟨d.id, d, u, hd, hu, by rw [hw, hc]; rfl⟩
  cases q with
  | findOne _ _ =>
      cases h
      exact .refl job _
  | findOneAndUpdate filter sort u =>
      cases h
      exact ⟨updated filter sort u hq rfl, fun _ h => Or.inl h, rfl, rfl, rfl, rfl, rfl⟩
  | updateOne filter u =>
      cases h
      exact ⟨updated filter none u hq rfl, fun _ h => Or.inl h, rfl, rfl, rfl, rfl, rfl⟩
  | find _ _ | create _ => cases hq

theorem SignEffect.answer {row : Option ObjectId} {β : Type} {op : Op β} {out : Outcome}
    {r : Except JsError β} (hop : op.signsMint job)
    (h : FairBridge.answer row op out w = some (r, w')) : SignEffect job w w' := by
  have hcases := answer_cases h
  have hrec : ∀ {op : Op β}, recordCall op w = w →
      (∀ x, effect row op w = some (x, w') → w' = w) →
      ((∃ e, out = .fail e ∧ r = .error e ∧ w' = recordCall op w) ∨
        ∃ x, effect row op (recordCall op w) = some (x, w') ∧
          (out = .done ∧ r = x ∨ ∃ e, out = .lost e ∧ r = .error e)) →
      SignEffect job w w' := by
    intro op hop heff hc
    rw [hop] at hc
    cases hc with
    | inl hc =>
        obtain ⟨_, _, _, rfl⟩ := hc
        exact .refl job _
    | inr hc =>
        obtain ⟨x, hx, _⟩ := hc
        rw [heff x hx]
        exact .refl job _
  cases op with
  | deposit q =>
      cases hcases with
      | inl hc =>
          obtain ⟨_, _, _, rfl⟩ := hc
          exact .refl job _
      | inr hc =>
          obtain ⟨x, hx, _⟩ := hc
          exact .query hop hx
  | writeContract call =>
      have hcalls : ∀ c ∈ (recordCall (.writeContract call) w).mintCalls,
          c ∈ w.mintCalls ∨ mintArgs job = .ok c := by
        intro c hc
        simp only [recordCall, World.mintCalls, List.mem_append, List.mem_singleton] at hc ⊢
        cases hc with
        | inl hc => cases hc with
          | inl hc => exact Or.inl (Or.inl hc)
          | inr hc => exact Or.inr (hc ▸ hop)
        | inr hc => exact Or.inl (Or.inr hc)
      cases hcases with
      | inl hc =>
          obtain ⟨_, _, _, rfl⟩ := hc
          exact ⟨Or.inl rfl, hcalls, rfl, rfl, rfl, rfl, rfl⟩
      | inr hc =>
          obtain ⟨x, hx, _⟩ := hc
          cases effect_writeContract hx with
          | inl hx =>
              obtain ⟨_, _, rfl⟩ := hx
              exact ⟨Or.inl rfl, hcalls, rfl, rfl, rfl, rfl, rfl⟩
          | inr hx =>
              obtain ⟨_, rfl, _⟩ := hx
              exact ⟨Or.inl rfl, hcalls, rfl, rfl, rfl, rfl, rfl⟩
  | safeProposeTransaction hash call =>
      have hcalls : ∀ c ∈ (recordCall (.safeProposeTransaction hash call) w).mintCalls,
          c ∈ w.mintCalls ∨ mintArgs job = .ok c := by
        intro c hc
        simp only [recordCall, World.mintCalls, List.map_append, List.map_cons, List.map_nil,
          List.mem_append, List.mem_singleton] at hc ⊢
        cases hc with
        | inl hc => exact Or.inl (Or.inl hc)
        | inr hc => cases hc with
          | inl hc => exact Or.inl (Or.inr hc)
          | inr hc => exact Or.inr (hc ▸ hop)
      cases hcases with
      | inl hc =>
          obtain ⟨_, _, _, rfl⟩ := hc
          exact ⟨Or.inl rfl, hcalls, rfl, rfl, rfl, rfl, rfl⟩
      | inr hc =>
          obtain ⟨x, hx, _⟩ := hc
          cases hx
          exact ⟨Or.inl rfl, hcalls, rfl, rfl, rfl, rfl, rfl⟩
  | waitForTransactionReceipt hash =>
      refine hrec rfl ?_ hcases
      intro x hx
      obtain ⟨y, _, hy⟩ := Option.map_eq_some_iff.mp hx
      cases hy
      rfl
  | safeGetTransaction hash =>
      refine hrec rfl ?_ hcases
      intro x hx
      simp only [effect] at hx
      split at hx <;> cases hx <;> rfl
  | safeInit | safeCreateTransaction _ | safeTransactionHash _ | safeSignTransaction _
  | webhook _ =>
      refine hrec rfl ?_ hcases
      intro x hx
      cases hx
      rfl
  | auditLog entry =>
      cases hcases with
      | inl hc =>
          obtain ⟨_, _, _, rfl⟩ := hc
          exact .refl job _
      | inr hc =>
          obtain ⟨x, hx, _⟩ := hc
          cases hx
          exact ⟨Or.inl rfl, fun _ h => Or.inl h, rfl, rfl, rfl, rfl, rfl⟩
  | _ => cases hop

theorem Attributed.signed (h : Attributed cfg foreign w) (hdue : MintDue cfg w job)
    (he : SignEffect job w w') : Attributed cfg foreign w' := by
  have hrows : ∀ v : World, Attributed cfg foreign v → v.deposits = w'.deposits →
      v.intents = w.intents → v.nextIndex = w.nextIndex → v.fair = w.fair →
      v.mintQueue = w.mintQueue → Attributed cfg foreign w' := by
    intro v hv hd hi hn hf hq
    have hist : History w v := ⟨fun x hx => hf ▸ hx, fun r hr => hi ▸ hr⟩
    refine hv.aside hd.symm (he.intents.trans hi.symm) (by rw [he.nextIndex, hn]) ?_ ?_ ?_ ?_ ?_
    · rw [he.fair, hf]
      exact fun _ hx => hx
    · rw [he.addressCache]
      exact h.cached
    · rw [he.fair, hi]
      exact h.paid
    · rw [he.mintQueue]
      exact fun j hj => (h.jobs j hj).later hist
    · intro c hc
      cases he.calls c hc with
      | inl hold =>
          obtain ⟨old, hold, hargs⟩ := h.calls c hold
          exact ⟨old, hold.later hist, hargs⟩
      | inr hargs => exact ⟨job, hdue.later hist, hargs⟩
  cases he.deposits with
  | inl hsame => exact hrows w h hsame.symm rfl rfl rfl rfl
  | inr hset =>
      obtain ⟨id, d, u, hd, hu, hset⟩ := hset
      exact hrows (w.setDeposit id u) (h.file hd hu) hset.symm rfl rfl rfl rfl

/-- A new intent is answered. -/
theorem Attributed.respond (h : Attributed cfg foreign w) {r : DepositIntent}
    (hder : deriveDepositAddress cfg r.hdIndex = .ok r.fairAddress)
    (hlt : r.hdIndex < w.nextIndex) (hnew : ∀ x ∈ w.intents, x.hdIndex ≠ r.hdIndex)
    (hrow : ∃ d ∈ w.deposits.docs, d.fairAddress = r.fairAddress ∧
      d.baseAddress = r.baseAddress ∧ d.hdIndex = r.hdIndex) :
    Attributed cfg foreign { w with intents := w.intents ++ [r] } := by
  have hist : History w { w with intents := w.intents ++ [r] } :=
    ⟨fun _ h => h, fun _ hx => List.mem_append_left _ hx⟩
  refine ⟨?_, ?_, h.rows, h.owners, ?_, h.cached, ?_, h.unmatched, ?_, ?_, ?_⟩
  · intro x hx
    cases List.mem_append.mp hx with
    | inl hx => exact h.derived x hx
    | inr hx =>
        rw [List.mem_singleton.mp hx]
        exact ⟨hder, hlt⟩
  · rw [List.map_append, List.nodup_append]
    refine ⟨h.distinct, List.nodup_singleton _, ?_⟩
    intro a ha b hb
    obtain ⟨x, hx, rfl⟩ := List.mem_map.mp ha
    rw [List.mem_singleton.mp hb]
    exact hnew x hx
  · intro x hx
    cases List.mem_append.mp hx with
    | inl hx => exact h.intentRows x hx
    | inr hx =>
        rw [List.mem_singleton.mp hx]
        exact hrow
  · intro x hx a ha
    cases h.paid x hx a ha with
    | inl hf => exact Or.inl hf
    | inr hr =>
        obtain ⟨y, hy, hya⟩ := hr
        exact Or.inr ⟨y, List.mem_append_left _ hy, hya⟩
  · exact fun d hd hst job hjob => (h.due d hd hst job hjob).later hist
  · exact fun j hj => (h.jobs j hj).later hist
  · intro c hc
    obtain ⟨job, hdue, hargs⟩ := h.calls c hc
    exact ⟨job, hdue.later hist, hargs⟩

/-- The rows at the address of an intent are its owner's. -/
theorem Attributed.owner (h : Attributed cfg foreign w) {r : DepositIntent}
    (hr : r ∈ w.intents) (hd : d ∈ w.deposits.docs) (ha : d.fairAddress = r.fairAddress) :
    d.baseAddress = r.baseAddress ∧ d.hdIndex = r.hdIndex := by
  obtain ⟨e, he, hea, heb, hei⟩ := h.intentRows r hr
  obtain ⟨hb, hi⟩ := h.owners d hd e he (ha.trans hea.symm)
  exact ⟨hb.trans heb, hi.trans hei⟩

theorem DepositDoc.job_some (h : d.job = some job) :
    job.baseAddress = d.baseAddress ∧ job.amountWei = d.amountWei ∧
      d.fairTxid = some job.fairTxid ∧ d.fairVout = some job.fairVout := by
  cases htxid : d.fairTxid with
  | none => simp [DepositDoc.job, htxid] at h
  | some txid =>
      cases hvout : d.fairVout with
      | none => simp [DepositDoc.job, htxid, hvout] at h
      | some n =>
          simp only [DepositDoc.job, htxid, hvout, Option.bind_eq_bind, Option.bind_some] at h
          split at h
          · cases h
          · cases h
            exact ⟨rfl, rfl, rfl, rfl⟩

/-- The environment adds payments to known addresses, and may forget the cache. -/
theorem Attributed.occur (h : Attributed cfg foreign w) {e : EnvEvent}
    (hf : (attributionFaults foreign).env e w = true) (he : e.occur w = some w') :
    Attributed cfg foreign w' ∧ w'.deposits = w.deposits ∧ w'.intents = w.intents ∧
      w'.nextIndex = w.nextIndex ∧ ∀ x ∈ w.fair.vouts, x ∈ w'.fair.vouts := by
  have hsame : w'.deposits = w.deposits → w'.intents = w.intents →
      w'.nextIndex = w.nextIndex → w'.fair.blocks = w.fair.blocks →
      (∀ a ∈ w'.addressCache, a ∈ w.addressCache) → w'.mintQueue = w.mintQueue →
      w'.mintCalls = w.mintCalls →
      Attributed cfg foreign w' ∧ w'.deposits = w.deposits ∧ w'.intents = w.intents ∧
        w'.nextIndex = w.nextIndex ∧ ∀ x ∈ w.fair.vouts, x ∈ w'.fair.vouts := by
    intro hd hi hn hb hc hq hm
    have hv : w'.fair.vouts = w.fair.vouts := congrArg (List.flatMap Block.vouts) hb
    have hold : ∀ x ∈ w.fair.vouts, x ∈ w'.fair.vouts := fun _ hx => hv ▸ hx
    refine ⟨h.aside hd hi (Nat.le_of_eq hn.symm) hold ?_ ?_ ?_ ?_, hd, hi, hn, hold⟩
    · exact fun a ha => h.cached a (hc a ha)
    · exact fun x hx => h.paid x (hv ▸ hx)
    · exact fun j hj => h.jobs j (hq ▸ hj)
    · exact fun c hc => h.calls c (hm ▸ hc)
  cases e with
  | wait _ | transactionKnown _ _ | credit _ | masternodes _ | abort | serveFirst _ | market _ =>
      cases he
      exact hsame rfl rfl rfl rfl (fun _ h => h) rfl rfl
  | restart =>
      cases he
      exact hsame rfl rfl rfl rfl (fun _ h => by cases h) rfl rfl
  | mine _ _ | foreignReceipt _ _ | baseBlock _ | confirm _ | order _ _ | quote _ =>
      simp only [EnvEvent.occur] at he
      split at he <;> cases he
      exact hsame rfl rfl rfl rfl (fun _ h => h) rfl rfl
  | intent _ _ _ _ => cases hf
  | fairBlock b =>
      simp only [EnvEvent.occur] at he
      split at he <;> cases he
      have hvouts : ∀ x ∈ w.fair.vouts, x ∈ (w.fair.blocks ++ [b]).flatMap Block.vouts := by
        intro x hx
        rw [List.flatMap_append]
        exact List.mem_append_left _ hx
      refine ⟨h.aside rfl rfl (Nat.le_refl _) hvouts h.cached ?_ h.jobs h.calls, rfl, rfl, rfl,
        hvouts⟩
      intro x hx a ha
      change x ∈ (w.fair.blocks ++ [b]).flatMap Block.vouts at hx
      rw [List.flatMap_append, List.mem_append] at hx
      cases hx with
      | inl hold => exact h.paid x hold a ha
      | inr hnew =>
          simp only [attributionFaults, List.all_eq_true, List.flatMap_singleton] at hf hnew
          have hx := hf x hnew
          rw [ha] at hx
          simpa using hx

end Books

namespace Attribution

/-- `s.2 n` is the index the `n`-th request has in hand. -/
structure Allotted (cfg : Config) (foreign : String → Bool)
    (s : World × (Nat → Option Nat)) : Prop extends Attributed cfg foreign s.1 where
  reserved : ∀ n i, s.2 n = some i → i < s.1.nextIndex ∧ ∀ r ∈ s.1.intents, r.hdIndex ≠ i
  apart : ∀ n m i, s.2 n = some i → s.2 m = some i → n = m

/-- No row has the index. -/
def Untaken (w : World) (i : Nat) : Prop := ∀ d ∈ w.deposits.docs, d.hdIndex ≠ i

/-- What a slot relies on: rows keep their owners, for the watcher also their vouts;
an index in hand stays there, and nobody else uses it. -/
structure Around (i : AttributionSlot) (s t : World × (Nat → Option Nat)) : Prop
    extends History s.1 t.1 where
  owners : ∀ id d, s.1.deposits.get id = some d → ∃ e, t.1.deposits.get id = some e ∧
    e.fairAddress = d.fairAddress ∧ e.baseAddress = d.baseAddress ∧ e.hdIndex = d.hdIndex ∧
    (i = .watcher → e.fairTxid = d.fairTxid)
  mine : ∀ n, i = .request n → t.2 n = s.2 n ∧
    ∀ k, s.2 n = some k → Untaken s.1 k → Untaken t.1 k

section Around
variable {i : AttributionSlot} {s t : World × (Nat → Option Nat)}

theorem Around.refl (i : AttributionSlot) (s : World × (Nat → Option Nat)) : Around i s s :=
  ⟨.refl s.1, fun _ d hd => ⟨d, hd, rfl, rfl, rfl, fun _ => rfl⟩,
    fun _ _ => ⟨rfl, fun _ _ h => h⟩⟩

theorem Around.trans {u : World × (Nat → Option Nat)} (h : Around i s t) (h' : Around i t u) :
    Around i s u := by
  refine ⟨h.toHistory.trans h'.toHistory, ?_, ?_⟩
  · intro id d hd
    obtain ⟨e, he, ha, hb, hi, hx⟩ := h.owners id d hd
    obtain ⟨e', he', ha', hb', hi', hx'⟩ := h'.owners id e he
    exact ⟨e', he', ha'.trans ha, hb'.trans hb, hi'.trans hi,
      fun hw => (hx' hw).trans (hx hw)⟩
  · intro n hn
    obtain ⟨hkeep, hfree⟩ := h.mine n hn
    obtain ⟨hkeep', hfree'⟩ := h'.mine n hn
    exact ⟨hkeep'.trans hkeep, fun k hk hu => hfree' k (hkeep ▸ hk) (hfree k hk hu)⟩

/-- The step has to do neither with rows nor with the slot's own index. -/
theorem Around.aside (hd : t.1.deposits = s.1.deposits) (hh : History s.1 t.1)
    (h : ∀ n, i = .request n → t.2 n = s.2 n) : Around i s t := by
  refine ⟨hh, ?_, fun n hn => ⟨h n hn, fun _ _ hu => ?_⟩⟩
  · intro id d hget
    exact ⟨d, hd ▸ hget, rfl, rfl, rfl, fun _ => rfl⟩
  · rw [Untaken, hd]
    exact hu

theorem Around.setDeposit {w : World} {m : Nat → Option Nat} (id : ObjectId) {u : DepositSet}
    (hu : i = .watcher → u.fairTxid = none) : Around i (w, m) (w.setDeposit id u, m) := by
  refine ⟨⟨fun _ h => h, fun _ h => h⟩, ?_, fun n _ => ⟨rfl, fun k _ hfree e he => ?_⟩⟩
  · intro j d hd
    by_cases hj : j = id
    · subst hj
      refine ⟨_, World.get_setDeposit hd u, rfl, rfl, rfl, fun hi => ?_⟩
      simp [DepositSet.apply, hu hi]
    · exact ⟨d, (Collection.get_modify_other _ u hj).trans hd, rfl, rfl, rfl, fun _ => rfl⟩
  · obtain ⟨d, hd, _, _, hidx⟩ := mem_setDeposit_owner he
    rw [hidx]
    exact hfree d hd

theorem Around.insertDeposit {w : World} {m : Nat → Option Nat} {d : DepositDoc}
    (h : ∀ n k, i = .request n → m n = some k → d.hdIndex ≠ k) :
    Around i (w, m) (w.insertDeposit d, m) := by
  refine ⟨⟨fun _ h => h, fun _ h => h⟩, ?_, fun n hn => ⟨rfl, fun k hk hfree e he => ?_⟩⟩
  · intro id e he
    exact ⟨e, World.get_insertDeposit_old he, rfl, rfl, rfl, fun _ => rfl⟩
  · cases List.mem_append.mp he with
    | inl he => exact hfree e he
    | inr he =>
        rw [List.mem_singleton.mp he]
        exact h n k hn hk

end Around

theorem Allotted.same {cfg : Config} {foreign : String → Bool}
    {s t : World × (Nat → Option Nat)} (h : Allotted cfg foreign s)
    (ha : Attributed cfg foreign t.1) (hi : t.1.intents = s.1.intents)
    (hn : t.1.nextIndex = s.1.nextIndex) (hm : t.2 = s.2) : Allotted cfg foreign t := by
  refine ⟨ha, ?_, hm ▸ h.apart⟩
  rw [hi, hn, hm]
  exact h.reserved

def attributionRules (cfg : Config) (foreign : String → Bool) :
    Rules (service cfg (attributionFaults foreign)) (World × (Nat → Option Nat)) where
  world s := s.1
  inv := Allotted cfg foreign
  rely := Around
  guar i s t := ∀ j, i ≠ j → Around j s t
  rest _ _ := True
  hist _ _ := True
  rely_refl := Around.refl
  rely_trans h h' := h.trans h'
  guar_refl _ s _ _ := .refl _ s
  guar_rely hne _ _ h := h _ hne
  rest_stable _ _ _ _ := trivial
  hist_refl _ := trivial
  hist_trans _ _ := trivial
  guar_hist _ _ _ := trivial
  env_step {e s w} hi he := by
    obtain ⟨hf, hocc⟩ := service_env he
    obtain ⟨ha, hd, hr, hn, hv⟩ := hi.toAttributed.occur hf hocc
    exact ⟨(w, s.2), rfl, hi.same ha hr hn rfl, trivial,
      fun _ => .aside hd ⟨hv, fun _ h => hr ▸ h⟩ fun _ _ => rfl⟩

section Run
variable {cfg : Config} {foreign : String → Bool}

/-- A step that leaves the rows, the answers and the indices alone. -/
theorem Allotted.aside {s : World × (Nat → Option Nat)} (h : Allotted cfg foreign s) {w : World}
    {i : AttributionSlot} (ha : Attributed cfg foreign w) (hd : w.deposits = s.1.deposits)
    (hi : w.intents = s.1.intents) (hn : w.nextIndex = s.1.nextIndex) (hf : w.fair = s.1.fair) :
    Allotted cfg foreign (w, s.2) ∧ (attributionRules cfg foreign).guar i s (w, s.2) :=
  ⟨h.same ha hi hn rfl, fun _ _ => .aside hd ⟨fun _ hx => hf ▸ hx, fun _ hr => hi ▸ hr⟩
    fun _ _ => rfl⟩

/-- A run of the signer. Its job is one of the queue's. -/
theorem attribution_signMint (mode : MintAuthMode) (job : MintJob) (n : Nat) :
    (attributionRules cfg foreign).Triple (.signer n) (fun s => MintDue cfg s.1 job)
      (signMint { cfg with mintAuthMode := mode } job)
      (fun _ s => MintDue cfg s.1 job) (fun _ s => MintDue cfg s.1 job) := by
  refine .harmless signMint_signs (fun _ _ _ _ hst h => h.later hst.toHistory)
    (fun _ _ _ => trivial) ?_
  intro β op hop s out r w hi hdue _ _ hans
  have heff : SignEffect job s.1 w := .answer hop hans
  have ha : Attributed cfg foreign w := hi.toAttributed.signed hdue heff
  have hist : History s.1 w := ⟨fun _ hx => heff.fair ▸ hx, fun _ hr => heff.intents ▸ hr⟩
  refine ⟨(w, s.2), rfl, hi.same ha heff.intents heff.nextIndex rfl, ?_, hdue.later hist⟩
  intro j _
  cases heff.deposits with
  | inl hsame => exact .aside hsame hist fun _ _ => rfl
  | inr hset =>
      obtain ⟨id, d, u, hd, hu, hset⟩ := hset
      refine (Around.setDeposit (w := s.1) (m := s.2) id fun _ => hu.txid).trans ?_
      exact .aside hset ⟨hist.vouts, hist.intents⟩ fun _ _ => rfl

/-- The index is in hand, and no row has it yet. -/
def Holding (n i : Nat) (s : World × (Nat → Option Nat)) : Prop :=
  s.2 n = some i ∧ Untaken s.1 i

/-- Its row is there. -/
def Posted (n i : Nat) (address : String) (baseAddress : Address)
    (s : World × (Nat → Option Nat)) : Prop :=
  s.2 n = some i ∧ ∃ d ∈ s.1.deposits.docs, d.fairAddress = address ∧
    d.baseAddress = baseAddress ∧ d.hdIndex = i

theorem Holding.stable (n i : Nat) :
    (attributionRules cfg foreign).Stable (.request n) (Holding n i) := by
  intro s t _ _ hst h
  obtain ⟨hkeep, hfree⟩ := hst.mine n rfl
  exact ⟨hkeep.trans h.1, hfree i h.1 h.2⟩

theorem Posted.stable (n i : Nat) (address : String) (baseAddress : Address) :
    (attributionRules cfg foreign).Stable (.request n) (Posted n i address baseAddress) := by
  intro s t _ _ hst h
  obtain ⟨hres, d, hd, ha, hb, hi⟩ := h
  obtain ⟨e, he, ha', hb', hi', _⟩ := hst.owners _ d (Collection.get_of_mem hd)
  exact ⟨(hst.mine n rfl).1.trans hres, e, Collection.get_mem he, ha'.trans ha, hb'.trans hb,
    hi'.trans hi⟩

theorem update_cases {f : Nat → Option Nat} {n m i k : Nat}
    (h : Function.update f n (some i) m = some k) : m = n ∧ i = k ∨ m ≠ n ∧ f m = some k := by
  by_cases hm : m = n
  · subst hm
    rw [Function.update_self] at h
    exact Or.inl ⟨rfl, Option.some.inj h⟩
  · rw [Function.update_of_ne hm] at h
    exact Or.inr ⟨hm, h⟩

/-- The counter gives out an index that nobody has. -/
theorem performs_incNextIndex (n : Nat) :
    (attributionRules cfg foreign).Performs (.request n) (fun _ => True) .incNextIndex
      (Answered (fun updated => Holding n (updated - 1)) fun _ => True) := by
  refine performs (fun s _ hi _ _ _ => ⟨s, rfl, hi, fun j _ => .refl j s, trivial⟩) ?_
  intro s x w out hi _ _ hx
  cases hx
  have ha : Attributed cfg foreign { s.1 with nextIndex := s.1.nextIndex + 1 } :=
    hi.toAttributed.aside rfl rfl (Nat.le_succ _) (fun _ h => h) hi.cached hi.paid hi.jobs hi.calls
  have hlt : ∀ m i, s.2 m = some i → i ≠ s.1.nextIndex :=
    fun m i h => Nat.ne_of_lt (hi.reserved m i h).1
  refine ⟨({ s.1 with nextIndex := s.1.nextIndex + 1 },
    Function.update s.2 n (some s.1.nextIndex)), rfl, ⟨ha, ?_, ?_⟩, ?_, ?_, fun _ _ _ => trivial⟩
  · intro m i hm
    cases update_cases hm with
    | inl hnew =>
        obtain ⟨_, rfl⟩ := hnew
        exact ⟨Nat.lt_succ_self _, fun r hr => Nat.ne_of_lt (hi.derived r hr).2⟩
    | inr hold =>
        obtain ⟨hlt, hfree⟩ := hi.reserved m i hold.2
        exact ⟨Nat.lt_succ_of_lt hlt, hfree⟩
  · intro m m' i hm hm'
    cases update_cases hm with
    | inl hnew =>
        cases update_cases hm' with
        | inl hnew' => exact hnew.1.trans hnew'.1.symm
        | inr hold' => exact absurd hnew.2.symm (hlt m' i hold'.2)
    | inr hold =>
        cases update_cases hm' with
        | inl hnew' => exact absurd hnew'.2.symm (hlt m i hold.2)
        | inr hold' => exact hi.apart m m' i hold.2 hold'.2
  · intro j hj
    refine .aside rfl ⟨fun _ h => h, fun _ h => h⟩ ?_
    intro m hm
    exact Function.update_of_ne (fun hmn => hj (by rw [hm, hmn])) ..
  · intro _
    refine ⟨Function.update_self .., ?_⟩
    intro d hd
    obtain ⟨i, hdi, hlt, _⟩ := hi.rows d hd
    change d.hdIndex ≠ ((s.1.nextIndex + 1 - 1 : Nat) : Int)
    omega

theorem attribution_getNextIndex (n : Nat) :
    (attributionRules cfg foreign).Triple (.request n) (fun _ => True) getNextIndex (Holding n)
      (fun _ _ => True) := by
  refine .bind (M := fun updated => Holding n (updated - 1)) ?_ ?_
  · exact .step (fun _ _ _ _ _ _ => trivial) (fun _ _ _ => trivial) (performs_incNextIndex n)
      fun _ => Holding.stable n _
  · exact fun updated => .pure (Holding.stable n _) fun _ _ h => h

/-- Its address is derived from the index alone. -/
theorem attribution_allocate (n : Nat) :
    (attributionRules cfg foreign).Triple (.request n) (fun _ => True)
      (allocateNextDepositAddress cfg)
      (fun x s => Holding n x.1 s ∧ deriveDepositAddress cfg x.1 = .ok x.2)
      (fun _ _ => True) := by
  have hstable : ∀ index address, (attributionRules cfg foreign).Stable (.request n)
      fun s => Holding n index s ∧ deriveDepositAddress cfg index = .ok address :=
    fun index _ s t hs ht hst h => ⟨Holding.stable n index s t hs ht hst h.1, h.2⟩
  refine .bind (attribution_getNextIndex n) ?_
  intro index
  refine .bind (M := fun address s => Holding n index s ∧
    deriveDepositAddress cfg index = .ok address) ?_ ?_
  · exact .ofExcept (Holding.stable n index) (fun address ha _ _ h => ⟨h, ha⟩)
      fun _ _ _ => trivial
  · intro address
    refine .bind (M := fun _ s => Holding n index s ∧
      deriveDepositAddress cfg index = .ok address) ?_ fun _ => .pure (hstable _ _) fun _ _ h => h
    refine .step (hstable _ _) (fun _ _ _ => trivial) ?_ fun _ => hstable _ _
    refine performs (fun s _ hi _ _ _ => ⟨s, rfl, hi, fun j _ => .refl j s, trivial⟩) ?_
    intro s x w out hi h _ hx
    cases hx
    have ha : Attributed cfg foreign { s.1 with addressCache := address :: s.1.addressCache } := by
      refine hi.toAttributed.aside rfl rfl (Nat.le_refl _) (fun _ h => h) ?_ hi.paid hi.jobs hi.calls
      intro a ha
      cases List.mem_cons.mp ha with
      | inl ha => exact ⟨index, ha ▸ h.2⟩
      | inr ha => exact hi.cached a ha
    obtain ⟨hit, hg⟩ := hi.aside (i := .request n) ha rfl rfl rfl rfl
    exact ⟨_, rfl, hit, hg, fun _ => h, fun _ _ _ => trivial⟩

theorem performs_createIntent
    (hinj : ∀ i j a, deriveDepositAddress cfg i = .ok a → deriveDepositAddress cfg j = .ok a →
      i = j) (n : Nat) {index : Nat} {address : String} (baseAddress : Address)
    (clientIp : Option String) (hder : deriveDepositAddress cfg index = .ok address) :
    (attributionRules cfg foreign).Performs (.request n) (Holding n index)
      (.deposit (.create { baseAddress, fairAddress := address, hdIndex := index, clientIp }))
      (Answered (fun _ => Posted n index address baseAddress) fun _ => True) := by
  refine Deposit.performs_create (fun s hi h _ => ?_) fun _ _ _ => trivial
  set d : DepositDoc := { baseAddress, fairAddress := address, hdIndex := index, clientIp }
  have ha : Attributed cfg foreign (s.1.insertDeposit d) := by
    refine hi.toAttributed.insertDeposit ⟨index, rfl, (hi.reserved n index h.1).1, hder⟩ ?_
      (fun _ => rfl) fun hst => by cases hst
    intro e he hea
    obtain ⟨i, hei, _, hderi⟩ := hi.rows e he
    have hea : e.fairAddress = address := hea
    have hie : i = index := hinj i index address (hea ▸ hderi) hder
    exact absurd (hie ▸ hei) (h.2 e he)
  refine ⟨(s.1.insertDeposit d, s.2), rfl, hi.same ha rfl rfl rfl, ?_,
    ⟨h.1, _, Collection.get_mem (World.get_insertDeposit_new s.1 d), rfl, rfl, rfl⟩, trivial⟩
  intro j hj
  refine .insertDeposit fun m k hm hk hidx => hj ?_
  have hik : index = k := Int.ofNat_inj.mp hidx
  rw [hm, hi.apart n m k (hik ▸ h.1) hk]

theorem performs_respondIntent (n : Nat) {index : Nat} {address : String}
    (baseAddress : Address) (hder : deriveDepositAddress cfg index = .ok address) :
    (attributionRules cfg foreign).Performs (.request n)
      (Posted n index address baseAddress) (.respondIntent ⟨address, baseAddress, index⟩)
      (Answered (fun _ _ => True) fun _ => True) := by
  refine performs (fun s _ hi _ _ _ => ⟨s, rfl, hi, fun j _ => .refl j s, trivial⟩) ?_
  intro s x w out hi h _ hx
  cases hx
  obtain ⟨hres, hrow⟩ := h
  obtain ⟨hlt, hnew⟩ := hi.reserved n index hres
  have ha := hi.toAttributed.respond (r := ⟨address, baseAddress, index⟩) hder hlt hnew hrow
  have hkept : ∀ m k, Function.update s.2 n none m = some k → m ≠ n ∧ s.2 m = some k := by
    intro m k hm
    by_cases hmn : m = n
    · rw [hmn, Function.update_self] at hm
      cases hm
    · exact ⟨hmn, (Function.update_of_ne hmn ..).symm.trans hm⟩
  refine ⟨(_, Function.update s.2 n none), rfl, ⟨ha, ?_, ?_⟩, ?_, fun _ => trivial,
    fun _ _ _ => trivial⟩
  · intro m k hm
    obtain ⟨hmn, hm⟩ := hkept m k hm
    refine ⟨(hi.reserved m k hm).1, ?_⟩
    intro r hr
    cases List.mem_append.mp hr with
    | inl hr => exact (hi.reserved m k hm).2 r hr
    | inr hr =>
        rw [List.mem_singleton.mp hr]
        intro hik
        have hik : index = k := hik
        exact hmn (hi.apart m n k hm (hik ▸ hres))
  · intro m m' k hm hm'
    exact hi.apart m m' k (hkept m k hm).2 (hkept m' k hm').2
  · intro j hj
    refine .aside rfl ⟨fun _ h => h, fun _ hr => List.mem_append_left _ hr⟩ ?_
    intro m hm
    exact Function.update_of_ne (fun hmn => hj (by rw [hm, hmn])) ..

theorem attribution_createIntent
    (hinj : ∀ i j a, deriveDepositAddress cfg i = .ok a → deriveDepositAddress cfg j = .ok a →
      i = j) (n : Nat) (baseAddress : Address) (clientIp : Option String) :
    (attributionRules cfg foreign).Triple (.request n) (fun _ => True)
      (createIntent cfg baseAddress clientIp) (fun _ _ => True) (fun _ _ => True) := by
  have htrue : (attributionRules cfg foreign).Stable (.request n) fun _ => True :=
    fun _ _ _ _ _ h => h
  refine .bind (attribution_allocate n) ?_
  intro x
  refine .fact (fun _ _ h => h.2) fun hder => ?_
  refine .bind (M := fun _ => Posted n x.1 x.2 baseAddress) ?_ ?_
  · refine Triple.pre (P := Holding n x.1) ?_ fun _ _ h => h.1
    exact .step (Holding.stable n x.1) (fun _ _ _ => trivial)
      (performs_createIntent hinj n baseAddress clientIp hder) fun _ => Posted.stable n _ _ _
  · exact fun _ => .step (Posted.stable n _ _ _) (fun _ _ _ => trivial)
      (performs_respondIntent n baseAddress hder) fun _ => htrue

theorem attribution_postIntent
    (hinj : ∀ i j a, deriveDepositAddress cfg i = .ok a → deriveDepositAddress cfg j = .ok a →
      i = j) (n : Nat) (baseAddress : Address) (clientIp : Option String) :
    (attributionRules cfg foreign).Triple (.request n) (fun _ => True)
      (postIntent cfg baseAddress clientIp) (fun _ _ => True) (fun _ _ => True) := by
  have htrue : (attributionRules cfg foreign).Stable (.request n) fun _ => True :=
    fun _ _ _ _ _ h => h
  rw [postIntent]
  split
  · refine .bind (M := fun _ _ => True) ?_ ?_
    · exact .step htrue (fun _ _ _ => trivial)
        (Deposit.performs_find (fun _ _ _ _ _ => trivial) fun _ _ _ => trivial) fun _ => htrue
    · intro rows
      split
      · exact .pure htrue fun _ _ h => h
      · exact attribution_createIntent hinj n baseAddress clientIp
  · exact attribution_createIntent hinj n baseAddress clientIp

variable {v : ScannedVout}

/-- The vout is there. -/
def Paid (v : ScannedVout) (s : World × (Nat → Option Nat)) : Prop :=
  (v.txid, v.vout) ∈ s.1.fair.vouts

/-- It pays the address of an intent. -/
def PaidTo (v : ScannedVout) (r : DepositIntent) (s : World × (Nat → Option Nat)) : Prop :=
  Paid v s ∧ r ∈ s.1.intents ∧ voutAddress v.vout = some r.fairAddress

/-- What was read at the address has the intent's owner. -/
structure MatchedTo (v : ScannedVout) (r : DepositIntent) (m : MatchedDeposit)
    (s : World × (Nat → Option Nat)) : Prop where
  paid : PaidTo v r s
  fairAddress : m.fairAddress = r.fairAddress
  amount : m.amountSats = fairValueToSats v.vout.value
  origin : ∃ o, m.origin = some o ∧ o.baseAddress = r.baseAddress ∧ o.hdIndex = r.hdIndex
  pending : ∀ p, m.pending = some p → ∃ d, s.1.deposits.get p.id = some d ∧
    d.fairTxid = none ∧ d.baseAddress = r.baseAddress

/-- A job for the deposit is due. -/
def DueAt (cfg : Config) (v : ScannedVout) (m : MatchedDeposit) (id : ObjectId) (n : Int)
    (s : World × (Nat → Option Nat)) : Prop :=
  ∀ origin, m.origin = some origin → MintDue cfg s.1 (v.job id origin n)

theorem Paid.later {s t : World × (Nat → Option Nat)} (h : Paid v s)
    (hst : History s.1 t.1) : Paid v t := hst.vouts _ h

theorem PaidTo.later {r : DepositIntent} {s t : World × (Nat → Option Nat)} (h : PaidTo v r s)
    (hst : History s.1 t.1) : PaidTo v r t :=
  ⟨h.1.later hst, hst.intents r h.2.1, h.2.2⟩

theorem MatchedTo.stable (v : ScannedVout) (m : MatchedDeposit) :
    (attributionRules cfg foreign).Stable .watcher fun s => ∃ r, MatchedTo v r m s := by
  intro s t _ _ hst h
  obtain ⟨r, h⟩ := h
  refine ⟨r, h.paid.later hst.toHistory, h.fairAddress, h.amount, h.origin, ?_⟩
  intro p hp
  obtain ⟨d, hd, hnone, hbase⟩ := h.pending p hp
  obtain ⟨e, he, _, hb, _, hx⟩ := hst.owners _ d hd
  exact ⟨e, he, (hx rfl).trans hnone, hb.trans hbase⟩

theorem DueAt.stable (v : ScannedVout) (m : MatchedDeposit) (id : ObjectId) (n : Int) :
    (attributionRules cfg foreign).Stable .watcher (DueAt cfg v m id n) :=
  fun _ _ _ _ hst h origin ho => (h origin ho).later hst.toHistory

/-- What the deposit is minted for. -/
theorem MatchedTo.due {r : DepositIntent} {m : MatchedDeposit}
    {s : World × (Nat → Option Nat)} (h : MatchedTo v r m s) {job : MintJob}
    (hbase : job.baseAddress = r.baseAddress) (htxid : job.fairTxid = v.txid)
    (hvout : job.fairVout = v.vout.n)
    (hfee : applyFee (m.amountSats * satsToWei) cfg.bridgeFeeBps = .ok job.amountWei) :
    MintDue cfg s.1 job :=
  ⟨_, h.paid.1, r, h.paid.2.1, h.paid.2.2, hbase, htxid, hvout, h.amount ▸ hfee⟩

/-- What its row says is due. -/
theorem MatchedTo.due_row {r : DepositIntent} {m : MatchedDeposit}
    {s : World × (Nat → Option Nat)} (h : MatchedTo v r m s) {n : Int}
    (hfee : applyFee (m.amountSats * satsToWei) cfg.bridgeFeeBps = .ok n) {d : DepositDoc}
    {job : MintJob} (hjob : d.job = some job) (hbase : d.baseAddress = r.baseAddress)
    (hwei : d.amountWei = n) (htxid : d.fairTxid = some v.txid)
    (hvout : d.fairVout = some v.vout.n) : MintDue cfg s.1 job := by
  obtain ⟨hb, hw, hx, hn⟩ := DepositDoc.job_some hjob
  refine h.due (hb.trans hbase) (Option.some.inj (hx.symm.trans htxid))
    (Option.some.inj (hn.symm.trans hvout)) ?_
  rw [hw, hwei]
  exact hfee

theorem MatchedTo.dueAt {r : DepositIntent} {m : MatchedDeposit}
    {s : World × (Nat → Option Nat)} (h : MatchedTo v r m s) {n : Int}
    (hfee : applyFee (m.amountSats * satsToWei) cfg.bridgeFeeBps = .ok n) (id : ObjectId) :
    DueAt cfg v m id n s := by
  intro origin ho
  obtain ⟨o, ho', hbase, _⟩ := h.origin
  cases ho.symm.trans ho'
  exact h.due hbase rfl rfl hfee

/-- The watcher updates an intent. -/
theorem Allotted.set {s : World × (Nat → Option Nat)} (hi : Allotted cfg foreign s)
    {id : ObjectId} {d : DepositDoc} (hd : s.1.deposits.get id = some d) {u : DepositSet}
    (hopen : (u.apply d).isOpen = false)
    (hdue : (u.apply d).status = .confirmed → ∀ job, (u.apply d).job = some job →
      MintDue cfg s.1 job) :
    Allotted cfg foreign (s.1.setDeposit id u, s.2) ∧
      (attributionRules cfg foreign).guar .watcher s (s.1.setDeposit id u, s.2) :=
  ⟨hi.same (hi.toAttributed.setDeposit hd (fun h => by rw [hopen] at h; cases h) hdue) rfl rfl rfl,
    fun _ hj => .setDeposit id fun hw => absurd hw.symm hj⟩

/-- The watcher adds a row for the owner of an intent. -/
theorem Allotted.insert {s : World × (Nat → Option Nat)} (hi : Allotted cfg foreign s)
    {r : DepositIntent} (hr : r ∈ s.1.intents) {d : DepositDoc}
    (haddr : d.fairAddress = r.fairAddress) (hbase : d.baseAddress = r.baseAddress)
    (hidx : d.hdIndex = r.hdIndex) (hopen : d.isOpen = false)
    (hdue : d.status = .confirmed → ∀ id now job,
      ({ d with id := id, createdAt := now } : DepositDoc).job = some job →
      MintDue cfg s.1 job) :
    Allotted cfg foreign (s.1.insertDeposit d, s.2) ∧
      (attributionRules cfg foreign).guar .watcher s (s.1.insertDeposit d, s.2) := by
  obtain ⟨hder, hlt⟩ := hi.derived r hr
  refine ⟨hi.same (hi.toAttributed.insertDeposit ⟨r.hdIndex, hidx, hlt, haddr ▸ hder⟩ ?_
    (fun h => by rw [hopen] at h; cases h) hdue) rfl rfl rfl, ?_⟩
  · intro e he hea
    obtain ⟨hb, hi'⟩ := hi.toAttributed.owner hr he (hea.trans haddr)
    exact ⟨hb.trans hbase.symm, hi'.trans hidx.symm⟩
  · intro j _
    refine .insertDeposit fun n k _ hk hdk => ?_
    exact (hi.reserved n k hk).2 r hr (Int.ofNat_inj.mp (hidx.symm.trans hdk))

theorem MatchedTo.unmatched {r : DepositIntent} {m : MatchedDeposit}
    {s : World × (Nat → Option Nat)} (h : MatchedTo v r m s) {p d : DepositDoc}
    (hp : m.pending = some p) (hd : s.1.deposits.get p.id = some d) : d.fairTxid = none := by
  obtain ⟨e, he, hnone, _⟩ := h.pending p hp
  cases he.symm.trans hd
  exact hnone

def voutOutline (hforeign : ∀ a i, foreign a = true → deriveDepositAddress cfg i ≠ .ok a)
    (v : ScannedVout) : CreditOutline (attributionRules cfg foreign) .watcher v where
  base := Paid v
  done _ := True
  known a s := ∃ r, PaidTo v r s ∧ r.fairAddress = a
  matched m s := ∃ r, MatchedTo v r m s
  clocked m _ s := ∃ r, MatchedTo v r m s
  summed m _ s := ∃ r, MatchedTo v r m s
  within m s := ∃ r, MatchedTo v r m s
  confirmed := DueAt cfg v
  base_stable _ _ _ _ hst h := h.later hst.toHistory
  done_stable _ _ _ _ _ h := h
  known_stable _ _ _ _ _ hst h := by
    obtain ⟨r, h, ha⟩ := h
    exact ⟨r, h.later hst.toHistory, ha⟩
  matched_stable := MatchedTo.stable v
  clocked_stable m _ := MatchedTo.stable v m
  summed_stable m _ := MatchedTo.stable v m
  within_stable := MatchedTo.stable v
  confirmed_stable := DueAt.stable v
  rest _ := trivial
  summed_matched _ _ _ _ h := h
  within_matched _ _ _ h := h
  unaddressed _ _ _ _ := trivial
  address a ha s hi h := by
    obtain ⟨hit, hg⟩ := hi.aside (w := s.1.lookUp a v.key) (i := .watcher)
      (hi.toAttributed.aside rfl rfl (Nat.le_refl _) (fun _ h => h) hi.cached hi.paid hi.jobs hi.calls)
      rfl rfl rfl rfl
    refine ⟨_, rfl, hit, hg, ?_⟩
    split
    · rename_i hc
      cases hi.paid _ h a ha with
      | inl hf =>
          obtain ⟨i, hder⟩ := hi.cached a (List.contains_iff_mem.mp hc)
          exact absurd hder (hforeign a i hf)
      | inr hr =>
          obtain ⟨r, hr, hra⟩ := hr
          exact ⟨r, ⟨h, hr, hra ▸ ha⟩, hra⟩
    · trivial
  intent a ha s p hi h hp hf := by
    obtain ⟨r, hto, hra⟩ := h
    rw [Bool.and_eq_true, beq_iff_eq] at hf
    obtain ⟨hb, hidx⟩ := hi.toAttributed.owner hto.2.1 hp (hf.1.trans hra.symm)
    have hget : s.1.deposits.get p.id = some p := Collection.get_of_mem hp
    refine ⟨r, hto, hra.symm, rfl, ⟨p, rfl, hb, hidx⟩, ?_⟩
    intro p' hp'
    cases hp'
    exact ⟨p, hget, hi.unmatched _ p hget hf.2, hb⟩
  earliest a ha s origin hi h horigin hnone := by
    obtain ⟨r, hto, hra⟩ := h
    refine ⟨r, hto, hra.symm, rfl, ?_, fun p hp => by cases hp⟩
    cases origin with
    | none =>
        obtain ⟨d, hd, hda, _⟩ := hi.intentRows r hto.2.1
        exact absurd (hda.trans hra) (hnone rfl d hd)
    | some o =>
        obtain ⟨ho, hoa⟩ := horigin o rfl
        have hoa : o.fairAddress = a := by simpa using hoa
        exact ⟨o, rfl, hi.toAttributed.owner hto.2.1 ho (hoa.trans hra.symm)⟩
  already _ _ _ _ _ _ _ := trivial
  unsolicited m hm := by
    intro s out x w hi h
    obtain ⟨r, h⟩ := h
    obtain ⟨o, ho, _⟩ := h.origin
    rw [hm] at ho
    cases ho
  refuseIntent m p hp := by
    refine Deposit.performs_setVoutById rfl rfl (fun s d hi h hd => ?_)
      (fun s d hi h hd _ => ?_) (fun _ _ _ _ => trivial) fun _ _ _ => trivial
    · obtain ⟨r, h⟩ := h
      exact h.unmatched hp hd
    · obtain ⟨hit, hg⟩ := hi.set hd (u := v.set .failed m.amountSats (m.amountSats * satsToWei))
        rfl fun hst => by cases hst
      exact ⟨_, rfl, hit, hg, trivial, trivial⟩
  refuseNew m origin _ ho := by
    refine Deposit.performs_create (fun s hi h _ => ?_) fun _ _ _ => trivial
    obtain ⟨r, h⟩ := h
    obtain ⟨o, ho', hb, hidx⟩ := h.origin
    cases ho.symm.trans ho'
    obtain ⟨hit, hg⟩ := hi.insert h.paid.2.1
      (d := v.row .failed origin.baseAddress origin.hdIndex m.fairAddress m.amountSats
        (m.amountSats * satsToWei)) h.fairAddress hb hidx rfl fun hst => by cases hst
    exact ⟨_, rfl, hit, hg, trivial, trivial⟩
  clock _ _ _ h := h
  daily _ _ _ _ := Deposit.performs_find (fun _ _ _ h _ => h) fun _ _ _ => trivial
  room _ _ _ _ _ _ _ h := h
  record m r s hi h := by
    obtain ⟨hit, hg⟩ := hi.aside (w := { s.1 with minedSinceRead := r }) (i := .watcher)
      (hi.toAttributed.aside rfl rfl (Nat.le_refl _) (fun _ h => h) hi.cached hi.paid hi.jobs hi.calls)
      rfl rfl rfl rfl
    obtain ⟨r', h⟩ := h
    exact ⟨_, rfl, hit, hg, r', h.paid, h.fairAddress, h.amount, h.origin, h.pending⟩
  confirmIntent m p postFeeWei hp hfee := by
    refine Deposit.performs_setVout rfl rfl (fun s d hi h hd => ?_)
      (fun s d hi h hd _ _ => ?_) (fun _ _ _ _ => trivial) fun _ _ _ => trivial
    · obtain ⟨r, h⟩ := h
      exact h.unmatched hp hd
    · obtain ⟨r, h⟩ := h
      obtain ⟨e, he, _, hbase⟩ := h.pending p hp
      cases he.symm.trans hd
      obtain ⟨hit, hg⟩ := hi.set hd (u := v.set .confirmed m.amountSats postFeeWei) rfl
        fun _ job hjob => h.due_row hfee hjob hbase rfl rfl rfl
      exact ⟨_, rfl, hit, hg, h.dueAt hfee _, trivial⟩
  confirmNew m origin postFeeWei _ ho hfee := by
    refine Performs.post (M := Answered (fun d => DueAt cfg v m d.id postFeeWei) fun _ => True)
      (Deposit.performs_create (fun s hi h _ => ?_) fun _ _ _ => trivial) ?_
    · obtain ⟨r, h⟩ := h
      obtain ⟨o, ho', hb, hidx⟩ := h.origin
      cases ho.symm.trans ho'
      obtain ⟨hit, hg⟩ := hi.insert h.paid.2.1
        (d := v.row .confirmed origin.baseAddress origin.hdIndex m.fairAddress m.amountSats
          postFeeWei) h.fairAddress hb hidx rfl
        fun _ id now job hjob => h.due_row hfee hjob hb rfl rfl rfl
      exact ⟨_, rfl, hit, hg, h.dueAt hfee _, trivial⟩
    · intro r s _ h
      cases r with
      | ok _ => exact h
      | error _ => exact ⟨trivial, fun _ => trivial⟩
  enqueue m id origin postFeeWei ho := by
    refine Deposit.performs_addMintJob (fun s hi h => ?_) fun _ _ _ => trivial
    obtain ⟨hit, hg⟩ := hi.aside (i := .watcher) (hi.toAttributed.enqueue (h origin ho)) rfl rfl rfl rfl
    exact ⟨_, rfl, hit, hg, trivial, trivial⟩

def orphanOutline (cfg : Config) (foreign : String → Bool) :
    OrphanDepositOutline (attributionRules cfg foreign) .watcher where
  base _ := True
  listed ds s := ∀ d ∈ ds, ∀ job, d.job = some job → MintDue cfg s.1 job
  base_stable _ _ _ _ _ h := h
  listed_stable _ _ _ _ _ hst h d hd job hjob := (h d hd job hjob).later hst.toHistory
  base_rest _ _ _ := trivial
  listed_rest _ _ _ _ := trivial
  clock := performs_dateNow
  find now := by
    refine Deposit.performs_find (fun s ds hi _ hds d hd job hjob => ?_) fun _ _ _ => trivial
    obtain ⟨hmem, hold⟩ := hds d hd
    simp only [orphanDeposit, Bool.and_eq_true, beq_iff_eq] at hold
    exact hi.due d hmem hold.1.1.1 job hjob
  skip _ _ _ _ _ h e he := h e (List.mem_cons_of_mem _ he)
  enqueue d ds job hjob := by
    refine Deposit.performs_addMintJob (fun s hi h => ?_) fun _ _ _ => trivial
    have hdue : MintDue cfg s.1 job := h d List.mem_cons_self job hjob
    obtain ⟨hit, hg⟩ := hi.aside (i := .watcher) (hi.toAttributed.enqueue hdue) rfl rfl rfl rfl
    exact ⟨_, rfl, hit, hg, fun e he => h e (List.mem_cons_of_mem _ he), trivial⟩

/-- The vouts of a block that was read are there. -/
theorem attribution_processBlock
    (hforeign : ∀ a i, foreign a = true → deriveDepositAddress cfg i ≠ .ok a)
    (height tip : Nat) :
    (attributionRules cfg foreign).Triple .watcher (fun _ => True) (processBlock cfg height tip)
      (fun _ _ => True) (fun _ _ => True) := by
  have hleft : ∀ vouts : List (Txid × TxVout), (attributionRules cfg foreign).Stable .watcher
      fun s => ∀ x ∈ vouts, x ∈ s.1.fair.vouts :=
    fun vouts s t _ _ hst h x hx => hst.vouts x (h x hx)
  refine Triple.weaken (processBlock_chain (fun _ => True)
    (fun _ vouts s => ∀ x ∈ vouts, x ∈ s.1.fair.vouts) (fun _ _ _ _ _ h => h)
    (fun _ _ _ => trivial) (fun _ => hleft) ?_ ?_) (fun _ _ h => h)
    (fun _ _ _ _ => trivial) fun _ _ _ h => h
  · refine performs_read (fun _ => rfl) ?_ ?_ fun _ _ _ _ => trivial
    · intro w y w' hy
      simp only [effect] at hy
      split at hy <;> cases hy <;> rfl
    · intro s y _ _ hy
      simp only [effect] at hy
      split at hy <;> cases hy
      · rename_i b hb
        intro x hx
        cases height with
        | zero =>
            cases hb
            cases hx
        | succ n => exact List.mem_flatMap.mpr ⟨b, List.mem_of_getElem? hb, hx⟩
      · trivial
  · intro b x vouts
    have hguar : ∀ s t, Allotted cfg foreign s → Allotted cfg foreign t →
        (attributionRules cfg foreign).guar .watcher s t →
        (∀ y ∈ vouts, y ∈ s.1.fair.vouts) → ∀ y ∈ vouts, y ∈ t.1.fair.vouts :=
      fun s t _ _ hg h y hy => (hg (.request 0) (by decide)).vouts y (h y hy)
    refine ((voutOutline hforeign ⟨x.1, x.2, height, tip⟩).toVoutOutline.processVout.frame
      (hleft vouts) hguar).weaken ?_ (fun _ _ _ h => h.2) fun _ _ _ h => h
    exact fun s _ h => ⟨h x List.mem_cons_self, fun y hy => h y (List.mem_cons_of_mem x hy)⟩

/-- The cursor has to do with none of it. -/
theorem attribution_cursor {β : Type} {op : Op β} {M : β → World × (Nat → Option Nat) → Prop}
    (hrec : ∀ w, recordCall op w = w)
    (heff : ∀ w x w', effect none op w = some (x, w') →
      ∃ cursor, w' = { w with cursor := cursor })
    (hM : ∀ b s, M b s) :
    (attributionRules cfg foreign).Performs .watcher (fun _ => True) op
      (Answered M fun _ => True) := by
  refine performs (fun s _ hi _ _ _ => ⟨s, (hrec _).symm, hi, fun j _ => .refl j s, trivial⟩) ?_
  intro s x w out hi _ _ hx
  rw [hrec] at hx
  obtain ⟨cursor, rfl⟩ := heff _ _ _ hx
  have ha : Attributed cfg foreign { s.1 with cursor := cursor } :=
    hi.toAttributed.aside rfl rfl (Nat.le_refl _) (fun _ h => h) hi.cached hi.paid hi.jobs hi.calls
  obtain ⟨hit, hg⟩ := hi.aside (i := .watcher) ha rfl rfl rfl rfl
  refine ⟨_, rfl, hit, hg, fun _ => ?_, fun _ _ _ => trivial⟩
  cases x with
  | ok b => exact hM b _
  | error _ => trivial

def loopOutline (hforeign : ∀ a i, foreign a = true → deriveDepositAddress cfg i ≠ .ok a) :
    LoopOutline (attributionRules cfg foreign) .watcher where
  standing _ _ := True
  scanned _ _ := True
  listed ds s := ∀ d ∈ ds, ∃ i, deriveDepositAddress cfg i = .ok d.fairAddress
  standing_stable _ _ _ _ _ _ h := h
  scanned_stable _ _ _ _ _ _ h := h
  listed_stable _ _ _ _ _ _ h := h
  rest _ := trivial
  list s ds hi hds d hd := by
    obtain ⟨i, _, _, hder⟩ := hi.rows d (hds d hd)
    exact ⟨i, hder⟩
  cache ds := by
    refine performs (fun s _ hi _ _ _ => ⟨s, rfl, hi, fun j _ => .refl j s, trivial⟩) ?_
    intro s x w out hi h _ hx
    cases hx
    have ha : ∀ as : List String, (∀ a ∈ as, ∃ d ∈ ds, d.fairAddress = a) →
        Attributed cfg foreign { s.1 with
          addressCache := as ++ s.1.addressCache
          addressCacheLoaded := true } := by
      intro as has
      refine hi.toAttributed.aside rfl rfl (Nat.le_refl _) (fun _ h => h) ?_ hi.paid hi.jobs hi.calls
      intro a ha
      cases List.mem_append.mp ha with
      | inl ha =>
          obtain ⟨d, hd, rfl⟩ := has a ha
          exact h d hd
      | inr ha => exact hi.cached a ha
    obtain ⟨hit, hg⟩ := hi.aside (i := .watcher)
      (ha _ fun a ha => List.mem_map.mp (List.mem_of_mem_filter ha)) rfl rfl rfl rfl
    exact ⟨_, rfl, hit, hg, fun _ => trivial, fun _ _ _ => trivial⟩
  reconcile := (orphanOutline cfg foreign).reconcileOrphanDeposits.weaken (fun _ _ h => h)
    (fun _ _ _ _ => trivial) fun _ _ _ h => h
  upsert backfill := by
    refine attribution_cursor (fun _ => rfl) ?_ fun _ _ => trivial
    intro w x w' hx
    simp only [effect] at hx
    split at hx <;> cases hx
    · exact ⟨w.cursor, rfl⟩
    · exact ⟨_, rfl⟩
  height last tip := by
    rw [processHeight]
    split
    · exact attribution_processBlock hforeign _ tip
    · exact .throw (fun _ _ _ _ _ h => h) fun _ _ h => h
  set last := attribution_cursor (fun _ => rfl) (fun w _ _ hx => by cases hx; exact ⟨_, rfl⟩)
    fun _ _ => trivial

theorem attribution_starts
    (hforeign : ∀ a i, foreign a = true → deriveDepositAddress cfg i ≠ .ok a)
    (hinj : ∀ i j a, deriveDepositAddress cfg i = .ok a → deriveDepositAddress cfg j = .ok a →
      i = j) : (attributionRules cfg foreign).Starts := by
  intro i t s hi _ hready
  cases i with
  | watcher =>
      cases t with
      | processBlock height tip =>
          exact attribution_processBlock hforeign height tip s hi trivial
      | reconcileOrphanDeposits =>
          exact ((orphanOutline cfg foreign).reconcileOrphanDeposits s hi trivial).weaken
            (fun _ _ _ _ => trivial) fun _ _ _ h => h
      | startFairWatcher rounds heights =>
          exact (loopOutline hforeign).startFairWatcher rounds heights s hi trivial
      | _ => cases hready
  | request n =>
      cases t with
      | postIntent baseAddress clientIp =>
          exact attribution_postIntent hinj n baseAddress clientIp s hi trivial
      | _ => cases hready
  | signer n =>
      cases t with
      | signMint mode job =>
          have hready : (s.1.mintQueue.any fun j => decide (j.data = job)) = true := hready
          obtain ⟨j, hj, hdata⟩ := List.any_eq_true.mp hready
          have hdue : MintDue cfg s.1 job := of_decide_eq_true hdata ▸ hi.jobs j hj
          exact (attribution_signMint mode job n s hi hdue).weaken (fun _ _ _ _ => trivial)
            fun _ _ _ _ => trivial
      | _ => cases hready

end Run
end Attribution

theorem mintArgs_ok {job : MintJob} {c : MintCall} (h : mintArgs job = .ok c) :
    fairTxidToBytes32 job.fairTxid = .ok c.faircoinTxid ∧ c.recipient = job.baseAddress ∧
      c.amount = job.amountWei ∧ c.vout = job.fairVout := by
  cases ht : fairTxidToBytes32 job.fairTxid with
  | error e =>
      rw [mintArgs, ht] at h
      cases h
  | ok word =>
      rw [mintArgs, ht] at h
      cases h
      exact ⟨rfl, rfl, rfl, rfl⟩

/-- A sat is a whole number of units of the fee, so nothing is cut off. -/
theorem bigIntDiv_sats (sats fee : Int) :
    bigIntDiv (sats * satsToWei * (bpsDenom - fee)) bpsDenom =
      sats * 10 ^ 10 * (10000 - fee) / 10000 := by
  have hdvd : bpsDenom ∣ sats * satsToWei * (bpsDenom - fee) :=
    Dvd.dvd.mul_right (Dvd.dvd.mul_left (by decide) sats) _
  rw [bigIntDiv, Int.tdiv_eq_ediv_of_dvd hdvd]
  rfl

namespace Sample

/-- Each index has an address of its own, the first one the sample address. -/
def intentConfig : Config where
  bridgeEoaPrivateKey := some "key"
  fairBridgeXpub := some "xpub"
  deriveChild _ n := .ok (String.ofList ("fAddress".toList ++ List.replicate n 'x'))

theorem intentConfig_injective (i j : Nat) (a : String)
    (hi : deriveDepositAddress intentConfig i = .ok a)
    (hj : deriveDepositAddress intentConfig j = .ok a) : i = j := by
  have h : String.ofList ("fAddress".toList ++ List.replicate i 'x') =
      String.ofList ("fAddress".toList ++ List.replicate j 'x') :=
    Except.ok.inj (hi.trans hj.symm)
  have hlen := congrArg (fun s => s.toList.length) h
  simpa using hlen

/-- An intent is asked for, its address is paid, and the payment is minted. -/
def paidIntent : List (Event JsError AttributionSlot Task EnvEvent) :=
  .start (.request 0) (.postIntent ⟨7⟩ none) :: List.replicate 4 (.step (.request 0) .done) ++
    .env (.fairBlock (payment txid)) :: .start .watcher (.processBlock 1 1) ::
    List.replicate 11 (.step .watcher .done) ++
    .start (.signer 0) (.signMint .directEoa ⟨0, ⟨7⟩, 9970000000000000000, txid, 0⟩) ::
    List.replicate 3 (.step (.signer 0) .done)

end Sample

/-- No address is returned to two intents, all rows of an address have one owner, and
every mint is for a vout that pays the address of an intent: to its owner, and for
what the fee leaves of the payment. -/
theorem payments_reach_intent_owners (cfg : Config) {foreign : String → Bool}
    (hforeign : ∀ a i, foreign a = true → deriveDepositAddress cfg i ≠ .ok a)
    (hinj : ∀ i j a, deriveDepositAddress cfg i = .ok a → deriveDepositAddress cfg j = .ok a →
      i = j)
    {w : World} (hw : Unused foreign w) {q : Pool Op JsError World AttributionSlot}
    {es : List (Event JsError AttributionSlot Task EnvEvent)}
    (hq : (service cfg (attributionFaults foreign)).exec (.init w) es = some q) :
    (q.world.intents.map DepositIntent.fairAddress).Nodup ∧
    (∀ d ∈ q.world.deposits.docs, ∀ e ∈ q.world.deposits.docs, d.fairAddress = e.fairAddress →
      d.baseAddress = e.baseAddress ∧ d.hdIndex = e.hdIndex) ∧
    ∀ c ∈ q.world.mintCalls, ∃ x ∈ q.world.fair.vouts, ∃ r ∈ q.world.intents, ∃ fee : Int,
      voutAddress x.2 = some r.fairAddress ∧ fairTxidToBytes32 x.1 = .ok c.faircoinTxid ∧
      c.vout = x.2.n ∧ c.recipient = r.baseAddress ∧ cfg.bridgeFeeBps = .finite fee ∧
      c.amount = fairValueToSats x.2.value * 10 ^ 10 * (10000 - fee) / 10000 := by
  have hinit : (Attribution.attributionRules cfg foreign).Good (.init w) (w, fun _ => none) :=
    .init rfl ⟨hw.attributed, fun _ _ h => (by cases h), fun _ _ _ h => (by cases h)⟩
      fun _ => trivial
  obtain ⟨s, hs, _⟩ := hinit.exec (fun _ _ _ => trivial) (Attribution.attribution_starts hforeign hinj) hq
  have hworld : s.1 = q.world := hs.world
  have ha : Attributed cfg foreign q.world := hworld ▸ hs.inv.toAttributed
  refine ⟨?_, ha.owners, ?_⟩
  · refine List.Nodup.map_on ?_ (List.Nodup.of_map _ ha.distinct)
    intro r hr r' hr' hrr
    have hder := (ha.derived r hr).1
    rw [hrr] at hder
    exact List.inj_on_of_nodup_map ha.distinct hr hr'
      (hinj _ _ _ hder (ha.derived r' hr').1)
  · intro c hc
    obtain ⟨job, hdue, hargs⟩ := ha.calls c hc
    obtain ⟨x, hx, r, hr, haddr, hbase, htxid, hvout, hfee⟩ := hdue
    obtain ⟨hword, hto, hamount, hn⟩ := mintArgs_ok hargs
    obtain ⟨fee, hbps, hpost⟩ := applyFee_ok hfee
    refine ⟨x, hx, r, hr, fee, haddr, htxid ▸ hword, hn.trans hvout, hto.trans hbase, hbps, ?_⟩
    rw [hamount, hpost, bigIntDiv_sats]

theorem payment_reaches_intent_owner : ∃ q,
    (service Sample.intentConfig (attributionFaults fun _ => false)).exec (.init {})
      Sample.paidIntent = some q ∧
    q.world.mintCalls.map MintCall.recipient = [⟨7⟩] ∧
    (q.world.intents.map DepositIntent.fairAddress).Nodup ∧
    (∀ d ∈ q.world.deposits.docs, ∀ e ∈ q.world.deposits.docs, d.fairAddress = e.fairAddress →
      d.baseAddress = e.baseAddress ∧ d.hdIndex = e.hdIndex) ∧
    ∀ c ∈ q.world.mintCalls, ∃ x ∈ q.world.fair.vouts, ∃ r ∈ q.world.intents, ∃ fee : Int,
      voutAddress x.2 = some r.fairAddress ∧ fairTxidToBytes32 x.1 = .ok c.faircoinTxid ∧
      c.vout = x.2.n ∧ c.recipient = r.baseAddress ∧
      Sample.intentConfig.bridgeFeeBps = .finite fee ∧
      c.amount = fairValueToSats x.2.value * 10 ^ 10 * (10000 - fee) / 10000 := by
  have h : ((service Sample.intentConfig (attributionFaults fun _ => false)).exec (.init {})
      Sample.paidIntent).map (fun q => q.world.mintCalls.map MintCall.recipient) =
      some [⟨7⟩] := by decide +kernel
  obtain ⟨q, hq, hcalls⟩ := Option.map_eq_some_iff.mp h
  refine ⟨q, hq, hcalls, ?_⟩
  exact payments_reach_intent_owners Sample.intentConfig (fun _ _ h => by cases h)
    Sample.intentConfig_injective ⟨rfl, rfl, rfl, rfl, rfl, rfl, fun _ h => by cases h⟩ hq

end FairBridge
