import FairBridge.Signer.MintOutline

/-!
Retries of one deposit's mint in direct_eoa mode, one run after the other. Runs
may raise or die at any await, but not between the broadcast and the update
that puts its hash on the row.
-/

namespace FairBridge
open Store Async Async.Rules

/-- One slot that runs the mint signer for one row again and again. A broadcast
that raises has no effect, and the update after it does reach the store. -/
def mintRetries (id : ObjectId) : Faults Unit where
  ready _ _ t := match t with
    | .signMint .directEoa job => job.depositId == id
    | _ => false
  may _ op out _ := match op with
    | .writeContract _ => !out.isLost
    | op => !(op.filesMintHash && out.isFail)
  mayKill _ op _ := !op.filesMintHash
  row _ := some id

namespace World

def mintHash (w : World) (id : ObjectId) : Option Hash :=
  (w.deposits.get id).bind DepositDoc.baseMintTxHash

def depositStatus (w : World) (id : ObjectId) : Option DepositStatus :=
  (w.deposits.get id).map DepositDoc.status

end World

/-- What no later state takes back about a deposit. -/
structure MintHistory (id : ObjectId) (s t : World) : Prop where
  hash : ∀ h, s.mintHash id = some h → t.mintHash id = some h
  receipts : ∀ h r, s.base.receipts h = some r → t.base.receipts h = some r
  minted : t.depositStatus id = some .minted → s.depositStatus id = some .minted ∨
    ∃ h r, t.mintHash id = some h ∧ t.base.receipts h = some r ∧ r.success = true
  failed : s.depositStatus id = some .failed →
    t.depositStatus id = some .failed ∧ t.base.calls = s.base.calls

namespace MintHistory
variable {id : ObjectId} {s t u : World}

theorem refl (s : World) : MintHistory id s s :=
  ⟨fun _ h => h, fun _ _ h => h, Or.inl, fun h => ⟨h, rfl⟩⟩

theorem trans (hst : MintHistory id s t) (htu : MintHistory id t u) :
    MintHistory id s u where
  hash h hh := htu.hash h (hst.hash h hh)
  receipts h r hr := htu.receipts h r (hst.receipts h r hr)
  minted hu := by
    cases htu.minted hu with
    | inr h => exact Or.inr h
    | inl ht =>
        cases hst.minted ht with
        | inl hs => exact Or.inl hs
        | inr h =>
            obtain ⟨h, r, hh, hr, hsucc⟩ := h
            exact Or.inr ⟨h, r, htu.hash h hh, htu.receipts h r hr, hsucc⟩
  failed hs := by
    obtain ⟨ht, hc⟩ := hst.failed hs
    obtain ⟨hu, hc'⟩ := htu.failed ht
    exact ⟨hu, hc'.trans hc⟩

/-- An update of the row that neither takes its hash away nor leaves FAILED. -/
theorem setDeposit {d : DepositDoc} {v : DepositSet} (hd : s.deposits.get id = some d)
    (hh : ∀ h, d.baseMintTxHash = some h → (v.apply d).baseMintTxHash = some h)
    (hm : (v.apply d).status = .minted → d.status = .minted ∨
      ∃ h r, (v.apply d).baseMintTxHash = some h ∧ s.base.receipts h = some r ∧
        r.success = true)
    (hf : d.status = .failed → (v.apply d).status = .failed) :
    MintHistory id s (s.setDeposit id v) := by
  have hget := World.get_setDeposit hd v
  refine ⟨?_, fun _ _ h => h, ?_, ?_⟩
  · simpa [World.mintHash, hd, hget] using hh
  · simpa [World.mintHash, World.depositStatus, hd, hget] using hm
  · simpa [World.depositStatus, hd, hget] using hf

/-- Nothing was done to the row or in its name. -/
theorem same (hd : t.deposits = s.deposits) (hr : t.base.receipts = s.base.receipts)
    (hc : t.base.calls = s.base.calls) : MintHistory id s t where
  hash h hh := by simpa only [World.mintHash, hd] using hh
  receipts h r h' := by simpa only [hr] using h'
  minted hm := Or.inl (by simpa only [World.depositStatus, hd] using hm)
  failed hf := ⟨by simpa only [World.depositStatus, hd] using hf, hc⟩

/-- Calls of a row that is not FAILED may be made. -/
theorem called (hst : s.depositStatus id = some .minting) (hd : t.deposits = s.deposits)
    (hr : t.base.receipts = s.base.receipts) : MintHistory id s t where
  hash h hh := by simpa only [World.mintHash, hd] using hh
  receipts h r h' := by simpa only [hr] using h'
  minted hm := Or.inl (by simpa only [World.depositStatus, hd] using hm)
  failed hf := by
    rw [hst] at hf
    cases hf

end MintHistory

/-- What the environment leaves of the row and of what was broadcast for it. -/
structure MintUndisturbed (id : ObjectId) (s t : World) : Prop where
  row : t.deposits.get id = s.deposits.get id
  txs : t.base.txs = s.base.txs
  calls : t.base.calls = s.base.calls
  receipts : ∀ h r, s.base.receipts h = some r → t.base.receipts h = some r

namespace MintUndisturbed
variable {id : ObjectId} {s t u : World}

theorem refl (s : World) : MintUndisturbed id s s := ⟨rfl, rfl, rfl, fun _ _ h => h⟩

theorem trans (hst : MintUndisturbed id s t) (htu : MintUndisturbed id t u) :
    MintUndisturbed id s u :=
  ⟨htu.row.trans hst.row, htu.txs.trans hst.txs, htu.calls.trans hst.calls,
    fun h r hr => htu.receipts h r (hst.receipts h r hr)⟩

theorem mintHash (h : MintUndisturbed id s t) : t.mintHash id = s.mintHash id := by
  rw [World.mintHash, h.row, World.mintHash]

theorem depositStatus (h : MintUndisturbed id s t) :
    t.depositStatus id = s.depositStatus id := by
  rw [World.depositStatus, h.row, World.depositStatus]

theorem history (h : MintUndisturbed id s t) : MintHistory id s t where
  hash _ hx := h.mintHash.trans hx
  receipts := h.receipts
  minted hm := Or.inl (h.depositStatus.symm.trans hm)
  failed hf := ⟨h.depositStatus.trans hf, h.calls⟩

theorem of_surroundings (h : Surroundings s t) {d : DepositDoc}
    (hd : s.deposits.get id = some d) : MintUndisturbed id s t :=
  ⟨(h.deposits id d hd).trans hd.symm, h.txs, h.calls, h.receipts⟩

end MintUndisturbed

/-- The row exists, and at most one broadcast was added to the `n` there were.
At rest a broadcast has its hash on the row. -/
def mintRetryRules (cfg : Config) (id : ObjectId) (n : Nat) :
    Rules (service cfg (mintRetries id)) World where
  world w := w
  inv w := (∃ d, w.deposits.get id = some d) ∧ w.base.txs.length ≤ n + 1
  rely _ := MintUndisturbed id
  guar _ := MintHistory id
  rest _ w := w.mintHash id = none → w.base.txs.length = n
  hist := MintHistory id
  rely_refl _ := .refl
  rely_trans := .trans
  guar_refl _ := .refl
  guar_rely h := absurd rfl h
  rest_stable := by
    intro _ s t _ _ hst hs ht
    rw [hst.txs]
    exact hs (hst.mintHash.symm.trans ht)
  hist_refl := .refl
  hist_trans := .trans
  guar_hist _ _ h := h
  env_step := by
    intro e s w hi he
    obtain ⟨⟨d, hd⟩, hn⟩ := hi
    have hsur := EnvEvent.occur_surroundings he
    have hu := MintUndisturbed.of_surroundings hsur hd
    exact ⟨w, rfl, ⟨⟨d, hu.row.trans hd⟩, hu.txs ▸ hn⟩, hu.history, fun _ => hu⟩

section Outline
variable {cfg : Config} {n : Nat} {job : MintJob}

/-- The row is `d`, and a row without a hash was not broadcast. -/
def HoldsRow (job : MintJob) (n : Nat) (d : DepositDoc) (w : World) : Prop :=
  w.deposits.get job.depositId = some d ∧
    (d.baseMintTxHash = none → w.base.txs.length = n)

theorem HoldsRow.rest {d : DepositDoc} {w : World} (h : HoldsRow job n d w) :
    w.mintHash job.depositId = none → w.base.txs.length = n := by
  intro hn
  refine h.2 ?_
  simpa [World.mintHash, h.1] using hn

theorem HoldsRow.stable (d : DepositDoc) :
    (mintRetryRules cfg job.depositId n).Stable () (HoldsRow job n d) :=
  fun _ _ _ _ hst h => ⟨hst.row.trans h.1, fun hd => hst.txs ▸ h.2 hd⟩

theorem holdsRow_of_rest {w : World} (hi : (mintRetryRules cfg job.depositId n).inv w)
    (hr : (mintRetryRules cfg job.depositId n).rest () w) :
    ∃ d, w.deposits.get job.depositId = some d ∧ HoldsRow job n d w := by
  obtain ⟨⟨d, hd⟩, _⟩ := hi
  refine ⟨d, hd, hd, ?_⟩
  intro hn
  exact hr (by simp [World.mintHash, hd, hn])

theorem mintRetry_claim (d : DepositDoc) :
    (mintRetryRules cfg job.depositId n).Performs () (HoldsRow job n d)
      (.deposit (.findOneAndUpdate (fun d => d.id == job.depositId && claimable d) none
        { status := some .minting }))
      (Answered (Found (HoldsRow job n) ((mintRetryRules cfg job.depositId n).rest ()))
        ((mintRetryRules cfg job.depositId n).rest ())) := by
  refine Deposit.performs_claimMint ?_ (fun s _ hs _ => hs.rest) fun s _ hs => hs.rest
  intro s e out hi hs he hc _
  have hde : d = e := Option.some.inj (hs.1.symm.trans he)
  subst hde
  have hnull : d.baseMintTxHash = none := by
    simp only [claimable, Bool.and_eq_true, beq_iff_eq] at hc
    exact hc.1.2
  have hrow := World.get_setDeposit hs.1 { status := some .minting }
  have hheld : HoldsRow job n { d with status := .minting }
      (s.setDeposit job.depositId { status := some .minting }) := ⟨hrow, hs.2⟩
  refine ⟨_, rfl, ⟨⟨_, hrow⟩, hi.2⟩, ?_, hheld, hheld.rest⟩
  refine MintHistory.setDeposit hs.1 (fun _ h => h) (by intro h; cases h) ?_
  intro hf
  simp [claimable, hf] at hc

theorem mintRetry_broadcast {d : DepositDoc} {args : MintCall} (hst : d.status = .minting)
    (hnone : d.baseMintTxHash = none) :
    (mintRetryRules cfg job.depositId n).Performs () (HoldsRow job n d)
      (.writeContract args)
      (Answered
        (fun _ w => w.mintHash job.depositId = none ∧
          w.depositStatus job.depositId = some .minting)
        ((mintRetryRules cfg job.depositId n).rest ())) := by
  have hstatus : ∀ s, HoldsRow job n d s →
      s.depositStatus job.depositId = some .minting := by
    intro s hs
    simp [World.depositStatus, hs.1, hst]
  refine performs ?_ ?_
  · intro s e hi hs _ _
    exact ⟨_, rfl, hi, .called (hstatus s hs) rfl rfl, hs.rest⟩
  · intro s x w out hi hs hmay hx
    have hn := hs.2 hnone
    have hcalled : ∀ t, t.deposits = s.deposits → t.base.receipts = s.base.receipts →
        MintHistory job.depositId s t := fun t => .called (hstatus s hs)
    rcases effect_writeContract hx with ⟨_, rfl, rfl⟩ | ⟨rfl, rfl, _⟩
    · exact ⟨_, rfl, hi, hcalled _ rfl rfl, fun _ => hs.rest, fun _ _ _ => hs.rest⟩
    · refine ⟨_, rfl, ⟨hi.1, ?_⟩, hcalled _ rfl rfl, ?_, ?_⟩
      · change (s.base.txs ++ [_]).length ≤ n + 1
        rw [List.length_append, List.length_singleton, hn]
      · intro _
        have hhash : s.mintHash job.depositId = none := by simp [World.mintHash, hs.1, hnone]
        exact ⟨hhash, hstatus s hs⟩
      · rintro e rfl _
        cases hmay

/-- A hash on a row that waits for its receipt. -/
def Filed (job : MintJob) (h : Hash) (w : World) : Prop :=
  w.mintHash job.depositId = some h ∧ w.depositStatus job.depositId = some .minting

theorem Filed.row {h : Hash} {w : World} (hf : Filed job h w) :
    ∃ d, w.deposits.get job.depositId = some d ∧ d.baseMintTxHash = some h ∧
      d.status = .minting := by
  obtain ⟨d, hd, hst⟩ := Option.map_eq_some_iff.mp hf.2
  refine ⟨d, hd, ?_, hst⟩
  simpa [World.mintHash, hd] using hf.1

theorem Filed.rest {h : Hash} {w : World} (hf : Filed job h w) :
    w.mintHash job.depositId = none → w.base.txs.length = n := by
  intro hn
  rw [hf.1] at hn
  cases hn

theorem mintRetry_persist (h : Hash) :
    (mintRetryRules cfg job.depositId n).Performs ()
      (fun w => w.mintHash job.depositId = none ∧
        w.depositStatus job.depositId = some .minting)
      (.deposit (.updateOne (fun d => d.id == job.depositId && true)
        { baseMintTxHash := some h }))
      (Answered (fun _ => Filed job h)
        ((mintRetryRules cfg job.depositId n).rest ())) := by
  refine Deposit.performs_updateById rfl rfl ?_ ?_
  · intro s hi hs
    obtain ⟨d, hd, hst⟩ := Option.map_eq_some_iff.mp hs.2
    have hnull : d.baseMintTxHash = none := by simpa [World.mintHash, hd] using hs.1
    have hrow := World.get_setDeposit hd { baseMintTxHash := some h }
    have hfiled : Filed job h (s.setDeposit job.depositId { baseMintTxHash := some h }) := by
      simp [Filed, World.mintHash, World.depositStatus, hrow, hst, DepositSet.apply]
    refine ⟨_, rfl, ⟨⟨_, hrow⟩, hi.2⟩, ?_, hfiled, hfiled.rest⟩
    refine MintHistory.setDeposit hd ?_ (fun h => Or.inl h) (fun h => h)
    intro h' hh'
    rw [hnull] at hh'
    cases hh'
  · intro s e _ _ hmay
    cases hmay

/-- The row settles as its receipt says. -/
theorem mintRetry_settle (h : Hash) (r : Receipt) (v : DepositSet) (hv : v.fairTxid = none)
    (hv' : v.fairVout = none) (hhash : v.baseMintTxHash = none)
    (hstatus : v.status = some .minted → r.success = true) :
    (mintRetryRules cfg job.depositId n).Performs ()
      (fun w => Filed job h w ∧ w.base.receipts h = some r)
      (.deposit (.updateOne (fun d => d.id == job.depositId && true) v))
      (Answered (fun _ => (mintRetryRules cfg job.depositId n).rest ())
        ((mintRetryRules cfg job.depositId n).rest ())) := by
  refine Deposit.performs_updateById hv hv' ?_ fun _ _ _ hs _ => hs.1.rest
  intro s hi hs
  obtain ⟨d, hd, hh, hst⟩ := hs.1.row
  have hkeep : (v.apply d).baseMintTxHash = some h := by simp [DepositSet.apply, hhash, hh]
  have hrow := World.get_setDeposit hd v
  have hrest : (s.setDeposit job.depositId v).mintHash job.depositId = none →
      s.base.txs.length = n := by
    simp [World.mintHash, hrow, hkeep]
  refine ⟨_, rfl, ⟨⟨_, hrow⟩, hi.2⟩, ?_, hrest, hrest⟩
  refine MintHistory.setDeposit hd ?_ ?_ ?_
  · intro h' hh'
    rw [hh] at hh'
    rw [hkeep, hh']
  · intro hm
    refine Or.inr ⟨h, r, hkeep, hs.2, hstatus ?_⟩
    cases hvs : v.status with
    | none => simp [DepositSet.apply, hvs, hst] at hm
    | some x =>
        simp only [DepositSet.apply, hvs, Option.getD_some] at hm
        rw [hm]
  · intro hf
    rw [hst] at hf
    cases hf

def mintRetryOutline (cfg : Config) (n : Nat) (job : MintJob) :
    MintOutline (mintRetryRules cfg job.depositId n) () job where
  start := (mintRetryRules cfg job.depositId n).rest ()
  seen := HoldsRow job n
  refused w := w.mintHash job.depositId = none → w.base.txs.length = n
  held := HoldsRow job n
  sent _ w := w.mintHash job.depositId = none ∧
    w.depositStatus job.depositId = some .minting
  filed := Filed job
  mined h r w := Filed job h w ∧ w.base.receipts h = some r
  start_stable := .rest
  seen_stable := HoldsRow.stable
  refused_stable := .rest
  held_stable := HoldsRow.stable
  sent_stable _ _ _ _ _ hst h := ⟨hst.mintHash.trans h.1, hst.depositStatus.trans h.2⟩
  filed_stable _ _ _ _ _ hst h := ⟨hst.mintHash.trans h.1, hst.depositStatus.trans h.2⟩
  mined_stable _ _ _ _ _ _ hst h :=
    ⟨⟨hst.mintHash.trans h.1.1, hst.depositStatus.trans h.1.2⟩, hst.receipts _ _ h.2⟩
  start_rest _ _ h := h
  seen_rest _ _ _ h := h.rest
  refused_rest _ _ h := h
  held_rest _ _ _ h := h.rest
  filed_rest _ _ _ h := h.rest
  mined_rest _ _ _ _ h := h.1.rest
  held_id _ _ _ h := Collection.get_id h.1
  resume _ _ _ h _ := h
  reconcile d h s _ hs hst hh := by
    simp [Filed, World.mintHash, World.depositStatus, hs.1, hst, hh]
  read := by
    refine Deposit.performs_findById ?_ fun _ _ h => h
    intro s hi hs
    obtain ⟨d, hd, hh⟩ := holdsRow_of_rest hi hs
    change Found _ _ (s.deposits.get job.depositId) s
    rw [hd]
    exact hh
  claim d _ := mintRetry_claim d
  reread := by
    refine Deposit.performs_findById ?_ fun _ _ h => h
    intro s hi hs
    obtain ⟨d, hd, hh⟩ := holdsRow_of_rest hi hs
    change Found _ _ (s.deposits.get job.depositId) s
    rw [hd]
    exact hh
  broadcast _ _ hst hnone _ := mintRetry_broadcast hst hnone
  sent_settled _ _ _ _ hkill := by cases hkill
  persist := mintRetry_persist
  receipt h := performs_waitForTransactionReceipt (fun _ _ _ hs hr => ⟨hs, hr⟩)
    fun _ _ hs => hs.rest
  settle h r hr := mintRetry_settle h r _ rfl rfl rfl fun _ => hr
  revert h r _ := mintRetry_settle h r _ rfl rfl rfl (by intro hs; cases hs)
  notify _ := performs_webhook fun _ _ h => h
  record _ := by
    refine performs_auditLog ?_
    intro s w hi hs hw
    have hb : w.base = s.base := hw.base
    have hd : w.deposits = s.deposits := hw.deposits
    refine ⟨w, rfl, ?_, .same hd (by rw [hb]) (by rw [hb]), ?_⟩
    · simpa only [mintRetryRules, hd, hb] using hi
    · simpa only [mintRetryRules, World.mintHash, hd, hb] using hs

theorem mintRetry_starts (cfg : Config) (id : ObjectId) (n : Nat) :
    (mintRetryRules cfg id n).Starts := by
  intro i t s hi hr hready
  cases t with
  | signMint mode job =>
      cases mode with
      | safeProposal => cases hready
      | directEoa =>
          have hid : job.depositId = id := by simpa [service, mintRetries] using hready
          subst hid
          exact (mintRetryOutline cfg n job).signMint rfl s hi hr
  | _ => cases hready

end Outline

/-- At most one broadcast takes effect for the row, a hash on it is final, it
is MINTED only by the receipt of that hash, and once FAILED it is never
broadcast. `p` is any state of the run, `q` any later one. -/
theorem mint_retries (cfg : Config) (id : ObjectId) {w : World} {d : DepositDoc}
    (hd : w.deposits.get id = some d) {p q : Pool Op JsError World Unit}
    {es fs : List (Event JsError Unit Task EnvEvent)}
    (hp : (service cfg (mintRetries id)).exec (.init w) es = some p)
    (hq : (service cfg (mintRetries id)).exec p fs = some q) :
    q.world.base.txs.length ≤ w.base.txs.length + 1 ∧
    (∀ h, p.world.mintHash id = some h → q.world.mintHash id = some h) ∧
    (q.world.depositStatus id = some .minted → p.world.depositStatus id = some .minted ∨
      ∃ h r, q.world.mintHash id = some h ∧ q.world.base.receipts h = some r ∧
        r.success = true) ∧
    (p.world.depositStatus id = some .failed →
      q.world.depositStatus id = some .failed ∧ q.world.base.calls = p.world.base.calls) := by
  have hstart := mintRetry_starts cfg id w.base.txs.length
  have hinit : (mintRetryRules cfg id w.base.txs.length).Good (.init w) w :=
    .init rfl ⟨⟨d, hd⟩, Nat.le_succ _⟩ fun _ _ => rfl
  obtain ⟨s, hs, _⟩ := hinit.exec (fun _ _ _ => trivial) hstart hp
  obtain ⟨t, ht, hst⟩ := hs.exec (fun _ _ _ => trivial) hstart hq
  obtain ⟨rfl, hit⟩ := And.intro ht.world ht.inv
  obtain rfl := hs.world
  exact ⟨hit.2, hst.hash, hst.minted, hst.failed⟩

/-- A run that broadcasts, files the hash and dies. -/
def brokenMint : List (Event JsError Unit Task EnvEvent) :=
  [.start () (.signMint .directEoa Sample.mintJob), .step () .done, .step () .done,
    .step () .done, .step () .done, .kill ()]

/-- The retry that finds the broadcast mined. -/
def resumedMint : List (Event JsError Unit Task EnvEvent) :=
  [.start () (.signMint .directEoa Sample.mintJob), .step () .done,
    .env (.mine ⟨0⟩ true), .step () .done, .step () .done, .step () .done]

theorem mint_retries_resumed : ∃ p q,
    (service Sample.config (mintRetries 0)).exec (.init Sample.mintWorld) brokenMint = some p ∧
    (service Sample.config (mintRetries 0)).exec p resumedMint = some q ∧
    q.world.depositStatus 0 = some .minted ∧ q.world.base.txs.length ≤ 0 + 1 ∧
    ∃ h r, q.world.mintHash 0 = some h ∧ q.world.base.receipts h = some r ∧
      r.success = true := by
  obtain ⟨p, hp, hstatus, q, hq, hminted⟩ : ∃ p,
      (service Sample.config (mintRetries 0)).exec (.init Sample.mintWorld) brokenMint =
        some p ∧ p.world.depositStatus 0 = some .minting ∧
      ∃ q, (service Sample.config (mintRetries 0)).exec p resumedMint = some q ∧
        q.world.depositStatus 0 = some .minted := ⟨_, rfl, rfl, _, rfl, rfl⟩
  have h := mint_retries Sample.config 0 rfl hp hq
  refine ⟨p, q, hp, hq, hminted, h.1, (h.2.2.1 hminted).resolve_left ?_⟩
  rw [hstatus]
  intro hm
  cases hm

end FairBridge
