import FairBridge.Service

/-!
The books of the deposits: how far each row has come, which transactions were
broadcast for it, and what is still to be minted. A step of the mint signer keeps
the books and adds nothing to what is still to be minted.
-/

namespace FairBridge
open Store Async

namespace DepositDoc

/-- A vout was matched and its mint has neither succeeded nor failed. -/
def live (d : DepositDoc) : Bool := d.status == .confirmed || d.status == .minting

theorem live_iff {d : DepositDoc} :
    d.live = true ↔ d.status = .confirmed ∨ d.status = .minting := by
  simp [live]

end DepositDoc

namespace World

/-- The transactions broadcast for a row. -/
def mintsOf (w : World) (id : ObjectId) : List MintTx :=
  w.base.txs.filter fun tx => tx.deposit == some id

def mintedFor (w : World) (id : ObjectId) : Bool :=
  (w.mintsOf id).any fun tx => (w.base.receipts tx.hash).any Receipt.success

/-- What is still to be minted for a row. -/
def unmintedWei (w : World) (d : DepositDoc) : Int :=
  if d.live && !w.mintedFor d.id then d.amountWei else 0

def pendingWei (w : World) : Int := (w.deposits.docs.map w.unmintedWei).sum

/-- One of the transactions `hs` has minted for a row. -/
def mintedBy (w : World) (hs : List Hash) (id : ObjectId) : Bool :=
  (w.mintsOf id).any fun tx =>
    hs.contains tx.hash && (w.base.receipts tx.hash).any Receipt.success

/-- What they have minted for it. -/
def minedWei (w : World) (hs : List Hash) (d : DepositDoc) : Int :=
  if w.mintedBy hs d.id then d.amountWei else 0

def minedSinceWei (w : World) (hs : List Hash) : Int := (w.deposits.docs.map (w.minedWei hs)).sum

theorem mem_mintsOf {w : World} {id : ObjectId} {tx : MintTx} :
    tx ∈ w.mintsOf id ↔ tx ∈ w.base.txs ∧ tx.deposit = some id := by
  simp [mintsOf]

theorem mintsOf_broadcast (w : World) (id j : ObjectId) (call : MintCall) :
    (w.broadcast (some id) call).mintsOf j =
      if j = id then w.mintsOf id ++ [⟨w.base.hashOf w.base.txs.length, call, some id⟩]
      else w.mintsOf j := by
  by_cases hj : j = id
  · subst hj
    simp [mintsOf, broadcast]
  · have hne : ¬ id = j := fun h => hj h.symm
    simp [mintsOf, broadcast, hj, hne]

end World

/-- How far a row has come, given its transactions and the receipts there are. -/
inductive DepositPhase (receipts : Hash → Option Receipt) (mints : List MintTx)
    (d : DepositDoc) : Prop
  | intent (hopen : d.isOpen = true) (htxid : d.fairTxid = none)
      (hhash : d.baseMintTxHash = none) (hmints : mints = [])
  | unsent (hlive : d.live = true) (hhash : d.baseMintTxHash = none) (hmints : mints = [])
  | sent (tx : MintTx) (hst : d.status = .minting) (hmints : mints = [tx])
      (hamount : tx.call.amount = d.amountWei) (hpos : 0 ≤ d.amountWei)
      (hhash : d.baseMintTxHash = none ∨ d.baseMintTxHash = some tx.hash)
  | minted (hst : d.status = .minted)
      (hmints : ∀ tx ∈ mints, d.baseMintTxHash = some tx.hash ∧
        ∃ r, receipts tx.hash = some r)
  | failed (hst : d.status = .failed)
      (hmints : ∀ tx ∈ mints, ∃ r, receipts tx.hash = some r ∧ r.success = false)

/-- What a queued job says of its row. -/
structure MintJobOf (w : World) (job : MintJob) (d : DepositDoc) : Prop where
  row : w.deposits.get job.depositId = some d
  matched : d.isOpen = false
  amount : d.live = true → d.amountWei = job.amountWei

structure DepositBooks (w : World) : Prop where
  phase : ∀ id d, w.deposits.get id = some d → DepositPhase w.base.receipts (w.mintsOf id) d
  jobs : ∀ j ∈ w.mintQueue, ∃ d, MintJobOf w j.data d
  tagged : ∀ tx ∈ w.base.txs, ∃ id d, tx.deposit = some id ∧ w.deposits.get id = some d
  hashes : (w.base.txs.map MintTx.hash).Nodup

/-- No transaction of the row is in the air that is not on file. -/
def MintRest (id : ObjectId) (w : World) : Prop :=
  ∀ d, w.deposits.get id = some d → d.baseMintTxHash = none → w.mintsOf id = []

section Phase
variable {receipts : Hash → Option Receipt} {mints : List MintTx} {d : DepositDoc}

theorem DepositDoc.isOpen_of_live (h : d.live = true) : d.isOpen = false := by
  rw [DepositDoc.live_iff] at h
  cases h with
  | inl h => simp [DepositDoc.isOpen, h]
  | inr h => simp [DepositDoc.isOpen, h]

theorem DepositPhase.of_open (h : DepositPhase receipts mints d) (ho : d.isOpen = true) :
    d.fairTxid = none ∧ d.baseMintTxHash = none ∧ mints = [] := by
  cases h with
  | intent _ htxid hhash hmints => exact ⟨htxid, hhash, hmints⟩
  | unsent hlive _ _ =>
      rw [DepositDoc.isOpen_of_live hlive] at ho
      cases ho
  | sent _ hst _ _ _ _ | minted hst _ | failed hst _ => simp [DepositDoc.isOpen, hst] at ho

/-- A live row without a transaction is unsent, one with a transaction is sent. -/
theorem DepositPhase.of_live (h : DepositPhase receipts mints d) (hl : d.live = true) :
    (d.baseMintTxHash = none ∧ mints = []) ∨
    (d.status = .minting ∧ ∃ tx, mints = [tx] ∧ tx.call.amount = d.amountWei ∧
      0 ≤ d.amountWei ∧ (d.baseMintTxHash = none ∨ d.baseMintTxHash = some tx.hash)) := by
  cases h with
  | intent ho _ _ _ =>
      rw [DepositDoc.isOpen_of_live hl] at ho
      cases ho
  | unsent _ hhash hmints => exact Or.inl ⟨hhash, hmints⟩
  | sent tx hst hmints hamount hpos hhash =>
      exact Or.inr ⟨hst, tx, hmints, hamount, hpos, hhash⟩
  | minted hst _ | failed hst _ => simp [DepositDoc.live, hst] at hl

/-- Only a sent row has a transaction that is not mined. -/
theorem DepositPhase.of_unmined (h : DepositPhase receipts mints d) {tx : MintTx}
    (htx : tx ∈ mints) (hnone : receipts tx.hash = none) :
    d.status = .minting ∧ mints = [tx] ∧ tx.call.amount = d.amountWei ∧ 0 ≤ d.amountWei := by
  cases h with
  | intent _ _ _ hmints | unsent _ _ hmints =>
      rw [hmints] at htx
      cases htx
  | sent tx' hst hmints hamount hpos _ =>
      rw [hmints, List.mem_singleton] at htx
      subst htx
      exact ⟨hst, hmints, hamount, hpos⟩
  | minted _ hmints =>
      obtain ⟨_, r, hr⟩ := hmints tx htx
      rw [hnone] at hr
      cases hr
  | failed _ hmints =>
      obtain ⟨r, hr, _⟩ := hmints tx htx
      rw [hnone] at hr
      cases hr

/-- Receipts are only added, so a row stays where it is. -/
theorem DepositPhase.later {receipts' : Hash → Option Receipt}
    (h : DepositPhase receipts mints d)
    (hr : ∀ x r, receipts x = some r → receipts' x = some r) :
    DepositPhase receipts' mints d := by
  cases h with
  | intent ho htxid hhash hmints => exact .intent ho htxid hhash hmints
  | unsent hlive hhash hmints => exact .unsent hlive hhash hmints
  | sent tx hst hmints hamount hpos hhash => exact .sent tx hst hmints hamount hpos hhash
  | minted hst hmints =>
      refine .minted hst ?_
      intro tx htx
      obtain ⟨hh, r, hrec⟩ := hmints tx htx
      exact ⟨hh, r, hr _ _ hrec⟩
  | failed hst hmints =>
      refine .failed hst ?_
      intro tx htx
      obtain ⟨r, hrec, hf⟩ := hmints tx htx
      exact ⟨r, hr _ _ hrec, hf⟩

end Phase

section Books
variable {w w' : World} {id : ObjectId} {d : DepositDoc}

theorem DepositBooks.mintsOf_none (hb : DepositBooks w) (h : w.deposits.get id = none) :
    w.mintsOf id = [] := by
  rw [List.eq_nil_iff_forall_not_mem]
  intro tx htx
  obtain ⟨hmem, hid⟩ := World.mem_mintsOf.mp htx
  obtain ⟨j, d, hj, hd⟩ := hb.tagged tx hmem
  cases hid.symm.trans hj
  rw [h] at hd
  cases hd

/-- What the rest of the world is made of is as it was. -/
structure Elsewhere (w w' : World) : Prop where
  withdrawals : w'.withdrawals = w.withdrawals
  releaseQueue : w'.releaseQueue = w.releaseQueue
  blocks : w'.base.blocks = w.base.blocks
  totalSupply : w'.base.totalSupply = w.base.totalSupply
  receipts : w'.base.receipts = w.base.receipts
  fairBlocks : w'.fair.blocks = w.fair.blocks
  owned : w'.fair.owned = w.fair.owned
  custody : w'.fair.custodySats = w.fair.custodySats
  sends : w'.fair.sends = w.fair.sends
  addressCache : w'.addressCache = w.addressCache

/-- What a step of the signer of row `id` does to the books. -/
structure MintEffect (id : ObjectId) (w w' : World) : Prop extends Elsewhere w w' where
  minedSinceRead : w'.minedSinceRead = w.minedSinceRead
  books : DepositBooks w'
  pending : w'.pendingWei ≤ w.pendingWei
  mined : ∀ hs, w.minedSinceWei hs ≤ w'.minedSinceWei hs
  rows : ∀ j d, w.deposits.get j = some d → ∃ e, w'.deposits.get j = some e ∧
    e.fairTxid = d.fairTxid ∧ e.fairVout = d.fairVout ∧ e.isOpen = d.isOpen ∧
    (e.live = true → d.live = true ∧ e.amountWei = d.amountWei) ∧
    (j ≠ id ∨ d.isOpen = true → e = d)
  intents : ∀ j e, w'.deposits.get j = some e → e.isOpen = true → w.deposits.get j = some e
  mints : ∀ j, j ≠ id → w'.mintsOf j = w.mintsOf j

/-- What the others leave of row `id` once a vout was matched to it. -/
structure RowUndisturbed (id : ObjectId) (w w' : World) : Prop where
  row : ∀ d, w.deposits.get id = some d → d.isOpen = false → w'.deposits.get id = some d
  mints : w'.mintsOf id = w.mintsOf id
  receipts : ∀ h r, w.base.receipts h = some r → w'.base.receipts h = some r

theorem RowUndisturbed.refl (id : ObjectId) (w : World) : RowUndisturbed id w w :=
  ⟨fun _ h _ => h, rfl, fun _ _ h => h⟩

theorem RowUndisturbed.trans {w'' : World} (h : RowUndisturbed id w w')
    (h' : RowUndisturbed id w' w'') : RowUndisturbed id w w'' where
  row d hd ho := h'.row d (h.row d hd ho) ho
  mints := h'.mints.trans h.mints
  receipts x r hr := h'.receipts x r (h.receipts x r hr)

/-- A row that was not matched yet had no transaction, and a matched one is as
it was. -/
theorem MintRest.later (hb : DepositBooks w) (h : RowUndisturbed id w w') (hr : MintRest id w) :
    MintRest id w' := by
  intro e he hnone
  rw [h.mints]
  cases hd : w.deposits.get id with
  | none => exact hb.mintsOf_none hd
  | some d =>
      cases ho : d.isOpen with
      | true => exact ((hb.phase id d hd).of_open ho).2.2
      | false =>
          cases (h.row d hd ho).symm.trans he
          exact hr e hd hnone

theorem MintEffect.undisturbed (h : MintEffect id w w') {j : ObjectId} (hj : j ≠ id) :
    RowUndisturbed j w w' where
  row d hd _ := by
    obtain ⟨e, he, _, _, _, _, hed⟩ := h.rows j d hd
    rw [he, hed (Or.inl hj)]
  mints := h.mints j hj
  receipts x r hr := by rw [h.receipts, hr]

theorem MintEffect.job (h : MintEffect id w w') {job : MintJob} (hj : MintJobOf w job d) :
    ∃ e, MintJobOf w' job e := by
  obtain ⟨e, he, _, _, ho, hl, _⟩ := h.rows _ d hj.row
  refine ⟨e, he, ho.trans hj.matched, ?_⟩
  intro hlive
  obtain ⟨hd, ha⟩ := hl hlive
  exact ha.trans (hj.amount hd)

/-- The step has to do with neither deposits nor mints. -/
theorem MintEffect.aside (hb : DepositBooks w) (he : Elsewhere w w')
    (hm : w'.minedSinceRead = w.minedSinceRead)
    (hd : w'.deposits = w.deposits) (hq : w'.mintQueue = w.mintQueue)
    (ht : w'.base.txs = w.base.txs) : MintEffect id w w' := by
  have hmints : ∀ j, w'.mintsOf j = w.mintsOf j := by
    intro j
    rw [World.mintsOf, ht, World.mintsOf]
  have hfor : ∀ j, w'.mintedFor j = w.mintedFor j := by
    intro j
    rw [World.mintedFor, hmints, he.receipts, World.mintedFor]
  have hby : ∀ hs j, w'.mintedBy hs j = w.mintedBy hs j := by
    intro hs j
    rw [World.mintedBy, hmints, he.receipts, World.mintedBy]
  have hunminted : w'.unmintedWei = w.unmintedWei := by
    funext d
    rw [World.unmintedWei, hfor, World.unmintedWei]
  have hmined : ∀ hs, w'.minedWei hs = w.minedWei hs := by
    intro hs
    funext d
    rw [World.minedWei, hby, World.minedWei]
  refine ⟨he, hm, ⟨?_, ?_, ?_, ?_⟩, ?_, ?_, ?_, fun j e he _ => hd ▸ he, fun j _ => hmints j⟩
  · intro j d hd'
    rw [hmints, he.receipts]
    exact hb.phase j d (hd ▸ hd')
  · intro j hj
    obtain ⟨d, hrow, hmat, ham⟩ := hb.jobs j (hq ▸ hj)
    exact ⟨d, by rw [hd]; exact hrow, hmat, ham⟩
  · simpa only [ht, hd] using hb.tagged
  · rw [ht]
    exact hb.hashes
  · rw [World.pendingWei, hunminted, hd, World.pendingWei]
  · intro hs
    rw [World.minedSinceWei, World.minedSinceWei, hmined, hd]
  · intro j d hj
    exact ⟨d, by rw [hd]; exact hj, rfl, rfl, rfl, fun hl => ⟨hl, rfl⟩, fun _ => rfl⟩

/-- A live row is written, neither its amount nor its vout. -/
theorem MintEffect.update (hb : DepositBooks w) (hd : w.deposits.get id = some d)
    (hlive : d.live = true) {u : DepositSet} (hamount : u.amountWei = none)
    (htxid : u.fairTxid = none) (hvout : u.fairVout = none)
    (hopen : (u.apply d).isOpen = false)
    (hphase : DepositPhase w.base.receipts (w.mintsOf id) (u.apply d))
    (hsum : w.unmintedWei (u.apply d) ≤ w.unmintedWei d) :
    MintEffect id w (w.setDeposit id u) := by
  have hrow := World.get_setDeposit hd u
  have hother : ∀ j, j ≠ id → (w.setDeposit id u).deposits.get j = w.deposits.get j :=
    fun j hj => Collection.get_modify_other _ u hj
  have hamt : (u.apply d).amountWei = d.amountWei := by simp [DepositSet.apply, hamount]
  refine ⟨⟨rfl, rfl, rfl, rfl, rfl, rfl, rfl, rfl, rfl, rfl⟩, rfl, ⟨?_, ?_, ?_, hb.hashes⟩,
    ?_, ?_, ?_, ?_, fun _ _ => rfl⟩
  · intro j e he
    by_cases hj : j = id
    · subst hj
      cases hrow.symm.trans he
      exact hphase
    · exact hb.phase j e ((hother j hj).symm.trans he)
  · intro j hj
    obtain ⟨e, he, hm, ha⟩ := hb.jobs j hj
    by_cases hid : j.data.depositId = id
    · rw [hid] at he
      cases hd.symm.trans he
      refine ⟨u.apply d, by rw [hid]; exact hrow, hopen, ?_⟩
      intro _
      rw [hamt, ha hlive]
    · exact ⟨e, (hother _ hid).trans he, hm, ha⟩
  · intro tx htx
    obtain ⟨j, e, hj, he⟩ := hb.tagged tx htx
    by_cases hid : j = id
    · subst hid
      exact ⟨j, _, hj, hrow⟩
    · exact ⟨j, e, hj, (hother j hid).trans he⟩
  · have hpending : (w.setDeposit id u).pendingWei =
        w.pendingWei - w.unmintedWei d + w.unmintedWei (u.apply d) :=
      w.deposits.sum_modify w.unmintedWei u hd
    omega
  · intro hs
    have hmined : (w.setDeposit id u).minedSinceWei hs =
        w.minedSinceWei hs - w.minedWei hs d + w.minedWei hs (u.apply d) :=
      w.deposits.sum_modify (w.minedWei hs) u hd
    have hsame : w.minedWei hs (u.apply d) = w.minedWei hs d := by
      simp only [World.minedWei, hamt]
      rfl
    omega
  · intro j e he
    by_cases hj : j = id
    · subst hj
      cases hd.symm.trans he
      refine ⟨_, hrow, by simp [DepositSet.apply, htxid], by simp [DepositSet.apply, hvout],
        hopen.trans (DepositDoc.isOpen_of_live hlive).symm, fun _ => ⟨hlive, hamt⟩, ?_⟩
      intro h
      cases h with
      | inl h => exact absurd rfl h
      | inr h =>
          rw [DepositDoc.isOpen_of_live hlive] at h
          cases h
    · exact ⟨e, (hother j hj).trans he, rfl, rfl, rfl, fun hl => ⟨hl, rfl⟩, fun _ => rfl⟩
  · intro j e he ho
    by_cases hj : j = id
    · subst hj
      cases hrow.symm.trans he
      rw [hopen] at ho
      cases ho
    · exact (hother j hj).symm.trans he

theorem MintEffect.trans {w'' : World} (h : MintEffect id w w') (h' : MintEffect id w' w'') :
    MintEffect id w w'' where
  withdrawals := h'.withdrawals.trans h.withdrawals
  releaseQueue := h'.releaseQueue.trans h.releaseQueue
  blocks := h'.blocks.trans h.blocks
  totalSupply := h'.totalSupply.trans h.totalSupply
  receipts := h'.receipts.trans h.receipts
  fairBlocks := h'.fairBlocks.trans h.fairBlocks
  owned := h'.owned.trans h.owned
  custody := h'.custody.trans h.custody
  sends := h'.sends.trans h.sends
  addressCache := h'.addressCache.trans h.addressCache
  minedSinceRead := h'.minedSinceRead.trans h.minedSinceRead
  books := h'.books
  pending := h'.pending.trans h.pending
  mined hs := (h.mined hs).trans (h'.mined hs)
  rows j d hd := by
    obtain ⟨e, he, hx, hv, ho, hl, hed⟩ := h.rows j d hd
    obtain ⟨f, hf, hx', hv', ho', hl', hfe⟩ := h'.rows j e he
    refine ⟨f, hf, hx'.trans hx, hv'.trans hv, ho'.trans ho, ?_, ?_⟩
    · intro hlive
      obtain ⟨he, ha⟩ := hl' hlive
      obtain ⟨hd, ha'⟩ := hl he
      exact ⟨hd, ha.trans ha'⟩
    intro hj
    have hed := hed hj
    subst hed
    exact hfe hj
  intents j e he ho := h.intents j e (h'.intents j e he ho) ho
  mints j hj := (h'.mints j hj).trans (h.mints j hj)

theorem World.unmintedWei_none {d : DepositDoc} (hl : d.live = true)
    (h : w.mintsOf d.id = []) : w.unmintedWei d = d.amountWei := by
  simp [World.unmintedWei, World.mintedFor, h, hl]

theorem World.unmintedWei_settled {d : DepositDoc} (hl : d.live = false) :
    w.unmintedWei d = 0 := by
  simp [World.unmintedWei, hl]

/-- The only transaction of a row is broadcast. -/
theorem MintEffect.broadcast (hb : DepositBooks w) (hd : w.deposits.get id = some d)
    (hst : d.status = .minting) (hnone : d.baseMintTxHash = none) (hmints : w.mintsOf id = [])
    {call : MintCall} (hamount : call.amount = d.amountWei) (hpos : 0 ≤ call.amount)
    (hfresh : ∀ tx ∈ w.base.txs, tx.hash ≠ w.base.hashOf w.base.txs.length) :
    MintEffect id w (w.broadcast (some id) call) := by
  have hid : d.id = id := Collection.get_id hd
  have hlive : d.live = true := DepositDoc.live_iff.mpr (Or.inr hst)
  have hother : ∀ j, j ≠ id → (w.broadcast (some id) call).mintsOf j = w.mintsOf j := by
    intro j hj
    rw [World.mintsOf_broadcast, if_neg hj]
  have hown : (w.broadcast (some id) call).mintsOf id =
      [⟨w.base.hashOf w.base.txs.length, call, some id⟩] := by
    rw [World.mintsOf_broadcast, if_pos rfl, hmints, List.nil_append]
  refine ⟨⟨rfl, rfl, rfl, rfl, rfl, rfl, rfl, rfl, rfl, rfl⟩, rfl, ⟨?_, ?_, ?_, ?_⟩,
    ?_, ?_, fun j d hj => ⟨d, hj, rfl, rfl, rfl, fun hl => ⟨hl, rfl⟩, fun _ => rfl⟩,
    fun _ _ he _ => he, hother⟩
  · intro j e he
    by_cases hj : j = id
    · subst hj
      cases hd.symm.trans he
      rw [hown]
      exact .sent _ hst rfl hamount (hamount ▸ hpos) (Or.inl hnone)
    · rw [hother j hj]
      exact hb.phase j e he
  · intro j hj
    obtain ⟨e, he⟩ := hb.jobs j hj
    exact ⟨e, he.row, he.matched, he.amount⟩
  · intro tx htx
    cases List.mem_append.mp htx with
    | inl h => exact hb.tagged tx h
    | inr h =>
        rw [List.mem_singleton.mp h]
        exact ⟨id, d, rfl, hd⟩
  · simp only [World.broadcast, List.map_append, List.map_cons, List.map_nil]
    refine List.Nodup.append hb.hashes (List.nodup_singleton _) ?_
    intro x hx hx'
    obtain ⟨tx, htx, rfl⟩ := List.mem_map.mp hx
    exact hfresh tx htx (List.mem_singleton.mp hx')
  · have hchange : (w.broadcast (some id) call).pendingWei = w.pendingWei -
        w.unmintedWei d + (w.broadcast (some id) call).unmintedWei d := by
      refine w.deposits.sum_change hd ?_
      intro e _ he
      have he' : e.id ≠ id := he
      rw [World.unmintedWei, World.mintedFor, hother e.id he']
      rfl
    have hbefore : w.unmintedWei d = d.amountWei :=
      World.unmintedWei_none hlive (hid ▸ hmints)
    have hafter : (w.broadcast (some id) call).unmintedWei d ≤ d.amountWei := by
      rw [World.unmintedWei]
      split <;> omega
    omega
  · intro hs
    have hchange : (w.broadcast (some id) call).minedSinceWei hs = w.minedSinceWei hs -
        w.minedWei hs d + (w.broadcast (some id) call).minedWei hs d := by
      refine w.deposits.sum_change hd ?_
      intro e _ he
      have he' : e.id ≠ id := he
      rw [World.minedWei, World.mintedBy, hother e.id he']
      rfl
    have hbefore : w.minedWei hs d = 0 := by
      simp [World.minedWei, World.mintedBy, hid, hmints]
    have hafter : 0 ≤ (w.broadcast (some id) call).minedWei hs d := by
      rw [World.minedWei]
      split <;> omega
    omega

/-- A row without a transaction is claimed. -/
theorem MintEffect.claim (hb : DepositBooks w) (hd : w.deposits.get id = some d)
    (hc : claimable d = true) (hmints : w.mintsOf id = []) :
    MintEffect id w (w.setDeposit id { status := some .minting }) := by
  have hid : d.id = id := Collection.get_id hd
  have hclaim : d.live = true ∧ d.baseMintTxHash = none := by
    simp only [claimable, Bool.and_eq_true, beq_iff_eq] at hc
    exact ⟨hc.1.1, hc.1.2⟩
  have hset : (({ status := some .minting } : DepositSet).apply d).live = true := rfl
  refine .update hb hd hclaim.1 rfl rfl rfl rfl (.unsent hset hclaim.2 hmints) ?_
  rw [World.unmintedWei_none hset (hid ▸ hmints),
    World.unmintedWei_none hclaim.1 (hid ▸ hmints)]
  exact Int.le_refl _

/-- The hash of the row's transaction is put on file. -/
theorem MintEffect.file (hb : DepositBooks w) (hd : w.deposits.get id = some d)
    (hst : d.status = .minting) {tx : MintTx} (hmints : w.mintsOf id = [tx]) :
    MintEffect id w (w.setDeposit id { baseMintTxHash := some tx.hash }) := by
  have hlive : d.live = true := DepositDoc.live_iff.mpr (Or.inr hst)
  have hphase : tx.call.amount = d.amountWei ∧ 0 ≤ d.amountWei := by
    cases (hb.phase id d hd).of_live hlive with
    | inl h =>
        rw [hmints] at h
        cases h.2
    | inr h =>
        obtain ⟨_, tx', htx, hamount, hpos, _⟩ := h
        rw [hmints] at htx
        cases htx
        exact ⟨hamount, hpos⟩
  refine .update hb hd hlive rfl rfl rfl ?_ (.sent tx hst hmints hphase.1 hphase.2 ?_) ?_
  · exact DepositDoc.isOpen_of_live hlive
  · exact Or.inr rfl
  · exact Int.le_refl _

/-- The row is settled one way or the other once its transaction has a receipt. -/
theorem MintEffect.settle (hb : DepositBooks w) (hd : w.deposits.get id = some d)
    (hst : d.status = .minting) {tx : MintTx} (hmints : w.mintsOf id = [tx])
    (hhash : d.baseMintTxHash = some tx.hash) {r : Receipt}
    (hr : w.base.receipts tx.hash = some r) {u : DepositSet}
    (hu : u.status = some (if r.success then .minted else .failed))
    (hamount : u.amountWei = none) (htxid : u.fairTxid = none) (hvout : u.fairVout = none)
    (hkeep : u.baseMintTxHash = none) :
    MintEffect id w (w.setDeposit id u) := by
  have hid : d.id = id := Collection.get_id hd
  have hlive : d.live = true := DepositDoc.live_iff.mpr (Or.inr hst)
  have hstatus : (u.apply d).status = if r.success then .minted else .failed := by
    simp [DepositSet.apply, hu]
  have hsettled : (u.apply d).live = false := by
    rw [DepositDoc.live, hstatus]
    split <;> rfl
  have hpos : 0 ≤ d.amountWei := by
    cases (hb.phase id d hd).of_live hlive with
    | inl h =>
        rw [hmints] at h
        cases h.2
    | inr h =>
        obtain ⟨_, _, _, _, hpos, _⟩ := h
        exact hpos
  refine .update hb hd hlive hamount htxid hvout ?_ ?_ ?_
  · rw [DepositDoc.isOpen, hstatus]
    split <;> rfl
  · cases hs : r.success with
    | true =>
        refine .minted (by rw [hstatus, hs]; rfl) ?_
        intro t ht
        rw [hmints, List.mem_singleton] at ht
        subst ht
        exact ⟨by simp [DepositSet.apply, hkeep, hhash], r, hr⟩
    | false =>
        refine .failed (by rw [hstatus, hs]; rfl) ?_
        intro t ht
        rw [hmints, List.mem_singleton] at ht
        subst ht
        exact ⟨r, hr, hs⟩
  · rw [World.unmintedWei_settled hsettled, World.unmintedWei]
    split <;> omega

end Books
end FairBridge
