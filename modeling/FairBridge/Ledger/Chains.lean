import FairBridge.Ledger.Deposits

/-!
The environment and the books. Mining a mint moves its amount from what is still
to be minted to the supply, a burn takes it out of the supply, and an intent adds
an open row.
-/

namespace FairBridge
open Store Async

/-- What a block of Base burns. -/
def EnvEvent.burned : EnvEvent → Int
  | .baseBlock logs => FairBridge.burned logs
  | _ => 0

/-- The supply was read to be `n`, and what was minted since makes up for the
difference. -/
def SupplyRead (n : Int) (w : World) : Prop :=
  ∃ hs, w.minedSinceRead = some hs ∧ w.base.totalSupply ≤ n + w.minedSinceWei hs

/-- What a step of the environment does to the books. -/
structure EnvEffect (burned : Int) (w w' : World) : Prop where
  books : DepositBooks w'
  supply : w'.base.totalSupply + w'.pendingWei = w.base.totalSupply + w.pendingWei - burned
  pending : w'.pendingWei ≤ w.pendingWei
  reads : ∀ n, SupplyRead n w → SupplyRead n w'

theorem burned_nonneg (logs : List Log) : 0 ≤ burned logs := by
  refine List.sum_nonneg ?_
  intro n hn
  obtain ⟨l, _, rfl⟩ := List.mem_map.mp hn
  split
  · exact Int.natCast_nonneg _
  · exact Int.le_refl 0

section Sums
variable {w w' : World} {id : ObjectId}

theorem World.mintedFor_congr (hm : w'.mintsOf id = w.mintsOf id)
    (h : ∀ tx ∈ w.mintsOf id, w'.base.receipts tx.hash = w.base.receipts tx.hash) :
    w'.mintedFor id = w.mintedFor id := by
  rw [mintedFor, mintedFor, hm, Bool.eq_iff_iff, List.any_eq_true, List.any_eq_true]
  exact exists_congr fun tx => and_congr_right fun htx => by rw [h tx htx]

theorem World.mintedBy_congr {hs hs' : List Hash} (hm : w'.mintsOf id = w.mintsOf id)
    (h : ∀ tx ∈ w.mintsOf id, w'.base.receipts tx.hash = w.base.receipts tx.hash ∧
      hs'.contains tx.hash = hs.contains tx.hash) :
    w'.mintedBy hs' id = w.mintedBy hs id := by
  rw [mintedBy, mintedBy, hm, Bool.eq_iff_iff, List.any_eq_true, List.any_eq_true]
  exact exists_congr fun tx => and_congr_right fun htx => by rw [(h tx htx).1, (h tx htx).2]

/-- Rows and transactions stay, and what is in the air stays in the air. -/
theorem EnvEffect.quiet {burned : Int} (hb : DepositBooks w') (hpos : 0 ≤ burned)
    (hd : w'.deposits = w.deposits) (ht : w'.base.txs = w.base.txs)
    (hr : ∀ tx ∈ w.base.txs, w'.base.receipts tx.hash = w.base.receipts tx.hash)
    (hs : w'.base.totalSupply = w.base.totalSupply - burned)
    (hm : w'.minedSinceRead = w.minedSinceRead) : EnvEffect burned w w' := by
  have hmints : ∀ j, w'.mintsOf j = w.mintsOf j := by
    intro j
    rw [World.mintsOf, ht, World.mintsOf]
  have hrec : ∀ j, ∀ tx ∈ w.mintsOf j, w'.base.receipts tx.hash = w.base.receipts tx.hash :=
    fun j tx htx => hr tx (World.mem_mintsOf.mp htx).1
  have hpending : w'.pendingWei = w.pendingWei := by
    rw [World.pendingWei, World.pendingWei, hd]
    refine congrArg List.sum (List.map_congr_left fun d _ => ?_)
    rw [World.unmintedWei, World.unmintedWei, World.mintedFor_congr (hmints d.id) (hrec d.id)]
  refine ⟨hb, by omega, Int.le_of_eq hpending, ?_⟩
  intro n hn
  obtain ⟨hs', hsome, hle⟩ := hn
  have hmined : w'.minedSinceWei hs' = w.minedSinceWei hs' := by
    rw [World.minedSinceWei, World.minedSinceWei, hd]
    refine congrArg List.sum (List.map_congr_left fun d _ => ?_)
    rw [World.minedWei, World.minedWei, World.mintedBy_congr (hmints d.id)
      fun tx htx => ⟨hrec d.id tx htx, rfl⟩]
  exact ⟨hs', hm.trans hsome, by omega⟩

end Sums

section Occur
variable {w w' : World} {e : EnvEvent}

/-- An intent as it is created. -/
structure DepositDoc.Fresh (d : DepositDoc) : Prop where
  status : d.status = .awaiting
  txid : d.fairTxid = none
  hash : d.baseMintTxHash = none
  amount : d.amountSats = 0

/-- The environment adds at most an intent to the deposits. -/
theorem EnvEvent.occur_deposits (h : e.occur w = some w') :
    w'.deposits = w.deposits ∨
      ∃ d : DepositDoc, d.Fresh ∧ w'.deposits = (w.insertDeposit d).deposits := by
  cases e with
  | wait _ | transactionKnown _ _ | credit _ | masternodes _ | abort | restart
  | serveFirst _ | market _ =>
      cases h
      exact Or.inl rfl
  | mine _ _ | foreignReceipt _ _ | baseBlock _ | fairBlock _ | confirm _ | order _ _ | quote _ =>
      simp only [occur] at h
      split at h <;> cases h
      exact Or.inl rfl
  | intent _ _ _ _ =>
      simp only [occur] at h
      split at h <;> cases h
      exact Or.inr ⟨_, ⟨rfl, rfl, rfl, rfl⟩, rfl⟩

/-- The rows the environment adds are intents. -/
theorem EnvEvent.occur_new (h : e.occur w = some w') {id : ObjectId} {d : DepositDoc}
    (hn : w.deposits.get id = none) (hd : w'.deposits.get id = some d) :
    d.status = .awaiting ∧ d.fairTxid = none ∧ d.baseMintTxHash = none := by
  cases EnvEvent.occur_deposits h with
  | inl hsame =>
      rw [hsame, hn] at hd
      cases hd
  | inr hnew =>
      obtain ⟨d₀, hfresh, hins⟩ := hnew
      rw [hins, World.get_insertDeposit] at hd
      split at hd
      · cases hd
        exact ⟨hfresh.status, hfresh.txid, hfresh.hash⟩
      · rw [hn] at hd
        cases hd

theorem DepositBooks.occur (hb : DepositBooks w) (h : e.occur w = some w') :
    DepositBooks w' := by
  have hs := EnvEvent.occur_surroundings h
  have hmints : ∀ j, w'.mintsOf j = w.mintsOf j := by
    intro j
    rw [World.mintsOf, hs.txs, World.mintsOf]
  refine ⟨?_, ?_, ?_, ?_⟩
  · intro id d hd
    rw [hmints]
    cases hold : w.deposits.get id with
    | some d₀ =>
        cases (hs.deposits id d₀ hold).symm.trans hd
        exact (hb.phase id d hold).later hs.receipts
    | none =>
        obtain ⟨hst, htxid, hhash⟩ := EnvEvent.occur_new h hold hd
        exact .intent (by simp [DepositDoc.isOpen, hst]) htxid hhash (hb.mintsOf_none hold)
  · intro j hj
    obtain ⟨d, hd, hm, ha⟩ := hb.jobs j (hs.mintQueue ▸ hj)
    exact ⟨d, hs.deposits _ d hd, hm, ha⟩
  · rw [hs.txs]
    intro tx htx
    obtain ⟨j, d, hj, hd⟩ := hb.tagged tx htx
    exact ⟨j, d, hj, hs.deposits j d hd⟩
  · rw [hs.txs]
    exact hb.hashes

/-- The transaction of a row is mined. -/
theorem EnvEffect.mine (hb : DepositBooks w) {hash : Hash} {success : Bool}
    (h : (EnvEvent.mine hash success).occur w = some w') : EnvEffect 0 w w' := by
  have hbooks := hb.occur h
  simp only [EnvEvent.occur] at h
  split at h <;> cases h
  rename_i tx hfind hnone
  have htx := List.mem_of_find?_eq_some hfind
  have hhash : tx.hash = hash := by simpa using List.find?_some hfind
  subst hhash
  obtain ⟨id, d, htag, hd⟩ := hb.tagged tx htx
  have hid : d.id = id := Collection.get_id hd
  obtain ⟨hst, hmints, hamount, hpos⟩ :=
    (hb.phase id d hd).of_unmined (World.mem_mintsOf.mpr ⟨htx, htag⟩) hnone
  have hlive : d.live = true := DepositDoc.live_iff.mpr (Or.inr hst)
  -- no other row has a transaction of this hash
  have hother : ∀ j, j ≠ id → ∀ tx' ∈ w.mintsOf j, tx'.hash ≠ tx.hash := by
    intro j hj tx' htx' heq
    obtain ⟨hmem, htag'⟩ := World.mem_mintsOf.mp htx'
    cases List.inj_on_of_nodup_map hb.hashes hmem htx heq
    exact hj (Option.some.inj (htag'.symm.trans htag))
  set w' : World := { w with
    base := { w.base with
      totalSupply := w.base.totalSupply + if success = true then tx.call.amount else 0
      receipts := Function.update w.base.receipts tx.hash (some ⟨success, w.base.tip⟩) }
    minedSinceRead := w.minedSinceRead.map fun hs => hs ++ [tx.hash] } with hw'
  have hself : w'.base.receipts tx.hash = some ⟨success, w.base.tip⟩ := Function.update_self ..
  have hrec : ∀ j, j ≠ id → ∀ tx' ∈ w.mintsOf j,
      w'.base.receipts tx'.hash = w.base.receipts tx'.hash :=
    fun j hj tx' htx' => Function.update_of_ne (hother j hj tx' htx') ..
  have hown : w'.mintsOf id = [tx] := hmints
  have hunminted : w.unmintedWei d = d.amountWei := by
    simp [World.unmintedWei, World.mintedFor, hid, hmints, hnone, hlive]
  have hunminted' : w'.unmintedWei d = if success = true then 0 else d.amountWei := by
    cases success <;> simp [World.unmintedWei, World.mintedFor, hid, hown, hself, hlive]
  have hpending : w'.pendingWei = w.pendingWei - w.unmintedWei d + w'.unmintedWei d := by
    refine w.deposits.sum_change hd ?_
    intro x _ hx
    have hfor : w'.mintedFor x.id = w.mintedFor x.id := World.mintedFor_congr rfl (hrec x.id hx)
    rw [World.unmintedWei, World.unmintedWei, hfor]
  have hsupply : w'.base.totalSupply =
      w.base.totalSupply + if success = true then d.amountWei else 0 := by
    rw [← hamount]
  refine ⟨hbooks, ?_, ?_, ?_⟩
  · cases success <;> simp only [Bool.false_eq_true, if_true, if_false] at * <;> omega
  · cases success <;> simp only [Bool.false_eq_true, if_true, if_false] at * <;> omega
  · intro n hn
    obtain ⟨hs, hsome, hle⟩ := hn
    have hminedWei : w.minedWei hs d = 0 := by
      simp [World.minedWei, World.mintedBy, hid, hmints, hnone]
    have hminedWei' : w'.minedWei (hs ++ [tx.hash]) d = if success = true then d.amountWei else 0 := by
      cases success <;> simp [World.minedWei, World.mintedBy, hid, hown, hself]
    have hmined : w'.minedSinceWei (hs ++ [tx.hash]) =
        w.minedSinceWei hs - w.minedWei hs d + w'.minedWei (hs ++ [tx.hash]) d := by
      refine w.deposits.sum_change hd ?_
      intro x _ hx
      have hby : w'.mintedBy (hs ++ [tx.hash]) x.id = w.mintedBy hs x.id := by
        refine World.mintedBy_congr rfl fun tx' htx' => ⟨hrec x.id hx tx' htx', ?_⟩
        simp [hother x.id hx tx' htx']
      rw [World.minedWei, World.minedWei, hby]
    refine ⟨hs ++ [tx.hash], by rw [hw']; simp [hsome], ?_⟩
    omega

/-- An intent adds a row with nothing to mint. -/
theorem EnvEffect.intent (hb : DepositBooks w) {baseAddress : Address} {fairAddress : String}
    {hdIndex : Nat} {clientIp : Option String}
    (h : (EnvEvent.intent baseAddress fairAddress hdIndex clientIp).occur w = some w') :
    EnvEffect 0 w w' := by
  have hbooks := hb.occur h
  simp only [EnvEvent.occur] at h
  split at h <;> cases h
  set d : DepositDoc := { baseAddress, fairAddress, hdIndex, clientIp }
  have hnew : w.mintsOf w.deposits.nextId = [] :=
    hb.mintsOf_none (Collection.get_nextId w.deposits)
  have hpending : ((w.deposits.insert w.now d).docs.map w.unmintedWei).sum = w.pendingWei +
      w.unmintedWei { d with id := w.deposits.nextId, createdAt := w.now } :=
    w.deposits.sum_insert w.unmintedWei w.now d
  have hunminted : w.unmintedWei { d with id := w.deposits.nextId, createdAt := w.now } = 0 :=
    World.unmintedWei_settled rfl
  rw [hunminted, Int.add_zero] at hpending
  refine ⟨hbooks, ?_, Int.le_of_eq hpending, ?_⟩
  · exact (congrArg (w.base.totalSupply + ·) hpending).trans (Int.sub_zero _).symm
  · intro n hn
    obtain ⟨hs, hsome, hle⟩ := hn
    have hmined : ((w.deposits.insert w.now d).docs.map (w.minedWei hs)).sum =
        w.minedSinceWei hs +
          w.minedWei hs { d with id := w.deposits.nextId, createdAt := w.now } :=
      w.deposits.sum_insert (w.minedWei hs) w.now d
    have hzero : w.minedWei hs { d with id := w.deposits.nextId, createdAt := w.now } = 0 := by
      simp [World.minedWei, World.mintedBy, hnew]
    rw [hzero, Int.add_zero] at hmined
    refine ⟨hs, hsome, ?_⟩
    change w.base.totalSupply ≤ n + ((w.deposits.insert w.now d).docs.map (w.minedWei hs)).sum
    omega

theorem EnvEffect.occur (hb : DepositBooks w) (h : e.occur w = some w') :
    EnvEffect e.burned w w' := by
  have hbooks := hb.occur h
  cases e with
  | wait _ | transactionKnown _ _ | credit _ | masternodes _ | abort | restart
  | serveFirst _ | market _ =>
      cases h
      exact .quiet hbooks (Int.le_refl 0) rfl rfl (fun _ _ => rfl) (Int.sub_zero _).symm rfl
  | fairBlock _ | confirm _ | order _ _ | quote _ =>
      simp only [EnvEvent.occur] at h
      split at h <;> cases h
      exact .quiet hbooks (Int.le_refl 0) rfl rfl (fun _ _ => rfl) (Int.sub_zero _).symm rfl
  | mine _ _ => exact .mine hb h
  | foreignReceipt hash receipt =>
      simp only [EnvEvent.occur] at h
      split at h <;> cases h
      rename_i hfind _
      refine .quiet hbooks (Int.le_refl 0) rfl rfl ?_ (Int.sub_zero _).symm rfl
      intro tx htx
      have hne : ¬ (tx.hash == hash) = true := List.find?_eq_none.mp hfind tx htx
      exact Function.update_of_ne (by simpa using hne) ..
  | baseBlock logs =>
      simp only [EnvEvent.occur] at h
      split at h <;> cases h
      exact .quiet hbooks (burned_nonneg logs) rfl rfl (fun _ _ => rfl) rfl rfl
  | intent _ _ _ _ => exact .intent hb h

end Occur
end FairBridge
