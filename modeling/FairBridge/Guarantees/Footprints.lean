import FairBridge.Async.Steady
import FairBridge.Guarantees.TaskAreas
import FairBridge.Model.Frame

/-!
Every store, chain and queue has the tasks it belongs to: whatever the others do, in
whatever order and with whatever faults, it is as the environment leaves it.
-/

namespace FairBridge
open Store Async

/-- The area is as it was. -/
def Area.Same : Area → World → World → Prop
  | .nowhere, _, _ | .memory, _, _ => True
  | .deposits, w, w' => w'.deposits = w.deposits
  | .withdrawals, w, w' => w'.withdrawals = w.withdrawals
  | .buyOrders, w, w' => w'.buyOrders = w.buyOrders
  | .buybackCycles, w, w' => w'.buybackCycles = w.buybackCycles
  | .rewardCycles, w, w' => w'.rewardCycles = w.rewardCycles
  | .cursor, w, w' => w'.cursor = w.cursor
  | .audit, w, w' => w'.audit = w.audit
  | .mintQueue, w, w' => w'.mintQueue = w.mintQueue
  | .releaseQueue, w, w' => w'.releaseQueue = w.releaseQueue
  | .buyQueue, w, w' => w'.buyQueue = w.buyQueue
  | .mints, w, w' => w'.base.txs = w.base.txs ∧ w'.base.calls = w.base.calls
  | .proposals, w, w' => w'.safe = w.safe
  | .setups, w, w' => w'.base.walletTxs.filter (fun tx => tx.purpose.area == .setups) =
      w.base.walletTxs.filter fun tx => tx.purpose.area == .setups
  | .orderTxs, w, w' => w'.base.walletTxs.filter (fun tx => tx.purpose.area == .orderTxs) =
      w.base.walletTxs.filter fun tx => tx.purpose.area == .orderTxs
  | .cycleTxs, w, w' => w'.base.walletTxs.filter (fun tx => tx.purpose.area == .cycleTxs) =
      w.base.walletTxs.filter fun tx => tx.purpose.area == .cycleTxs
  | .releases, w, w' => w'.fair.sends.filter (fun s => s.area == .releases) =
      w.fair.sends.filter fun s => s.area == .releases
  | .payouts, w, w' => w'.fair.sends.filter (fun s => s.area == .payouts) =
      w.fair.sends.filter fun s => s.area == .payouts

/-- The two worlds differ at most in the given area, and in what the process remembers. -/
def Reach (reached : Area) (w w' : World) : Prop := ∀ a, reached ≠ a → a.Same w w'

section Reach
variable {β : Type} {op : Op β} {row : Option ObjectId} {w w' : World} {x : Except JsError β}

theorem Area.Same.refl (a : Area) (w : World) : a.Same w w := by
  cases a <;> trivial

theorem Area.Same.trans {a : Area} {u v w : World} (h : a.Same u v) (h' : a.Same v w) :
    a.Same u w := by
  cases a with
  | nowhere | memory => trivial
  | mints => exact ⟨h'.1.trans h.1, h'.2.trans h.2⟩
  | _ => exact Eq.trans h' h

theorem Reach.refl (reached : Area) (w : World) : Reach reached w w := fun a _ => .refl a w

theorem Reach.trans {reached : Area} {u v w : World} (h : Reach reached u v)
    (h' : Reach reached v w) : Reach reached u w :=
  fun a ha => (h a ha).trans (h' a ha)

/-- What is of another kind does not count. -/
theorem filter_other {δ : Type} {p : δ → Bool} {l : List δ} {d : δ} (h : p d ≠ true) :
    (l ++ [d]).filter p = l.filter p := by
  rw [List.filter_append, List.filter_singleton, Bool.eq_false_of_not_eq_true h]
  exact List.append_nil _

theorem sendWallet_reach (w : World) (sender : Address) (c : WalletCall) (purpose : Purpose) :
    Reach purpose.area w (w.sendWallet sender c purpose) := by
  intro a ha
  cases a with
  | setups | orderTxs | cycleTxs => exact filter_other fun hin => ha (eq_of_beq hin)
  | _ => trivial

theorem send_reach (w : World) (row : Option ObjectId) (address : String) (sats : Int)
    (payout : Option (ObjectId × Nat)) :
    Reach (if payout.isSome then .payouts else .releases) w (w.send row address sats payout) := by
  intro a ha
  cases a with
  | releases | payouts => exact filter_other fun hin => ha (eq_of_beq hin)
  | _ => trivial

theorem effect_reach (h : effect row op w = some (x, w')) : Reach op.area w w' := by
  cases op with
  | deposit q | withdrawal q | buybackCycle q | rewardCycle q | buyOrder q =>
      cases q with
      | find _ limit => cases limit <;> cases h <;> exact .refl _ _
      | _ =>
          cases h
          intro a ha
          cases a <;> trivial
  | buyOrderUpdateMany _ _ | cursorSet _ _ | auditLog _ | addMintJob _ | addReleaseJob _
  | addBuyJob _ | safeProposeTransaction _ _ | totalSupply | firstServed
  | knownDepositAddress _ _ | incNextIndex | addAddress _ | respondIntent _
  | cacheAddresses _ =>
      cases h
      intro a ha
      cases a <;> trivial
  | takeJob job | finishJob job _ =>
      cases job <;> cases h <;> intro a ha <;> cases a <;> trivial
  | cursorUpsert _ _ =>
      obtain ⟨_, _, _, rfl⟩ | ⟨_, _, rfl⟩ := effect_cursorUpsert h
      · exact .refl _ _
      · intro a ha
        cases a <;> trivial
  | writeContract _ =>
      obtain ⟨_, _, rfl⟩ | ⟨_, rfl, _⟩ := effect_writeContract h
      · exact .refl _ _
      · intro a ha
        cases a <;> trivial
  | sendWallet sender call purpose =>
      obtain ⟨_, _, rfl⟩ | ⟨_, rfl, _⟩ := effect_sendWallet h
      · exact .refl _ _
      · exact sendWallet_reach w sender call purpose
  | sendToAddress address amountFair payout =>
      obtain ⟨_, _, rfl⟩ | ⟨_, rfl, _⟩ := effect_sendToAddress h
      · exact .refl _ _
      · exact send_reach w row address _ payout
  | safeGetTransaction _ | getBlockAtHeight _ | quoteWfairOut _ | getRawTransaction _ =>
      simp only [effect] at h
      split at h <;> cases h <;> exact .refl _ _
  | waitForTransactionReceipt _ =>
      obtain ⟨_, _, hr⟩ := Option.map_eq_some_iff.mp h
      cases hr
      exact .refl _ _
  | _ =>
      cases h
      exact .refl _ _

theorem recordCall_reach (op : Op β) (w : World) : Reach op.area w (recordCall op w) := by
  cases op with
  | writeContract _ | safeProposeTransaction _ _ | sendToAddress _ _ _ =>
      intro a ha
      cases a <;> trivial
  | _ => exact .refl _ _

theorem answer_receipts {out : Outcome} {r : Except JsError β}
    (h : answer row op out w = some (r, w')) : w'.base.receipts = w.base.receipts := by
  have hrec : (recordCall op w).base.receipts = w.base.receipts := by
    cases op <;> rfl
  obtain ⟨_, _, _, rfl⟩ | ⟨x, hx, _⟩ := answer_cases h
  · exact hrec
  · exact (effect_receipts hx).trans hrec

theorem answer_given {out : Outcome} {r : Except JsError β}
    (h : answer row op out w = some (r, w')) :
    w'.base.blocks = w.base.blocks ∧ w'.fair.isvalid = w.fair.isvalid := by
  have hrec : (recordCall op w).base.blocks = w.base.blocks ∧
      (recordCall op w).fair.isvalid = w.fair.isvalid := by
    cases op <;> exact ⟨rfl, rfl⟩
  obtain ⟨_, _, _, rfl⟩ | ⟨x, hx, _⟩ := answer_cases h
  · exact hrec
  · exact ⟨(effect_given hx).1.trans hrec.1, (effect_given hx).2.trans hrec.2⟩

theorem answer_reach {out : Outcome} {r : Except JsError β}
    (h : answer row op out w = some (r, w')) : Reach op.area w w' := by
  obtain ⟨_, _, _, rfl⟩ | ⟨x, hx, _⟩ := answer_cases h
  · exact recordCall_reach op w
  · exact (recordCall_reach op w).trans (effect_reach hx)

end Reach

/-- The area is as it was, but for what the environment may add to it: intents, and how an
order moves on. -/
def Area.Kept : Area → World → World → Prop
  | .deposits, w, w' => ∀ id d, w.deposits.get id = some d → w'.deposits.get id = some d
  | .buyOrders, w, w' => ∀ id o, w.buyOrders.get id = some o →
      ∃ status, w'.buyOrders.get id = some { o with status := status }
  | a, w, w' => a.Same w w'

namespace Area.Kept
variable {a : Area} {u v w : World}

/-- What is the same is kept. -/
theorem of_same (h : a.Same v w) : a.Kept v w := by
  cases a with
  | deposits => exact fun _ _ hd => (Eq.symm h) ▸ hd
  | buyOrders => exact fun _ o ho => ⟨o.status, (Eq.symm h) ▸ ho⟩
  | _ => exact h

theorem trans (h : a.Kept u v) (h' : a.Kept v w) : a.Kept u w := by
  have hsame := @Area.Same.trans a u v w
  cases a with
  | deposits => exact fun id d hd => h' id d (h id d hd)
  | buyOrders =>
      intro id o ho
      obtain ⟨st, hst⟩ := h id o ho
      obtain ⟨st', hst'⟩ := h' id _ hst
      exact ⟨st', hst'⟩
  | _ => exact hsame h h'

theorem of_event {e : EnvEvent} (h : e.occur v = some w) (a : Area) : a.Kept v w := by
  have hs := EnvEvent.occur_surroundings h
  cases a with
  | nowhere | memory => trivial
  | deposits => exact hs.deposits
  | withdrawals => exact hs.withdrawals
  | buyOrders =>
      intro id o ho
      obtain ⟨o', ho', rfl | ⟨st, _, rfl⟩⟩ := hs.buyOrders id o ho
      · exact ⟨o'.status, ho'⟩
      · exact ⟨st, ho'⟩
  | buybackCycles => exact hs.buybackCycles
  | rewardCycles => exact hs.rewardCycles
  | cursor => exact hs.cursor
  | audit =>
      cases e with
      | mine _ _ | foreignReceipt _ _ | baseBlock _ | fairBlock _ | confirm _ | order _ _
      | quote _ | intent _ _ _ _ =>
          simp only [EnvEvent.occur] at h
          split at h <;> cases h
          rfl
      | _ =>
          cases h
          rfl
  | mintQueue => exact hs.mintQueue
  | releaseQueue => exact hs.releaseQueue
  | buyQueue => exact EnvEvent.occur_buyQueue h
  | mints => exact ⟨hs.txs, hs.calls⟩
  | proposals => exact hs.proposals
  | setups | orderTxs | cycleTxs => exact congrArg (List.filter _) hs.walletTxs
  | releases | payouts => exact congrArg (List.filter _) hs.sends

end Area.Kept

/-- A task without an area makes no request that reaches it. -/
theorem Task.program_beside {cfg : Config} {a : Area} (t : Task) (hnowhere : a ≠ .nowhere)
    (ha : a ∉ t.areas) : (t.program cfg).Only fun op => op.area ≠ a := by
  refine t.program_within.mono fun op hop hreach => ?_
  simp only [Op.within] at hop
  split at hop
  · rename_i hc
    rw [Bool.or_eq_true, List.contains_iff_mem, beq_iff_eq, hreach] at hc
    exact hc.elim hnowhere ha
  · exact hop

def areaSteady {ι : Type} (cfg : Config) (f : Faults ι) (a : Area) (hnowhere : a ≠ .nowhere)
    (hf : ∀ w i t, f.ready w i t = true → a ∉ t.areas) : Steady (service cfg f) where
  kept := a.Kept
  ok _ op := op.area ≠ a
  permits _ _ _ := True
  refl w := .of_same (.refl a w)
  trans := .trans
  env he := .of_event (service_env he).2 a
  tasks {w i t} ht := t.program_beside hnowhere (hf w i t ht)
  step hop _ _ hans := .of_same (answer_reach hans a hop)

/-- Where none of the tasks of an area is run, nothing else touches it, whatever is run, in
whatever order, and whatever faults strike. -/
theorem area_kept {ι : Type} [DecidableEq ι] (cfg : Config) (f : Faults ι) (a : Area)
    (hf : ∀ w i t, f.ready w i t = true → a ∉ t.areas) {w : World}
    {es : List (Event JsError ι Task EnvEvent)} {q : Pool Op JsError World ι}
    (hq : (service cfg f).exec (.init w) es = some q) : a.Kept w q.world := by
  by_cases hnowhere : a = .nowhere
  · subst hnowhere
    trivial
  · let K := areaSteady cfg f a hnowhere hf
    exact K.kept_exec (K.expected_init w) hq ((service cfg f).along_of (fun _ _ _ => trivial) _ _)

namespace Sample

/-- Only signers of mints are run. -/
def mintsOnly : Faults Unit where
  ready _ _ t := match t with
    | .signMint _ _ => true
    | _ => false
  may _ _ out _ := out.isDone
  mayKill _ _ _ := false
  row _ := none

/-- A mint is signed, mined and settled. -/
def signedMint : List (Event JsError Unit Task EnvEvent) :=
  .start () (.signMint .directEoa mintJob) :: List.replicate 4 (.step () .done) ++
    .env (.mine ⟨0⟩ true) :: List.replicate 3 (.step () .done)

end Sample

theorem mint_leaves_releases : ∃ q,
    (service Sample.config Sample.mintsOnly).exec (.init Sample.mintWorld) Sample.signedMint =
      some q ∧
    q.world.base.txs.length = 1 ∧ Area.releases.Kept Sample.mintWorld q.world := by
  have h : ((service Sample.config Sample.mintsOnly).exec (.init Sample.mintWorld)
      Sample.signedMint).map (fun q => q.world.base.txs.length) = some 1 := by
    decide +kernel
  obtain ⟨q, hq, hlength⟩ := Option.map_eq_some_iff.mp h
  refine ⟨q, hq, hlength, area_kept Sample.config Sample.mintsOnly .releases ?_ hq⟩
  intro w i t ht
  cases t with
  | signMint _ _ => simp [Task.areas]
  | _ => cases ht

end FairBridge
