import FairBridge.Contract.Wfair

/-!
The token ledger over any sequence of calls. What one call that does not revert can do
is listed once; supply and events, and what a pause freezes, are read off that list.
-/

namespace Wfair
open Token
variable {σ : Type} {oz : OpenZeppelin σ} {sender : Address} {call : Call} {s t u : σ}
  {events : List Event}

/-- `value` went from `source` to `target` while nothing was paused. -/
structure Moved (oz : OpenZeppelin σ) (source target : Address) (value : Nat) (s t : σ) :
    Prop where
  unpaused : oz.paused s = false
  paused : oz.paused t = oz.paused s
  book : (oz.book s).move uint256Limit 0 source target value = some (oz.book t)

/-- What a call that does not revert does to the token. -/
inductive Outcome (oz : OpenZeppelin σ) (sender : Address) (s t : σ) :
    Call → List Event → Prop
  | minted {recipient amount} (role : oz.hasRole s .minter sender = true)
      (recipient_ne : recipient ≠ 0) (moved : Moved oz 0 recipient amount s t) :
      Outcome oz sender s t (.mint recipient amount) [.minted recipient amount]
  | mintedForDeposit {recipient amount faircoinTxid vout}
      (role : oz.hasRole s .minter sender = true)
      (recipient_ne : recipient ≠ 0) (moved : Moved oz 0 recipient amount s t) :
      Outcome oz sender s t (.mintForDeposit recipient amount faircoinTxid vout)
        [.mintedForDeposit faircoinTxid vout recipient amount]
  | bridgeBurned {amount faircoinAddress} (positive : 0 < amount)
      (length : 26 ≤ faircoinAddress.length ∧ faircoinAddress.length ≤ 35)
      (sender_ne : sender ≠ 0) (moved : Moved oz sender 0 amount s t) :
      Outcome oz sender s t (.bridgeBurn amount faircoinAddress)
        [.bridgeBurn sender amount faircoinAddress]
  | burned {value} (sender_ne : sender ≠ 0) (moved : Moved oz sender 0 value s t) :
      Outcome oz sender s t (.burn value) []
  | burnedFrom {account value} (account_ne : account ≠ 0)
      (moved : Moved oz account 0 value s t) :
      Outcome oz sender s t (.burnFrom account value) []
  | transferred {target value} (sender_ne : sender ≠ 0) (target_ne : target ≠ 0)
      (moved : Moved oz sender target value s t) :
      Outcome oz sender s t (.transfer target value) []
  | transferredFrom {source target value} (source_ne : source ≠ 0) (target_ne : target ≠ 0)
      (moved : Moved oz source target value s t) :
      Outcome oz sender s t (.transferFrom source target value) []
  | approved {spender value} (book : oz.book t = oz.book s)
      (paused : oz.paused t = oz.paused s) :
      Outcome oz sender s t (.approve spender value) []
  | permitted {owner spender value deadline signature} (book : oz.book t = oz.book s)
      (paused : oz.paused t = oz.paused s) :
      Outcome oz sender s t (.permit owner spender value deadline signature) []
  | roleGranted {role account} (book : oz.book t = oz.book s)
      (paused : oz.paused t = oz.paused s) :
      Outcome oz sender s t (.grantRole role account) []
  | roleRevoked {role account} (book : oz.book t = oz.book s)
      (paused : oz.paused t = oz.paused s) :
      Outcome oz sender s t (.revokeRole role account) []
  | roleRenounced {role account} (book : oz.book t = oz.book s)
      (paused : oz.paused t = oz.paused s) :
      Outcome oz sender s t (.renounceRole role account) []
  | paused (book : oz.book t = oz.book s) (paused : oz.paused t = true) :
      Outcome oz sender s t .pause []
  | unpaused (role : oz.hasRole s .pauser sender = true) (book : oz.book t = oz.book s) :
      Outcome oz sender s t .unpause []

theorem moved_after_sameToken {source target : Address} {value : Nat} {m : σ}
    (hm : oz.SameToken s m) (h : Moved oz source target value m t) :
    Moved oz source target value s t := by
  refine ⟨?_, ?_, ?_⟩
  · rw [← hm.paused]
    exact h.unpaused
  · rw [← hm.paused]
    exact h.paused
  · rw [← hm.book]
    exact h.book

theorem withoutEvents_eq_some {r : Option σ} (h : withoutEvents r = some (t, events)) :
    r = some t ∧ events = [] := by
  cases r with
  | none => cases h
  | some u =>
      cases h
      exact ⟨rfl, rfl⟩

section Calls
variable (hoz : oz.AsPublished)
include hoz

theorem moved_of_update {source target : Address} {value : Nat}
    (h : _update oz source target value s = some t) : Moved oz source target value s t := by
  obtain ⟨_, hpaused, hmove⟩ := Option.bind_eq_some_iff.mp h
  obtain ⟨hbook, hkeep, _⟩ := hoz.update hmove
  exact ⟨hoz.requireNotPaused hpaused, hkeep, hbook⟩

theorem mint_parts {recipient : Address} {amount : Nat} {event : Event}
    (h : (do
      oz._checkRole .minter sender s
      oz._requireNotPaused s
      let t ← oz._mint (_update oz) recipient amount s
      return (t, [event])) = some (t, events)) :
    oz.hasRole s .minter sender = true ∧ recipient ≠ 0 ∧
      Moved oz 0 recipient amount s t ∧ events = [event] := by
  obtain ⟨_, hrole, h⟩ := Option.bind_eq_some_iff.mp h
  obtain ⟨_, _, h⟩ := Option.bind_eq_some_iff.mp h
  obtain ⟨m, hmint, h⟩ := Option.bind_eq_some_iff.mp h
  obtain ⟨hne, hupdate⟩ := hoz.mint hmint
  cases h
  exact ⟨hoz.checkRole hrole, hne, moved_of_update hoz hupdate, rfl⟩

theorem bridgeBurn_parts {amount : Nat} {faircoinAddress : List UInt8}
    (h : bridgeBurn oz sender amount faircoinAddress s = some (t, events)) :
    0 < amount ∧ (26 ≤ faircoinAddress.length ∧ faircoinAddress.length ≤ 35) ∧
      sender ≠ 0 ∧ Moved oz sender 0 amount s t ∧
      events = [.bridgeBurn sender amount faircoinAddress] := by
  obtain ⟨_, _, h⟩ := Option.bind_eq_some_iff.mp h
  obtain ⟨_, hamount, h⟩ := Option.bind_eq_some_iff.mp h
  obtain ⟨_, hlength, h⟩ := Option.bind_eq_some_iff.mp h
  obtain ⟨m, hburn, h⟩ := Option.bind_eq_some_iff.mp h
  obtain ⟨hne, hupdate⟩ := hoz.internalBurn hburn
  cases h
  refine ⟨?_, ?_, hne, moved_of_update hoz hupdate, rfl⟩
  · simpa [guard, Nat.pos_iff_ne_zero] using hamount
  · simpa [guard] using hlength

theorem perform_outcome (h : perform oz sender s call = some (t, events)) :
    Outcome oz sender s t call events := by
  cases call with
  | mint recipient amount =>
      obtain ⟨hrole, hne, hmoved, rfl⟩ := mint_parts hoz h
      exact .minted hrole hne hmoved
  | mintForDeposit recipient amount faircoinTxid vout =>
      obtain ⟨hrole, hne, hmoved, rfl⟩ := mint_parts hoz h
      exact .mintedForDeposit hrole hne hmoved
  | bridgeBurn amount faircoinAddress =>
      obtain ⟨hamount, hlength, hne, hmoved, rfl⟩ := bridgeBurn_parts hoz h
      exact .bridgeBurned hamount hlength hne hmoved
  | pause =>
      obtain ⟨hm, rfl⟩ := withoutEvents_eq_some h
      obtain ⟨_, _, hpause⟩ := Option.bind_eq_some_iff.mp hm
      obtain ⟨hbook, hpaused, _⟩ := hoz.pause hpause
      exact .paused hbook hpaused
  | unpause =>
      obtain ⟨hm, rfl⟩ := withoutEvents_eq_some h
      obtain ⟨_, hrole, hunpause⟩ := Option.bind_eq_some_iff.mp hm
      obtain ⟨hbook, _, _⟩ := hoz.unpause hunpause
      exact .unpaused (hoz.checkRole hrole) hbook
  | transfer target value =>
      obtain ⟨hm, rfl⟩ := withoutEvents_eq_some h
      obtain ⟨hs, ht, hupdate⟩ := hoz.transfer hm
      exact .transferred hs ht (moved_of_update hoz hupdate)
  | approve spender value =>
      obtain ⟨hm, rfl⟩ := withoutEvents_eq_some h
      exact .approved (hoz.approve hm).book (hoz.approve hm).paused
  | transferFrom source target value =>
      obtain ⟨hm, rfl⟩ := withoutEvents_eq_some h
      obtain ⟨n, hsame, hs, ht, hupdate⟩ := hoz.transferFrom hm
      exact .transferredFrom hs ht (moved_after_sameToken hsame (moved_of_update hoz hupdate))
  | burn value =>
      obtain ⟨hm, rfl⟩ := withoutEvents_eq_some h
      obtain ⟨hne, hupdate⟩ := hoz.burn hm
      exact .burned hne (moved_of_update hoz hupdate)
  | burnFrom account value =>
      obtain ⟨hm, rfl⟩ := withoutEvents_eq_some h
      obtain ⟨n, hsame, hne, hupdate⟩ := hoz.burnFrom hm
      exact .burnedFrom hne (moved_after_sameToken hsame (moved_of_update hoz hupdate))
  | permit owner spender value deadline signature =>
      obtain ⟨hm, rfl⟩ := withoutEvents_eq_some h
      exact .permitted (hoz.permit hm).book (hoz.permit hm).paused
  | grantRole role account =>
      obtain ⟨hm, rfl⟩ := withoutEvents_eq_some h
      exact .roleGranted (hoz.grantRole hm).1 (hoz.grantRole hm).2
  | revokeRole role account =>
      obtain ⟨hm, rfl⟩ := withoutEvents_eq_some h
      exact .roleRevoked (hoz.revokeRole hm).1 (hoz.revokeRole hm).2
  | renounceRole role account =>
      obtain ⟨hm, rfl⟩ := withoutEvents_eq_some h
      exact .roleRenounced (hoz.renounceRole hm).1 (hoz.renounceRole hm).2

/-- A transaction reverted and changed nothing, or its call had its outcome. -/
theorem submit_cases (s : σ) (tx : Address × Call) :
    (submit oz s tx = ⟨tx.1, tx.2, s, s, [], false⟩) ∨
      ∃ t events, submit oz s tx = ⟨tx.1, tx.2, s, t, events, true⟩ ∧
        Outcome oz tx.1 s t tx.2 events := by
  unfold submit
  cases hperform : perform oz tx.1 s tx.2 with
  | none => exact .inl rfl
  | some r => exact .inr ⟨r.1, r.2, rfl, perform_outcome hoz hperform⟩

end Calls

/-- One step keeps `I` and writes a receipt with `P`, so a run does. -/
theorem receipts_induction {I : σ → Prop} {P Q : Receipt σ → Prop}
    (hstep : ∀ s tx, I s → Q (submit oz s tx) →
      P (submit oz s tx) ∧ I (submit oz s tx).after)
    (txs : List (Address × Call)) (hs : I s) (hQ : ∀ r ∈ receipts oz s txs, Q r) :
    (∀ r ∈ receipts oz s txs, P r) ∧ I (stateAfter oz s txs) := by
  induction txs generalizing s with
  | nil => exact ⟨by simp [receipts], hs⟩
  | cons tx rest ih =>
      have hhead := hQ _ (List.mem_cons_self ..)
      obtain ⟨hP, hI⟩ := hstep s tx hs hhead
      obtain ⟨hrest, hlast⟩ := ih hI fun r hr => hQ r (List.mem_cons_of_mem _ hr)
      refine ⟨fun r hr => ?_, hlast⟩
      cases List.mem_cons.mp hr with
      | inl h => exact h ▸ hP
      | inr h => exact hrest r h

def Sound (oz : OpenZeppelin σ) (s : σ) : Prop :=
  (oz.book s).Balanced uint256Limit

theorem Sound.totalSupply_eq (h : Sound oz s) :
    oz.totalSupply s = ∑ a, oz.balanceOf s a := h.sum_eq.symm

theorem Moved.sound {source target : Address} {value : Nat} (hs : Sound oz s)
    (h : Moved oz source target value s t) : Sound oz t :=
  Book.move_balanced hs h.book

theorem Moved.made {target : Address} {value : Nat} (hs : Sound oz s) (ht : target ≠ 0)
    (h : Moved oz 0 target value s t) : oz.totalSupply t = oz.totalSupply s + value :=
  Book.move_made hs ht h.book

theorem Moved.destroyed {source : Address} {value : Nat} (hs : Sound oz s) (ht : source ≠ 0)
    (h : Moved oz source 0 value s t) :
    oz.totalSupply t + value = oz.totalSupply s ∧
      oz.balanceOf t source + value = oz.balanceOf s source :=
  Book.move_destroyed hs ht h.book

theorem Moved.between {source target : Address} {value : Nat} (hs : Sound oz s)
    (hsource : source ≠ 0) (htarget : target ≠ 0) (h : Moved oz source target value s t) :
    oz.totalSupply t = oz.totalSupply s :=
  Book.move_between hs hsource htarget h.book

theorem totalSupply_of_book (h : oz.book t = oz.book s) :
    oz.totalSupply t = oz.totalSupply s := congrArg Book.total h

theorem balanceOf_of_book (h : oz.book t = oz.book s) : oz.balanceOf t = oz.balanceOf s :=
  congrArg Book.balances h

theorem Outcome.sound (hs : Sound oz s) (h : Outcome oz sender s t call events) :
    Sound oz t := by
  cases h with
  | minted _ _ hmoved | mintedForDeposit _ _ hmoved | bridgeBurned _ _ _ hmoved
  | burned _ hmoved | burnedFrom _ hmoved | transferred _ _ hmoved
  | transferredFrom _ _ hmoved => exact hmoved.sound hs
  | approved hbook _ | permitted hbook _ | roleGranted hbook _ | roleRevoked hbook _
  | roleRenounced hbook _ | paused hbook _ | unpaused _ hbook =>
      rw [Sound, hbook]
      exact hs

/-- Only a minter's call adds to the supply. -/
theorem Outcome.role_of_growth (hs : Sound oz s) (h : Outcome oz sender s t call events)
    (hgrow : oz.totalSupply s < oz.totalSupply t) : oz.hasRole s .minter sender = true := by
  cases h with
  | minted hrole _ _ | mintedForDeposit hrole _ _ => exact hrole
  | bridgeBurned _ _ hne hmoved | burned hne hmoved | burnedFrom hne hmoved =>
      have hdrop := (hmoved.destroyed hs hne).1
      omega
  | transferred hsource htarget hmoved | transferredFrom hsource htarget hmoved =>
      have hkeep := hmoved.between hs hsource htarget
      omega
  | approved hbook _ | permitted hbook _ | roleGranted hbook _ | roleRevoked hbook _
  | roleRenounced hbook _ | paused hbook _ | unpaused _ hbook =>
      have hkeep := totalSupply_of_book hbook
      omega

def mintedTotal (events : List Event) : Nat := (events.map Event.mintedAmount).sum

def bridgeBurnedTotal (events : List Event) : Nat :=
  (events.map Event.bridgeBurnedAmount).sum

theorem Outcome.supply (hs : Sound oz s) (h : Outcome oz sender s t call events) :
    oz.totalSupply t + bridgeBurnedTotal events
        + (Receipt.mk sender call s t events true).burnedAmount
      = oz.totalSupply s + mintedTotal events := by
  cases h with
  | minted _ hne hmoved | mintedForDeposit _ hne hmoved =>
      have hmade := hmoved.made hs hne
      simp [mintedTotal, bridgeBurnedTotal, Event.mintedAmount, Event.bridgeBurnedAmount,
        Receipt.burnedAmount, hmade]
  | bridgeBurned _ _ hne hmoved | burned hne hmoved | burnedFrom hne hmoved =>
      have hdrop := (hmoved.destroyed hs hne).1
      simp [mintedTotal, bridgeBurnedTotal, Event.mintedAmount, Event.bridgeBurnedAmount,
        Receipt.burnedAmount, hdrop]
  | transferred hsource htarget hmoved | transferredFrom hsource htarget hmoved =>
      have hkeep := hmoved.between hs hsource htarget
      simp [mintedTotal, bridgeBurnedTotal, Receipt.burnedAmount, hkeep]
  | approved hbook _ | permitted hbook _ | roleGranted hbook _ | roleRevoked hbook _
  | roleRenounced hbook _ | paused hbook _ | unpaused _ hbook =>
      have hkeep := totalSupply_of_book hbook
      simp [mintedTotal, bridgeBurnedTotal, Receipt.burnedAmount, hkeep]

/-- The sender's balance and the supply went down by `amount`. -/
def Receipt.Dropped (oz : OpenZeppelin σ) (r : Receipt σ) (amount : Nat) : Prop :=
  oz.balanceOf r.after r.sender + amount = oz.balanceOf r.before r.sender ∧
    oz.totalSupply r.after + amount = oz.totalSupply r.before

/-- What a receipt tells about the burns that the bridge pays out. -/
structure Receipt.Signals (oz : OpenZeppelin σ) (r : Receipt σ) : Prop where
  emitted : ∀ account amount faircoinAddress,
    .bridgeBurn account amount faircoinAddress ∈ r.events ↔
      r.call = .bridgeBurn amount faircoinAddress ∧ r.sender = account ∧ 0 < amount ∧
        r.Dropped oz amount
  length : ∀ account amount faircoinAddress,
    .bridgeBurn account amount faircoinAddress ∈ r.events →
      26 ≤ faircoinAddress.length ∧ faircoinAddress.length ≤ 35
  dropped : oz.totalSupply r.after < oz.totalSupply r.before →
    (∃ amount faircoinAddress, .bridgeBurn r.sender amount faircoinAddress ∈ r.events) ∨
      0 < r.burnedAmount

theorem Outcome.signals (hs : Sound oz s) (h : Outcome oz sender s t call events) :
    (Receipt.mk sender call s t events true).Signals oz := by
  cases h with
  | minted _ hne hmoved | mintedForDeposit _ hne hmoved =>
      have hmade := hmoved.made hs hne
      exact ⟨by simp, by simp, fun hlt => by simp only at hlt; omega⟩
  | @bridgeBurned amount faircoinAddress hpositive hlength hne hmoved =>
      obtain ⟨hsupply, hbalance⟩ := hmoved.destroyed hs hne
      refine ⟨fun account amount' address => ⟨fun hmem => ?_, fun hcall => ?_⟩,
        fun account amount' address hmem => ?_,
        fun _ => .inl ⟨amount, faircoinAddress, List.mem_singleton.mpr rfl⟩⟩
      · cases List.mem_singleton.mp hmem
        exact ⟨rfl, rfl, hpositive, hbalance, hsupply⟩
      · obtain ⟨hcall, hsender, _, _⟩ := hcall
        cases hcall
        cases hsender
        exact List.mem_singleton.mpr rfl
      · cases List.mem_singleton.mp hmem
        exact hlength
  | burned hne hmoved | burnedFrom hne hmoved =>
      have hdrop := (hmoved.destroyed hs hne).1
      refine ⟨by simp, by simp, fun hlt => .inr ?_⟩
      simp only [Receipt.burnedAmount] at hlt ⊢
      omega
  | transferred hsource htarget hmoved | transferredFrom hsource htarget hmoved =>
      have hkeep := hmoved.between hs hsource htarget
      exact ⟨by simp, by simp, fun hlt => by simp only at hlt; omega⟩
  | approved hbook _ | permitted hbook _ | roleGranted hbook _ | roleRevoked hbook _
  | roleRenounced hbook _ | paused hbook _ | unpaused _ hbook =>
      have hkeep := totalSupply_of_book hbook
      exact ⟨by simp, by simp, fun hlt => by simp only at hlt; omega⟩

/-- A call that reverts leaves everything where it is, also one with a zero amount. -/
theorem signals_of_reverted : (Receipt.mk sender call s s [] false).Signals oz := by
  refine ⟨fun account amount address => ⟨by simp, fun h => ?_⟩, by simp, by simp⟩
  obtain ⟨_, _, hpositive, _, hsupply⟩ := h
  simp only at hsupply
  omega

section Ledger
variable (hoz : oz.AsPublished)
include hoz

theorem submit_sound (tx : Address × Call) (hs : Sound oz s) :
    Sound oz (submit oz s tx).after := by
  obtain h | ⟨t, events, h, houtcome⟩ := submit_cases hoz s tx
  · rw [h]
    exact hs
  · rw [h]
    exact houtcome.sound hs

theorem submit_supply (tx : Address × Call) (hs : Sound oz s) :
    oz.totalSupply (submit oz s tx).after + bridgeBurnedTotal (submit oz s tx).events
        + (submit oz s tx).burnedAmount
      = oz.totalSupply s + mintedTotal (submit oz s tx).events := by
  obtain h | ⟨t, events, h, houtcome⟩ := submit_cases hoz s tx
  · simp [h, mintedTotal, bridgeBurnedTotal, Receipt.burnedAmount]
  · rw [h]
    exact houtcome.supply hs

theorem submit_role_of_growth (tx : Address × Call) (hs : Sound oz s)
    (hgrow : oz.totalSupply (submit oz s tx).before < oz.totalSupply (submit oz s tx).after) :
    oz.hasRole (submit oz s tx).before .minter (submit oz s tx).sender = true := by
  obtain h | ⟨t, events, h, houtcome⟩ := submit_cases hoz s tx
  · simp [h] at hgrow
  · rw [h] at hgrow ⊢
    exact houtcome.role_of_growth hs hgrow

theorem submit_signals (tx : Address × Call) (hs : Sound oz s) :
    (submit oz s tx).Signals oz := by
  obtain h | ⟨t, events, h, houtcome⟩ := submit_cases hoz s tx
  · rw [h]
    exact signals_of_reverted
  · rw [h]
    exact houtcome.signals hs

theorem deploy_book {admin minter : Address} (h : deploy oz admin minter = some s) :
    oz.book s = Book.empty := by
  unfold deploy at h
  split at h
  · cases h
  · cases h
    split <;> simp [hoz.internalGrantRole.1, hoz.deployed]

theorem deploy_sound {admin minter : Address} (h : deploy oz admin minter = some s) :
    Sound oz s := by
  rw [Sound, deploy_book hoz h]
  exact Book.balanced_empty (by decide)

theorem supply_run (txs : List (Address × Call)) (hs : Sound oz s) :
    oz.totalSupply (stateAfter oz s txs)
        + bridgeBurnedTotal ((receipts oz s txs).flatMap Receipt.events)
        + ((receipts oz s txs).map Receipt.burnedAmount).sum
      = oz.totalSupply s + mintedTotal ((receipts oz s txs).flatMap Receipt.events) := by
  induction txs generalizing s with
  | nil => simp [receipts, stateAfter, mintedTotal, bridgeBurnedTotal]
  | cons tx rest ih =>
      have hhead := submit_supply hoz tx hs
      have hrest := ih (submit_sound hoz tx hs)
      simp only [receipts, stateAfter, mintedTotal, bridgeBurnedTotal, List.flatMap_cons,
        List.map_append, List.sum_append, List.map_cons, List.sum_cons] at hhead hrest ⊢
      omega

theorem receipts_sound (txs : List (Address × Call)) (hs : Sound oz s) :
    (∀ r ∈ receipts oz s txs, r.Signals oz ∧ (oz.totalSupply r.before < oz.totalSupply r.after →
      oz.hasRole r.before .minter r.sender = true)) ∧ Sound oz (stateAfter oz s txs) :=
  receipts_induction (Q := fun _ => True)
    (fun s tx hs _ => ⟨⟨submit_signals hoz tx hs, submit_role_of_growth hoz tx hs⟩,
      submit_sound hoz tx hs⟩) txs hs fun _ _ => trivial

end Ledger

/-- Whatever is called after the deployment, the supply is what the holders own, and
what the events say was minted less what the bridge and the holders burned. -/
theorem ledger_matches_events (hoz : oz.AsPublished) {admin minter : Address}
    (hdeploy : deploy oz admin minter = some s) (txs : List (Address × Call)) :
    oz.totalSupply (stateAfter oz s txs) = ∑ a, oz.balanceOf (stateAfter oz s txs) a ∧
      (oz.totalSupply (stateAfter oz s txs) : Int)
        = mintedTotal ((receipts oz s txs).flatMap Receipt.events)
          - bridgeBurnedTotal ((receipts oz s txs).flatMap Receipt.events)
          - ((receipts oz s txs).map Receipt.burnedAmount).sum ∧
      (∀ r ∈ receipts oz s txs, oz.totalSupply r.before < oz.totalSupply r.after →
        oz.hasRole r.before .minter r.sender = true) ∧
      ∀ r ∈ receipts oz s txs, r.Signals oz := by
  have hs := deploy_sound hoz hdeploy
  obtain ⟨hreceipts, hlast⟩ := receipts_sound hoz txs hs
  have hrun := supply_run hoz txs hs
  have hzero : oz.totalSupply s = 0 := congrArg Book.total (deploy_book hoz hdeploy)
  refine ⟨hlast.totalSupply_eq, ?_, fun r hr => (hreceipts r hr).2,
    fun r hr => (hreceipts r hr).1⟩
  rw [hzero] at hrun
  omega

theorem Outcome.frozen (hs : oz.paused s = true) (h : Outcome oz sender s t call events)
    (hcall : call ≠ .unpause) :
    oz.paused t = true ∧ oz.book t = oz.book s ∧ events = [] := by
  cases h with
  | minted _ _ hmoved | mintedForDeposit _ _ hmoved | bridgeBurned _ _ _ hmoved
  | burned _ hmoved | burnedFrom _ hmoved | transferred _ _ hmoved
  | transferredFrom _ _ hmoved =>
      have hnot := hmoved.unpaused
      rw [hs] at hnot
      cases hnot
  | approved hbook hpaused | permitted hbook hpaused | roleGranted hbook hpaused
  | roleRevoked hbook hpaused | roleRenounced hbook hpaused =>
      exact ⟨hpaused.trans hs, hbook, rfl⟩
  | paused hbook hpaused => exact ⟨hpaused, hbook, rfl⟩
  | unpaused _ _ => exact absurd rfl hcall

/-- A call that ends a pause is the `unpause` of a pauser. -/
theorem Outcome.role_of_unpaused (hs : oz.paused s = true) (ht : oz.paused t = false)
    (h : Outcome oz sender s t call events) :
    call = .unpause ∧ oz.hasRole s .pauser sender = true := by
  by_cases hcall : call = .unpause
  · subst hcall
    cases h with
    | unpaused hrole _ => exact ⟨rfl, hrole⟩
  · have hstill := (h.frozen hs hcall).1
    rw [ht] at hstill
    cases hstill

section Pause
variable (hoz : oz.AsPublished)
include hoz

theorem submit_frozen (tx : Address × Call)
    (ht : oz.paused t = true ∧ oz.book t = oz.book s)
    (hunpause : (submit oz t tx).call = .unpause → (submit oz t tx).succeeded = false) :
    (oz.book (submit oz t tx).after = oz.book s ∧ (submit oz t tx).events = []) ∧
      oz.paused (submit oz t tx).after = true ∧
        oz.book (submit oz t tx).after = oz.book s := by
  obtain h | ⟨u, events, h, houtcome⟩ := submit_cases hoz t tx
  · rw [h]
    exact ⟨⟨ht.2, rfl⟩, ht⟩
  · rw [h] at hunpause ⊢
    obtain ⟨hpaused, hbook, hevents⟩ :=
      houtcome.frozen ht.1 fun hcall => by cases hunpause hcall
    exact ⟨⟨hbook.trans ht.2, hevents⟩, hpaused, hbook.trans ht.2⟩

theorem submit_unpaused (tx : Address × Call)
    (hbefore : oz.paused (submit oz s tx).before = true)
    (hafter : oz.paused (submit oz s tx).after = false) :
    (submit oz s tx).call = .unpause ∧
      oz.hasRole (submit oz s tx).before .pauser (submit oz s tx).sender = true := by
  obtain h | ⟨u, events, h, houtcome⟩ := submit_cases hoz s tx
  · rw [h] at hbefore hafter
    rw [hbefore] at hafter
    cases hafter
  · rw [h] at hbefore hafter ⊢
    exact houtcome.role_of_unpaused hbefore hafter

end Pause

/-- While the token is paused and nobody unpauses it, every call leaves it as it is, and
only a pauser's `unpause` ends that. -/
theorem pause_freezes_ledger (hoz : oz.AsPublished) :
    (∀ s txs, oz.paused s = true →
      (∀ r ∈ receipts oz s txs, r.call = .unpause → r.succeeded = false) →
      (∀ r ∈ receipts oz s txs, oz.balanceOf r.after = oz.balanceOf s ∧
        oz.totalSupply r.after = oz.totalSupply s ∧ r.events = []) ∧
        oz.paused (stateAfter oz s txs) = true) ∧
      ∀ s txs, ∀ r ∈ receipts oz s txs, oz.paused r.before = true →
        oz.paused r.after = false →
        r.call = .unpause ∧ oz.hasRole r.before .pauser r.sender = true := by
  refine ⟨fun s txs hs hkept => ?_, fun s txs => ?_⟩
  · obtain ⟨hreceipts, hlast⟩ := receipts_induction
      (I := fun t => oz.paused t = true ∧ oz.book t = oz.book s)
      (P := fun r => oz.book r.after = oz.book s ∧ r.events = [])
      (fun t tx ht hunpause => submit_frozen hoz tx ht hunpause) txs ⟨hs, rfl⟩ hkept
    exact ⟨fun r hr => ⟨balanceOf_of_book (hreceipts r hr).1,
      totalSupply_of_book (hreceipts r hr).1, (hreceipts r hr).2⟩, hlast.1⟩
  · exact (receipts_induction (I := fun _ => True) (Q := fun _ => True)
      (fun s tx _ _ => ⟨submit_unpaused hoz tx, trivial⟩) txs trivial fun _ _ => trivial).1

/-! The bases over a plain storage. No signature is a valid one there. -/

namespace Sample

structure Storage where
  balances : Address → Nat
  supply : Nat
  allowances : Address → Address → Nat
  isPaused : Bool
  roles : List (Role × Address)

def token (s : Storage) : Book Address := ⟨s.balances, s.supply⟩

def updateToken : Update Storage := fun source target value s =>
  ((token s).move uint256Limit 0 source target value).map fun b =>
    { s with balances := b.balances, supply := b.total }

def Storage.setAllowance (s : Storage) (owner spender : Address) (value : Nat) : Storage :=
  let row := Function.update (s.allowances owner) spender value
  { s with allowances := Function.update s.allowances owner row }

def spendAllowance (owner spender : Address) (value : Nat) (s : Storage) : Option Storage :=
  if s.allowances owner spender = uint256Limit - 1 then some s
  else if value ≤ s.allowances owner spender then
    some (s.setAllowance owner spender (s.allowances owner spender - value))
  else none

def held (p : Prop) [Decidable p] (r : Option Storage) : Option Storage :=
  if p then r else none

def bases : OpenZeppelin Storage where
  balanceOf := Storage.balances
  totalSupply := Storage.supply
  hasRole s role a := decide ((role, a) ∈ s.roles)
  paused := Storage.isPaused
  deployed := ⟨fun _ => 0, 0, fun _ _ => 0, false, []⟩
  _update := updateToken
  _mint u a value s := held (a ≠ 0) (u 0 a value s)
  _burn u a value s := held (a ≠ 0) (u a 0 value s)
  _grantRole role a s := { s with roles := (role, a) :: s.roles }
  _checkRole role a s := guard ((role, a) ∈ s.roles)
  _requireNotPaused s := guard (s.isPaused = false)
  _pause _ s := held (s.isPaused = false) (some { s with isPaused := true })
  _unpause _ s := held (s.isPaused = true) (some { s with isPaused := false })
  transfer u a b value s := held (a ≠ 0 ∧ b ≠ 0) (u a b value s)
  approve owner spender value s := held (owner ≠ 0 ∧ spender ≠ 0)
    (some (s.setAllowance owner spender value))
  transferFrom u c a b value s :=
    (spendAllowance a c value s).bind fun m => held (a ≠ 0 ∧ b ≠ 0) (u a b value m)
  burn u a value s := held (a ≠ 0) (u a 0 value s)
  burnFrom u c a value s :=
    (spendAllowance a c value s).bind fun m => held (a ≠ 0) (u a 0 value m)
  permit _ _ _ _ _ _ := none
  grantRole c role a s := held ((Role.defaultAdmin, c) ∈ s.roles)
    (some { s with roles := (role, a) :: s.roles })
  revokeRole c role a s := held ((Role.defaultAdmin, c) ∈ s.roles)
    (some { s with roles := s.roles.filter fun x => x ≠ (role, a) })
  renounceRole c role a s := held (a = c)
    (some { s with roles := s.roles.filter fun x => x ≠ (role, a) })

theorem held_eq_some {p : Prop} [Decidable p] {r : Option Storage} {t : Storage}
    (h : held p r = some t) : p ∧ r = some t := by
  unfold held at h
  split at h
  · rename_i hp
    exact ⟨hp, h⟩
  · cases h

theorem sameToken_of_spend {owner spender : Address} {value : Nat} {s t : Storage}
    (h : spendAllowance owner spender value s = some t) : bases.SameToken s t := by
  unfold spendAllowance at h
  split at h
  · cases h
    exact ⟨rfl, rfl, rfl⟩
  · split at h
    · cases h
      exact ⟨rfl, rfl, rfl⟩
    · cases h

theorem bases_asPublished : bases.AsPublished where
  deployed := rfl
  update h := by
    obtain ⟨b, hb, rfl⟩ := Option.map_eq_some_iff.mp h
    exact ⟨hb, rfl, rfl⟩
  mint h := held_eq_some h
  internalBurn h := held_eq_some h
  internalGrantRole := ⟨rfl, rfl⟩
  checkRole h := by simpa [bases, guard] using h
  requireNotPaused h := by simpa [bases, guard] using h
  pause h := by
    cases (held_eq_some h).2
    exact ⟨rfl, rfl, rfl⟩
  unpause h := by
    cases (held_eq_some h).2
    exact ⟨rfl, rfl, rfl⟩
  transfer h := and_assoc.mp (held_eq_some h)
  approve h := by
    cases (held_eq_some h).2
    exact ⟨rfl, rfl, rfl⟩
  transferFrom h := by
    obtain ⟨m, hm, hmove⟩ := Option.bind_eq_some_iff.mp h
    exact ⟨m, sameToken_of_spend hm, and_assoc.mp (held_eq_some hmove)⟩
  burn h := held_eq_some h
  burnFrom h := by
    obtain ⟨m, hm, hmove⟩ := Option.bind_eq_some_iff.mp h
    exact ⟨m, sameToken_of_spend hm, held_eq_some hmove⟩
  permit h := by cases h
  grantRole h := by
    cases (held_eq_some h).2
    exact ⟨rfl, rfl⟩
  revokeRole h := by
    cases (held_eq_some h).2
    exact ⟨rfl, rfl⟩
  renounceRole h := by
    cases (held_eq_some h).2
    exact ⟨rfl, rfl⟩

/-- A deposit is minted, part of it goes to the bridge, part is lent, burned and moved. -/
def day : List (Address × Call) :=
  [(2, .mintForDeposit 3 100 7 0), (3, .bridgeBurn 40 (List.replicate 34 102)),
    (3, .approve 4 20), (4, .transferFrom 3 5 5), (4, .burnFrom 3 10), (3, .mint 3 1000),
    (3, .burn 1)]

/-- A pause in which everybody tries to move tokens. -/
def freeze : List (Address × Call) :=
  [(2, .mint 3 100), (3, .transfer 4 1), (3, .unpause), (3, .bridgeBurn 1 (List.replicate 34 102)),
    (1, .grantRole .minter 3), (3, .mint 3 1), (3, .burn 1)]

end Sample

theorem sample_ledger_matches_events : ∃ s, deploy Sample.bases 1 2 = some s ∧
    Sample.bases.totalSupply (stateAfter Sample.bases s Sample.day) = 49 ∧
    Sample.bases.totalSupply (stateAfter Sample.bases s Sample.day)
      = ∑ a, Sample.bases.balanceOf (stateAfter Sample.bases s Sample.day) a := by
  refine ⟨_, rfl, by decide +kernel, ?_⟩
  have hdeploy : deploy Sample.bases 1 2 = some _ := rfl
  exact (ledger_matches_events Sample.bases_asPublished hdeploy Sample.day).1

theorem sample_pause_freezes_ledger : ∃ s, deploy Sample.bases 1 2 = some s ∧
    ∀ r ∈ receipts Sample.bases (stateAfter Sample.bases s (Sample.day ++ [(1, .pause)]))
      Sample.freeze, Sample.bases.totalSupply r.after = 49 ∧ r.events = [] := by
  refine ⟨_, rfl, fun r hr => ?_⟩
  obtain ⟨_, hsupply, hevents⟩ := ((pause_freezes_ledger Sample.bases_asPublished).1 _
    Sample.freeze (by decide +kernel) (by decide +kernel)).1 r hr
  exact ⟨hsupply.trans (by decide +kernel), hevents⟩

end Wfair
