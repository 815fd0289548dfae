import FairBridge.Model.Frame
import FairBridge.Service

/-!
Retries of one deposit's mint in safe_proposal mode, one run after the other. The hash goes
on the row before the call that proposes it, and a row that carries a hash is only looked
up, so that no await is left at which a run could die and the next one propose again.
-/

namespace FairBridge
open Store Async Async.Rules

/-- One slot that runs the mint signer for one row again and again. Any request may raise,
with or without effect, and a run may die at any await. -/
def safeRetries (id : ObjectId) : Faults Unit where
  ready _ _ t := match t with
    | .signMint .safeProposal job => job.depositId == id
    | _ => false
  may _ _ _ _ := true
  mayKill _ _ _ := true
  row _ := some id

/-- The request reaches neither the deposits nor the proposals. -/
def Op.apart {β : Type} (op : Op β) : Bool := op.part != .deposits && op.part != .proposals

def World.safeHash (w : World) (id : ObjectId) : Option Hash :=
  (w.deposits.get id).bind DepositDoc.safeTxHash

/-- The hash on file at first is on file still. If there was none, at most one call has been
made, and its hash is on file. -/
structure ProposedOnce (id : ObjectId) (w₀ w : World) : Prop where
  row : ∃ d, w.deposits.get id = some d
  kept : ∀ h, w₀.safeHash id = some h → w.safeHash id = some h
  calls : w.safe.calls = w₀.safe.calls ∨ w₀.safeHash id = none ∧
    ∃ h c, w.safeHash id = some h ∧ w.safe.calls = w₀.safe.calls ++ [(h, c)]

/-- What one request may do: a hash stays, and a call names the hash on file. -/
structure ProposesFiled (id : ObjectId) (s t : World) : Prop where
  kept : ∀ h, s.safeHash id = some h → t.safeHash id = some h
  calls : t.safe.calls = s.safe.calls ∨
    ∃ h c, s.safeHash id = some h ∧ t.safe.calls = s.safe.calls ++ [(h, c)]

namespace ProposedOnce
variable {id : ObjectId} {w₀ s t : World}

/-- Nothing was proposed, and the row still carries its hash. -/
theorem same (h : ProposedOnce id w₀ s) (hrow : ∃ d, t.deposits.get id = some d)
    (hhash : t.safeHash id = s.safeHash id) (hcalls : t.safe.calls = s.safe.calls) :
    ProposedOnce id w₀ t := by
  refine ⟨hrow, ?_, ?_⟩
  · exact fun x hx => hhash.trans (h.kept x hx)
  · rw [hhash, hcalls]
    exact h.calls

/-- While the row carries no hash nothing has been proposed. -/
theorem unfiled (h : ProposedOnce id w₀ s) (hnone : s.safeHash id = none) :
    s.safe.calls = w₀.safe.calls ∧ w₀.safeHash id = none := by
  have hfirst : w₀.safeHash id = none := by
    cases hw : w₀.safeHash id with
    | none => rfl
    | some x =>
        rw [h.kept x hw] at hnone
        cases hnone
  cases h.calls with
  | inl hc => exact ⟨hc, hfirst⟩
  | inr hc =>
      obtain ⟨_, x, _, hx, _⟩ := hc
      rw [hx] at hnone
      cases hnone

end ProposedOnce

theorem ProposesFiled.same {id : ObjectId} {s t : World}
    (hhash : t.safeHash id = s.safeHash id) (hcalls : t.safe.calls = s.safe.calls) :
    ProposesFiled id s t :=
  ⟨fun _ h => hhash.trans h, Or.inl hcalls⟩

theorem World.safeHash_of_row {w : World} {id : ObjectId} {d : DepositDoc}
    (h : w.deposits.get id = some d) : w.safeHash id = d.safeTxHash := by
  rw [safeHash, h]
  rfl

theorem World.safeHash_of_deposits {w w' : World} (h : w'.deposits = w.deposits)
    (id : ObjectId) : w'.safeHash id = w.safeHash id := by
  rw [safeHash, h, safeHash]

def safeRetryRules (cfg : Config) (id : ObjectId) (w₀ : World) :
    Rules (service cfg (safeRetries id)) World where
  world w := w
  inv := ProposedOnce id w₀
  rely _ s t := t.deposits.get id = s.deposits.get id ∧ t.safe = s.safe
  guar _ := ProposesFiled id
  rest _ _ := True
  hist s t := ∀ h, s.safeHash id = some h → t.safeHash id = some h
  rely_refl _ _ := ⟨rfl, rfl⟩
  rely_trans h h' := ⟨h'.1.trans h.1, h'.2.trans h.2⟩
  guar_refl _ _ := ⟨fun _ h => h, Or.inl rfl⟩
  guar_rely h := absurd rfl h
  rest_stable _ _ _ _ := trivial
  hist_refl _ _ h := h
  hist_trans h h' x hx := h' x (h x hx)
  guar_hist _ _ h := h.kept
  env_step := by
    intro e s w hi he
    have hsur := EnvEvent.occur_surroundings (service_env he).2
    obtain ⟨d, hd⟩ := hi.row
    have hd' := hsur.deposits id d hd
    have hhash : w.safeHash id = s.safeHash id := by
      rw [World.safeHash_of_row hd', World.safeHash_of_row hd]
    exact ⟨w, rfl, hi.same ⟨d, hd'⟩ hhash (congrArg _ hsur.proposals),
      fun _ hx => hhash.trans hx, fun _ => ⟨hd'.trans hd.symm, hsur.proposals⟩⟩

section Outline
variable {cfg : Config} {job : MintJob} {w₀ : World}

/-- The row reads as the run has it. -/
def Reads (id : ObjectId) (d : DepositDoc) (w : World) : Prop := w.deposits.get id = some d

theorem Reads.stable (d : DepositDoc) :
    (safeRetryRules cfg job.depositId w₀).Stable () (Reads job.depositId d) :=
  fun _ _ _ _ hst h => hst.1.trans h

theorem safeRetry_true :
    (safeRetryRules cfg job.depositId w₀).Stable () fun _ => True :=
  fun _ _ _ _ _ _ => trivial

/-- A request that reaches neither the rows nor the proposals leaves what is known of them. -/
theorem performs_apart {β : Type} {op : Op β} {P : World → Prop}
    (hop : op.apart = true)
    (hP : ∀ s t : World, t.deposits = s.deposits → t.safe = s.safe → P s → P t) :
    (safeRetryRules cfg job.depositId w₀).Performs () P op fun _ => P := by
  intro s out r w hi hs _ _ hans
  have hframe := answer_frame hans
  simp only [Op.apart, Bool.and_eq_true, bne_iff_ne] at hop
  have hdeps : w.deposits = s.deposits := hframe.deposits hop.1
  have hsafe : w.safe = s.safe := hframe.safe hop.2
  have hhash := World.safeHash_of_deposits hdeps job.depositId
  exact ⟨w, rfl, hi.same (hdeps ▸ hi.row) hhash (congrArg _ hsafe),
    .same hhash (congrArg _ hsafe), hP s w hdeps hsafe hs⟩

theorem triple_apart {α : Type} {p : Promise α}
    (h : p.Only fun op => op.apart = true) :
    (safeRetryRules cfg job.depositId w₀).Triple () (fun _ => True) p (fun _ _ => True)
      fun _ _ => True :=
  .harmless h safeRetry_true (fun _ _ _ => trivial) fun _ hop =>
    performs_apart hop fun _ _ _ _ _ => trivial

theorem call_apart {β : Type} {op : Op β} {d : DepositDoc}
    (hop : op.apart = true) :
    (safeRetryRules cfg job.depositId w₀).Triple () (Reads job.depositId d) (call op)
      (fun _ => Reads job.depositId d) fun _ _ => True := by
  refine .call (Reads.stable d) (.of_rest fun _ _ _ => trivial) ?_ (fun _ => Reads.stable d)
    safeRetry_true
  refine (performs_apart (P := Reads job.depositId d) hop ?_).post ?_
  · intro s t hdeps _ hs
    rw [Reads, hdeps]
    exact hs
  · intro r s _ hs
    cases r with
    | ok _ => exact hs
    | error _ => trivial

theorem alert_apart (message : String) :
    (alert cfg message).Only fun op => op.apart = true :=
  alert_only (fun _ => rfl) message

theorem safeProposalExists_apart (h : Hash) :
    (safeProposalExists h).Only fun op => op.apart = true := by
  have hget : (call (.safeGetTransaction h)).Only fun op =>
      op.apart = true := .request rfl
  exact Program.Only.tryCatch (hget.bind fun _ => trivial) fun _ => trivial

theorem safeRetry_claim (d : DepositDoc) :
    (safeRetryRules cfg job.depositId w₀).Performs () (Reads job.depositId d)
      (.deposit (.findOneAndUpdate (fun d => d.id == job.depositId && claimable d) none
        { status := some .minting }))
      (Answered (Found (Reads job.depositId) fun _ => True) fun _ => True) := by
  refine Deposit.performs_claimMint ?_ (fun _ _ _ _ => trivial) fun _ _ _ => trivial
  intro s e _ hi _ he _ _
  have hrow := World.get_setDeposit he { status := some .minting }
  have hhash := (World.safeHash_of_row hrow).trans (World.safeHash_of_row he).symm
  exact ⟨_, rfl, hi.same ⟨_, hrow⟩ hhash rfl, .same hhash rfl, hrow, trivial⟩

theorem safeRetry_read :
    (safeRetryRules cfg job.depositId w₀).Performs () (fun _ => True)
      (.deposit (.findOne (fun d => d.id == job.depositId) none))
      (Answered (Found (Reads job.depositId) fun _ => True) fun _ => True) := by
  refine Deposit.performs_findById ?_ fun _ _ _ => trivial
  intro s _ _
  change Found _ _ (s.deposits.get job.depositId) s
  cases h : s.deposits.get job.depositId with
  | none => trivial
  | some d => exact h

/-- The hash is on the row, and nothing has been proposed. -/
def FiledUnproposed (id : ObjectId) (w₀ : World) (h : Hash) (w : World) : Prop :=
  w₀.safeHash id = none ∧ w.safeHash id = some h ∧ w.safe.calls = w₀.safe.calls

theorem FiledUnproposed.stable (h : Hash) : (safeRetryRules cfg job.depositId w₀).Stable ()
    (FiledUnproposed job.depositId w₀ h) := by
  intro s t _ _ hst hs
  refine ⟨hs.1, ?_, by rw [hst.2, hs.2.2]⟩
  rw [World.safeHash, hst.1]
  exact hs.2.1

theorem safeRetry_persist {d : DepositDoc} (hnone : d.safeTxHash = none) (h : Hash) :
    (safeRetryRules cfg job.depositId w₀).Performs () (Reads job.depositId d)
      (.deposit (.updateOne (fun d => d.id == job.depositId && true) { safeTxHash := some h }))
      (Answered (fun _ => FiledUnproposed job.depositId w₀ h) fun _ => True) := by
  refine Deposit.performs_updateById rfl rfl ?_ fun _ _ _ _ _ => trivial
  intro s hi hs
  have hempty : s.safeHash job.depositId = none := by
    rw [World.safeHash_of_row hs, hnone]
  obtain ⟨hcalls, hfirst⟩ := hi.unfiled hempty
  have hrow := World.get_setDeposit hs { safeTxHash := some h }
  have hfiled : (s.setDeposit job.depositId { safeTxHash := some h }).safeHash job.depositId =
      some h := by
    rw [World.safeHash_of_row hrow]
    rfl
  refine ⟨_, rfl, ⟨⟨_, hrow⟩, ?_, Or.inl hcalls⟩, ⟨?_, Or.inl rfl⟩,
    ⟨hfirst, hfiled, hcalls⟩, trivial⟩
  · intro x hx
    rw [hfirst] at hx
    cases hx
  · intro x hx
    rw [hempty] at hx
    cases hx

theorem safeRetry_sign (h : Hash) :
    (safeRetryRules cfg job.depositId w₀).Performs () (FiledUnproposed job.depositId w₀ h)
      (.safeSignTransaction h)
      (Answered (fun _ => FiledUnproposed job.depositId w₀ h) fun _ => True) := by
  refine (performs_apart (P := FiledUnproposed job.depositId w₀ h)
    rfl ?_).post ?_
  · intro s t hdeps hsafe hs
    exact ⟨hs.1, (World.safeHash_of_deposits hdeps _).trans hs.2.1, by rw [hsafe, hs.2.2]⟩
  · intro r s _ hs
    cases r with
    | ok _ => exact hs
    | error _ => trivial

/-- The call may take effect and raise, and it may raise without effect: it was made. -/
theorem safeRetry_propose (h : Hash) (c : MintCall) :
    (safeRetryRules cfg job.depositId w₀).Performs () (FiledUnproposed job.depositId w₀ h)
      (.safeProposeTransaction h c) (Answered (fun _ _ => True) fun _ => True) := by
  have made : ∀ s t, ProposedOnce job.depositId w₀ s → FiledUnproposed job.depositId w₀ h s →
      t.deposits = s.deposits → t.safe.calls = s.safe.calls ++ [(h, c)] →
      ProposedOnce job.depositId w₀ t ∧ ProposesFiled job.depositId s t := by
    intro s t hi hs hdeps hcalls
    have hhash := World.safeHash_of_deposits hdeps job.depositId
    refine ⟨⟨hdeps ▸ hi.row, fun x hx => hhash.trans (hi.kept x hx), ?_⟩,
      fun x hx => hhash.trans hx, Or.inr ⟨h, c, hs.2.1, hcalls⟩⟩
    refine Or.inr ⟨hs.1, h, c, hhash.trans hs.2.1, ?_⟩
    rw [hcalls, hs.2.2]
  intro s out r w hi hs _ _ hans
  obtain ⟨e, _, rfl, rfl⟩ | ⟨x, hx, _⟩ := answer_cases hans
  · obtain ⟨hinv, hguar⟩ := made s (recordCall (.safeProposeTransaction h c) s) hi hs rfl rfl
    exact ⟨_, rfl, hinv, hguar, trivial⟩
  · obtain ⟨hinv, hguar⟩ := made s w hi hs (by cases hx; rfl) (by cases hx; rfl)
    refine ⟨w, rfl, hinv, hguar, ?_⟩
    cases r <;> trivial

theorem safeRetry_signSafeProposal (d : DepositDoc) :
    (safeRetryRules cfg job.depositId w₀).Triple () (Reads job.depositId d)
      (signSafeProposal cfg job d) (fun _ _ => True) fun _ _ => True := by
  have idle : ∀ α (a : α), (safeRetryRules cfg job.depositId w₀).Triple () (fun _ => True)
      (.pure a) (fun _ _ => True) fun _ _ => True :=
    fun _ _ => .pure safeRetry_true fun _ _ _ => trivial
  refine .fact (fun s _ hs => Collection.get_id hs) ?_
  intro hid
  rw [signSafeProposal]
  refine .bind (M := fun _ => Reads job.depositId d) ?_ fun _ => ?_
  · rw [buildSafeContext]
    split
    · exact call_apart rfl
    · exact .throw (Reads.stable d) fun _ _ _ => trivial
  · split
    · refine Triple.pre (P := fun _ => True) (triple_apart ?_) fun _ _ _ => trivial
      refine .bind (safeProposalExists_apart _) fun known => ?_
      split
      · trivial
      · exact .bind (alert_apart _) fun _ => trivial
    · rename_i hnone
      refine .bind (M := fun _ => Reads job.depositId d) ?_ fun data => ?_
      · exact .ofExcept (Reads.stable d) (fun _ _ _ _ h => h) fun _ _ _ => trivial
      · refine .bind (call_apart rfl) fun _ => ?_
        refine .bind (call_apart rfl) fun h => ?_
        have hd : d.id = job.depositId := hid
        refine .bind (M := fun _ => FiledUnproposed job.depositId w₀ h) ?_ fun _ => ?_
        · rw [hd]
          exact .call (Reads.stable d) (.of_rest fun _ _ _ => trivial) (safeRetry_persist hnone h)
            (fun _ => FiledUnproposed.stable h) safeRetry_true
        · refine .bind (M := fun _ => FiledUnproposed job.depositId w₀ h) ?_ fun _ => ?_
          · exact .call (FiledUnproposed.stable h) (.of_rest fun _ _ _ => trivial)
              (safeRetry_sign h) (fun _ => FiledUnproposed.stable h) safeRetry_true
          · refine .bind (M := fun _ _ => True) ?_ fun _ => ?_
            · exact .call (FiledUnproposed.stable h) (.of_rest fun _ _ _ => trivial)
                (safeRetry_propose h data) (fun _ => safeRetry_true) safeRetry_true
            · exact .bind (triple_apart (alert_apart _)) fun _ => idle _ _

theorem safeRetry_claimOrReread (d : DepositDoc) :
    (safeRetryRules cfg job.depositId w₀).Triple () (Reads job.depositId d)
      (claimOrReread job.depositId d) (Found (Reads job.depositId) fun _ => True)
      fun _ _ => True := by
  have found : ∀ a, (safeRetryRules cfg job.depositId w₀).Stable ()
      (Found (Reads job.depositId) (fun _ => True) a) := by
    intro a
    cases a with
    | none => exact safeRetry_true
    | some e => exact Reads.stable e
  rw [claimOrReread]
  split
  · refine .bind (.call (Reads.stable d) (.of_rest fun _ _ _ => trivial) (safeRetry_claim d) found
      safeRetry_true) fun claimed => ?_
    cases claimed with
    | some e => exact .pure (Reads.stable e) fun _ _ h => h
    | none =>
        exact .call safeRetry_true (.of_rest fun _ _ _ => trivial) safeRetry_read found
          safeRetry_true
  · exact .pure (Reads.stable d) fun _ _ h => h

theorem safeRetry_signMint :
    (safeRetryRules cfg job.depositId w₀).Triple () (fun _ => True)
      (signMint { cfg with mintAuthMode := .safeProposal } job) (fun _ _ => True)
      fun _ _ => True := by
  have idle : ∀ (P : World → Prop), (safeRetryRules cfg job.depositId w₀).Stable () P →
      (safeRetryRules cfg job.depositId w₀).Triple () P (.pure ()) (fun _ _ => True)
        fun _ _ => True := fun _ hP => .pure hP fun _ _ _ => trivial
  refine .bind (M := Found (Reads job.depositId) fun _ => True) ?_ fun initial => ?_
  · refine .call safeRetry_true (.of_rest fun _ _ _ => trivial) safeRetry_read ?_ safeRetry_true
    intro a
    cases a with
    | none => exact safeRetry_true
    | some e => exact Reads.stable e
  · cases initial with
    | none => exact idle _ safeRetry_true
    | some d =>
        simp only
        split
        · exact idle _ (Reads.stable d)
        · split
          · exact .throw (Reads.stable d) fun _ _ _ => trivial
          · refine .bind (safeRetry_claimOrReread d) fun held => ?_
            cases held with
            | none => exact idle _ safeRetry_true
            | some e =>
                simp only
                split
                · exact .bind (safeRetry_signSafeProposal e) fun h =>
                    triple_apart (.request rfl)
                · exact idle _ (Reads.stable e)

theorem safeRetry_starts (cfg : Config) (id : ObjectId) (w₀ : World) :
    (safeRetryRules cfg id w₀).Starts := by
  intro i t s hi _ hready
  cases t with
  | signMint mode job =>
      cases mode with
      | directEoa => cases hready
      | safeProposal =>
          have hid : job.depositId = id := by simpa [service, safeRetries] using hready
          subst hid
          exact safeRetry_signMint s hi trivial
  | _ => cases hready

end Outline

/-- At most one call of `proposeTransaction` is made over all runs, none if a hash was on
file before them, and a hash that is on file is never replaced. `p` is any state of the
runs, `q` any later one, and a call that is made names the hash on file where it is made. -/
theorem safe_proposed_once (cfg : Config) (id : ObjectId) {w : World} {d : DepositDoc}
    (hd : w.deposits.get id = some d) {p q : Pool Op JsError World Unit}
    {es fs : List (Event JsError Unit Task EnvEvent)}
    (hp : (service cfg (safeRetries id)).exec (.init w) es = some p)
    (hq : (service cfg (safeRetries id)).exec p fs = some q) :
    (q.world.safe.calls = w.safe.calls ∨ w.safeHash id = none ∧
      ∃ h c, q.world.safeHash id = some h ∧ q.world.safe.calls = w.safe.calls ++ [(h, c)]) ∧
    (∀ h, p.world.safeHash id = some h → q.world.safeHash id = some h) ∧
    ∀ i out r, (service cfg (safeRetries id)).next p (.step i out) = some r →
      r.world.safe.calls = p.world.safe.calls ∨ ∃ h c, p.world.safeHash id = some h ∧
        r.world.safe.calls = p.world.safe.calls ++ [(h, c)] := by
  have hstart := safeRetry_starts cfg id w
  have hinit : (safeRetryRules cfg id w).Good (.init w) w :=
    .init rfl ⟨⟨d, hd⟩, fun _ h => h, Or.inl rfl⟩ fun _ => trivial
  obtain ⟨s, hs, _⟩ := hinit.exec (fun _ _ _ => trivial) hstart hp
  obtain ⟨t, ht, hst⟩ := hs.exec (fun _ _ _ => trivial) hstart hq
  obtain rfl := hs.world
  obtain rfl := ht.world
  refine ⟨ht.inv.calls, hst, ?_⟩
  intro i out r hr
  have hperm : (p.slot i).Awaiting fun op =>
      (safeRetryRules cfg id w).permits i op p.world := by
    cases p.slot i <;> trivial
  obtain ⟨u, hu, hg⟩ := hs.step hperm hr
  obtain rfl := hu.world
  exact hg.calls

/-- A run whose proposal reaches the Safe service and raises. -/
def lostProposal : List (Event JsError Unit Task EnvEvent) :=
  .start () (.signMint .safeProposal Sample.mintJob) :: List.replicate 7 (.step () .done) ++
    [.step () (.lost (.error "timeout"))]

/-- The retry that finds the proposal. -/
def resumedProposal : List (Event JsError Unit Task EnvEvent) :=
  .start () (.signMint .safeProposal Sample.mintJob) :: List.replicate 4 (.step () .done)

theorem safe_proposed_resumed : ∃ p q,
    (service Sample.config (safeRetries 0)).exec (.init Sample.mintWorld) lostProposal = some p ∧
    (service Sample.config (safeRetries 0)).exec p resumedProposal = some q ∧
    q.world.safe.calls.length = 1 ∧ q.world.audit.length = 1 ∧
    (∀ h, p.world.safeHash 0 = some h → q.world.safeHash 0 = some h) ∧
    ∃ h c, q.world.safeHash 0 = some h ∧ q.world.safe.calls = [(h, c)] := by
  have h : ((service Sample.config (safeRetries 0)).exec (.init Sample.mintWorld)
      lostProposal).map (fun p => ((service Sample.config (safeRetries 0)).exec p
        resumedProposal).map fun q => (q.world.safe.calls.length, q.world.audit.length)) =
      some (some (1, 1)) := by
    decide +kernel
  obtain ⟨p, hp, hres⟩ := Option.map_eq_some_iff.mp h
  obtain ⟨q, hq, hres⟩ := Option.map_eq_some_iff.mp hres
  obtain ⟨hlen, haudit⟩ := Prod.mk.inj hres
  obtain ⟨hcalls, hkept, _⟩ := safe_proposed_once Sample.config 0 rfl hp hq
  refine ⟨p, q, hp, hq, hlen, haudit, hkept, ?_⟩
  cases hcalls with
  | inl hnone =>
      rw [hnone] at hlen
      cases hlen
  | inr hone => exact hone.2

end FairBridge
