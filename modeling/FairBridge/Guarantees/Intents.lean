import FairBridge.Service

/-!
When an intent gets its row. The unique index is on the vout of a deposit, and an intent
has none yet: the index sees the pair of two nulls.
-/

namespace FairBridge
open Store Async

/-- The row has no vout. -/
def DepositDoc.unassigned (d : DepositDoc) : Bool := d.fairTxid.isNone && d.fairVout.isNone

def intentRow (baseAddress : Address) (clientIp : Option String) (index : Nat)
    (fairAddress : String) : DepositDoc :=
  { baseAddress, fairAddress, hdIndex := index, clientIp }

/-- An intent without a vout clashes with every other row without one. -/
theorem clashes_intentRow (w : World) (baseAddress : Address) (clientIp : Option String)
    (index : Nat) (fairAddress : String) :
    w.deposits.clashes (depositSchema.assign w.deposits.nextId w.now
      (intentRow baseAddress clientIp index fairAddress)) =
      w.deposits.docs.any DepositDoc.unassigned := by
  simp only [Collection.clashes, depositSchema, intentRow, Option.isSome_some, Bool.true_and]
  rw [Bool.eq_iff_iff, List.any_eq_true, List.any_eq_true]
  refine exists_congr fun d => and_congr_right fun hd => ?_
  have hid : d.id ≠ w.deposits.nextId := Nat.ne_of_lt (w.deposits.below d hd)
  simp [hid, DepositDoc.unassigned]

section Alone
variable {ι : Type} {f : Faults ι} {i : ι} {cfg : Config} {w : World} {baseAddress : Address}
  {clientIp : Option String} {fairAddress : String}

/-- What an intent leaves behind before its row is created. -/
def World.allocate (w : World) (fairAddress : String) : World :=
  { w with nextIndex := w.nextIndex + 1, addressCache := fairAddress :: w.addressCache }

theorem alone_createIntent (hder : deriveDepositAddress cfg w.nextIndex = .ok fairAddress) :
    (service cfg f).alone i (createIntent cfg baseAddress clientIp) w =
      match w.deposits.create refusals w.now
          (intentRow baseAddress clientIp w.nextIndex fairAddress) with
      | (.ok _, deposits) => some (.ok (), { w.allocate fairAddress with
          deposits := deposits
          intents := w.intents ++ [⟨fairAddress, baseAddress, w.nextIndex⟩] })
      | (.error e, deposits) => some (.error e, { w.allocate fairAddress with
          deposits := deposits }) := by
  simp only [createIntent, allocateNextDepositAddress, getNextIndex, Promise.of, call,
    Program.request, Program.bind_eq, Program.await_bind, Program.ofExcept, Program.pure_eq,
    System.alone, service, answer, Outcome.resolve, recordCall, effect, Option.bind_some,
    Program.pure_bind, Nat.add_sub_cancel, hder, Query.run]
  cases hcreate : w.deposits.create refusals w.now
      (intentRow baseAddress clientIp w.nextIndex fairAddress) with
  | mk r deposits =>
      simp only [intentRow] at hcreate
      cases r with
      | ok d => simp [hcreate, Program.ofExcept, System.alone, World.allocate]
      | error e => simp [hcreate, Program.ofExcept, System.alone, World.allocate]

theorem alone_postIntent
    (hcap : ∀ ip, clientIp.filter (fun ip => ip != "") = some ip →
      (w.deposits.docs.filter (outstanding ip)).length < maxAwaitingPerIp) :
    (service cfg f).alone i (postIntent cfg baseAddress clientIp) w =
      (service cfg f).alone i (createIntent cfg baseAddress clientIp) w := by
  unfold postIntent
  split
  · rename_i ip hip
    have hlt : ¬ (w.deposits.docs.filter (outstanding ip)).length ≥ maxAwaitingPerIp :=
      Nat.not_le.mpr (hcap ip hip)
    simp only [call, Program.request, Program.bind_eq, Program.await_bind, System.alone, service,
      answer, Outcome.resolve, recordCall, effect, Query.run, Option.bind_some, Program.ofExcept,
      Program.pure_bind, hlt, if_false]
  · rfl

end Alone

/-- An intent below the cap gets its row exactly where no row is without a vout, and is
refused by the unique index elsewhere. -/
theorem intent_inserted_iff {ι : Type} (f : Faults ι) (i : ι) (cfg : Config) (w : World)
    (baseAddress : Address) (clientIp : Option String) {fairAddress : String}
    (hder : deriveDepositAddress cfg w.nextIndex = .ok fairAddress) (hvalid : fairAddress ≠ "")
    (hcap : ∀ ip, clientIp.filter (fun ip => ip != "") = some ip →
      (w.deposits.docs.filter (outstanding ip)).length < maxAwaitingPerIp) :
    ((∃ w', (service cfg f).alone i (postIntent cfg baseAddress clientIp) w = some (.ok (), w') ∧
      w'.deposits = w.deposits.insert w.now
        (intentRow baseAddress clientIp w.nextIndex fairAddress)) ↔
      ∀ d ∈ w.deposits.docs, d.fairTxid ≠ none ∨ d.fairVout ≠ none) ∧
    ((∃ w', (service cfg f).alone i (postIntent cfg baseAddress clientIp) w =
        some (.error refusals.duplicate, w') ∧ w'.deposits = w.deposits) ↔
      ∃ d ∈ w.deposits.docs, d.fairTxid = none ∧ d.fairVout = none) := by
  rw [alone_postIntent hcap, alone_createIntent hder]
  have hclash := clashes_intentRow w baseAddress clientIp w.nextIndex fairAddress
  have hok : depositSchema.valid (intentRow baseAddress clientIp w.nextIndex fairAddress) = true := by
    simpa [depositSchema, intentRow] using hvalid
  simp only [Collection.create, hok, hclash]
  cases hfree : w.deposits.docs.any DepositDoc.unassigned with
  | true =>
      obtain ⟨d, hd, hnull⟩ := List.any_eq_true.mp hfree
      simp only [DepositDoc.unassigned, Bool.and_eq_true, Option.isNone_iff_eq_none] at hnull
      refine ⟨⟨fun h => ?_, fun h => ?_⟩, fun _ => ⟨d, hd, hnull⟩, fun _ => ?_⟩
      · obtain ⟨w', hw, _⟩ := h
        simp at hw
      · cases h d hd with
        | inl h => exact absurd hnull.1 h
        | inr h => exact absurd hnull.2 h
      · exact ⟨{ w.allocate fairAddress with deposits := w.deposits }, by simp, rfl⟩
  | false =>
      have hnull : ∀ d ∈ w.deposits.docs, ¬ (d.fairTxid = none ∧ d.fairVout = none) := by
        intro d hd
        simpa [DepositDoc.unassigned] using List.any_eq_false.mp hfree d hd
      refine ⟨⟨fun _ d hd => ?_, fun _ => ?_⟩, fun h => ?_, fun h => ?_⟩
      · by_cases htxid : d.fairTxid = none
        · exact Or.inr fun hvout => hnull d hd ⟨htxid, hvout⟩
        · exact Or.inl htxid
      · exact ⟨_, by simp; rfl, rfl⟩
      · obtain ⟨w', hw, _⟩ := h
        simp at hw
      · obtain ⟨d, hd, h⟩ := h
        exact absurd h (hnull d hd)

namespace Sample

/-- Every index has an address of its own. -/
def xpubConfig : Config where
  fairBridgeXpub := some "xpub"
  deriveChild _ n := .ok (String.ofList (List.replicate (n + 1) 'f'))

def steady : Faults Unit where
  ready _ _ _ := true
  may _ _ _ _ := true
  mayKill _ _ _ := false
  row _ := none

end Sample

/-- The first intent gets an empty store's first row; while that row waits for its
payment, nobody else gets one. -/
theorem second_intent_refused : ∃ w₁ w₂,
    (service Sample.xpubConfig Sample.steady).alone ()
      (postIntent Sample.xpubConfig ⟨7⟩ none) {} = some (.ok (), w₁) ∧
    w₁.deposits.docs.map DepositDoc.status = [.awaiting] ∧
    (∀ d ∈ w₁.deposits.docs, d.hdIndex ≠ w₁.nextIndex) ∧
    (service Sample.xpubConfig Sample.steady).alone ()
      (postIntent Sample.xpubConfig ⟨8⟩ none) w₁ = some (.error refusals.duplicate, w₂) := by
  have hfirst : ((service Sample.xpubConfig Sample.steady).alone ()
      (postIntent Sample.xpubConfig ⟨7⟩ none) {}).map (fun r => (r.1.toOption,
        r.2.deposits.docs.map DepositDoc.status,
        decide (∀ d ∈ r.2.deposits.docs, d.hdIndex ≠ r.2.nextIndex),
        ((service Sample.xpubConfig Sample.steady).alone ()
          (postIntent Sample.xpubConfig ⟨8⟩ none) r.2).map fun r => match r.1 with
            | .error e => some e
            | .ok _ => none)) =
      some (some (), [.awaiting], true, some (some refusals.duplicate)) := by
    decide +kernel
  obtain ⟨⟨r, w₁⟩, hr, hfacts⟩ := Option.map_eq_some_iff.mp hfirst
  simp only [Prod.mk.injEq, decide_eq_true_eq] at hfacts
  obtain ⟨hok, hstatus, hindex, hsecond⟩ := hfacts
  obtain ⟨⟨r', w₂⟩, hr', herror⟩ := Option.map_eq_some_iff.mp hsecond
  refine ⟨w₁, w₂, ?_, hstatus, hindex, ?_⟩
  · cases r with
    | ok a => exact hr
    | error e => cases hok
  · cases r' with
    | ok a => cases herror
    | error e =>
        cases herror
        exact hr'

/-- A row that has its vout is in nobody's way. -/
theorem intent_inserted_beside_confirmed : ∃ w',
    (service Sample.xpubConfig Sample.steady).alone ()
      (postIntent Sample.xpubConfig ⟨8⟩ (some "10.0.0.1")) Sample.mintWorld = some (.ok (), w') ∧
    w'.deposits = Sample.mintWorld.deposits.insert 0
      (intentRow ⟨8⟩ (some "10.0.0.1") 0 "f") :=
  (intent_inserted_iff Sample.steady () Sample.xpubConfig Sample.mintWorld ⟨8⟩ (some "10.0.0.1")
    rfl (by decide) fun ip _ => by
      have hnone : Sample.mintWorld.deposits.docs.filter (outstanding ip) = [] := by
        simp [Sample.mintWorld, Collection.insert, Collection.empty, depositSchema, Sample.deposit,
          outstanding]
      rw [hnone]
      decide).1.mpr (by decide)

end FairBridge
