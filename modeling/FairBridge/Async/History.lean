import FairBridge.Async.System

/-!
Histories. A system can be run with a record beside its world that every performed
request may write and that nothing reads; such runs are the runs of the system.
-/

namespace Async
universe u
variable {Op : Type → Type u} {ε W ι τ E H : Type}

namespace Pool

/-- The pool with a record beside its world. -/
def withRecord (p : Pool Op ε W ι) (h : H) : Pool Op ε (W × H) ι := ⟨(p.world, h), p.slot⟩

def forget (p : Pool Op ε (W × H) ι) : Pool Op ε W ι := ⟨p.world.1, p.slot⟩

end Pool

namespace System
variable (sys : System Op ε W ι τ E)
  (note : {β : Type} → Op β → Outcome ε → W → H → H)

/-- The same system, with a record that is written as `note` says. -/
def recorded : System Op ε (W × H) ι τ E where
  program := sys.program
  ready s := sys.ready s.1
  answer i op out s := (sys.answer i op out s.1).map fun r => (r.1, r.2, note op out s.1 s.2)
  env e s := (sys.env e s.1).map fun w => (w, s.2)
  may i op out s := sys.may i op out s.1
  mayKill i op s := sys.mayKill i op s.1

/-- The record after an event. -/
def noted (p : Pool Op ε W ι) (h : H) : Event ε ι τ E → H
  | .step i out => match p.slot i with
      | .await op _ => note op out p.world h
      | _ => h
  | _ => h

variable {sys note} [DecidableEq ι] {p q : Pool Op ε W ι} {h : H}

theorem next_recorded {e : Event ε ι τ E} (hn : sys.next p e = some q) :
    (sys.recorded note).next (p.withRecord h) e = some (q.withRecord (noted note p h e)) := by
  cases e with
  | start i t =>
      simp only [next] at hn
      split at hn <;> cases hn
      rename_i hc
      exact if_pos hc
  | step i out =>
      simp only [next] at hn
      cases hp : p.slot i with
      | pure _ | throw _ => rw [hp] at hn; cases hn
      | await op k =>
          simp only [hp] at hn
          split at hn <;> try contradiction
          rename_i hmay
          obtain ⟨r, hans, rfl⟩ := Option.map_eq_some_iff.mp hn
          simp only [next, noted, Pool.withRecord, recorded, hp, hmay, if_true, hans,
            Option.map_some]
  | kill i =>
      simp only [next] at hn
      cases hp : p.slot i with
      | pure _ | throw _ => rw [hp] at hn; cases hn
      | await op k =>
          simp only [hp] at hn
          split at hn <;> cases hn
          rename_i hmay
          simp only [next, noted, Pool.withRecord, recorded, hp, hmay, if_true]
  | env e =>
      obtain ⟨w, hw, rfl⟩ := Option.map_eq_some_iff.mp hn
      simp only [next, noted, Pool.withRecord, recorded, hw, Option.map_some]

variable (note) in
theorem exec_recorded {es : List (Event ε ι τ E)} (hq : sys.exec p es = some q) (h : H) :
    ∃ h', (sys.recorded note).exec (p.withRecord h) es = some (q.withRecord h') := by
  induction es generalizing p h with
  | nil =>
      cases hq
      exact ⟨h, rfl⟩
  | cons e es ih =>
      obtain ⟨r, hr, hq⟩ := Option.bind_eq_some_iff.mp hq
      obtain ⟨h', hq'⟩ := ih hq (noted note p h e)
      exact ⟨h', Option.bind_eq_some_iff.mpr ⟨_, next_recorded hr, hq'⟩⟩

/-- The record of whether every request has met the condition so far. -/
theorem exec_recorded_meets {c : {β : Type} → Op β → W → Bool} {es : List (Event ε ι τ E)}
    (hq : sys.exec p es = some q) (h : Bool) :
    (sys.recorded fun op _ w h => h && c op w).exec (p.withRecord h) es =
      some (q.withRecord (h && sys.meets (fun _ op w => c op w) p es)) := by
  induction es generalizing p h with
  | nil =>
      cases hq
      simp only [exec, meets, Bool.and_true]
  | cons e es ih =>
      obtain ⟨r, hr, hq⟩ := Option.bind_eq_some_iff.mp hq
      refine Option.bind_eq_some_iff.mpr ⟨_, next_recorded hr, ?_⟩
      rw [ih hq]
      refine congrArg (fun b => some (q.withRecord b)) ?_
      simp only [meets, hr, ← Bool.and_assoc]
      refine congrArg (fun b => b && _) ?_
      cases e with
      | start _ _ | kill _ | env _ => exact (Bool.and_true h).symm
      | step i out =>
          simp only [noted]
          cases p.slot i with
          | pure _ | throw _ => exact (Bool.and_true h).symm
          | await _ _ => rfl

variable (note) in
/-- If the record is switched off by what is `enough`, then the requests need meet the
condition only while it is on. -/
theorem Until.along {enough : Pool Op ε W ι → Event ε ι τ E → Prop}
    {c : {β : Type} → Pool Op ε W ι → ι → Op β → Prop} (on : H → Prop)
    (henough : ∀ (p : Pool Op ε W ι) h e, enough p e → Asks c p e ∧ ¬ on (noted note p h e))
    (hoff : ∀ (p : Pool Op ε W ι) h (e : Event ε ι τ E), ¬ on h → ¬ on (noted note p h e))
    {es : List (Event ε ι τ E)} (hq : sys.exec p es = some q)
    (hes : on h → sys.Until enough c p es) :
    (sys.recorded note).Along (fun p i op => on p.world.2 → c p.forget i op)
      (p.withRecord h) es := by
  induction es generalizing p h with
  | nil => trivial
  | cons e es ih =>
      obtain ⟨r, hr, hq⟩ := Option.bind_eq_some_iff.mp hq
      simp only [Along, next_recorded hr]
      simp only [Until, hr] at hes
      have hold (hon : on (noted note p h e)) : on h :=
        Classical.byContradiction fun hn => hoff p h e hn hon
      refine ⟨?_, ih hq ?_⟩
      · cases e with
        | start _ _ | kill _ | env _ => trivial
        | step i out =>
            have hasks (hon : on h) : (p.slot i).Awaiting (c p i) :=
              (hes hon).elim (fun hgood => (henough p h _ hgood).1) fun hstep => hstep.1
            simp only [Asks, Pool.withRecord, Pool.forget]
            cases hp : p.slot i with
            | pure _ | throw _ => trivial
            | await op k =>
                intro hon
                have hop := hasks hon
                rw [hp] at hop
                exact hop
      · intro hon
        cases hes (hold hon) with
        | inl hgood => exact absurd hon (henough p h e hgood).2
        | inr hstep => exact hstep.2

section Slots
variable (sys) (noteBy : {β : Type} → ι → Op β → Outcome ε → W → H → H)

omit [DecidableEq ι] in
/-- The same system, with a record that also knows which slot performs a request. -/
def recordedBy : System Op ε (W × H) ι τ E where
  program := sys.program
  ready s := sys.ready s.1
  answer i op out s := (sys.answer i op out s.1).map fun r => (r.1, r.2, noteBy i op out s.1 s.2)
  env e s := (sys.env e s.1).map fun w => (w, s.2)
  may i op out s := sys.may i op out s.1
  mayKill i op s := sys.mayKill i op s.1

variable {sys}

/-- Such runs are the runs of the system. -/
theorem exec_recordedBy {es : List (Event ε ι τ E)} (hq : sys.exec p es = some q) (h : H) :
    ∃ h', (sys.recordedBy noteBy).exec (p.withRecord h) es = some (q.withRecord h') := by
  induction es generalizing p h with
  | nil =>
      cases hq
      exact ⟨h, rfl⟩
  | cons e es ih =>
      obtain ⟨r, hr, hq⟩ := Option.bind_eq_some_iff.mp hq
      have hnext : ∃ k, (sys.recordedBy noteBy).next (p.withRecord h) e =
          some (r.withRecord k) := by
        cases e with
        | start i t =>
            simp only [next] at hr
            split at hr <;> cases hr
            rename_i hc
            exact ⟨h, if_pos hc⟩
        | step i out =>
            simp only [next] at hr
            cases hp : p.slot i with
            | pure _ | throw _ => rw [hp] at hr; cases hr
            | await op k =>
                simp only [hp] at hr
                split at hr <;> try contradiction
                rename_i hmay
                obtain ⟨a, hans, rfl⟩ := Option.map_eq_some_iff.mp hr
                refine ⟨noteBy i op out p.world h, ?_⟩
                simp only [next, Pool.withRecord, recordedBy, hp, hmay, if_true, hans,
                  Option.map_some]
        | kill i =>
            simp only [next] at hr
            cases hp : p.slot i with
            | pure _ | throw _ => rw [hp] at hr; cases hr
            | await op k =>
                simp only [hp] at hr
                split at hr <;> cases hr
                rename_i hmay
                refine ⟨h, ?_⟩
                simp only [next, Pool.withRecord, recordedBy, hp, hmay, if_true]
        | env e =>
            obtain ⟨w, hw, rfl⟩ := Option.map_eq_some_iff.mp hr
            refine ⟨h, ?_⟩
            simp only [next, Pool.withRecord, recordedBy, hw, Option.map_some]
      obtain ⟨k, hk⟩ := hnext
      obtain ⟨h', hq'⟩ := ih hq k
      exact ⟨h', Option.bind_eq_some_iff.mpr ⟨_, hk, hq'⟩⟩

end Slots

end System
end Async
