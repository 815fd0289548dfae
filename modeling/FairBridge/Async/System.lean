import FairBridge.Async.Program
import Mathlib.Logic.Function.Basic

/-!
Systems of asynchronous programs over one shared world. Every slot runs at most
one program at a time; a step lets one slot perform the request it awaits, and
between any two steps another slot, the environment or the death of a run may
come in. A run of a system is a list of events, so that it can be computed.
-/

namespace Async
universe u

/-- How the environment lets a request end: answered, refused before it took
effect, or carried out with the answer lost on the way back. -/
inductive Outcome (ε : Type) where
  | done
  | fail (e : ε)
  | lost (e : ε)

def Outcome.isDone {ε : Type} : Outcome ε → Bool
  | .done => true
  | _ => false

def Outcome.isFail {ε : Type} : Outcome ε → Bool
  | .fail _ => true
  | _ => false

def Outcome.isLost {ε : Type} : Outcome ε → Bool
  | .lost _ => true
  | _ => false

/-- The answer a request gets from `effect` under an outcome. -/
def Outcome.resolve {ε W β : Type} (out : Outcome ε)
    (effect : W → Option (Except ε β × W)) (w : W) : Option (Except ε β × W) :=
  match out with
  | .done => effect w
  | .fail e => some (.error e, w)
  | .lost e => (effect w).map fun r => (.error e, r.2)

/-- Programs `program t` for the tasks `t`, started in slots `ι` where `ready`
allows it; `answer` is what the outside world does with a request, and `may`
and `mayKill` say which faults can strike. -/
structure System (Op : Type → Type u) (ε W ι τ E : Type) where
  program : τ → Program Op ε Unit
  ready : W → ι → τ → Bool
  answer : {β : Type} → ι → Op β → Outcome ε → W → Option (Except ε β × W)
  env : E → W → Option W
  may : {β : Type} → ι → Op β → Outcome ε → W → Bool
  mayKill : {β : Type} → ι → Op β → W → Bool

inductive Event (ε ι τ E : Type) where
  | start (i : ι) (t : τ)
  | step (i : ι) (out : Outcome ε)
  | kill (i : ι)
  | env (e : E)

structure Pool (Op : Type → Type u) (ε W ι : Type) where
  world : W
  slot : ι → Program Op ε Unit

/-- No program has been started yet. -/
def Pool.init {Op : Type → Type u} {ε W ι : Type} (w : W) : Pool Op ε W ι :=
  ⟨w, fun _ => .pure ()⟩

/-- Nothing happens but the steps of one slot and what the environment does. -/
def Event.solo {ε ι τ E : Type} (i : ι) : Event ε ι τ E → Prop
  | .step j _ => j = i
  | .env _ => True
  | _ => False

namespace System
variable {Op : Type → Type u} {ε W ι τ E : Type} [DecidableEq ι]
variable (sys : System Op ε W ι τ E)

def next (p : Pool Op ε W ι) : Event ε ι τ E → Option (Pool Op ε W ι)
  | .start i t =>
      if (p.slot i).finished && sys.ready p.world i t then
        some { p with slot := Function.update p.slot i (sys.program t) }
      else none
  | .step i out =>
      match p.slot i with
      | .await op k =>
          if sys.may i op out p.world then
            (sys.answer i op out p.world).map fun r =>
              ⟨r.2, Function.update p.slot i (k r.1)⟩
          else none
      | _ => none
  | .kill i =>
      match p.slot i with
      | .await op _ =>
          if sys.mayKill i op p.world then
            some { p with slot := Function.update p.slot i (.pure ()) }
          else none
      | _ => none
  | .env e => (sys.env e p.world).map fun w => { p with world := w }

def exec (p : Pool Op ε W ι) : List (Event ε ι τ E) → Option (Pool Op ε W ι)
  | [] => some p
  | e :: es => (sys.next p e).bind fun q => exec q es

/-- The same system, but a request is performed only where `c` holds. -/
def guarded (c : {β : Type} → ι → Op β → W → Bool) : System Op ε W ι τ E :=
  { sys with may := fun i op out w => sys.may i op out w && c i op w }

/-- Every request performed along the run meets `c` where it is performed. -/
def meets (c : {β : Type} → ι → Op β → W → Bool) (p : Pool Op ε W ι) :
    List (Event ε ι τ E) → Bool
  | [] => true
  | e :: es =>
      (match e with
        | .step i _ => match p.slot i with
            | .await op _ => c i op p.world
            | _ => true
        | _ => true) &&
      match sys.next p e with
        | some q => meets c q es
        | none => true

theorem exec_guarded {c : {β : Type} → ι → Op β → W → Bool} {p q : Pool Op ε W ι}
    {es : List (Event ε ι τ E)} (h : sys.exec p es = some q)
    (hc : sys.meets c p es = true) : (sys.guarded c).exec p es = some q := by
  induction es generalizing p with
  | nil => exact h
  | cons e es ih =>
      obtain ⟨r, hr, hq⟩ := Option.bind_eq_some_iff.mp h
      simp only [meets, hr, Bool.and_eq_true] at hc
      have hn : (sys.guarded c).next p e = some r := by
        cases e with
        | start _ _ | kill _ | env _ => exact hr
        | step i out =>
            simp only [next] at hr ⊢
            cases hp : p.slot i with
            | pure _ | throw _ => rw [hp] at hr; cases hr
            | await op k =>
                have hop : c i op p.world = true := by simpa only [hp] using hc.1
                simpa only [hp, guarded, hop, Bool.and_true] using hr
      exact Option.bind_eq_some_iff.mpr ⟨r, hn, ih hq hc.2⟩

/-- The request the event performs, if it performs one, meets `c` in the pool. -/
def Asks (c : {β : Type} → Pool Op ε W ι → ι → Op β → Prop) (p : Pool Op ε W ι) :
    Event ε ι τ E → Prop
  | .step i _ => (p.slot i).Awaiting (c p i)
  | _ => True

/-- Every request performed along the run meets `c` in the pool in which it is
performed. -/
def Along (c : {β : Type} → Pool Op ε W ι → ι → Op β → Prop) (p : Pool Op ε W ι) :
    List (Event ε ι τ E) → Prop
  | [] => True
  | e :: es => Asks c p e ∧
      match sys.next p e with
      | some q => Along c q es
      | none => True

/-- What every request meets is met along every run. -/
theorem along_of {c : {β : Type} → Pool Op ε W ι → ι → Op β → Prop}
    (hc : ∀ {β : Type} (p : Pool Op ε W ι) (i : ι) (op : Op β), c p i op)
    (p : Pool Op ε W ι) (es : List (Event ε ι τ E)) : sys.Along c p es := by
  induction es generalizing p with
  | nil => trivial
  | cons e es ih =>
      refine ⟨?_, ?_⟩
      · cases e with
        | start _ _ | kill _ | env _ => trivial
        | step i out =>
            simp only [Asks]
            cases p.slot i with
            | pure _ | throw _ => trivial
            | await op k => exact hc p i op
      · split
        · exact ih _
        · trivial

section Decidable
variable (c : {β : Type} → Pool Op ε W ι → ι → Op β → Prop)
  [∀ {β : Type} p i (op : Op β), Decidable (c p i op)]

instance Asks.decidable (p : Pool Op ε W ι) :
    (e : Event ε ι τ E) → Decidable (Asks c p e)
  | .step i _ => inferInstanceAs (Decidable ((p.slot i).Awaiting (c p i)))
  | .start _ _ | .kill _ | .env _ => inferInstanceAs (Decidable True)

def Along.decide (p : Pool Op ε W ι) :
    (es : List (Event ε ι τ E)) → Decidable (sys.Along c p es)
  | [] => inferInstanceAs (Decidable True)
  | e :: es =>
      haveI : Decidable (match sys.next p e with
          | some q => sys.Along c q es
          | none => True) :=
        match sys.next p e with
        | some q => Along.decide q es
        | none => inferInstanceAs (Decidable True)
      inferInstanceAs (Decidable (Asks c p e ∧ _))

instance Along.decidable (p : Pool Op ε W ι) (es : List (Event ε ι τ E)) :
    Decidable (sys.Along c p es) := Along.decide sys c p es

end Decidable

/-- Every request performed along the run meets `c`, up to the first event that is
`enough` or to the end of the run. -/
def Until (enough : Pool Op ε W ι → Event ε ι τ E → Prop)
    (c : {β : Type} → Pool Op ε W ι → ι → Op β → Prop) (p : Pool Op ε W ι) :
    List (Event ε ι τ E) → Prop
  | [] => True
  | e :: es => enough p e ∨ Asks c p e ∧
      match sys.next p e with
      | some q => Until enough c q es
      | none => True

section Decidable
variable (enough : Pool Op ε W ι → Event ε ι τ E → Prop) [∀ p e, Decidable (enough p e)]
  (c : {β : Type} → Pool Op ε W ι → ι → Op β → Prop)
  [∀ {β : Type} p i (op : Op β), Decidable (c p i op)]

def Until.decide (p : Pool Op ε W ι) :
    (es : List (Event ε ι τ E)) → Decidable (sys.Until enough c p es)
  | [] => inferInstanceAs (Decidable True)
  | e :: es =>
      haveI : Decidable (match sys.next p e with
          | some q => sys.Until enough c q es
          | none => True) :=
        match sys.next p e with
        | some q => Until.decide q es
        | none => inferInstanceAs (Decidable True)
      inferInstanceAs (Decidable (enough p e ∨ Asks c p e ∧ _))

instance Until.decidable (p : Pool Op ε W ι) (es : List (Event ε ι τ E)) :
    Decidable (sys.Until enough c p es) := Until.decide sys enough c p es

end Decidable

theorem Until.initial {enough : Pool Op ε W ι → Event ε ι τ E → Prop}
    {c : {β : Type} → Pool Op ε W ι → ι → Op β → Prop} {p : Pool Op ε W ι}
    {es fs : List (Event ε ι τ E)} (h : sys.Until enough c p es) (hfs : fs <+: es) :
    sys.Until enough c p fs := by
  induction fs generalizing p es with
  | nil => trivial
  | cons e fs ih =>
      obtain ⟨rest, rfl⟩ := hfs
      refine h.imp_right fun h => ⟨h.1, ?_⟩
      have hrest := h.2
      cases hq : sys.next p e with
      | none => trivial
      | some q =>
          simp only [hq] at hrest
          exact ih hrest (List.prefix_append fs rest)

theorem exec_append (p : Pool Op ε W ι) (es fs : List (Event ε ι τ E)) :
    sys.exec p (es ++ fs) = (sys.exec p es).bind fun q => sys.exec q fs := by
  induction es generalizing p with
  | nil => rfl
  | cons e es ih =>
      simp only [List.cons_append, exec]
      cases sys.next p e with
      | none => rfl
      | some q => exact ih q

/-- One slot's program alone, its requests ending as listed. -/
def drive (i : ι) (p : Program Op ε Unit) (w : W) :
    List (Outcome ε) → Option (Program Op ε Unit × W)
  | [] => some (p, w)
  | out :: outs =>
      match p with
      | .await op k =>
          if sys.may i op out w then
            (sys.answer i op out w).bind fun r => drive i (k r.1) r.2 outs
          else none
      | _ => none
termination_by structural outs => outs

omit [DecidableEq ι] in
theorem drive_step {β : Type} {i : ι} {op : Op β} {k : Except ε β → Program Op ε Unit}
    {out : Outcome ε} {outs : List (Outcome ε)} {w w' : W} {r : Except ε β}
    {P : Program Op ε Unit × W → Prop}
    (hmay : sys.may i op out w = true) (hans : sys.answer i op out w = some (r, w'))
    (h : ∃ x, sys.drive i (k r) w' outs = some x ∧ P x) :
    ∃ x, sys.drive i (.await op k) w (out :: outs) = some x ∧ P x := by
  simpa only [drive, hmay, if_true, hans, Option.bind_some] using h

/-- One slot's program alone, to its end and without faults. -/
def alone (i : ι) : Program Op ε Unit → W → Option (Except ε Unit × W)
  | .pure a, w => some (.ok a, w)
  | .throw e, w => some (.error e, w)
  | .await op k, w => (sys.answer i op .done w).bind fun r => alone i (k r.1) r.2

omit [DecidableEq ι] in
/-- A program whose requests are all served comes to its end. -/
theorem alone_isSome {i : ι} {p : Program Op ε Unit} {ok : {β : Type} → Op β → Prop}
    (hp : p.Only ok) (h : ∀ {β : Type} (op : Op β) w, ok op → (sys.answer i op .done w).isSome)
    (w : W) : (sys.alone i p w).isSome := by
  induction p generalizing w with
  | pure _ | throw _ => rfl
  | await op k ih =>
      obtain ⟨r, hr⟩ := Option.isSome_iff_exists.mp (h op w hp.1)
      simp only [alone, hr, Option.bind_some]
      exact ih r.1 (hp.2 r.1) r.2

/-- What one slot can do alone it can do in a pool. -/
theorem exec_drive {i : ι} {p : Program Op ε Unit} {w : W} {outs : List (Outcome ε)}
    {r : Program Op ε Unit × W} (h : sys.drive i p w outs = some r)
    {q : Pool Op ε W ι} (hslot : q.slot i = p) (hw : q.world = w) :
    ∃ q', sys.exec q (outs.map fun out => .step i out) = some q' ∧ q'.slot i = r.1 ∧
      q'.world = r.2 := by
  induction outs generalizing p w q with
  | nil =>
      cases h
      exact ⟨q, rfl, hslot, hw⟩
  | cons out outs ih =>
      cases p with
      | pure _ | throw _ => cases h
      | await op k =>
          subst hw
          simp only [drive] at h
          split at h <;> try contradiction
          rename_i hmay
          obtain ⟨a, ha, h⟩ := Option.bind_eq_some_iff.mp h
          obtain ⟨q', hq, hres⟩ :=
            ih (q := ⟨a.2, Function.update q.slot i (k a.1)⟩) h (Function.update_self ..) rfl
          refine ⟨q', ?_, hres⟩
          simp only [List.map_cons, exec, next, hslot, hmay, if_true, ha, Option.map_some,
            Option.bind_some, hq]

theorem exec_start_drive {i : ι} {t : τ} {w : W} {outs : List (Outcome ε)}
    {r : Program Op ε Unit × W} (hready : sys.ready w i t = true)
    (h : sys.drive i (sys.program t) w outs = some r) :
    ∃ q, sys.exec (.init w) (.start i t :: outs.map fun out => .step i out) = some q ∧
      q.world = r.2 := by
  obtain ⟨q, hq, _, hw⟩ := sys.exec_drive h
    (q := ⟨w, Function.update (fun _ => .pure ()) i (sys.program t)⟩)
    (by simp only [Function.update_self]) rfl
  refine ⟨q, ?_, hw⟩
  simp only [exec, next, Pool.init, Program.finished, hready, Bool.and_true, if_true,
    Option.bind_some]
  exact hq

/-- Any property of pools that every event keeps holds after a whole run. -/
theorem exec_induction {P : Pool Op ε W ι → Prop}
    (step : ∀ p e q, P p → sys.next p e = some q → P q)
    {p q : Pool Op ε W ι} {es : List (Event ε ι τ E)}
    (hp : P p) (h : sys.exec p es = some q) : P q := by
  induction es generalizing p with
  | nil => exact Option.some.inj h ▸ hp
  | cons e es ih =>
      obtain ⟨r, hr, hq⟩ := Option.bind_eq_some_iff.mp h
      exact ih (step p e r hp hr) hq

end System
end Async
