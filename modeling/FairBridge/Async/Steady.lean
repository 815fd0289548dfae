import FairBridge.Async.System

/-!
What every request keeps by itself, a run keeps. Nothing has to be known of the order
in which a program makes its requests, only which ones it can come to make.
-/

namespace Async
universe u
variable {Op : Type → Type u} {ε W ι τ E : Type}

/-- A relation that the requests `ok`, wherever they are performed as `permits` says,
and the environment keep. -/
structure Steady (sys : System Op ε W ι τ E) where
  kept : W → W → Prop
  ok : {β : Type} → ι → Op β → Prop
  permits : {β : Type} → ι → Op β → W → Prop
  refl : ∀ w, kept w w
  trans : ∀ {u v w}, kept u v → kept v w → kept u w
  env : ∀ {e v w}, sys.env e v = some w → kept v w
  tasks : ∀ {w i t}, sys.ready w i t = true → (sys.program t).Only fun op => ok i op
  step : ∀ {β : Type} {i : ι} {op : Op β} {out : Outcome ε} {r : Except ε β} {v w : W},
    ok i op → permits i op v → sys.may i op out v = true →
    sys.answer i op out v = some (r, w) → kept v w

namespace Steady
variable {sys : System Op ε W ι τ E} (K : Steady sys) {p q : Pool Op ε W ι}

/-- Whatever is still to be run makes only the requests that are expected of it. -/
def Expected (p : Pool Op ε W ι) : Prop := ∀ i, (p.slot i).Only fun op => K.ok i op

theorem expected_init (w : W) : K.Expected (.init w) := fun _ => trivial

variable [DecidableEq ι]

theorem expected_update {i : ι} {prog : Program Op ε Unit} {w : W} (h : K.Expected p)
    (hprog : prog.Only fun op => K.ok i op) :
    K.Expected ⟨w, Function.update p.slot i prog⟩ := by
  intro j
  by_cases hj : j = i
  · subst j
    simpa only [Function.update_self] using hprog
  · simpa only [Function.update_of_ne hj] using h j

theorem expected_next {e : Event ε ι τ E} (h : K.Expected p) (hn : sys.next p e = some q) :
    K.Expected q := by
  cases e with
  | start i t =>
      simp only [System.next] at hn
      split at hn <;> cases hn
      rename_i hc
      rw [Bool.and_eq_true] at hc
      exact K.expected_update h (K.tasks hc.2)
  | step i out =>
      have hslot := h i
      simp only [System.next] at hn
      split at hn
      · rename_i op k hp
        rw [hp] at hslot
        split at hn <;> try contradiction
        obtain ⟨r, _, rfl⟩ := Option.map_eq_some_iff.mp hn
        exact K.expected_update h (hslot.2 r.1)
      · cases hn
  | kill i =>
      simp only [System.next] at hn
      split at hn
      · split at hn <;> cases hn
        exact K.expected_update h trivial
      · cases hn
  | env e =>
      obtain ⟨w, _, rfl⟩ := Option.map_eq_some_iff.mp hn
      exact h

theorem expected_exec {es : List (Event ε ι τ E)} (h : K.Expected p)
    (hq : sys.exec p es = some q) : K.Expected q :=
  sys.exec_induction (P := K.Expected) (fun _ _ _ hp hn => K.expected_next hp hn) h hq

theorem kept_next {e : Event ε ι τ E} (h : K.Expected p)
    (hperm : System.Asks (fun p i op => K.permits i op p.world) p e)
    (hn : sys.next p e = some q) : K.kept p.world q.world := by
  cases e with
  | start i t =>
      simp only [System.next] at hn
      split at hn <;> cases hn
      exact K.refl _
  | step i out =>
      have hslot := h i
      simp only [System.next] at hn
      simp only [System.Asks] at hperm
      split at hn
      · rename_i op k hp
        rw [hp] at hslot hperm
        split at hn <;> try contradiction
        rename_i hmay
        obtain ⟨r, hans, rfl⟩ := Option.map_eq_some_iff.mp hn
        exact K.step hslot.1 hperm hmay hans
      · cases hn
  | kill i =>
      simp only [System.next] at hn
      split at hn
      · split at hn <;> cases hn
        exact K.refl _
      · cases hn
  | env e =>
      obtain ⟨w, hw, rfl⟩ := Option.map_eq_some_iff.mp hn
      exact K.env hw

theorem kept_exec {es : List (Event ε ι τ E)} (h : K.Expected p)
    (hq : sys.exec p es = some q)
    (hes : sys.Along (fun p i op => K.permits i op p.world) p es) :
    K.kept p.world q.world := by
  induction es generalizing p with
  | nil =>
      cases hq
      exact K.refl _
  | cons e es ih =>
      obtain ⟨r, hr, hq⟩ := Option.bind_eq_some_iff.mp hq
      simp only [System.Along, hr] at hes
      exact K.trans (K.kept_next h hes.1 hr) (ih (K.expected_next h hr) hq hes.2)

end Steady
end Async
