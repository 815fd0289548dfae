import FairBridge.Async.Rules

/-!
Many runs, one claim. The state carries the run that holds the claim beside the
world. Once the world refuses further claims it goes on refusing them, and only
the holder makes the calls that the claim is about.
-/

namespace Async
universe u
variable {Op : Type → Type u} {ε W ι τ E : Type}

/-- What slot `i` may count on: the others neither take its claim nor make calls
while it holds it, no claim is given back, and refusals are final. -/
structure ClaimKept (refused : W → Prop) (calls : W → Nat) (i : ι) (s t : W × Option ι) :
    Prop where
  mine : s.2 = some i → t.2 = some i ∧ calls t.1 = calls s.1
  claimed : s.2 ≠ none → t.2 ≠ none
  refused : refused s.1 → refused t.1

namespace ClaimKept
variable {refused : W → Prop} {calls : W → Nat} {i j : ι} {s t u : W × Option ι}

theorem refl (i : ι) (s : W × Option ι) : ClaimKept refused calls i s s :=
  ⟨fun h => ⟨h, rfl⟩, fun h => h, fun h => h⟩

theorem trans (hst : ClaimKept refused calls i s t) (htu : ClaimKept refused calls i t u) :
    ClaimKept refused calls i s u where
  mine hs := by
    obtain ⟨ht, hc⟩ := hst.mine hs
    obtain ⟨hu, hc'⟩ := htu.mine ht
    exact ⟨hu, hc'.trans hc⟩
  claimed h := htu.claimed (hst.claimed h)
  refused h := htu.refused (hst.refused h)

/-- A claim can be taken where nobody holds it and it is not refused. -/
theorem taken {w : W} (hs : s.2 = none) (hr : ¬ refused s.1) :
    ClaimKept refused calls i s (w, some j) where
  mine h := by
    rw [hs] at h
    cases h
  claimed h := absurd hs h
  refused h := absurd h hr

/-- The holder may call. -/
theorem called {w : W} (hs : s.2 = some j) (hij : j ≠ i) (hr : refused s.1 → refused w) :
    ClaimKept refused calls i s (w, s.2) where
  mine h := absurd (Option.some.inj (hs.symm.trans h)) hij
  claimed h := h
  refused := hr

/-- Anybody may do anything else. -/
theorem same {w : W} (hc : calls w = calls s.1) (hr : refused s.1 → refused w) :
    ClaimKept refused calls i s (w, s.2) :=
  ⟨fun h => ⟨h, hc⟩, fun h => h, hr⟩

end ClaimKept

/-- The rules of a claim, for an invariant of world and holder. -/
def Rules.claim (sys : System Op ε W ι τ E) (refused : W → Prop) (calls : W → Nat)
    (inv : W × Option ι → Prop)
    (env : ∀ {e s w}, inv s → sys.env e s.1 = some w →
      inv (w, s.2) ∧ calls w = calls s.1 ∧ (refused s.1 → refused w)) :
    Rules sys (W × Option ι) where
  world s := s.1
  inv := inv
  rely := ClaimKept refused calls
  guar i s t := ∀ j, i ≠ j → ClaimKept refused calls j s t
  rest _ _ := True
  hist _ _ := True
  rely_refl := .refl
  rely_trans := .trans
  guar_refl _ s _ _ := .refl _ s
  guar_rely hij _ _ h := h _ hij
  rest_stable _ _ _ _ := trivial
  hist_refl _ := trivial
  hist_trans _ _ := trivial
  guar_hist _ _ _ := trivial
  env_step hi he := by
    obtain ⟨hi', hc, hr⟩ := env hi he
    exact ⟨_, rfl, hi', trivial, fun _ => .same hc hr⟩

end Async
