import FairBridge.Async.Rules

/-!
A section that at most one run is to be in at a time. The state carries the run
that is in it beside the world. Nothing keeps a second run out by itself: that
nobody else is inside has to be permitted where a run would enter a section that
the world shows as entered.
-/

namespace Async
universe u
variable {Op : Type → Type u} {ε W ι τ E : Type}

/-- What slot `i` may count on: the others neither put it inside nor take it out,
they leave alone what is its own while it is inside, they undo nothing, and they do no
more than `others` allows. -/
structure SectionKept (mine kept others : W → W → Prop) (i : ι) (s t : W × Option ι) :
    Prop where
  holder : t.2 = some i ↔ s.2 = some i
  mine : s.2 = some i → mine s.1 t.1
  kept : kept s.1 t.1
  others : others s.1 t.1

/-- A run may only end inside while the section is `idle`, and `enters` are the
requests that would enter a section the world shows as entered. -/
structure Section (sys : System Op ε W ι τ E) where
  inv : W × Option ι → Prop
  idle : W → Prop
  mine : W → W → Prop
  kept : W → W → Prop
  others : W → W → Prop
  enters : {β : Type} → Op β → W → Prop
  mine_refl : ∀ w, mine w w
  mine_trans : ∀ {u v w}, mine u v → mine v w → mine u w
  kept_refl : ∀ w, kept w w
  kept_trans : ∀ {u v w}, kept u v → kept v w → kept u w
  others_refl : ∀ w, others w w
  others_trans : ∀ {u v w}, others u v → others v w → others u w
  idle_mine : ∀ {v w}, mine v w → idle v → idle w
  env : ∀ {e s w}, inv s → sys.env e s.1 = some w →
    inv (w, s.2) ∧ (s.2 ≠ none → mine s.1 w) ∧ kept s.1 w ∧ others s.1 w

namespace Section
variable {sys : System Op ε W ι τ E} (X : Section sys) {i j : ι} {s t u : W × Option ι} {w : W}

def Kept (i : ι) (s t : W × Option ι) : Prop := SectionKept X.mine X.kept X.others i s t

theorem Kept.refl (i : ι) (s : W × Option ι) : X.Kept i s s :=
  ⟨Iff.rfl, fun _ => X.mine_refl s.1, X.kept_refl s.1, X.others_refl s.1⟩

theorem Kept.trans (hst : X.Kept i s t) (htu : X.Kept i t u) : X.Kept i s u where
  holder := htu.holder.trans hst.holder
  mine hs := X.mine_trans (hst.mine hs) (htu.mine (hst.holder.mpr hs))
  kept := X.kept_trans hst.kept htu.kept
  others := X.others_trans hst.others htu.others

def rules : Rules sys (W × Option ι) where
  world s := s.1
  inv := X.inv
  rely := X.Kept
  guar i s t := X.kept s.1 t.1 ∧ ∀ j, i ≠ j → X.Kept j s t
  rest i s := s.2 = some i → X.idle s.1
  hist s t := X.kept s.1 t.1
  permits i op s := X.enters op s.1 → s.2 = none ∨ s.2 = some i
  rely_refl := Kept.refl X
  rely_trans := Kept.trans X
  guar_refl _ s := ⟨X.kept_refl s.1, fun j _ => Kept.refl X j s⟩
  guar_rely hij _ _ h := h.2 _ hij
  rest_stable _ _ h hs ht := X.idle_mine (h.mine (h.holder.mp ht)) (hs (h.holder.mp ht))
  hist_refl s := X.kept_refl s.1
  hist_trans := X.kept_trans
  guar_hist _ _ h := h.1
  env_step {e s w} hi he := by
    obtain ⟨hi', hmine, hkept, hothers⟩ := X.env hi he
    refine ⟨(w, s.2), rfl, hi', hkept, fun i => ⟨Iff.rfl, ?_, hkept, hothers⟩⟩
    intro hs
    exact hmine (by rw [hs]; exact Option.some_ne_none i)

/-- With nobody else inside, a run may come and go, and what is inside is its own. -/
theorem guar_own {o : Option ι} (hs : s.2 = none ∨ s.2 = some i) (ht : o = none ∨ o = some i)
    (hk : X.kept s.1 w) (ho : ∀ j, i ≠ j → X.others s.1 w) : X.rules.guar i s (w, o) := by
  have other : ∀ {a : Option ι}, a = none ∨ a = some i → ∀ j, i ≠ j → a ≠ some j := by
    intro a ha j hij hj
    cases ha with
    | inl h => cases h.symm.trans hj
    | inr h => exact hij (Option.some.inj (h.symm.trans hj))
  exact ⟨hk, fun j hij => ⟨⟨fun h => absurd h (other ht j hij),
    fun h => absurd h (other hs j hij)⟩, fun h => absurd h (other hs j hij), hk, ho j hij⟩⟩

/-- A run leaves alone what is another's. -/
theorem guar_outside (hm : s.2 ≠ none → s.2 ≠ some i → X.mine s.1 w) (hk : X.kept s.1 w)
    (ho : ∀ j, i ≠ j → X.others s.1 w) : X.rules.guar i s (w, s.2) := by
  refine ⟨hk, fun j hij => ⟨Iff.rfl, fun hs => hm ?_ ?_, hk, ho j hij⟩⟩
  · rw [hs]
    exact Option.some_ne_none j
  · intro h
    exact hij (Option.some.inj (h.symm.trans hs))

/-- What a run that is not inside knows. -/
def Known (i : ι) (P : W → Prop) (s : W × Option ι) : Prop := X.rules.rest i s ∧ P s.1

/-- What the run inside knows. -/
def Inside (i : ι) (P : W → Prop) (s : W × Option ι) : Prop := s.2 = some i ∧ P s.1

variable {X} {P : W → Prop}

theorem Known.stable (hP : ∀ v w, X.kept v w → X.others v w → P v → P w) :
    X.rules.Stable i (X.Known i P) := by
  intro s t hs ht hst h
  exact ⟨X.rules.rest_stable hs ht hst h.1, hP s.1 t.1 hst.kept hst.others h.2⟩

theorem Inside.stable (hP : ∀ v w, X.kept v w → X.mine v w → P v → P w) :
    X.rules.Stable i (Inside i P) := by
  intro s t _ _ hst h
  exact ⟨hst.holder.mpr h.1, hP s.1 t.1 hst.kept (hst.mine h.1) h.2⟩

variable (X)

/-- Where the section is never idle, a run that has ended or may end where it is
awaits nothing inside. -/
theorem free (hidle : ∀ w, ¬ X.idle w) {p : Pool Op ε W ι} (h : X.rules.Good p s)
    (hothers : ∀ j, j ≠ i →
      (p.slot j).Awaiting fun op => sys.mayKill j op p.world = true) :
    s.2 = none ∨ s.2 = some i := by
  cases hs : s.2 with
  | none => exact Or.inl rfl
  | some j =>
      by_cases hj : j = i
      · exact Or.inr (congrArg some hj)
      · have hrest : X.rules.rest j s := by
          have hslot := hothers j hj
          cases hp : p.slot j with
          | pure _ | throw _ => exact h.rest (by rw [hp]; rfl)
          | await op k =>
              have hsafe := h.slots j
              rw [hp] at hslot hsafe
              have hkill := (hsafe s (X.rules.rely_refl j s) h.inv).1
              exact hkill (by rw [h.world]; exact hslot)
        exact absurd (hrest hs) (hidle s.1)

end Section
end Async
