import FairBridge.Async.System

/-!
What a program learns from its answers and no step undoes. Where every step climbs an
order on the worlds, a fact that the order preserves stays known from the answer that told
it to the end of the program, whatever the other programs do meanwhile.
-/

namespace Async
universe u
variable {Op : Type → Type u} {ε W ι τ E α β : Type}

/-- An invariant, and the order that the steps between its worlds climb. -/
structure Progress (W : Type) where
  inv : W → Prop
  kept : W → W → Prop
  refl : ∀ w, kept w w
  trans : ∀ {u v w}, kept u v → kept v w → kept u w

namespace Progress
variable (G : Progress W) (sys : System Op ε W ι τ E)

/-- Once true, it stays true. -/
def Lasting (F : W → Prop) : Prop :=
  ∀ v w, G.inv v → G.inv w → G.kept v w → F v → F w

/-- Performed where `F` is known, the request keeps the invariant and climbs. -/
def Allowed (i : ι) (F : W → Prop) (op : Op β) : Prop :=
  ∀ v out r w, G.inv v → F v → sys.may i op out v = true →
    sys.answer i op out v = some (r, w) → G.inv w ∧ G.kept v w

/-- The request was answered so, where `F` was known, at or before the world. -/
def Told (i : ι) (F : W → Prop) (op : Op β) (r : Except ε β) (t : W) : Prop :=
  ∃ v out w, G.inv v ∧ F v ∧ sys.may i op out v = true ∧
    sys.answer i op out v = some (r, w) ∧ G.inv w ∧ G.kept w t

/-- Whatever it is told, the program only performs what it is allowed to with what it
knows, and it returns with `M` known. -/
def Learns (i : ι) (M : α → W → Prop) : (W → Prop) → Program Op ε α → Prop
  | F, .pure a => ∀ w, G.inv w → F w → M a w
  | _, .throw _ => True
  | F, .await op k => G.Allowed sys i F op ∧
      ∀ r, Learns i M (fun w => F w ∧ G.Told sys i F op r w) (k r)

/-- The program that is still to be run is allowed all it does by what is known. -/
def Knowing (i : ι) (prog : Program Op ε Unit) (w : W) : Prop :=
  ∃ F : W → Prop, G.Lasting F ∧ F w ∧ G.Learns sys i (fun _ _ => True) F prog

variable {G sys} {i : ι} {F F' : W → Prop} {M M' : α → W → Prop}

theorem Lasting.and (h : G.Lasting F) (h' : G.Lasting F') :
    G.Lasting fun w => F w ∧ F' w :=
  fun v w hv hw hk hF => ⟨h v w hv hw hk hF.1, h' v w hv hw hk hF.2⟩

theorem Lasting.told (op : Op β) (r : Except ε β) : G.Lasting (G.Told sys i F op r) := by
  intro v w _ _ hk h
  obtain ⟨s, out, t, hs, hF, hmay, hans, ht, hkept⟩ := h
  exact ⟨s, out, t, hs, hF, hmay, hans, ht, G.trans hkept hk⟩

theorem Allowed.pre {op : Op β} (h : G.Allowed sys i F op)
    (hF : ∀ w, G.inv w → F' w → F w) : G.Allowed sys i F' op :=
  fun v out r w hv hF' => h v out r w hv (hF v hv hF')

theorem Told.mono {op : Op β} {r : Except ε β} {w : W} (h : G.Told sys i F' op r w)
    (hF : ∀ w, G.inv w → F' w → F w) : G.Told sys i F op r w := by
  obtain ⟨s, out, t, hs, hF', rest⟩ := h
  exact ⟨s, out, t, hs, hF s hs hF', rest⟩

theorem Learns.pre {p : Program Op ε α} (h : G.Learns sys i M F p)
    (hF : ∀ w, G.inv w → F' w → F w) : G.Learns sys i M F' p := by
  induction p generalizing F F' with
  | pure a => exact fun w hw hF' => h w hw (hF w hw hF')
  | throw e => trivial
  | await op k ih =>
      refine ⟨h.1.pre hF, fun r => ih r (h.2 r) ?_⟩
      exact fun w hw hF' => ⟨hF w hw hF'.1, hF'.2.mono hF⟩

theorem Learns.post {p : Program Op ε α} (h : G.Learns sys i M F p)
    (hM : ∀ a w, G.inv w → M a w → M' a w) : G.Learns sys i M' F p := by
  induction p generalizing F with
  | pure a => exact fun w hw hF => hM a w hw (h w hw hF)
  | throw e => trivial
  | await op k ih => exact ⟨h.1, fun r => ih r (h.2 r)⟩

/-- What was known before is known afterwards. -/
theorem Learns.keep {p : Program Op ε α} (h : G.Learns sys i M F p)
    (hF : ∀ w, G.inv w → F w → F' w) : G.Learns sys i (fun a w => F' w ∧ M a w) F p := by
  induction p generalizing F with
  | pure a => exact fun w hw hFw => ⟨hF w hw hFw, h w hw hFw⟩
  | throw e => trivial
  | await op k ih => exact ⟨h.1, fun r => ih r (h.2 r) fun w hw hFw => hF w hw hFw.1⟩

/-- What is known of values fixed beforehand may be used. -/
theorem Learns.fact {A : Prop} {p : Program Op ε α} (hA : ∀ w, G.inv w → F w → A)
    (h : A → G.Learns sys i M F p) : G.Learns sys i M F p := by
  by_cases hfact : A
  · exact h hfact
  · clear h
    induction p generalizing F with
    | pure a => exact fun w hw hF => absurd (hA w hw hF) hfact
    | throw e => trivial
    | await op k ih =>
        refine ⟨fun v out r w hv hF => absurd (hA v hv hF) hfact, fun r => ih r ?_⟩
        exact fun w hw hF => hA w hw hF.1

theorem Learns.chain {p : Program Op ε β} {f : β → Program Op ε α} {N : β → W → Prop}
    (h : G.Learns sys i N F p) (hf : ∀ b, G.Learns sys i M (N b) (f b)) :
    G.Learns sys i M F (p.bind f) := by
  induction p generalizing F with
  | pure b => exact (hf b).pre h
  | throw e => trivial
  | await op k ih => exact ⟨h.1, fun r => ih r (h.2 r)⟩

theorem Learns.bind {p : Program Op ε β} {f : β → Program Op ε α} {N : β → W → Prop}
    (h : G.Learns sys i N F p) (hf : ∀ b, G.Learns sys i M (fun w => F w ∧ N b w) (f b)) :
    G.Learns sys i M F (p.bind f) :=
  (h.keep fun _ _ hF => hF).chain hf

theorem Learns.tryCatch {p : Program Op ε α} {c : ε → Program Op ε α}
    (h : G.Learns sys i M F p) (hc : ∀ e, G.Learns sys i M F (c e)) :
    G.Learns sys i M F (p.tryCatch c) := by
  induction p generalizing F with
  | pure a => exact h
  | throw e => exact hc e
  | await op k ih =>
      exact ⟨h.1, fun r => ih r (h.2 r) fun e => (hc e).pre fun _ _ hF => hF.1⟩

theorem Learns.request {op : Op α} (h : G.Allowed sys i F op)
    (hM : ∀ a w, G.inv w → F w → G.Told sys i F op (.ok a) w → M a w) :
    G.Learns sys i M F (Program.request op) := by
  refine ⟨h, fun r => ?_⟩
  cases r with
  | ok a => exact fun w hw hF => hM a w hw hF.1 hF.2
  | error e => trivial

theorem Learns.ofExcept (x : Except ε α) :
    G.Learns sys i (fun a _ => x = .ok a) F (Program.ofExcept x) := by
  cases x with
  | ok a => exact fun _ _ _ => rfl
  | error e => trivial

/-- A program all of whose requests are allowed as they stand. -/
theorem Learns.only {ok : {β : Type} → Op β → Prop} {p : Program Op ε α} (h : p.Only ok)
    (hok : ∀ {β : Type} (op : Op β), ok op → G.Allowed sys i F op) :
    G.Learns sys i (fun _ => F) F p := by
  induction p generalizing F with
  | pure a => exact fun _ _ hF => hF
  | throw e => trivial
  | await op k ih =>
      refine ⟨hok op h.1, fun r => ?_⟩
      refine (ih r (h.2 r) fun op hop => (hok op hop).pre fun _ _ hF => hF.1).post ?_
      exact fun _ _ _ hF => hF.1

/-- Such a program may stand before any other. -/
theorem Learns.after {ok : {β : Type} → Op β → Prop} {p : Program Op ε β}
    {f : β → Program Op ε α} (h : p.Only ok)
    (hok : ∀ {β : Type} (op : Op β), ok op → G.Allowed sys i F op)
    (hf : ∀ b, G.Learns sys i M F (f b)) : G.Learns sys i M F (p.bind f) :=
  (Learns.only h hok).bind fun b => (hf b).pre fun _ _ hF => hF.1

theorem Knowing.later {prog : Program Op ε Unit} {v w : W} (h : G.Knowing sys i prog v)
    (hv : G.inv v) (hw : G.inv w) (hk : G.kept v w) : G.Knowing sys i prog w := by
  obtain ⟨F, hlasting, hF, hlearns⟩ := h
  exact ⟨F, hlasting, hlasting v w hv hw hk hF, hlearns⟩

/-- Nothing has to be known. -/
theorem Knowing.of_learns {prog : Program Op ε Unit} (w : W)
    (h : G.Learns sys i (fun _ _ => True) (fun _ => True) prog) : G.Knowing sys i prog w :=
  ⟨fun _ => True, fun _ _ _ _ _ _ => trivial, trivial, h⟩

end Progress

/-- A system whose tasks are allowed all they do by what is known when they start. -/
structure Learner (sys : System Op ε W ι τ E) extends Progress W where
  env : ∀ {e v w}, inv v → sys.env e v = some w → inv w ∧ kept v w
  tasks : ∀ {w i t}, inv w → sys.ready w i t = true →
    toProgress.Knowing sys i (sys.program t) w

namespace Learner
variable {sys : System Op ε W ι τ E} (L : Learner sys) {p q : Pool Op ε W ι}

structure Sound (p : Pool Op ε W ι) : Prop where
  inv : L.inv p.world
  slots : ∀ i, L.Knowing sys i (p.slot i) p.world

theorem Sound.init {w : W} (hw : L.inv w) : L.Sound (.init w) where
  inv := hw
  slots _ := .of_learns w fun _ _ _ => trivial

variable [DecidableEq ι]

theorem Sound.replace {i : ι} {prog : Program Op ε Unit} {w : W} (h : L.Sound p)
    (hw : L.inv w) (hk : L.kept p.world w) (hprog : L.Knowing sys i prog w) :
    L.Sound ⟨w, Function.update p.slot i prog⟩ := by
  refine ⟨hw, fun j => ?_⟩
  by_cases hj : j = i
  · subst j
    simpa only [Function.update_self] using hprog
  · simpa only [Function.update_of_ne hj] using (h.slots j).later h.inv hw hk

theorem Sound.next {e : Event ε ι τ E} (h : L.Sound p) (hn : sys.next p e = some q) :
    L.Sound q ∧ L.kept p.world q.world := by
  cases e with
  | start i t =>
      simp only [System.next] at hn
      split at hn <;> cases hn
      rename_i hc
      rw [Bool.and_eq_true] at hc
      exact ⟨h.replace L h.inv (L.refl _) (L.tasks h.inv hc.2), L.refl _⟩
  | step i out =>
      obtain ⟨F, hlasting, hF, hlearns⟩ := h.slots i
      simp only [System.next] at hn
      split at hn
      · rename_i op k hslot
        rw [hslot] at hlearns
        split at hn <;> try contradiction
        rename_i hmay
        obtain ⟨⟨r, w⟩, hans, rfl⟩ := Option.map_eq_some_iff.mp hn
        obtain ⟨hw, hk⟩ := hlearns.1 _ out r w h.inv hF hmay hans
        refine ⟨h.replace L hw hk ?_, hk⟩
        refine ⟨_, hlasting.and (.told op r), ⟨hlasting _ _ h.inv hw hk hF, ?_⟩, hlearns.2 r⟩
        exact ⟨p.world, out, w, h.inv, hF, hmay, hans, hw, L.refl w⟩
      · cases hn
  | kill i =>
      simp only [System.next] at hn
      split at hn
      · split at hn <;> cases hn
        exact ⟨h.replace L h.inv (L.refl _) (.of_learns _ fun _ _ _ => trivial), L.refl _⟩
      · cases hn
  | env e =>
      obtain ⟨w, henv, rfl⟩ := Option.map_eq_some_iff.mp hn
      obtain ⟨hw, hk⟩ := L.env h.inv henv
      exact ⟨⟨hw, fun i => (h.slots i).later h.inv hw hk⟩, hk⟩

/-- Every run keeps the invariant and climbs. -/
theorem Sound.exec {es : List (Event ε ι τ E)} (h : L.Sound p) (hq : sys.exec p es = some q) :
    L.Sound q ∧ L.kept p.world q.world := by
  induction es generalizing p with
  | nil =>
      cases hq
      exact ⟨h, L.refl _⟩
  | cons e es ih =>
      obtain ⟨r, hr, hq⟩ := Option.bind_eq_some_iff.mp hq
      obtain ⟨hr, hpr⟩ := h.next L hr
      obtain ⟨hq, hrq⟩ := ih hr hq
      exact ⟨hq, L.trans hpr hrq⟩

end Learner
end Async
