import Mathlib.Data.List.Basic

/-!
Single-threaded asynchronous programs. A program is a tree of awaited
requests: between two awaits nothing else runs, at an await anything may.
Each request is answered by a value or by a raised error, and an error that no
handler catches ends the program.
-/

namespace Async
universe u

/-- `Op β` is the type of the requests that are answered by a `β`. -/
inductive Program (Op : Type → Type u) (ε α : Type) : Type (max 1 u) where
  | pure (a : α)
  | throw (e : ε)
  | await {β : Type} (op : Op β) (k : Except ε β → Program Op ε α)

namespace Program
variable {Op : Type → Type u} {ε α β γ : Type}

def bind : Program Op ε α → (α → Program Op ε β) → Program Op ε β
  | .pure a, f => f a
  | .throw e, _ => .throw e
  | .await op k, f => .await op fun r => (k r).bind f

def tryCatch : Program Op ε α → (ε → Program Op ε α) → Program Op ε α
  | .pure a, _ => .pure a
  | .throw e, h => h e
  | .await op k, h => .await op fun r => (k r).tryCatch h

def ofExcept : Except ε α → Program Op ε α
  | .ok a => .pure a
  | .error e => .throw e

/-- Await one request and hand its answer, or its error, to the caller. -/
def request (op : Op β) : Program Op ε β := .await op ofExcept

instance : Monad (Program Op ε) where
  pure := .pure
  bind := bind

instance : MonadExceptOf ε (Program Op ε) where
  throw := .throw
  tryCatch := tryCatch

/-- Every request the program can come to make is one of `ok`. -/
def Only (ok : {β : Type} → Op β → Prop) : Program Op ε α → Prop
  | .pure _ | .throw _ => True
  | .await op k => ok op ∧ ∀ r, (k r).Only ok

/-- As long as its requests are answered, the program does not raise. -/
def Sound : Program Op ε α → Prop
  | .pure _ => True
  | .throw _ => False
  | .await _ k => ∀ a, (k (.ok a)).Sound

/-- Nothing is left to run, whether the program returned or raised. -/
def finished : Program Op ε α → Bool
  | .await _ _ => false
  | _ => true

/-- The program returned. -/
def returned : Program Op ε α → Bool
  | .pure _ => true
  | _ => false

/-- The request that is awaited, if one is, meets `c`. -/
def Awaiting (c : {β : Type} → Op β → Prop) : Program Op ε α → Prop
  | .await op _ => c op
  | _ => True

instance Awaiting.decidable (c : {β : Type} → Op β → Prop)
    [∀ {β : Type} (op : Op β), Decidable (c op)] :
    (p : Program Op ε α) → Decidable (p.Awaiting c)
  | .pure _ | .throw _ => inferInstanceAs (Decidable True)
  | .await op _ => inferInstanceAs (Decidable (c op))

@[simp] theorem pure_eq (a : α) : (Pure.pure a : Program Op ε α) = .pure a := rfl

@[simp] theorem throw_eq (e : ε) : (throw e : Program Op ε α) = .throw e := rfl

@[simp] theorem bind_eq (p : Program Op ε α) (f : α → Program Op ε β) :
    (p >>= f) = p.bind f := rfl

@[simp] theorem tryCatch_eq (p : Program Op ε α) (h : ε → Program Op ε α) :
    (MonadExcept.tryCatch p h : Program Op ε α) = p.tryCatch h := rfl

@[simp] theorem pure_bind (a : α) (f : α → Program Op ε β) :
    (Program.pure a).bind f = f a := rfl

@[simp] theorem throw_bind (e : ε) (f : α → Program Op ε β) :
    (Program.throw e : Program Op ε α).bind f = .throw e := rfl

@[simp] theorem await_bind (op : Op γ) (k : Except ε γ → Program Op ε α)
    (f : α → Program Op ε β) :
    (Program.await op k).bind f = .await op fun r => (k r).bind f := rfl

@[simp] theorem finished_await (op : Op γ) (k : Except ε γ → Program Op ε α) :
    (Program.await op k).finished = false := rfl

theorem bind_assoc (p : Program Op ε α) (f : α → Program Op ε β)
    (g : β → Program Op ε γ) :
    (p.bind f).bind g = p.bind fun a => (f a).bind g := by
  induction p with
  | pure _ | throw _ => rfl
  | await op k ih => simp only [await_bind, ih]

variable {ok : {β : Type} → Op β → Prop}

theorem Only.mono {ok' : {β : Type} → Op β → Prop} {p : Program Op ε α} (hp : p.Only ok)
    (h : ∀ {β : Type} (op : Op β), ok op → ok' op) : p.Only ok' := by
  induction p with
  | pure _ | throw _ => trivial
  | await op k ih => exact ⟨h op hp.1, fun r => ih r (hp.2 r)⟩

theorem Only.bind {p : Program Op ε α} {f : α → Program Op ε β} (hp : p.Only ok)
    (hf : ∀ a, (f a).Only ok) : (p.bind f).Only ok := by
  induction p with
  | pure a => exact hf a
  | throw _ => trivial
  | await op k ih => exact ⟨hp.1, fun r => ih r (hp.2 r)⟩

theorem Only.tryCatch {p : Program Op ε α} {h : ε → Program Op ε α} (hp : p.Only ok)
    (hh : ∀ e, (h e).Only ok) : (p.tryCatch h).Only ok := by
  induction p with
  | pure _ => trivial
  | throw e => exact hh e
  | await op k ih => exact ⟨hp.1, fun r => ih r (hp.2 r)⟩

theorem Only.request {op : Op β} (h : ok op) : (request op : Program Op ε β).Only ok := by
  refine ⟨h, ?_⟩
  intro r
  cases r <;> trivial

theorem Only.ofExcept (x : Except ε α) : (ofExcept x : Program Op ε α).Only ok := by
  cases x <;> trivial

/-- Of a computed value the program may use how it was computed. -/
theorem Only.bind_ofExcept {x : Except ε α} {f : α → Program Op ε β}
    (h : ∀ a, x = .ok a → (f a).Only ok) : (Program.bind (Program.ofExcept x) f).Only ok := by
  cases x with
  | ok a => exact h a rfl
  | error e => trivial

theorem Sound.request {op : Op β} : (request op : Program Op ε β).Sound := fun _ => trivial

theorem Sound.bind {p : Program Op ε α} {f : α → Program Op ε β} (hp : p.Sound)
    (hf : ∀ a, (f a).Sound) : (p.bind f).Sound := by
  induction p with
  | pure a => exact hf a
  | throw _ => exact hp
  | await op k ih => exact fun a => ih (.ok a) (hp a)

theorem Sound.of_bind {p : Program Op ε α} {f : α → Program Op ε β} (h : (p.bind f).Sound) :
    p.Sound := by
  induction p with
  | pure a => trivial
  | throw _ => exact h
  | await op k ih => exact fun a => ih (.ok a) (h a)

theorem Sound.tryCatch {p : Program Op ε α} {h : ε → Program Op ε α} (hp : p.Sound) :
    (p.tryCatch h).Sound := by
  induction p with
  | pure a => trivial
  | throw _ => exact absurd hp id
  | await op k ih => exact fun a => ih (.ok a) (hp a)

/-- A computed value has to be one. -/
theorem Sound.bind_ofExcept_iff {x : Except ε α} {f : α → Program Op ε β} :
    (Program.bind (Program.ofExcept x) f).Sound ↔ ∃ a, x = .ok a ∧ (f a).Sound := by
  constructor
  · intro h
    cases x with
    | ok a => exact ⟨a, rfl, h⟩
    | error e => exact absurd h id
  · intro h
    obtain ⟨a, hx, ha⟩ := h
    rw [hx]
    exact ha

end Program
end Async
