import Mathlib.Algebra.BigOperators.Group.Finset.Piecewise
import Mathlib.Algebra.Order.BigOperators.Group.Finset
import Mathlib.Data.Fintype.Basic

/-!
The book of a fungible token in machine words: what every holder owns and the total
that is out. A movement from or to `nobody` makes or destroys tokens. Only the debit
checks its bound; that the credit and the total cannot wrap is a fact about books
whose total is the sum.
-/

namespace Token
variable {α : Type}

structure Book (α : Type) where
  balances : α → Nat
  total : Nat

namespace Book

def empty : Book α := ⟨fun _ => 0, 0⟩

section Moves
variable [DecidableEq α]

def debit (limit : Nat) (nobody a : α) (value : Nat) (b : Book α) : Option (Book α) :=
  if a = nobody then
    if b.total + value < limit then some { b with total := b.total + value } else none
  else if value ≤ b.balances a then
    some { b with balances := Function.update b.balances a (b.balances a - value) }
  else none

def credit (limit : Nat) (nobody a : α) (value : Nat) (b : Book α) : Book α :=
  if a = nobody then { b with total := (b.total + (limit - value)) % limit }
  else { b with balances := Function.update b.balances a ((b.balances a + value) % limit) }

def move (limit : Nat) (nobody source target : α) (value : Nat) (b : Book α) :
    Option (Book α) :=
  (b.debit limit nobody source value).map (credit limit nobody target value)

end Moves

variable [Fintype α]

/-- `value` has left its source and has not arrived. -/
structure InTransit (limit value : Nat) (b : Book α) : Prop where
  sum : ∑ a, b.balances a + value = b.total
  bounded : b.total < limit

def Balanced (limit : Nat) (b : Book α) : Prop := InTransit limit 0 b

variable {limit value : Nat} {nobody source target : α} {b b' : Book α}

theorem balanced_empty (h : 0 < limit) : Balanced limit (empty : Book α) :=
  ⟨by simp [empty], h⟩

theorem Balanced.sum_eq (h : Balanced limit b) : ∑ a, b.balances a = b.total := h.sum

theorem InTransit.le_total (h : InTransit limit value b) (a : α) :
    b.balances a + value ≤ b.total := by
  have hle := Finset.single_le_sum (f := b.balances) (fun _ _ => Nat.zero_le _)
    (Finset.mem_univ a)
  have hsum := h.sum
  omega

variable [DecidableEq α]

theorem sum_update (f : α → Nat) (a : α) (n : Nat) :
    ∑ x, Function.update f a n x + f a = ∑ x, f x + n := by
  have hn := Finset.sum_update_of_mem (Finset.mem_univ a) f n
  have hf := Finset.sum_update_of_mem (Finset.mem_univ a) f (f a)
  rw [Function.update_eq_self] at hf
  omega

theorem debit_inTransit (hb : Balanced limit b)
    (h : b.debit limit nobody source value = some b') : InTransit limit value b' := by
  have hsum := hb.sum_eq
  unfold debit at h
  split at h
  · split at h
    · cases h
      exact ⟨by simpa using hsum, by assumption⟩
    · cases h
  · split at h
    · cases h
      have hupdate := sum_update b.balances source (b.balances source - value)
      exact ⟨by simp only; omega, hb.bounded⟩
    · cases h

theorem credit_nobody (hb : InTransit limit value b) :
    b.credit limit nobody nobody value = { b with total := b.total - value } := by
  have hle : value ≤ b.total := by have := hb.sum; omega
  have hlt := hb.bounded
  have hmod : (b.total + (limit - value)) % limit = b.total - value := by
    rw [show b.total + (limit - value) = b.total - value + limit by omega,
      Nat.add_mod_right, Nat.mod_eq_of_lt (by omega)]
  simp [credit, hmod]

theorem credit_holder (hb : InTransit limit value b) (ha : target ≠ nobody) :
    b.credit limit nobody target value
      = { b with balances := Function.update b.balances target (b.balances target + value) } := by
  have hlt : b.balances target + value < limit :=
    Nat.lt_of_le_of_lt (hb.le_total target) hb.bounded
  simp [credit, ha, Nat.mod_eq_of_lt hlt]

theorem credit_balanced (hb : InTransit limit value b) :
    Balanced limit (b.credit limit nobody target value) := by
  have hsum := hb.sum
  have hlt := hb.bounded
  by_cases ha : target = nobody
  · subst ha
    rw [credit_nobody hb]
    exact ⟨by simp only; omega, by simp only; omega⟩
  · rw [credit_holder hb ha]
    have hupdate := sum_update b.balances target (b.balances target + value)
    exact ⟨by simp only; omega, hlt⟩

theorem move_balanced (hb : Balanced limit b)
    (h : b.move limit nobody source target value = some b') : Balanced limit b' := by
  obtain ⟨m, hm, rfl⟩ := Option.map_eq_some_iff.mp h
  exact credit_balanced (debit_inTransit hb hm)

/-- What is made comes on top of the total. -/
theorem move_made (hb : Balanced limit b) (ht : target ≠ nobody)
    (h : b.move limit nobody nobody target value = some b') :
    b'.total = b.total + value := by
  obtain ⟨m, hm, rfl⟩ := Option.map_eq_some_iff.mp h
  rw [credit_holder (debit_inTransit hb hm) ht]
  simp only [debit, if_true] at hm
  split at hm
  · cases hm
    rfl
  · cases hm

/-- What is destroyed is taken from its owner and from the total. -/
theorem move_destroyed (hb : Balanced limit b) (hs : source ≠ nobody)
    (h : b.move limit nobody source nobody value = some b') :
    b'.total + value = b.total ∧ b'.balances source + value = b.balances source := by
  obtain ⟨m, hm, rfl⟩ := Option.map_eq_some_iff.mp h
  rw [credit_nobody (debit_inTransit hb hm)]
  have hle := hb.le_total source
  simp only [debit, hs, if_false] at hm
  split at hm
  · cases hm
    exact ⟨by simp only; omega, by simp only [Function.update_self]; omega⟩
  · cases hm

theorem move_between (hb : Balanced limit b) (hs : source ≠ nobody) (ht : target ≠ nobody)
    (h : b.move limit nobody source target value = some b') : b'.total = b.total := by
  obtain ⟨m, hm, rfl⟩ := Option.map_eq_some_iff.mp h
  rw [credit_holder (debit_inTransit hb hm) ht]
  simp only [debit, hs, if_false] at hm
  split at hm
  · cases hm
    rfl
  · cases hm

end Book
end Token
