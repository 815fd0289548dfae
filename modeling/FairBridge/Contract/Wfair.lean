import FairBridge.Contract.TokenBook
import Mathlib

/-!
WFAIR, the wrapped FairCoin token on Base. Its bases are a parameter: what they keep in
storage is any type, and what they do is what their documentation says. The contract
overrides `_update`, so what it inherits calls the override.
-/

namespace Wfair
open Token

abbrev Address := Fin (2 ^ 160)

instance addresses_neZero : NeZero (2 ^ 160) := ⟨by decide⟩

def uint256Limit : Nat := 2 ^ 256

inductive Role where
  | defaultAdmin
  | minter
  | pauser
  | other (id : Nat)
  deriving DecidableEq

inductive Event where
  | minted (recipient : Address) (amount : Nat)
  | mintedForDeposit (faircoinTxid : Nat) (vout : Nat) (recipient : Address) (amount : Nat)
  | bridgeBurn (sender : Address) (amount : Nat) (faircoinAddress : List UInt8)
  deriving DecidableEq

/-- A call reverts, or leaves the storage it changed. -/
abbrev Update (σ : Type) := Address → Address → Nat → σ → Option σ

/-- ERC20, ERC20Burnable, ERC20Permit, AccessControl and Pausable. Where they move
tokens they call the `_update` of the contract that inherits them. -/
structure OpenZeppelin (σ : Type) where
  balanceOf : σ → Address → Nat
  totalSupply : σ → Nat
  hasRole : σ → Role → Address → Bool
  paused : σ → Bool
  deployed : σ
  _update : Update σ
  _mint : Update σ → Address → Nat → σ → Option σ
  _burn : Update σ → Address → Nat → σ → Option σ
  _grantRole : Role → Address → σ → σ
  _checkRole : Role → Address → σ → Option Unit
  _requireNotPaused : σ → Option Unit
  _pause : Address → σ → Option σ
  _unpause : Address → σ → Option σ
  transfer : Update σ → Address → Address → Nat → σ → Option σ
  approve : Address → Address → Nat → σ → Option σ
  transferFrom : Update σ → Address → Address → Address → Nat → σ → Option σ
  burn : Update σ → Address → Nat → σ → Option σ
  burnFrom : Update σ → Address → Address → Nat → σ → Option σ
  permit : Address → Address → Nat → Nat → List UInt8 → σ → Option σ
  grantRole : Address → Role → Address → σ → Option σ
  revokeRole : Address → Role → Address → σ → Option σ
  renounceRole : Address → Role → Address → σ → Option σ

variable {σ : Type}

namespace OpenZeppelin

def book (oz : OpenZeppelin σ) (s : σ) : Book Address :=
  ⟨oz.balanceOf s, oz.totalSupply s⟩

/-- Allowances and nonces may differ. -/
structure SameToken (oz : OpenZeppelin σ) (s t : σ) : Prop where
  book : oz.book t = oz.book s
  paused : oz.paused t = oz.paused s
  hasRole : oz.hasRole t = oz.hasRole s

/-- What the published bases do when they do not revert. -/
structure AsPublished (oz : OpenZeppelin σ) : Prop where
  deployed : oz.book oz.deployed = Book.empty
  update : ∀ {a b v s t}, oz._update a b v s = some t →
    (oz.book s).move uint256Limit 0 a b v = some (oz.book t) ∧
      oz.paused t = oz.paused s ∧ oz.hasRole t = oz.hasRole s
  mint : ∀ {u a v s t}, oz._mint u a v s = some t → a ≠ 0 ∧ u 0 a v s = some t
  internalBurn : ∀ {u a v s t}, oz._burn u a v s = some t → a ≠ 0 ∧ u a 0 v s = some t
  internalGrantRole : ∀ {r a s}, oz.book (oz._grantRole r a s) = oz.book s ∧
    oz.paused (oz._grantRole r a s) = oz.paused s
  checkRole : ∀ {r a s}, oz._checkRole r a s = some () → oz.hasRole s r a = true
  requireNotPaused : ∀ {s}, oz._requireNotPaused s = some () → oz.paused s = false
  pause : ∀ {a s t}, oz._pause a s = some t → oz.book t = oz.book s ∧
    oz.paused t = true ∧ oz.hasRole t = oz.hasRole s
  unpause : ∀ {a s t}, oz._unpause a s = some t → oz.book t = oz.book s ∧
    oz.paused t = false ∧ oz.hasRole t = oz.hasRole s
  transfer : ∀ {u a b v s t}, oz.transfer u a b v s = some t →
    a ≠ 0 ∧ b ≠ 0 ∧ u a b v s = some t
  approve : ∀ {a b v s t}, oz.approve a b v s = some t → oz.SameToken s t
  transferFrom : ∀ {u c a b v s t}, oz.transferFrom u c a b v s = some t →
    ∃ m, oz.SameToken s m ∧ a ≠ 0 ∧ b ≠ 0 ∧ u a b v m = some t
  burn : ∀ {u a v s t}, oz.burn u a v s = some t → a ≠ 0 ∧ u a 0 v s = some t
  burnFrom : ∀ {u c a v s t}, oz.burnFrom u c a v s = some t →
    ∃ m, oz.SameToken s m ∧ a ≠ 0 ∧ u a 0 v m = some t
  permit : ∀ {a b v d g s t}, oz.permit a b v d g s = some t → oz.SameToken s t
  grantRole : ∀ {c r a s t}, oz.grantRole c r a s = some t →
    oz.book t = oz.book s ∧ oz.paused t = oz.paused s
  revokeRole : ∀ {c r a s t}, oz.revokeRole c r a s = some t →
    oz.book t = oz.book s ∧ oz.paused t = oz.paused s
  renounceRole : ∀ {c r a s t}, oz.renounceRole c r a s = some t →
    oz.book t = oz.book s ∧ oz.paused t = oz.paused s

end OpenZeppelin

variable (oz : OpenZeppelin σ)

/-- The constructor. -/
def deploy (admin minter : Address) : Option σ :=
  if admin = 0 then none
  else
    let s := oz._grantRole .pauser admin
      (oz._grantRole .minter admin (oz._grantRole .defaultAdmin admin oz.deployed))
    some (if minter = 0 then s else oz._grantRole .minter minter s)

/-- The override of `_update`. -/
def _update : Update σ := fun source target value s => do
  oz._requireNotPaused s
  oz._update source target value s

def mint (sender recipient : Address) (amount : Nat) (s : σ) : Option (σ × List Event) := do
  oz._checkRole .minter sender s
  oz._requireNotPaused s
  let t ← oz._mint (_update oz) recipient amount s
  return (t, [.minted recipient amount])

def mintForDeposit (sender recipient : Address) (amount faircoinTxid vout : Nat) (s : σ) :
    Option (σ × List Event) := do
  oz._checkRole .minter sender s
  oz._requireNotPaused s
  let t ← oz._mint (_update oz) recipient amount s
  return (t, [.mintedForDeposit faircoinTxid vout recipient amount])

def bridgeBurn (sender : Address) (amount : Nat) (faircoinAddress : List UInt8) (s : σ) :
    Option (σ × List Event) := do
  oz._requireNotPaused s
  guard (amount > 0)
  guard (faircoinAddress.length ≥ 26 ∧ faircoinAddress.length ≤ 35)
  let t ← oz._burn (_update oz) sender amount s
  return (t, [.bridgeBurn sender amount faircoinAddress])

def pause (sender : Address) (s : σ) : Option σ := do
  oz._checkRole .pauser sender s
  oz._pause sender s

def unpause (sender : Address) (s : σ) : Option σ := do
  oz._checkRole .pauser sender s
  oz._unpause sender s

/-- Every entry point that can write, the contract's own ones first. -/
inductive Call where
  | mint (recipient : Address) (amount : Nat)
  | mintForDeposit (recipient : Address) (amount faircoinTxid vout : Nat)
  | bridgeBurn (amount : Nat) (faircoinAddress : List UInt8)
  | pause
  | unpause
  | transfer (target : Address) (value : Nat)
  | approve (spender : Address) (value : Nat)
  | transferFrom (source target : Address) (value : Nat)
  | burn (value : Nat)
  | burnFrom (account : Address) (value : Nat)
  | permit (owner spender : Address) (value deadline : Nat) (signature : List UInt8)
  | grantRole (role : Role) (account : Address)
  | revokeRole (role : Role) (account : Address)
  | renounceRole (role : Role) (account : Address)
  deriving DecidableEq

/-- The bases' own events are left out. -/
def withoutEvents (r : Option σ) : Option (σ × List Event) := r.map fun t => (t, [])

def perform (sender : Address) (s : σ) : Call → Option (σ × List Event)
  | .mint recipient amount => mint oz sender recipient amount s
  | .mintForDeposit recipient amount faircoinTxid vout =>
      mintForDeposit oz sender recipient amount faircoinTxid vout s
  | .bridgeBurn amount faircoinAddress => bridgeBurn oz sender amount faircoinAddress s
  | .pause => withoutEvents (pause oz sender s)
  | .unpause => withoutEvents (unpause oz sender s)
  | .transfer target value => withoutEvents (oz.transfer (_update oz) sender target value s)
  | .approve spender value => withoutEvents (oz.approve sender spender value s)
  | .transferFrom source target value =>
      withoutEvents (oz.transferFrom (_update oz) sender source target value s)
  | .burn value => withoutEvents (oz.burn (_update oz) sender value s)
  | .burnFrom account value =>
      withoutEvents (oz.burnFrom (_update oz) sender account value s)
  | .permit owner spender value deadline signature =>
      withoutEvents (oz.permit owner spender value deadline signature s)
  | .grantRole role account => withoutEvents (oz.grantRole sender role account s)
  | .revokeRole role account => withoutEvents (oz.revokeRole sender role account s)
  | .renounceRole role account => withoutEvents (oz.renounceRole sender role account s)

/-- A transaction as the chain keeps it. One that reverted left no trace. -/
structure Receipt (σ : Type) where
  sender : Address
  call : Call
  before : σ
  after : σ
  events : List Event
  succeeded : Bool

def submit (s : σ) (tx : Address × Call) : Receipt σ :=
  match perform oz tx.1 s tx.2 with
  | some (t, events) => ⟨tx.1, tx.2, s, t, events, true⟩
  | none => ⟨tx.1, tx.2, s, s, [], false⟩

/-- The receipts of the transactions, in their order. -/
def receipts (s : σ) : List (Address × Call) → List (Receipt σ)
  | [] => []
  | tx :: rest => submit oz s tx :: receipts (submit oz s tx).after rest

def stateAfter (s : σ) : List (Address × Call) → σ
  | [] => s
  | tx :: rest => stateAfter (submit oz s tx).after rest

def Event.mintedAmount : Event → Nat
  | .minted _ amount => amount
  | .mintedForDeposit _ _ _ amount => amount
  | .bridgeBurn _ _ _ => 0

def Event.bridgeBurnedAmount : Event → Nat
  | .bridgeBurn _ amount _ => amount
  | _ => 0

/-- What the inherited `burn` and `burnFrom` destroyed. -/
def Receipt.burnedAmount (r : Receipt σ) : Nat :=
  match r.succeeded, r.call with
  | true, .burn value => value
  | true, .burnFrom _ value => value
  | _, _ => 0

end Wfair
