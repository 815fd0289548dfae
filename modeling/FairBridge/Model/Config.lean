import FairBridge.Model.Number

/-!
The configuration the modelled functions read. The schema constrains the policy
numbers only by coercion, so they may be fractional, negative or infinite.
-/

namespace FairBridge

inductive MintAuthMode where
  | directEoa
  | safeProposal
  deriving DecidableEq, Repr

inductive FairHotWalletMode where
  | nodeWallet
  | localHd
  deriving DecidableEq, Repr

instance : ToString FairHotWalletMode :=
  ⟨fun | .nodeWallet => "node_wallet" | .localHd => "local_hd"⟩

/-- A 32-byte transaction hash. Hex text of either case spells the same hash,
so lower-casing it is the identity. -/
structure Hash where
  val : Nat
  deriving DecidableEq, Repr

/-- A 20-byte Base address. Its lower-cased and its checksummed text spell the
same address, so `toLowerCase` and `getAddress` are the identity. -/
structure Address where
  val : Nat
  deriving DecidableEq, Repr

instance : ToString Hash := ⟨fun h => "0x" ++ String.ofList (Nat.toDigits 16 h.val)⟩
instance : ToString Address := ⟨fun a => "0x" ++ String.ofList (Nat.toDigits 16 a.val)⟩

/-- `deriveChild` is the address of a child of an extended public key and
`deriveBuyPaymentKey` that of a payment key, computed by the HD wallet library;
`canonicalBurnAddress` is the one derived for the network in use. -/
structure Config where
  fairBridgeXpub : Option String := none
  deriveChild : String → Nat → Except JsError String :=
    fun _ _ => .error (.error "invalid extended key")
  bridgeEoaPrivateKey : Option String := none
  bridgeEoaAddress : Address := ⟨0⟩
  buyPaymentHdXprv : Option String := none
  buyPaymentHdMnemonic : Option String := none
  deriveBuyPaymentKey : Nat → Except JsError Address :=
    fun _ => .error (.error
      "BUY_PAYMENT_HD_XPRV or BUY_PAYMENT_HD_MNEMONIC must be configured to allocate buy-side payment addresses")
  mintAuthMode : MintAuthMode := .directEoa
  fairHotWalletMode : FairHotWalletMode := .nodeWallet
  maxTvlFair : JsNumber := .finite 1000
  minDepositFair : JsNumber := .finite 10
  bridgeFeeBps : JsNumber := .finite 30
  fairConfirmations : JsNumber := .finite 6
  baseConfirmations : JsNumber := .finite 20
  perAddressDailyCapFair : JsNumber := .finite 100
  buySlippageBufferBps : JsNumber := .finite 200
  buyBridgeFeeBps : JsNumber := .finite 100
  discordWebhookUrl : Option String := none
  fairMasternodeRewardAddress : Option String := none
  buybackEnabled : Bool := false
  buybackThresholdUsdc : JsNumber := .finite 100
  buybackBurnBps : Nat := 5000
  buybackTreasuryBps : Nat := 3000
  buybackMasternodeBps : Nat := 2000
  fairBurnAddress : Option String := none
  fairTreasuryAddress : Option String := none
  canonicalBurnAddress : String := ""
  masternodeRewardsEnabled : Bool := false
  masternodeRewardsIntervalMs : Nat := 604800000
  masternodeRewardsMinBalanceFair : JsNumber := .finite 10
  masternodeRewardsPayoutFeeFair : JsNumber := .finite (1 / 1000)

/-- What the environment says of a number: nothing, or a text, which `Number` may read as NaN. -/
abbrev EnvNumber := Option (Option JsNumber)

/-- `z.coerce.number().default(value)` takes every number but NaN. -/
def coerceNumber (value : JsNumber) : EnvNumber → Option JsNumber
  | none => some value
  | some n => n

/-- The policy variables of the environment. -/
structure PolicyEnv where
  maxTvlFair : EnvNumber := none
  minDepositFair : EnvNumber := none
  bridgeFeeBps : EnvNumber := none
  fairConfirmations : EnvNumber := none
  baseConfirmations : EnvNumber := none
  perAddressDailyCapFair : EnvNumber := none

/-- The policy part of the schema. The rest of the configuration is read from other variables. -/
def configSchemaBase (env : PolicyEnv) (rest : Config) : Option Config := do
  let maxTvlFair ← coerceNumber (.finite 1000) env.maxTvlFair
  let minDepositFair ← coerceNumber (.finite 10) env.minDepositFair
  let bridgeFeeBps ← coerceNumber (.finite 30) env.bridgeFeeBps
  let fairConfirmations ← coerceNumber (.finite 6) env.fairConfirmations
  let baseConfirmations ← coerceNumber (.finite 20) env.baseConfirmations
  let perAddressDailyCapFair ← coerceNumber (.finite 100) env.perAddressDailyCapFair
  return { rest with
    maxTvlFair, minDepositFair, bridgeFeeBps, fairConfirmations, baseConfirmations,
    perAddressDailyCapFair }

/-- `z.coerce.number().int().min(0).max(10_000).default(value)`. -/
def coerceBps (value : Nat) (env : EnvNumber) : Option Nat := do
  match ← coerceNumber (.finite value) env with
  | .finite q => if q.den = 1 ∧ 0 ≤ q.num ∧ q.num ≤ 10000 then some q.num.toNat else none
  | .infinity _ => none

/-- The variables that share out what a buy-back swaps. -/
structure SharesEnv where
  buybackBurnBps : EnvNumber := none
  buybackTreasuryBps : EnvNumber := none
  buybackMasternodeBps : EnvNumber := none

/-- What the schema demands of several variables at once. -/
def superRefine (cfg : Config) : Bool :=
  cfg.buybackBurnBps + cfg.buybackTreasuryBps + cfg.buybackMasternodeBps == 10000 &&
    (!cfg.buybackEnabled ||
      cfg.fairTreasuryAddress.isSome && cfg.fairMasternodeRewardAddress.isSome) &&
    (!cfg.masternodeRewardsEnabled || cfg.fairMasternodeRewardAddress.isSome)

def configSchema (env : PolicyEnv) (shares : SharesEnv) (rest : Config) : Option Config := do
  let base ← configSchemaBase env rest
  let buybackBurnBps ← coerceBps 5000 shares.buybackBurnBps
  let buybackTreasuryBps ← coerceBps 3000 shares.buybackTreasuryBps
  let buybackMasternodeBps ← coerceBps 2000 shares.buybackMasternodeBps
  let cfg := { base with buybackBurnBps, buybackTreasuryBps, buybackMasternodeBps }
  if superRefine cfg then some cfg else none

theorem superRefine_sum {cfg : Config} (h : superRefine cfg = true) :
    cfg.buybackBurnBps + cfg.buybackTreasuryBps + cfg.buybackMasternodeBps = 10000 := by
  simp only [superRefine, Bool.and_eq_true, beq_iff_eq] at h
  exact h.1.1

/-- The shares that the schema accepts make up the whole. -/
theorem configSchema_sum {env : PolicyEnv} {shares : SharesEnv} {rest cfg : Config}
    (h : configSchema env shares rest = some cfg) :
    cfg.buybackBurnBps + cfg.buybackTreasuryBps + cfg.buybackMasternodeBps = 10000 := by
  obtain ⟨base, _, h⟩ := Option.bind_eq_some_iff.mp h
  obtain ⟨burn, _, h⟩ := Option.bind_eq_some_iff.mp h
  obtain ⟨treasury, _, h⟩ := Option.bind_eq_some_iff.mp h
  obtain ⟨masternode, _, h⟩ := Option.bind_eq_some_iff.mp h
  obtain ⟨hrefine, h⟩ := Option.ite_none_right_eq_some.mp h
  cases h
  exact superRefine_sum hrefine

end FairBridge
