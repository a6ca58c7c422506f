import P2PCrawler.Address

/-!
# Settings (`settings.rs`)

The command-line arguments both binaries share, the checks of `into_settings`, and the settings
tree they produce.  A `Settings` value carries what the checks have established, so code that
holds one can rely on it: the address budget and the attempt limit are positive, and every
enabled network has a worker.
-/

set_option autoImplicit false

namespace P2PCrawler

structure Timeouts where
  connect : Nat
  message : Nat
  getaddr : Nat
  getaddrIdle : Nat
  deriving DecidableEq, Repr

structure EnabledNetworks where
  ipv4 : Bool
  ipv6 : Bool
  tor : Bool
  i2p : Bool
  cjdns : Bool
  deriving DecidableEq, Repr

/-- `Settings::is_enabled`. -/
def EnabledNetworks.isEnabled (e : EnabledNetworks) : NetworkType → Bool
  | .ipv4 => e.ipv4
  | .ipv6 => e.ipv6
  | .cjdns => e.cjdns
  | .onionV2 | .onionV3 => e.tor
  | .i2p => e.i2p
  | .unknown => false

structure Concurrency where
  ip : Nat
  tor : Nat
  i2p : Nat
  deriving DecidableEq, Repr

/-- Number of workers of one pool. -/
def Concurrency.of (c : Concurrency) : Transport → Nat
  | .ip => c.ip
  | .tor => c.tor
  | .i2p => c.i2p

def Concurrency.total (c : Concurrency) : Nat := c.ip + c.tor + c.i2p

/-- The settings a run depends on. -/
structure Settings where
  maxNodes : Option Nat
  maxAddresses : Nat
  enabledNetworks : EnabledNetworks
  freshnessThreshold : Int
  recordAddrResponses : Bool
  concurrency : Concurrency
  handshakeAttempts : Nat
  retryOnTimeout : Bool
  checkpointInterval : Int
  probeMode : Bool
  maxAddresses_pos : 0 < maxAddresses
  handshakeAttempts_pos : 0 < handshakeAttempts
  staffed : ∀ net, enabledNetworks.isEnabled net = true → 0 < concurrency.of net.transport

namespace Settings

def isEnabled (s : Settings) (net : NetworkType) : Bool := s.enabledNetworks.isEnabled net

end Settings

/-! ## Command line -/

/-- The arguments shared by the crawler and the probe, as far as a run depends on them. -/
structure CommonArgs where
  ipConcurrency : Nat := 64
  torConcurrency : Nat := 64
  i2pConcurrency : Nat := 32
  handshakeAttempts : Nat := 3
  recordAddrResponses : Bool := true
  noRecordAddrResponses : Bool := false
  retryOnTimeout : Bool := false
  ipv4 : Bool := false
  noIpv4 : Bool := false
  ipv6 : Bool := false
  noIpv6 : Bool := false
  tor : Bool := false
  noTor : Bool := false
  i2p : Bool := false
  noI2p : Bool := false
  cjdns : Bool := false
  noCjdns : Bool := false
  checkpointInterval : String := "10m"

/-- The arguments of the crawler binary. -/
structure Cli where
  common : CommonArgs := {}
  maxNodes : Option Nat := none
  maxAddresses : Nat := 1000000
  freshnessThreshold : String := "2d"
  noFreshnessFilter : Bool := false

inductive SettingsError where
  | invalidDuration (s : String)
  | unknownDurationUnit (unit : String)
  | maxAddressesZero
  | handshakeAttemptsZero
  | ipConcurrencyExceeds
  | torConcurrencyExceeds
  | i2pConcurrencyExceeds
  | ipConcurrencyZero
  | torConcurrencyZero
  | i2pConcurrencyZero
  deriving DecidableEq, Repr

def maxConcurrency : Nat := 4096

def SettingsError.display : SettingsError → String
  | .invalidDuration s => "invalid duration: " ++ s
  | .unknownDurationUnit unit => "unknown duration unit: " ++ unit
  | .maxAddressesZero => "--max-addresses must be greater than zero"
  | .handshakeAttemptsZero => "--handshake-attempts must be greater than zero"
  | .ipConcurrencyExceeds => s!"--ip-concurrency exceeds {maxConcurrency}"
  | .torConcurrencyExceeds => s!"--tor-concurrency exceeds {maxConcurrency}"
  | .i2pConcurrencyExceeds => s!"--i2p-concurrency exceeds {maxConcurrency}"
  | .ipConcurrencyZero => "enabled IP/CJDNS networks require --ip-concurrency > 0"
  | .torConcurrencyZero => "enabled Tor requires --tor-concurrency > 0"
  | .i2pConcurrencyZero => "enabled I2P requires --i2p-concurrency > 0"

/-- `i64` multiplication in a release build. -/
def wrapI64 (n : Int) : Int := (n + 2 ^ 63) % 2 ^ 64 - 2 ^ 63

/-- Parse a duration in seconds or human form (`2d`, `48h`, `30m`, `10s`). -/
def parseDuration (s : String) : Except SettingsError Int :=
  let cs := trim s.toList
  match parseI64 cs with
  | some n => .ok n
  | none =>
    let num := cs.takeWhile isAsciiDigit
    let unit := cs.drop num.length
    if unit.isEmpty then .error (.invalidDuration (String.ofList cs))
    else match parseI64 num with
      | none => .error (.invalidDuration (String.ofList cs))
      | some n =>
        if unit = ['s'] then .ok n
        else if unit = ['m'] then .ok (wrapI64 (n * 60))
        else if unit = ['h'] then .ok (wrapI64 (n * 3600))
        else if unit = ['d'] then .ok (wrapI64 (n * 86400))
        else .error (.unknownDurationUnit (String.ofList unit))

example : ["172800", "2d", "48h", "0", "-5"].map parseDuration =
    [.ok 172800, .ok 172800, .ok 172800, .ok 0, .ok (-5)] := by decide

namespace CommonArgs

/-- Networks are on by default; the negative flag alone decides unless the positive one is
    given. -/
def enabledNetworks (a : CommonArgs) : EnabledNetworks where
  ipv4 := a.ipv4 || !a.noIpv4
  ipv6 := a.ipv6 || !a.noIpv6
  tor := a.tor || !a.noTor
  i2p := a.i2p || !a.noI2p
  cjdns := a.cjdns || !a.noCjdns

def concurrency (a : CommonArgs) : Concurrency := ⟨a.ipConcurrency, a.torConcurrency, a.i2pConcurrency⟩

theorem staffed_of_checks (e : EnabledNetworks) (c : Concurrency)
    (hip : ¬((e.ipv4 || e.ipv6 || e.cjdns) = true ∧ c.ip = 0)) (htor : ¬(e.tor = true ∧ c.tor = 0))
    (hi2p : ¬(e.i2p = true ∧ c.i2p = 0)) (net : NetworkType) (h : e.isEnabled net = true) :
    0 < c.of net.transport := by
  cases net <;> simp only [EnabledNetworks.isEnabled, NetworkType.transport, Concurrency.of] at * <;>
    simp_all <;> omega

/-- `CommonArgs::into_settings`: the checks in the order of the source. -/
def intoSettings (a : CommonArgs) (freshnessThreshold : Int) (maxNodes : Option Nat)
    (maxAddresses : Nat) (probeMode : Bool) : Except SettingsError Settings :=
  match parseDuration a.checkpointInterval with
  | .error e => .error e
  | .ok checkpointInterval =>
    let e := a.enabledNetworks
    let c := a.concurrency
    if haddr : maxAddresses = 0 then .error .maxAddressesZero
    else if hatt : a.handshakeAttempts = 0 then .error .handshakeAttemptsZero
    else if maxConcurrency < c.ip then .error .ipConcurrencyExceeds
    else if maxConcurrency < c.tor then .error .torConcurrencyExceeds
    else if maxConcurrency < c.i2p then .error .i2pConcurrencyExceeds
    else if hip : (e.ipv4 || e.ipv6 || e.cjdns) = true ∧ c.ip = 0 then .error .ipConcurrencyZero
    else if htor : e.tor = true ∧ c.tor = 0 then .error .torConcurrencyZero
    else if hi2p : e.i2p = true ∧ c.i2p = 0 then .error .i2pConcurrencyZero
    else .ok {
      maxNodes
      maxAddresses
      enabledNetworks := e
      freshnessThreshold
      recordAddrResponses := a.recordAddrResponses && !a.noRecordAddrResponses
      concurrency := c
      handshakeAttempts := a.handshakeAttempts
      retryOnTimeout := a.retryOnTimeout
      checkpointInterval
      probeMode
      maxAddresses_pos := by omega
      handshakeAttempts_pos := by omega
      staffed := staffed_of_checks e c hip htor hi2p }

/-- The settings of the probe binary. -/
def probeSettings (a : CommonArgs) : Except SettingsError Settings :=
  a.intoSettings 0 none 1000000 true

end CommonArgs

/-- `Cli::into_settings`. -/
def Cli.intoSettings (cli : Cli) : Except SettingsError Settings :=
  match (if cli.noFreshnessFilter then .ok 0 else parseDuration cli.freshnessThreshold) with
  | .error e => .error e
  | .ok freshnessThreshold =>
    cli.common.intoSettings freshnessThreshold cli.maxNodes cli.maxAddresses false

/-- What the caller of `into_settings` supplies is taken over as it is. -/
theorem CommonArgs.intoSettings_args {a : CommonArgs} {thr : Int} {maxNodes : Option Nat}
    {maxAddresses : Nat} {probeMode : Bool} {s : Settings}
    (h : a.intoSettings thr maxNodes maxAddresses probeMode = .ok s) :
    s.freshnessThreshold = thr ∧ s.maxNodes = maxNodes ∧ s.maxAddresses = maxAddresses ∧
      s.probeMode = probeMode := by
  unfold CommonArgs.intoSettings at h
  split at h
  · cases h
  · simp only at h
    repeat' split at h
    all_goals first | (cases h; exact ⟨rfl, rfl, rfl, rfl⟩) | cases h

/-- One worker for IPv4, one attempt for each node, nothing recorded. -/
def soloSettings : Settings where
  maxNodes := none
  maxAddresses := 10
  enabledNetworks := ⟨true, false, false, false, false⟩
  freshnessThreshold := 0
  recordAddrResponses := false
  concurrency := ⟨1, 0, 0⟩
  handshakeAttempts := 1
  retryOnTimeout := false
  checkpointInterval := 0
  probeMode := false
  maxAddresses_pos := by decide
  handshakeAttempts_pos := by decide
  staffed net := by cases net <;> decide

end P2PCrawler
