import Mathlib.Data.List.AList
import SafeCast.Simulation.Arrivals
import SafeCast.Simulation.Network

/-! # The receiver benchmark

`RunConfig.run` sends a stream through the simulated network into the receiver, in the order of
arrival, and checks the counters of the network against those of the receiver. A check that fails
is a `RunPanic`. The times that the benchmark measures are left out.
-/

namespace SafeCast.Benchmark

open Runs

def ssrc : UInt32 := 0xFEEDF00D

def baseDelayNs : ℕ := 1000000

/-- The largest replay window that libsrtp accepts. -/
def libsrtpReplayMax : ℕ := 32767

def maxSeqLateness : ℕ := 32768

def ratchetSeed : Bytes := (List.range chainSecretLen).map UInt8.ofNat

structure RunConfig where
  granularity : Granularity
  payload : ℕ
  packets : ℕ
  jitterNs : ℕ
  loss : ℚ
  skewNs : ℕ
  singlePath : Bool
  keyWindow : ℕ
  seekCap : ℕ
  replayWindow : ℕ
  seed : ℕ

/-- How a run ends early: a component aborts, or one of the checks fails. -/
inductive RunPanic where
  | panic (p : Panic)
  | notProducible (i : ℕ)
  | decryptedTooLate (i lateness : ℕ)
  | failedTooEarly (i lateness : ℕ)
  | ledgerMismatch
  | derivationMismatch
  | catchupMismatch
  deriving DecidableEq, Repr

abbrev Stash := AList fun _ : ℕ => Bytes

structure RunState (w : ℕ) where
  sender : SimulatedSender
  stash : Stash
  receiver : ReceiverKeyManager (SrtpStream w)
  /-- The newest packet that authenticated. -/
  maxAuthedIndex : Option ℕ

structure Outcome where
  net : NetworkStats
  recv : RecvStats

def lossModel (p : ℚ) : LossModel := if p = 0 then .none else .independent p

/-- Produce packets in send order up to packet `i`, and stash the ones before it. -/
def produceUntil (c : Crypto) (i : ℕ) :
    ℕ → SimulatedSender → Stash → Except RunPanic (Bytes × SimulatedSender × Stash)
  | 0, _, _ => .error (.notProducible i)
  | fuel + 1, sender, stash =>
    match sender.nextProtected c with
    | .error p => .error (.panic p)
    | .ok ((j, b), sender) =>
      if j = i then .ok (b, sender, stash)
      else produceUntil c i fuel sender (stash.insert j b)

namespace RunState

variable {w : ℕ}

def fetch (c : Crypto) (st : RunState w) (i : ℕ) :
    Except RunPanic (Bytes × SimulatedSender × Stash) :=
  match st.stash.lookup i with
  | some b => .ok (b, st.sender, st.stash.erase i)
  | none =>
    -- the loop ends at packet `i`, which is not behind the cursor
    if st.sender.nextI ≤ i then produceUntil c i (i + 1 - st.sender.nextI) st.sender st.stash
    else .error (.notProducible i)

/-- One round of the measurement loop: packet `i` arrives. -/
def measure (c : Crypto) (throwaway : KeySalt) (st : RunState w) (i : ℕ) :
    Except RunPanic (Except RecvDrop ℕ × RunState w) :=
  let lateness := st.maxAuthedIndex.elim 0 (· - i)
  match st.fetch c i with
  | .error e => .error e
  | .ok (buf, sender, stash) =>
    match st.receiver.unprotect (SrtpStream.ops c throwaway w) c buf with
    | .error p => .error (.panic p)
    | .ok ((.ok g, _), receiver) =>
      if lateness ≤ maxSeqLateness then
        let newest := if st.maxAuthedIndex.elim true (· < i) then some i else st.maxAuthedIndex
        .ok (.ok g, ⟨sender, stash, receiver, newest⟩)
      else .error (.decryptedTooLate i lateness)
    | .ok ((.error .authFail, _), receiver) =>
      if maxSeqLateness ≤ lateness then
        .ok (.error .authFail, ⟨sender, stash, receiver, st.maxAuthedIndex⟩)
      else .error (.failedTooEarly i lateness)
    | .ok ((.error d, _), receiver) =>
      .ok (.error d, ⟨sender, stash, receiver, st.maxAuthedIndex⟩)

end RunState

namespace RunConfig

variable {ρ : Type*}

def setup (c : Crypto) (throwaway throwaway' : KeySalt) (cfg : RunConfig) :
    Except Panic (StreamModel × RunState (windowBits cfg.replayWindow)) := do
  let model ← StreamModel.new cfg.payload ssrc
  let ratchet ← StreamRatchet.fromSeed ratchetSeed
  let sender ← SimulatedSender.new c throwaway model cfg.granularity ratchet
  let receiver ← ReceiverKeyManager.new (SrtpStream.ops c throwaway' _)
    (SrtpStream.addStream ssrc.toNat cfg.replayWindow)
    (.forGranularity cfg.granularity startTs framePeriod 0) ratchet cfg.keyWindow cfg.seekCap
  return (model, ⟨sender, ∅, receiver, none⟩)

/-- The redundant path is longer by the skew. -/
def network (cfg : RunConfig) : Except Panic NetworkConfig :=
  let pathA : PathConfig := ⟨baseDelayNs, cfg.jitterNs, lossModel cfg.loss⟩
  if cfg.singlePath then .ok ⟨pathA, none, cfg.seed⟩
  else if u64Max < baseDelayNs + cfg.skewNs then .error .overflow
  else .ok ⟨pathA, some ⟨baseDelayNs + cfg.skewNs, cfg.jitterNs, lossModel cfg.loss⟩, cfg.seed⟩

def deliver (rng : Rng ρ) (cfg : RunConfig) (model : StreamModel) :
    Except Panic (List (ℕ × ℕ) × NetworkStats) := do
  disturb rng cfg.packets model.sendNs (← cfg.network)

def checkCounters {w : ℕ} (cfg : RunConfig) (net : NetworkStats)
    (receiver : ReceiverKeyManager (SrtpStream w)) : Except RunPanic Outcome :=
  let recv := receiver.stats
  let drops := recv.dropsBehind + recv.dropsSeekCap + recv.dropsReplay + recv.dropsAuth
  if net.delivered ≠ recv.decrypted + drops then .error .ledgerMismatch
  else if recv.catchupSteps ≠ receiver.frontier.elim 0 (· + 1) then .error .derivationMismatch
  else if cfg.granularity = .packet ∧ recv.dropsSeekCap = 0 ∧ 0 < net.delivered ∧
      recv.maxCatchup ≠ net.displacement.maxGap + 1 then .error .catchupMismatch
  else .ok ⟨net, recv⟩

def run (rng : Rng ρ) (c : Crypto) (throwaway throwaway' : KeySalt) (cfg : RunConfig) :
    Except RunPanic Outcome :=
  match cfg.setup c throwaway throwaway' with
  | .error p => .error (.panic p)
  | .ok (model, st) =>
    match cfg.deliver rng model with
    | .error p => .error (.panic p)
    | .ok (schedule, net) =>
      match Runs.run (RunState.measure c throwaway') st (schedule.map Prod.snd) with
      | .error e => .error e
      | .ok (_, st) => cfg.checkCounters net st.receiver

end RunConfig

/-! ## The sizes of the sweep -/

/-- How many positions late the network can make a packet: one skew and one jitter span, in
units of the smallest gap between two send times. -/
def latenessPositions (payload jitterNs skewNs : ℕ) : Except Panic ℕ :=
  if payload = 0 then .error .divisionByZero
  else
    let ppf := max (frameBytes / payload) 1
    let minGapNs := 1000000000 / (fps * ppf)
    if u64Max < skewNs + jitterNs then .error .overflow
    else if minGapNs = 0 then .error .divisionByZero
    else .ok ((skewNs + jitterNs + minGapNs - 1) / minGapNs)

structure Args where
  packets : ℕ
  jitterNs : ℕ
  loss : ℚ
  skewNs : ℕ
  seed : ℕ

/-- One configuration of the payload sweep; `facility` is the disturbed condition. The windows
cover the worst lateness. -/
def sweepCfg (granularity : Granularity) (payload : ℕ) (facility : Bool) (args : Args) :
    Except Panic RunConfig :=
  let (jitterNs, loss, skewNs, singlePath) :=
    if facility then (args.jitterNs, args.loss, args.skewNs, false) else (0, 0, 0, true)
  match latenessPositions payload jitterNs skewNs with
  | .error p => .error p
  | .ok worstLateness => .ok {
      granularity := granularity
      payload := payload
      packets := args.packets
      jitterNs := jitterNs
      loss := loss
      skewNs := skewNs
      singlePath := singlePath
      keyWindow := if granularity = .packet then max (worstLateness + 1) 512 else 512
      seekCap := 4096
      replayWindow := min (max worstLateness 512) libsrtpReplayMax
      seed := args.seed }

end SafeCast.Benchmark
