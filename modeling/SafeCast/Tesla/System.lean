import Mathlib.Logic.Relation
import SafeCast.Tesla.Receiver
import SafeCast.Tesla.Sender

/-! # Sender, network and receiver

A run interleaves calls of the sender, time that passes on its clock, and datagrams that
the network hands to the receiver. What the network can put into a datagram is a
parameter, since it depends on what the sender has made public so far. The sender's
clock is never ahead of the receiver's by more than the bound of the accept test.
-/

namespace SafeCast

open HashChain

/-- A call of `authenticate` that returned, with the datagram it made public. -/
structure Call where
  packet : Bytes
  extIndex : ℕ
  sendNs : ℕ
  datagram : Bytes

/-- A datagram handed to the receiver: the receiver and the sender's calls before it. -/
structure Arrival (ι : Type*) where
  receiver : TeslaReceiver ι
  before : List Call
  datagram : Bytes
  arrivalNs : ℕ

/-- The two parties, their clocks, and what has happened so far. -/
structure System (ι : Type*) where
  sender : TeslaSender
  senderClock : ℕ := 0
  calls : List Call := []
  receiver : TeslaReceiver ι
  receiverClock : ℕ := 0
  arrivals : List (Arrival ι) := []
  verdicts : List Verdict := []

structure TeslaCommitment.Describes (m : TeslaCommitment) (sender : TeslaSender) : Prop where
  anchor : sender.anchor = .ok m.anchor
  t0Ns : m.t0Ns.toNat = sender.params.t0Ns
  tIntNs : m.tIntNs.toNat = sender.params.tIntNs
  d : m.d.toNat = sender.params.d
  nChain : m.nChain.toNat = sender.params.nChain
  macAlg : m.macAlg = sender.alg

def Call.Emits (call : Call) (key : ChainKey) : Prop :=
  ∃ packet interval mac, call.datagram = appendExtension packet interval key mac

variable {ι : Type*} {ops : InnerOps ι} {c : Crypto} {kFinal : ChainKey}

/-- Key `j` of the chain of `n` steps is public: it is the anchor, or it is obtained by
hashing a chain key that the sender has emitted. -/
def Public (c : Crypto) (kFinal : ChainKey) (n : ℕ) (calls : List Call) (j : ℕ) : Prop :=
  j = 0 ∨ ∃ call ∈ calls, ∃ j', j ≤ j' ∧ j' ≤ n ∧ call.Emits (element (fStep c) kFinal n j')

namespace System

def chainKey (c : Crypto) (kFinal : ChainKey) (s : System ι) (j : ℕ) : ChainKey :=
  element (fStep c) kFinal s.sender.params.nChain j

def IsPublic (c : Crypto) (kFinal : ChainKey) (s : System ι) (j : ℕ) : Prop :=
  Public c kFinal s.sender.params.nChain s.calls j

/-- The start of a stream: a new sender, and a receiver that accepted its commitment. -/
inductive Starts (c : Crypto) (kFinal : ChainKey) : System ι → Prop where
  | mk {params : TeslaSchedule} {alg : TeslaMacAlg} {commitment : TeslaCommitment}
      {signature senderPublicKey : Bytes} {dTNs : UInt64} {gMax : UInt32} {inner : ι}
      {sender : TeslaSender} {receiver : TeslaReceiver ι} :
      TeslaSender.new c params alg kFinal = .ok sender → commitment.Describes sender →
      TeslaReceiver.accept c commitment signature senderPublicKey dTNs gMax inner =
        .ok (some receiver) →
      Starts c kFinal { sender := sender, receiver := receiver }

/-- One step of a run; `Can` says which extension and packet the network can produce. -/
inductive Step (ops : InnerOps ι) (c : Crypto) (Can : System ι → Extension → Bytes → Prop) :
    System ι → System ι → Prop where
  | authenticate {s : System ι} {sender : TeslaSender} {packet datagram : Bytes}
      {extIndex sendNs : ℕ} :
      s.senderClock ≤ sendNs → sendNs ≤ u64Max →
      s.sender.authenticate c packet extIndex sendNs = .ok (datagram, sender) →
      Step ops c Can s { s with
        sender := sender
        senderClock := sendNs
        calls := ⟨packet, extIndex, sendNs, datagram⟩ :: s.calls }
  | tick {s : System ι} {now : ℕ} : s.senderClock ≤ now →
      Step ops c Can s { s with senderClock := now }
  | arrive {s : System ι} {datagram : Bytes} {arrivalNs : ℕ}
      {out : Except TeslaDrop (List Verdict) × Bytes} {receiver : TeslaReceiver ι} :
      s.receiverClock ≤ arrivalNs → arrivalNs ≤ u64Max →
      s.senderClock ≤ arrivalNs + s.receiver.params.dTNs →
      (∀ ext packet, splitExtension datagram = some (ext, packet) → Can s ext packet) →
      s.receiver.processArrival ops c datagram arrivalNs = .ok (out, receiver) →
      Step ops c Can s { s with
        receiver := receiver
        receiverClock := arrivalNs
        arrivals := ⟨s.receiver, s.calls, datagram, arrivalNs⟩ :: s.arrivals
        verdicts := s.verdicts ++ TeslaReceiver.verdictsOf out.1 }

abbrev Reachable (ops : InnerOps ι) (c : Crypto) (Can : System ι → Extension → Bytes → Prop) :
    System ι → System ι → Prop :=
  Relation.ReflTransGen (Step ops c Can)

/-- No chain key is presented before it is public. A value counts as key `j` if it hashes
to the anchor in `j` steps. -/
def Unguessed (c : Crypto) (kFinal : ChainKey) (s : System ι) (ext : Extension) (_ : Bytes) :
    Prop :=
  ∀ j ≤ s.sender.params.nChain,
    (fStep c)^[j] ext.disclosed = s.chainKey c kFinal 0 → s.IsPublic c kFinal j

/-! ## The clocks and the chain -/

/-- What holds of both parties in every run, whatever the network does. -/
structure Aligned (c : Crypto) (kFinal : ChainKey) (s : System ι) : Prop where
  genuine : s.sender.Genuine c kFinal
  table : s.sender.params.SameTable s.receiver.params
  alg : s.receiver.alg = s.sender.alg
  nChain : s.receiver.verifier.nChain = s.sender.params.nChain
  sent : ∀ call ∈ s.calls, call.sendNs ≤ s.senderClock ∧ call.sendNs ≤ u64Max ∧
    ∃ interval, s.sender.params.intervalOf call.sendNs = .ok interval ∧
      call.datagram = appendExtension call.packet interval
        (s.chainKey c kFinal (s.sender.params.disclosedIndex interval))
        ((s.sender.alg.prepare c (s.chainKey c kFinal interval)).tag c call.extIndex call.packet)

/-- What holds of both parties in every run without guessed keys. -/
structure Sound (c : Crypto) (kFinal : ChainKey) (s : System ι) : Prop
    extends Aligned c kFinal s where
  distinct : Set.InjOn (s.chainKey c kFinal) (Set.Iic s.sender.params.nChain)
  trusted_le : s.receiver.verifier.trustedIndex ≤ s.sender.params.nChain
  hashes : (fStep c)^[s.receiver.verifier.trustedIndex] s.receiver.verifier.trustedKey =
    s.chainKey c kFinal 0
  trusted_public : s.IsPublic c kFinal s.receiver.verifier.trustedIndex

end System

theorem Public.mono {n j : ℕ} {calls calls' : List Call} (h : Public c kFinal n calls j)
    (hsub : calls ⊆ calls') : Public c kFinal n calls' j := by
  rcases h with h | ⟨call, hcall, h⟩
  · exact .inl h
  · exact .inr ⟨call, hsub hcall, h⟩

theorem Public.of_le {n j j' : ℕ} {calls : List Call} (h : Public c kFinal n calls j)
    (hle : j' ≤ j) : Public c kFinal n calls j' := by
  rcases h with rfl | ⟨call, hcall, i, hi, hn, hemits⟩
  · exact .inl (by omega)
  · exact .inr ⟨call, hcall, i, hle.trans hi, hn, hemits⟩

namespace System

variable {Can : System ι → Extension → Bytes → Prop} {s s' : System ι}

theorem Starts.aligned (h : Starts c kFinal s) : Aligned c kFinal s := by
  obtain ⟨hsender, hdesc, haccept⟩ := h
  obtain ⟨hgen, rfl, rfl⟩ := TeslaSender.genuine_new hsender
  obtain ⟨schedule, hschedule, rfl⟩ := TeslaReceiver.accept_ok haccept
  obtain ⟨h₁, h₂, h₃, h₄, -, -⟩ := TeslaSchedule.new_ok hschedule
  exact {
    genuine := hgen
    table := ⟨(h₁.trans hdesc.t0Ns).symm, (h₂.trans hdesc.tIntNs).symm, (h₃.trans hdesc.d).symm,
      (h₄.trans hdesc.nChain).symm⟩
    alg := hdesc.macAlg
    nChain := h₄.trans hdesc.nChain
    sent := by simp }

theorem Starts.anchored (h : Starts c kFinal s) :
    s.receiver.verifier.trustedIndex = 0 ∧
      s.receiver.verifier.trustedKey = s.chainKey c kFinal 0 := by
  obtain ⟨hsender, hdesc, haccept⟩ := h
  obtain ⟨hgen, rfl, rfl⟩ := TeslaSender.genuine_new hsender
  obtain ⟨schedule, hschedule, rfl⟩ := TeslaReceiver.accept_ok haccept
  have hanchor := hdesc.anchor
  rw [TeslaSender.anchor, hgen.chain, TeslaChain.key_fromFinalKey (Nat.zero_le _)] at hanchor
  exact ⟨rfl, (Except.ok.inj hanchor).symm⟩

theorem Starts.sound (h : Starts c kFinal s)
    (hchain : Set.InjOn (s.chainKey c kFinal) (Set.Iic s.sender.params.nChain)) :
    Sound c kFinal s := by
  obtain ⟨hindex, hkey⟩ := h.anchored
  refine ⟨h.aligned, hchain, ?_, ?_, .inl hindex⟩
  · rw [hindex]
    exact Nat.zero_le _
  · rw [hindex]
    exact hkey

theorem Aligned.step (h : Aligned c kFinal s) (hstep : Step ops c Can s s') :
    Aligned c kFinal s' := by
  cases hstep with
  | authenticate hclock hu64 hauth =>
    obtain ⟨hgen, hparams, halg, interval, hi, rfl⟩ := h.genuine.authenticate hauth
    refine ⟨hgen, ?_, ?_, ?_, ?_⟩
    · rw [hparams]
      exact h.table
    · rw [halg]
      exact h.alg
    · rw [hparams]
      exact h.nChain
    · simp only [chainKey, hparams, halg]
      intro call hcall
      rcases List.mem_cons.mp hcall with rfl | hcall
      · exact ⟨le_rfl, hu64, interval, hi, rfl⟩
      · obtain ⟨hle, hmax, hemits⟩ := h.sent call hcall
        exact ⟨hle.trans hclock, hmax, hemits⟩
  | tick hclock =>
    refine { h with sent := ?_ }
    intro call hcall
    obtain ⟨hle, hmax, hemits⟩ := h.sent call hcall
    exact ⟨hle.trans hclock, hmax, hemits⟩
  | @arrive datagram arrivalNs out receiver hclock hu64 hbound hnet hproc =>
    obtain ⟨hparams, halg, hcases⟩ := TeslaReceiver.processArrival_drawers hproc
    refine ⟨h.genuine, ?_, ?_, ?_, h.sent⟩
    · simpa only [hparams] using h.table
    · simpa only [halg] using h.alg
    · rcases hcases with ⟨hver, -⟩ | ⟨ext, packet, keys, verifier, hpass, hver, -⟩
      · exact (congrArg ChainVerifier.nChain hver).trans h.nChain
      · exact (congrArg ChainVerifier.nChain hver).trans (hpass.key.caps.1.trans h.nChain)

theorem Sound.handsOut (h : Sound c kFinal s) {ext : Extension} {packet : Bytes}
    {keys : List (ℕ × ChainKey)} {verifier : ChainVerifier}
    (hcan : Unguessed c kFinal s ext packet) (hkeys : s.receiver.HandsOut c ext keys verifier) :
    verifier.trustedIndex ≤ s.sender.params.nChain ∧
      (fStep c)^[verifier.trustedIndex] verifier.trustedKey = s.chainKey c kFinal 0 ∧
      s.IsPublic c kFinal verifier.trustedIndex := by
  rcases hkeys with hnew | ⟨-, -, rfl⟩
  · obtain ⟨hlt, hle, -, hwalk, -, rfl⟩ := ChainVerifier.check_new_iff.mp hnew
    rw [h.nChain] at hle
    have hhash : (fStep c)^[s.receiver.params.disclosedIndex ext.interval] ext.disclosed =
        s.chainKey c kFinal 0 := by
      rw [← h.hashes, ← hwalk, ← Function.iterate_add_apply]
      congr 2
      omega
    exact ⟨hle, hhash, hcan _ hle hhash⟩
  · exact ⟨h.trusted_le, h.hashes, h.trusted_public⟩

theorem Sound.step (hcan : ∀ s ext packet, Can s ext packet → Unguessed c kFinal s ext packet)
    (h : Sound c kFinal s) (hstep : Step ops c Can s s') : Sound c kFinal s' := by
  have haligned := h.toAligned.step hstep
  cases hstep with
  | authenticate hclock hu64 hauth =>
    obtain ⟨-, hparams, -⟩ := h.genuine.authenticate hauth
    refine ⟨haligned, ?_, ?_, ?_, ?_⟩
    · change Set.InjOn (element (fStep c) kFinal _) _
      rw [hparams]
      exact h.distinct
    · rw [hparams]
      exact h.trusted_le
    · simp only [chainKey, hparams]
      exact h.hashes
    · simp only [IsPublic, hparams]
      exact h.trusted_public.mono (List.subset_cons_self _ _)
  | tick hclock =>
    exact ⟨haligned, h.distinct, h.trusted_le, h.hashes, h.trusted_public⟩
  | @arrive datagram arrivalNs out receiver hclock hu64 hbound hnet hproc =>
    have hverifier : receiver.verifier.trustedIndex ≤ s.sender.params.nChain ∧
        (fStep c)^[receiver.verifier.trustedIndex] receiver.verifier.trustedKey =
          s.chainKey c kFinal 0 ∧
        s.IsPublic c kFinal receiver.verifier.trustedIndex := by
      obtain ⟨-, -, ⟨hver, -⟩ | ⟨ext, packet, keys, verifier, hpass, hver, -⟩⟩ :=
        TeslaReceiver.processArrival_drawers hproc
      · rw [hver]
        exact ⟨h.trusted_le, h.hashes, h.trusted_public⟩
      · rw [hver]
        exact h.handsOut (hcan _ _ _ (hnet ext packet hpass.admitted.split)) hpass.key
    obtain ⟨hle, hhash, hpub⟩ := hverifier
    exact ⟨haligned, h.distinct, hle, hhash, hpub⟩

theorem Sound.not_public (h : Sound c kFinal s) {arrivalNs i : ℕ}
    (hbound : s.senderClock ≤ arrivalNs + s.receiver.params.dTNs)
    (hsafe : s.receiver.params.accepts arrivalNs i = .ok .safe) (hi : 1 ≤ i) :
    ¬ s.IsPublic c kFinal i := by
  rintro (rfl | ⟨call, hcall, j, hj, hn, packet, label, mac, hemits⟩)
  · omega
  obtain ⟨hle, hmax, interval, hint, hdatagram⟩ := h.sent call hcall
  -- the emitted key is the one of `d` intervals before the send time
  obtain ⟨-, -, hkey, -⟩ := appendExtension_inj (hdatagram.symm.trans hemits)
  obtain ⟨-, -, hchain⟩ := TeslaSchedule.intervalOf_ok hint
  have hdisc : s.sender.params.disclosedIndex interval ≤ s.sender.params.nChain :=
    (Nat.sub_le _ _).trans hchain
  obtain rfl : s.sender.params.disclosedIndex interval = j := h.distinct hdisc hn hkey
  rw [h.table.intervalOf_eq] at hint
  have hlt := TeslaSchedule.disclosedIndex_lt_of_accepts hsafe hint (hle.trans hbound) hmax
  rw [h.table.disclosedIndex_eq, TeslaSchedule.disclosedIndex] at hj
  omega

/-! ## Drawers and verdicts -/

end System

/-- The datagram passed, and its packet joined the drawer of interval `i` as `e`. -/
def Arrival.Enters (ops : InnerOps ι) (c : Crypto) (a : Arrival ι) (i : ℕ) (e : DrawerEntry) :
    Prop :=
  ∃ ext packet keys verifier,
    a.receiver.Passes ops c a.datagram a.arrivalNs ext packet keys verifier ∧
      i = ext.interval ∧ e = a.receiver.entryOf a.arrivalNs ext packet

namespace System

/-- A delivered packet waits while its key is ahead of the trusted one, and has a verdict
from the chain's key of its interval afterwards. Only interval 0 is never settled. -/
structure Settled (ops : InnerOps ι) (c : Crypto) (s : System ι) : Prop where
  waits_iff : ∀ i e, s.receiver.Waits i e ↔
    (∃ a ∈ s.arrivals, a.Enters ops c i e) ∧ (i = 0 ∨ s.receiver.verifier.trustedIndex < i)
  verdict_iff : ∀ i e, (∃ v ∈ s.verdicts, v.interval = i ∧ v.entry = e) ↔
    (∃ a ∈ s.arrivals, a.Enters ops c i e) ∧ 1 ≤ i ∧ i ≤ s.receiver.verifier.trustedIndex

def Judged (c : Crypto) (kFinal : ChainKey) (s : System ι) : Prop :=
  ∀ v ∈ s.verdicts,
    v = TeslaReceiver.judge c s.sender.alg v.interval (s.chainKey c kFinal v.interval) v.entry

theorem Starts.settled (h : Starts c kFinal s) : Settled ops c s := by
  obtain ⟨-, -, haccept⟩ := h
  obtain ⟨schedule, -, rfl⟩ := TeslaReceiver.accept_ok haccept
  constructor <;> intro i e
  · simp [TeslaReceiver.Waits]
  · simp

theorem Starts.judged (h : Starts c kFinal s) : Judged c kFinal s := by
  obtain ⟨-, -, -⟩ := h
  intro v hv
  cases hv

theorem Sound.ahead (h : Sound c kFinal s) {datagram packet : Bytes} {arrivalNs : ℕ}
    {ext : Extension} {keys : List (ℕ × ChainKey)} {verifier : ChainVerifier}
    (hbound : s.senderClock ≤ arrivalNs + s.receiver.params.dTNs)
    (hpass : s.receiver.Passes ops c datagram arrivalNs ext packet keys verifier) :
    ext.interval = 0 ∨ verifier.trustedIndex < ext.interval := by
  rcases Nat.eq_zero_or_pos ext.interval with hzero | hpos
  · exact .inl hzero
  · right
    have hlt : s.receiver.verifier.trustedIndex < ext.interval := by
      by_contra hge
      exact h.not_public hbound hpass.admitted.safe hpos
        (h.trusted_public.of_le (not_lt.mp hge))
    obtain ⟨-, htrusted, -⟩ := hpass.key.indices
    have hd := s.receiver.params.two_le_d
    rcases htrusted with heq | heq
    · omega
    · rw [heq, TeslaSchedule.disclosedIndex]
      omega

theorem exists_enters_cons {a : Arrival ι} {i : ℕ} {e : DrawerEntry} {arrivals : List (Arrival ι)} :
    (∃ b ∈ a :: arrivals, b.Enters ops c i e) ↔
      a.Enters ops c i e ∨ ∃ b ∈ arrivals, b.Enters ops c i e := by
  simp

theorem enters_iff {a : Arrival ι} {ext : Extension} {packet : Bytes}
    {keys : List (ℕ × ChainKey)} {verifier : ChainVerifier} {i : ℕ} {e : DrawerEntry}
    (hpass : a.receiver.Passes ops c a.datagram a.arrivalNs ext packet keys verifier) :
    a.Enters ops c i e ↔ i = ext.interval ∧ e = a.receiver.entryOf a.arrivalNs ext packet := by
  constructor
  · rintro ⟨ext', packet', keys', verifier', hpass', rfl, rfl⟩
    obtain ⟨rfl, rfl⟩ := hpass.admitted.unique hpass'.admitted
    exact ⟨rfl, rfl⟩
  · rintro ⟨hi, he⟩
    exact ⟨ext, packet, keys, verifier, hpass, hi, he⟩

theorem Settled.step (h : Settled ops c s)
    (hahead : ∀ {datagram arrivalNs ext packet keys verifier},
      s.senderClock ≤ arrivalNs + s.receiver.params.dTNs → Can s ext packet →
      s.receiver.Passes ops c datagram arrivalNs ext packet keys verifier →
        ext.interval = 0 ∨ verifier.trustedIndex < ext.interval)
    (hstep : Step ops c Can s s') : Settled ops c s' := by
  cases hstep with
  | authenticate => exact ⟨h.waits_iff, h.verdict_iff⟩
  | tick => exact ⟨h.waits_iff, h.verdict_iff⟩
  | @arrive datagram arrivalNs out receiver hclock hu64 hbound hnet hproc =>
    obtain ⟨hparams, halg, ⟨hver, hwaits, hverdicts, hno⟩ |
      ⟨ext, packet, keys, verifier, hpass, hver, hwaits, hverdicts⟩⟩ :=
      TeslaReceiver.processArrival_drawers hproc
    · have hnot : ∀ i e, ¬ (Arrival.mk s.receiver s.calls datagram arrivalNs).Enters ops c i e := by
        rintro i e ⟨ext, packet, keys, verifier, hpass, -⟩
        exact hno ext packet keys verifier hpass
      constructor <;> intro i e <;> dsimp only
      · rw [hwaits, h.waits_iff, exists_enters_cons, or_iff_right (hnot i e), hver]
      · rw [hverdicts, List.append_nil, h.verdict_iff, exists_enters_cons,
          or_iff_right (hnot i e), hver]
    · obtain ⟨hle, -, hkeys⟩ := hpass.key.indices
      have hahead := hahead hbound (hnet ext packet hpass.admitted.split) hpass
      have henters := fun i e => enters_iff
        (a := ⟨s.receiver, s.calls, datagram, arrivalNs⟩) (i := i) (e := e) hpass
      constructor <;> intro i e <;> dsimp only
      · rw [hwaits, h.waits_iff, exists_enters_cons, henters, hkeys, hver]
        grind
      · simp only [hverdicts, List.mem_append, or_and_right, exists_or]
        rw [h.verdict_iff, TeslaReceiver.exists_verdict_iff, h.waits_iff, exists_enters_cons,
          henters, hkeys, hver]
        grind

theorem Sound.trusts (hf : (fStep c).Injective) (h : Sound c kFinal s) :
    s.receiver.verifier.Trusts c kFinal := by
  have hle := h.trusted_le
  have hkey := eq_element hf hle (Nat.zero_le _) h.hashes
  rw [← h.nChain] at hle hkey
  exact ⟨hle, hkey⟩

theorem Sound.key_eq (hf : (fStep c).Injective) (h : Sound c kFinal s) {ext : Extension}
    {keys : List (ℕ × ChainKey)} {verifier : ChainVerifier}
    (hkeys : s.receiver.HandsOut c ext keys verifier) {k : ℕ × ChainKey} (hk : k ∈ keys) :
    k.2 = s.chainKey c kFinal k.1 := by
  rcases hkeys with hnew | ⟨-, rfl, -⟩
  · have hkey := (ChainVerifier.Trusts.check_new ((h.trusts hf).candidate_eq hf hnew) hnew).2 k hk
    rwa [h.nChain] at hkey
  · cases hk

theorem Judged.step (ha : Aligned c kFinal s) (h : Judged c kFinal s)
    (hkeys : ∀ {ext packet keys verifier}, Can s ext packet →
      s.receiver.HandsOut c ext keys verifier → ∀ k ∈ keys, k.2 = s.chainKey c kFinal k.1)
    (hstep : Step ops c Can s s') : Judged c kFinal s' := by
  cases hstep with
  | authenticate hclock hu64 hauth =>
    obtain ⟨-, hparams, halg, -⟩ := ha.genuine.authenticate hauth
    simpa only [Judged, chainKey, hparams, halg] using h
  | tick => exact h
  | @arrive datagram arrivalNs out receiver hclock hu64 hbound hnet hproc =>
    intro v hv
    rcases List.mem_append.mp hv with hv | hv
    · exact h v hv
    obtain ⟨-, -, ⟨-, -, hverdicts, -⟩ | ⟨ext, packet, keys, verifier, hpass, -, -, hverdicts⟩⟩ :=
      TeslaReceiver.processArrival_drawers hproc
    · rw [hverdicts] at hv
      cases hv
    · rw [hverdicts] at hv
      obtain ⟨key, entries, hkey, -, -, hjudge⟩ := TeslaReceiver.mem_verdictsFor hv
      have heq := hkeys (hnet ext packet hpass.admitted.split) hpass.key _ hkey
      dsimp only at heq
      rw [ha.alg, heq] at hjudge
      exact hjudge

/-! ## Runs -/

variable {s₀ : System ι}

theorem Starts.invariant (h₀ : Starts c kFinal s₀)
    (hchain : Set.InjOn (s₀.chainKey c kFinal) (Set.Iic s₀.sender.params.nChain))
    (hcan : ∀ s ext packet, Can s ext packet → Unguessed c kFinal s ext packet)
    (hreach : Reachable ops c Can s₀ s) : Sound c kFinal s ∧ Settled ops c s := by
  induction hreach with
  | refl => exact ⟨h₀.sound hchain, h₀.settled⟩
  | tail _ hstep ih =>
    exact ⟨ih.1.step hcan hstep, ih.2.step (fun hbound _ => ih.1.ahead hbound) hstep⟩

theorem Starts.invariant_judged (h₀ : Starts c kFinal s₀) (hf : (fStep c).Injective)
    (hchain : Set.InjOn (s₀.chainKey c kFinal) (Set.Iic s₀.sender.params.nChain))
    (hcan : ∀ s ext packet, Can s ext packet → Unguessed c kFinal s ext packet)
    (hreach : Reachable ops c Can s₀ s) : Judged c kFinal s := by
  induction hreach with
  | refl => exact h₀.judged
  | tail hreach hstep ih =>
    have hs := (h₀.invariant hchain hcan hreach).1
    exact ih.step hs.toAligned (fun _ hkeys _ hk => hs.key_eq hf hkeys hk) hstep

/-! ## Datagrams of the sender -/

theorem Sound.unguessed (hf : (fStep c).Injective) (h : Sound c kFinal s) {m : ℕ}
    (hm : m ≤ s.sender.params.nChain) (hpub : s.IsPublic c kFinal m) {ext : Extension}
    (hkey : ext.disclosed = s.chainKey c kFinal m) (packet : Bytes) :
    Unguessed c kFinal s ext packet := by
  intro j hj hhash
  rw [hkey] at hhash
  obtain rfl : m = j := h.distinct hm hj (eq_element hf hj (Nat.zero_le j) hhash)
  exact hpub

theorem Aligned.split_call (h : Aligned c kFinal s) {call : Call} (hcall : call ∈ s.calls)
    (hpacket : call.packet ≠ []) :
    ∃ interval, s.sender.params.intervalOf call.sendNs = .ok interval ∧
      splitExtension call.datagram = some
        (⟨interval, s.chainKey c kFinal (s.sender.params.disclosedIndex interval),
          (s.sender.alg.prepare c (s.chainKey c kFinal interval)).tag c call.extIndex call.packet⟩,
        call.packet) := by
  obtain ⟨-, -, interval, hint, hdatagram⟩ := h.sent call hcall
  obtain ⟨-, -, hle⟩ := TeslaSchedule.intervalOf_ok hint
  refine ⟨interval, hint, ?_⟩
  rw [hdatagram]
  exact splitExtension_appendExtension hpacket (hle.trans_lt s.sender.params.nChain_lt)

theorem Aligned.split_datagram (h : Aligned c kFinal s) {call : Call} (hcall : call ∈ s.calls)
    {ext : Extension} {packet : Bytes}
    (hsplit : splitExtension call.datagram = some (ext, packet)) :
    s.sender.params.intervalOf call.sendNs = .ok ext.interval ∧ packet = call.packet ∧
      ext.disclosed = s.chainKey c kFinal (s.sender.params.disclosedIndex ext.interval) ∧
      ext.mac = (s.sender.alg.prepare c (s.chainKey c kFinal ext.interval)).tag c call.extIndex
        call.packet := by
  have hne : call.packet ≠ [] := by
    intro hnil
    obtain ⟨-, -, interval, -, hdatagram⟩ := h.sent call hcall
    have hshort : call.datagram.length ≤ teslaExtLen := by
      rw [hdatagram, hnil]
      simp [appendExtension, teslaExtLen, ByteArr.length_val, add_assoc]
    rw [splitExtension, dif_pos hshort] at hsplit
    cases hsplit
  obtain ⟨interval, hint, heq⟩ := h.split_call hcall hne
  rw [heq] at hsplit
  cases hsplit
  exact ⟨hint, rfl, rfl, rfl⟩

theorem Aligned.enters_call (h : Aligned c kFinal s) {call : Call} (hcall : call ∈ s.calls)
    {a : Arrival ι} (hunaltered : a.datagram = call.datagram) {i : ℕ} {e : DrawerEntry}
    (henters : a.Enters ops c i e) :
    s.sender.params.intervalOf call.sendNs = .ok i ∧ e.covered = call.packet ∧
      e.mac = (s.sender.alg.prepare c (s.chainKey c kFinal i)).tag c call.extIndex call.packet := by
  obtain ⟨ext, packet, keys, verifier, hpass, rfl, rfl⟩ := henters
  have hsplit := hpass.admitted.split
  rw [hunaltered] at hsplit
  obtain ⟨hint, hpacket, -, hmac⟩ := h.split_datagram hcall hsplit
  exact ⟨hint, hpacket, hmac⟩

theorem Sound.unguessed_call (hf : (fStep c).Injective) (h : Sound c kFinal s) {call : Call}
    (hcall : call ∈ s.calls) (hpacket : call.packet ≠ []) {ext : Extension} {packet : Bytes}
    (hsplit : splitExtension call.datagram = some (ext, packet)) :
    Unguessed c kFinal s ext packet := by
  obtain ⟨interval, hint, heq⟩ := h.toAligned.split_call hcall hpacket
  obtain ⟨-, -, interval', hint', hdatagram⟩ := h.sent call hcall
  obtain rfl : interval = interval' := Except.ok.inj (hint.symm.trans hint')
  rw [heq] at hsplit
  cases hsplit
  have hle : s.sender.params.disclosedIndex interval ≤ s.sender.params.nChain :=
    (Nat.sub_le _ _).trans (TeslaSchedule.intervalOf_ok hint).2.2
  exact h.unguessed hf hle (.inr ⟨call, hcall, _, le_rfl, hle, _, _, _, hdatagram⟩) rfl _

end System

/-! ## A small stream -/

def toyFinalKey : ChainKey := ByteArr.replicate _ 0

def toySchedule : TeslaSchedule :=
  ⟨0, 10, 2, 5, 0, 8, by decide, by decide, by decide, by decide, by decide⟩

def toyCommitment : TeslaCommitment :=
  ⟨element (fStep Crypto.toy) toyFinalKey 5 0, 0, 10, 2, 5, .gmacAes128, [], 7, [], 0⟩

def toyDatagram (packet : Bytes) (extIndex interval label : ℕ) : Bytes :=
  appendExtension packet label (element (fStep Crypto.toy) toyFinalKey 5 (interval - 2))
    ((TeslaMacAlg.gmacAes128.prepare Crypto.toy
      (element (fStep Crypto.toy) toyFinalKey 5 interval)).tag Crypto.toy extIndex packet)

theorem injOn_toy_chain :
    Set.InjOn (element (fStep Crypto.toy) toyFinalKey 5) (Set.Iic 5) := by
  have hall : ∀ i < 6, ∀ j < 6, element (fStep Crypto.toy) toyFinalKey 5 i =
      element (fStep Crypto.toy) toyFinalKey 5 j → i = j := by
    decide +kernel
  intro i hi j hj h
  exact hall i (Nat.lt_succ_of_le hi) j (Nat.lt_succ_of_le hj) h

theorem toy_accept {inner : ι} {receiver : TeslaReceiver ι}
    (h : TeslaReceiver.accept Crypto.toy toyCommitment [] [] 0 8 inner = .ok (some receiver)) :
    receiver = {
      params := toySchedule
      verifier := ChainVerifier.new (element (fStep Crypto.toy) toyFinalKey 5 0) 5 8
      alg := .gmacAes128, inner := inner, recovery := {}, drawers := ∅, pending := 0
      stats := {} } := by
  cases h
  rfl

theorem toy_describes {sender : TeslaSender}
    (h : TeslaSender.new Crypto.toy toySchedule .gmacAes128 toyFinalKey = .ok sender) :
    toyCommitment.Describes sender := by
  obtain ⟨hgen, hparams, halg⟩ := TeslaSender.genuine_new h
  constructor
  case anchor =>
    rw [TeslaSender.anchor, hgen.chain, TeslaChain.key_fromFinalKey (Nat.zero_le _), hparams]
    rfl
  all_goals simp only [hparams, halg]
  all_goals rfl

theorem toy_starts (inner : ι) :
    ∃ sender receiver, TeslaSender.new Crypto.toy toySchedule .gmacAes128 toyFinalKey = .ok sender ∧
      TeslaReceiver.accept Crypto.toy toyCommitment [] [] 0 8 inner = .ok (some receiver) ∧
      System.Starts Crypto.toy toyFinalKey { sender := sender, receiver := receiver } ∧
      Set.InjOn (System.chainKey Crypto.toy toyFinalKey { sender := sender, receiver := receiver })
        (Set.Iic sender.params.nChain) := by
  obtain ⟨sender, hsender⟩ : ∃ sender,
    TeslaSender.new Crypto.toy toySchedule .gmacAes128 toyFinalKey = .ok sender := ⟨_, rfl⟩
  obtain ⟨receiver, haccept⟩ : ∃ receiver,
    TeslaReceiver.accept Crypto.toy toyCommitment [] [] 0 8 inner = .ok (some receiver) := ⟨_, rfl⟩
  refine ⟨sender, receiver, hsender, haccept, .mk hsender (toy_describes hsender) haccept, ?_⟩
  change Set.InjOn (element _ _ _) _
  rw [(TeslaSender.genuine_new hsender).2.1]
  exact injOn_toy_chain

end SafeCast
