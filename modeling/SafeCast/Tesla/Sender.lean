import SafeCast.Tesla.Messages

/-! # The TESLA sender

A packet is tagged under the key of the interval it is sent in and discloses the key of
`d` intervals ago. The prepared MAC state is the one of the current interval.
-/

namespace SafeCast

open HashChain Runs

structure TeslaSender where
  params : TeslaSchedule
  chain : TeslaChain
  alg : TeslaMacAlg
  currentInterval : ℕ
  prepared : PreparedMac

namespace TeslaSender

/-- A sender whose chain ends in the random key `kFinal`. -/
def new (c : Crypto) (params : TeslaSchedule) (alg : TeslaMacAlg) (kFinal : ChainKey) :
    Except Panic TeslaSender :=
  let chain := TeslaChain.fromFinalKey c kFinal params.nChain
  match chain.key 1 with
  | .error p => .error p
  | .ok key => .ok ⟨params, chain, alg, 1, alg.prepare c key⟩

def anchor (s : TeslaSender) : Except Panic ChainKey := s.chain.key 0

def enter (c : Crypto) (s : TeslaSender) (interval : ℕ) : Except Panic TeslaSender :=
  if interval ≠ s.currentInterval then
    match s.chain.key interval with
    | .error p => .error p
    | .ok key =>
      .ok { s with prepared := s.alg.prepare c key, currentInterval := interval }
  else .ok s

/-- Appends the extension to a protected packet sent at `sendNs`. -/
def authenticate (c : Crypto) (s : TeslaSender) (buf : Bytes) (extIndex sendNs : ℕ) :
    Except Panic (Bytes × TeslaSender) :=
  match s.params.intervalOf sendNs with
  | .error p => .error p
  | .ok interval =>
    match s.enter c interval with
    | .error p => .error p
    | .ok s =>
      let mac := s.prepared.tag c extIndex buf
      match s.chain.key (s.params.disclosedIndex interval) with
      | .error p => .error p
      | .ok disclosed => .ok (appendExtension buf interval disclosed mac, s)

/-- The sender's state for the chain that ends in `kFinal`: the prepared state is the one
of the current interval. -/
structure Genuine (c : Crypto) (kFinal : ChainKey) (s : TeslaSender) : Prop where
  chain : s.chain = TeslaChain.fromFinalKey c kFinal s.params.nChain
  prepared : s.prepared =
    s.alg.prepare c (element (fStep c) kFinal s.params.nChain s.currentInterval)

variable {c : Crypto} {params : TeslaSchedule} {alg : TeslaMacAlg} {kFinal : ChainKey}
  {s s' : TeslaSender} {buf datagram : Bytes} {extIndex sendNs : ℕ}

theorem genuine_new (h : new c params alg kFinal = .ok s) :
    Genuine c kFinal s ∧ s.params = params ∧ s.alg = alg := by
  unfold new at h
  dsimp only at h
  rw [TeslaChain.key_fromFinalKey params.nChain_pos] at h
  cases h
  exact ⟨⟨rfl, rfl⟩, rfl, rfl⟩

def inInterval (c : Crypto) (kFinal : ChainKey) (s : TeslaSender) (interval : ℕ) : TeslaSender :=
  { s with
    prepared := s.alg.prepare c (element (fStep c) kFinal s.params.nChain interval)
    currentInterval := interval }

theorem Genuine.enter (hs : Genuine c kFinal s) {interval : ℕ} (hi : interval ≤ s.params.nChain) :
    s.enter c interval = .ok (s.inInterval c kFinal interval) := by
  unfold TeslaSender.enter TeslaSender.inInterval
  split_ifs with hne
  · simp only [hs.chain, TeslaChain.key_fromFinalKey hi]
  · rw [not_not.mp hne, ← hs.prepared]

/-- In an interval of the chain a call returns. It emits the interval, the key of `d`
intervals before, and the tag under the interval's key. -/
theorem Genuine.authenticate_eq (hs : Genuine c kFinal s) {interval : ℕ}
    (hi : s.params.intervalOf sendNs = .ok interval) (buf : Bytes) (extIndex : ℕ) :
    s.authenticate c buf extIndex sendNs = .ok (appendExtension buf interval
        (element (fStep c) kFinal s.params.nChain (s.params.disclosedIndex interval))
        ((s.alg.prepare c (element (fStep c) kFinal s.params.nChain interval)).tag c extIndex buf),
      s.inInterval c kFinal interval) := by
  obtain ⟨-, -, hle⟩ := TeslaSchedule.intervalOf_ok hi
  have hdisc : s.params.disclosedIndex interval ≤ s.params.nChain := (Nat.sub_le _ _).trans hle
  unfold TeslaSender.authenticate
  simp only [hi, hs.enter hle, TeslaSender.inInterval, hs.chain, TeslaChain.key_fromFinalKey hdisc]

theorem Genuine.authenticate (hs : Genuine c kFinal s)
    (h : s.authenticate c buf extIndex sendNs = .ok (datagram, s')) :
    Genuine c kFinal s' ∧ s'.params = s.params ∧ s'.alg = s.alg ∧
      ∃ interval, s.params.intervalOf sendNs = .ok interval ∧
        datagram = appendExtension buf interval
          (element (fStep c) kFinal s.params.nChain (s.params.disclosedIndex interval))
          ((s.alg.prepare c (element (fStep c) kFinal s.params.nChain interval)).tag c extIndex
            buf) := by
  rcases hi : s.params.intervalOf sendNs with p | interval
  · simp only [TeslaSender.authenticate, hi] at h
    cases h
  · rw [hs.authenticate_eq hi] at h
    cases h
    exact ⟨⟨hs.chain, rfl⟩, rfl, rfl, interval, rfl, rfl⟩

/-! ## Runs of the sender -/

def authenticating (c : Crypto) (s : TeslaSender) (i : Bytes × ℕ × ℕ) :
    Except Panic (Bytes × TeslaSender) :=
  s.authenticate c i.1 i.2.1 i.2.2

/-- What a call emits, and the MAC state it leaves: both as computed afresh from the chain. -/
structure Emits (c : Crypto) (params : TeslaSchedule) (alg : TeslaMacAlg) (kFinal : ChainKey)
    (t : Transition TeslaSender (Bytes × ℕ × ℕ) Bytes) (interval : ℕ) : Prop where
  sentIn : params.intervalOf t.input.2.2 = .ok interval
  datagram : t.output = appendExtension t.input.1 interval
    (element (fStep c) kFinal params.nChain (params.disclosedIndex interval))
    ((alg.prepare c (element (fStep c) kFinal params.nChain interval)).tag c t.input.2.1 t.input.1)
  current : t.after.currentInterval = interval
  prepared : t.after.prepared = alg.prepare c (element (fStep c) kFinal params.nChain interval)

structure Emitting (c : Crypto) (params : TeslaSchedule) (alg : TeslaMacAlg) (kFinal : ChainKey)
    (ts : List (Transition TeslaSender (Bytes × ℕ × ℕ) Bytes)) (s : TeslaSender) : Prop where
  genuine : Genuine c kFinal s
  params_eq : s.params = params
  alg_eq : s.alg = alg
  emits : ∀ t ∈ ts, ∃ interval, Emits c params alg kFinal t interval

theorem Emitting.step {ts : List (Transition TeslaSender (Bytes × ℕ × ℕ) Bytes)}
    {i : Bytes × ℕ × ℕ} (hs : Emitting c params alg kFinal ts s)
    (h : authenticating c s i = .ok (datagram, s')) :
    Emitting c params alg kFinal (ts ++ [⟨s, i, datagram, s'⟩]) s' := by
  obtain ⟨hgen, rfl, rfl, hemits⟩ := hs
  obtain ⟨hgen', hparams, halg, interval, hi, rfl⟩ := hgen.authenticate h
  rw [authenticating, hgen.authenticate_eq hi] at h
  cases h
  refine ⟨hgen', hparams, halg, ?_⟩
  intro t ht
  rcases List.mem_append.mp ht with ht | ht
  · exact hemits t ht
  · obtain rfl := List.mem_singleton.mp ht
    exact ⟨interval, hi, rfl, rfl, rfl⟩

theorem exists_new (c : Crypto) (params : TeslaSchedule) (alg : TeslaMacAlg) (kFinal : ChainKey) :
    ∃ s, new c params alg kFinal = .ok s := by
  unfold new
  dsimp only
  rw [TeslaChain.key_fromFinalKey params.nChain_pos]
  exact ⟨_, rfl⟩

theorem emitting_of_run {inputs : List (Bytes × ℕ × ℕ)} {outs : List Bytes}
    (hnew : new c params alg kFinal = .ok s)
    (hrun : run (authenticating c) s inputs = .ok (outs, s')) :
    Emitting c params alg kFinal (calls (authenticating c) s inputs) s' := by
  obtain ⟨hgen, hparams, halg⟩ := genuine_new hnew
  apply run_ledger _ ⟨hgen, hparams, halg, by simp⟩ _ hrun
  intro ts s i out s' hs h
  exact hs.step h

theorem exists_run_authenticating {inputs : List (Bytes × ℕ × ℕ)}
    (hnew : new c params alg kFinal = .ok s)
    (htime : ∀ i ∈ inputs,
      params.t0Ns ≤ i.2.2 ∧ i.2.2 < params.t0Ns + params.nChain * params.tIntNs) :
    ∃ outs s', run (authenticating c) s inputs = .ok (outs, s') := by
  rw [exists_run_iff]
  intro pre i hpre os s₁ hrun
  have hs := emitting_of_run hnew hrun
  obtain ⟨interval, hi⟩ := (params.exists_intervalOf_iff i.2.2).mpr
    (htime i (hpre.subset (by simp)))
  rw [← hs.params_eq] at hi
  exact ⟨_, _, hs.genuine.authenticate_eq hi i.1 i.2.1⟩

/-- Within the chain's time every call returns, in any order of the send times, and emits what
a sender without a cached MAC state would. If the send times do not go back, no packet is
tagged under a key that it or an earlier packet has disclosed. -/
theorem emissions_of_run (c : Crypto) (params : TeslaSchedule) (alg : TeslaMacAlg)
    (kFinal : ChainKey) (inputs : List (Bytes × ℕ × ℕ))
    (htime : ∀ i ∈ inputs,
      params.t0Ns ≤ i.2.2 ∧ i.2.2 < params.t0Ns + params.nChain * params.tIntNs) :
    ∃ s₀ outs s, new c params alg kFinal = .ok s₀ ∧
      run (authenticating c) s₀ inputs = .ok (outs, s) ∧
      (calls (authenticating c) s₀ inputs).map Transition.input = inputs ∧
      (calls (authenticating c) s₀ inputs).map Transition.output = outs ∧
      (∀ t ∈ calls (authenticating c) s₀ inputs,
        ∃ interval, Emits c params alg kFinal t interval) ∧
      (inputs.Pairwise (fun i j => i.2.2 ≤ j.2.2) →
        ∀ pre i post, inputs = pre ++ i :: post → ∀ i' ∈ pre ++ [i], ∀ disclosing interval,
          params.intervalOf i'.2.2 = .ok disclosing → params.intervalOf i.2.2 = .ok interval →
            params.disclosedIndex disclosing < interval) := by
  obtain ⟨s₀, hnew⟩ := exists_new c params alg kFinal
  obtain ⟨outs, s, hrun⟩ := exists_run_authenticating hnew htime
  refine ⟨s₀, outs, s, hnew, hrun, map_input_calls hrun, map_output_calls hrun,
    (emitting_of_run hnew hrun).emits, ?_⟩
  rintro hsorted pre i post rfl i' hi' disclosing interval hdisc hint
  apply TeslaSchedule.disclosedIndex_lt_of_le hdisc hint
  rcases List.mem_append.mp hi' with hi' | hi'
  · exact (List.pairwise_append.mp hsorted).2.2 i' hi' i List.mem_cons_self
  · rw [List.mem_singleton.mp hi']

theorem emissions_after_jump :
    let params : TeslaSchedule :=
      ⟨0, 10, 2, 5, 0, 8, by decide, by decide, by decide, by decide, by decide⟩
    ∃ s₀ outs s, new Crypto.toy params .hmacSha256 (ByteArr.replicate _ 0) = .ok s₀ ∧
      run (authenticating Crypto.toy) s₀ [([1], 0, 5), ([2], 1, 30), ([3], 2, 11)] = .ok (outs, s) ∧
      ∀ t ∈ calls (authenticating Crypto.toy) s₀ [([1], 0, 5), ([2], 1, 30), ([3], 2, 11)],
        ∃ interval, Emits Crypto.toy params .hmacSha256 (ByteArr.replicate _ 0) t interval := by
  intro params
  obtain ⟨s₀, outs, s, hnew, hrun, -, -, hemits, -⟩ := emissions_of_run Crypto.toy params
    .hmacSha256 (ByteArr.replicate _ 0) [([1], 0, 5), ([2], 1, 30), ([3], 2, 11)] (by decide)
  exact ⟨s₀, outs, s, hnew, hrun, hemits⟩

end TeslaSender

end SafeCast
