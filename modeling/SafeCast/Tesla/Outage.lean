import SafeCast.Tesla.Ledger

/-! # Loss, outages and the cap on hash work

Over an honest network, which loses, repeats and reorders the sender's datagrams but alters
none, the receiver trusts a key of the chain, and each of the sender's packets discloses
another one. What is left of a check is how far apart the two are: a packet is turned away
for its disclosed key exactly if that key is more than `gMax` steps above the trusted one.
No assumption on the chain step is needed.
-/

namespace SafeCast

open HashChain Runs

namespace System

variable {ι : Type*} {ops : InnerOps ι} {c : Crypto} {kFinal : ChainKey} {s s₀ s' : System ι}

/-- A network that alters nothing: what arrives is a datagram of the sender. -/
def Honest (s : System ι) (ext : Extension) (packet : Bytes) : Prop :=
  ∃ call ∈ s.calls, splitExtension call.datagram = some (ext, packet)

structure Synced (ops : InnerOps ι) (c : Crypto) (kFinal : ChainKey) (s : System ι) : Prop
    extends Aligned c kFinal s where
  trusts : s.receiver.verifier.Trusts c kFinal
  /-- The trusted key is the anchor or was disclosed by a packet. -/
  disclosed : s.receiver.verifier.trustedIndex = 0 ∨
    ∃ call ∈ s.calls, ∃ interval, s.sender.params.intervalOf call.sendNs = .ok interval ∧
      s.receiver.verifier.trustedIndex = s.sender.params.disclosedIndex interval
  delivered : ∀ a ∈ s.arrivals, ∀ i e, a.Enters ops c i e →
    s.receiver.params.disclosedIndex i ≤ s.receiver.verifier.trustedIndex
  books : ∃ ts, TeslaReceiver.Ledger ts s.receiver ∧ ∀ t ∈ ts, t.input.2 ≤ s.receiverClock

theorem Starts.synced (h : Starts c kFinal s) : Synced ops c kFinal s := by
  have haligned := h.aligned
  obtain ⟨hindex, hkey⟩ := h.anchored
  refine ⟨haligned, ⟨?_, ?_⟩, .inl hindex, ?_, [], ?_, by simp⟩
  · rw [hindex]
    exact Nat.zero_le _
  · rw [hkey, hindex, haligned.nChain]
    rfl
  · obtain ⟨-, -, -⟩ := h
    simp
  · obtain ⟨-, -, haccept⟩ := h
    exact TeslaReceiver.ledger_accept haccept

theorem Synced.disclosed_eq (h : Synced ops c kFinal s) {ext : Extension} {packet : Bytes}
    (hcan : Honest s ext packet) :
    s.receiver.params.disclosedIndex ext.interval ≤ s.receiver.verifier.nChain ∧
      ext.disclosed = element (fStep c) kFinal s.receiver.verifier.nChain
        (s.receiver.params.disclosedIndex ext.interval) := by
  obtain ⟨call, hcall, hsplit⟩ := hcan
  obtain ⟨hint, -, hdisclosed, -⟩ := h.split_datagram hcall hsplit
  obtain ⟨-, -, hle⟩ := TeslaSchedule.intervalOf_ok hint
  rw [h.nChain, hdisclosed, h.table.disclosedIndex_eq]
  exact ⟨(Nat.sub_le _ _).trans hle, rfl⟩

theorem Synced.handsOut (h : Synced ops c kFinal s) {ext : Extension} {packet : Bytes}
    (hcan : Honest s ext packet) {keys : List (ℕ × ChainKey)} {verifier : ChainVerifier}
    (hkeys : s.receiver.HandsOut c ext keys verifier) :
    s.receiver.params.disclosedIndex ext.interval ≤
        s.receiver.verifier.trustedIndex + s.receiver.verifier.gMax ∧
      verifier.trustedIndex = max s.receiver.verifier.trustedIndex
        (s.receiver.params.disclosedIndex ext.interval) ∧
      verifier.Trusts c kFinal ∧ ∀ k ∈ keys, k.2 = s.chainKey c kFinal k.1 := by
  rcases hkeys with hnew | ⟨hold, rfl, rfl⟩
  · obtain ⟨htrusts, hchain⟩ := ChainVerifier.Trusts.check_new (h.disclosed_eq hcan).2 hnew
    obtain ⟨hlt, -, hgap, -, -, rfl⟩ := ChainVerifier.check_new_iff.mp hnew
    refine ⟨by omega, (max_eq_right hlt.le).symm, htrusts, ?_⟩
    rwa [h.nChain] at hchain
  · obtain ⟨hle, -⟩ := ChainVerifier.check_notNew_iff.mp hold
    exact ⟨by omega, (max_eq_left hle).symm, h.trusts, by simp⟩

theorem Synced.exists_handsOut_iff (h : Synced ops c kFinal s) {ext : Extension} {packet : Bytes}
    (hcan : Honest s ext packet) :
    (∃ keys verifier, s.receiver.HandsOut c ext keys verifier) ↔
      s.receiver.params.disclosedIndex ext.interval ≤
        s.receiver.verifier.trustedIndex + s.receiver.verifier.gMax := by
  constructor
  · rintro ⟨keys, verifier, hkeys⟩
    exact (h.handsOut hcan hkeys).1
  · intro hcap
    obtain ⟨hle, hkey⟩ := h.disclosed_eq hcan
    rcases lt_or_ge s.receiver.verifier.trustedIndex
      (s.receiver.params.disclosedIndex ext.interval) with hlt | hold
    · obtain ⟨keys, verifier, hnew⟩ := h.trusts.exists_check_new hlt hle hcap
      rw [← hkey] at hnew
      exact ⟨keys, verifier, .inl hnew⟩
    · exact ⟨[], _, .inr ⟨ChainVerifier.check_notNew_iff.mpr ⟨hold, rfl⟩, rfl, rfl⟩⟩

/-- A packet of the sender that passes is ahead of the trusted key, also of the one it
discloses: the accept test rules out that a packet has disclosed its key. -/
theorem Synced.ahead (h : Synced ops c kFinal s) {datagram packet : Bytes} {arrivalNs : ℕ}
    {ext : Extension} {keys : List (ℕ × ChainKey)} {verifier : ChainVerifier}
    (hbound : s.senderClock ≤ arrivalNs + s.receiver.params.dTNs) (hcan : Honest s ext packet)
    (hpass : s.receiver.Passes ops c datagram arrivalNs ext packet keys verifier) :
    ext.interval = 0 ∨ verifier.trustedIndex < ext.interval := by
  obtain ⟨-, htrusted, -⟩ := h.handsOut hcan hpass.key
  obtain ⟨call, hcall, hsplit⟩ := hcan
  obtain ⟨hint, -⟩ := h.split_datagram hcall hsplit
  obtain ⟨-, hpos, -⟩ := TeslaSchedule.intervalOf_ok hint
  have hd := s.receiver.params.two_le_d
  have hold : s.receiver.verifier.trustedIndex < ext.interval := by
    rcases h.disclosed with hzero | ⟨call', hcall', interval, hint', heq⟩
    · omega
    · obtain ⟨hle, hmax, -⟩ := h.sent call' hcall'
      rw [h.table.intervalOf_eq] at hint'
      rw [heq, h.table.disclosedIndex_eq, TeslaSchedule.disclosedIndex]
      have := TeslaSchedule.disclosedIndex_lt_of_accepts hpass.admitted.safe hint'
        (hle.trans hbound) hmax
      omega
  right
  rw [htrusted, TeslaSchedule.disclosedIndex]
  omega

theorem Synced.books_arrive (h : Synced ops c kFinal s) {datagram : Bytes} {arrivalNs : ℕ}
    (hclock : s.receiverClock ≤ arrivalNs) {out : Except TeslaDrop (List Verdict) × Bytes}
    {receiver : TeslaReceiver ι}
    (hproc : s.receiver.processArrival ops c datagram arrivalNs = .ok (out, receiver)) :
    ∃ ts, TeslaReceiver.Ledger ts receiver ∧ ∀ t ∈ ts, t.input.2 ≤ arrivalNs := by
  obtain ⟨ts, hledger, hclocks⟩ := h.books
  refine ⟨_, hledger.step hproc, ?_⟩
  intro t ht
  rcases List.mem_append.mp ht with ht | ht
  · exact (hclocks t ht).trans hclock
  · rw [List.mem_singleton.mp ht]

theorem Synced.disclosed_max (h : Synced ops c kFinal s) {ext : Extension} {packet : Bytes}
    (hcan : Honest s ext packet) {trusted : ℕ}
    (htrusted : trusted = max s.receiver.verifier.trustedIndex
      (s.receiver.params.disclosedIndex ext.interval)) :
    trusted = 0 ∨
      ∃ call ∈ s.calls, ∃ interval, s.sender.params.intervalOf call.sendNs = .ok interval ∧
        trusted = s.sender.params.disclosedIndex interval := by
  rw [htrusted]
  rcases max_choice s.receiver.verifier.trustedIndex
    (s.receiver.params.disclosedIndex ext.interval) with hmax | hmax
  · rw [hmax]
    exact h.disclosed
  · obtain ⟨call, hcall, hsplit⟩ := hcan
    obtain ⟨hint, -⟩ := h.split_datagram hcall hsplit
    rw [hmax, ← h.table.disclosedIndex_eq]
    exact .inr ⟨call, hcall, ext.interval, hint, rfl⟩

theorem Synced.step (h : Synced ops c kFinal s) (hstep : Step ops c Honest s s') :
    Synced ops c kFinal s' := by
  have haligned := h.toAligned.step hstep
  cases hstep with
  | authenticate hclock hu64 hauth =>
    obtain ⟨-, hparams, -⟩ := h.genuine.authenticate hauth
    refine ⟨haligned, h.trusts, ?_, h.delivered, h.books⟩
    rw [hparams]
    rcases h.disclosed with hzero | ⟨call, hcall, hdisclosed⟩
    · exact .inl hzero
    · exact .inr ⟨call, List.mem_cons_of_mem _ hcall, hdisclosed⟩
  | tick hclock => exact ⟨haligned, h.trusts, h.disclosed, h.delivered, h.books⟩
  | @arrive datagram arrivalNs out receiver hclock hu64 hbound hnet hproc =>
    have hbooks := h.books_arrive hclock hproc
    obtain ⟨hparams, -, ⟨hver, -, -, hno⟩ | ⟨ext, packet, keys, verifier, hpass, hver, -⟩⟩ :=
      TeslaReceiver.processArrival_drawers hproc
    · refine ⟨haligned, ?_, ?_, ?_, hbooks⟩
      · rw [hver]
        exact h.trusts
      · rw [hver]
        exact h.disclosed
      · rintro a ha i e henters
        dsimp only
        rw [hver, hparams]
        rcases List.mem_cons.mp ha with rfl | ha
        · obtain ⟨ext, packet, keys, verifier, hpass, -⟩ := henters
          exact absurd hpass (hno ext packet keys verifier)
        · exact h.delivered a ha i e henters
    · -- the datagram passed, and trust moves up to the key it discloses
      have hcan := hnet ext packet hpass.admitted.split
      obtain ⟨-, htrusted, htrusts, -⟩ := h.handsOut hcan hpass.key
      refine ⟨haligned, ?_, ?_, ?_, hbooks⟩
      · rw [hver]
        exact htrusts
      · rw [hver]
        exact h.disclosed_max hcan htrusted
      · rintro a ha i e henters
        dsimp only
        rw [hver, hparams, htrusted]
        rcases List.mem_cons.mp ha with rfl | ha
        · obtain ⟨rfl, -⟩ := (enters_iff hpass).mp henters
          exact le_max_right _ _
        · exact (h.delivered a ha i e henters).trans (le_max_left _ _)

theorem Synced.reachable (h : Synced ops c kFinal s) (hsettled : Settled ops c s)
    (hjudged : Judged c kFinal s) (hreach : Reachable ops c Honest s s') :
    Synced ops c kFinal s' ∧ Settled ops c s' ∧ Judged c kFinal s' := by
  induction hreach with
  | refl => exact ⟨h, hsettled, hjudged⟩
  | tail _ hstep ih =>
    obtain ⟨hs, hsettled, hjudged⟩ := ih
    exact ⟨hs.step hstep, hsettled.step hs.ahead hstep,
      hjudged.step hs.toAligned (fun hcan hkeys => (hs.handsOut hcan hkeys).2.2.2) hstep⟩

theorem Reachable.subset {Can : System ι → Extension → Bytes → Prop}
    (h : Reachable ops c Can s s') : s.calls ⊆ s'.calls ∧ s.arrivals ⊆ s'.arrivals := by
  induction h with
  | refl => exact ⟨List.Subset.refl _, List.Subset.refl _⟩
  | tail _ hstep ih =>
    obtain ⟨hcalls, harrivals⟩ := ih
    cases hstep with
    | authenticate => exact ⟨List.subset_cons_of_subset _ hcalls, harrivals⟩
    | tick => exact ⟨hcalls, harrivals⟩
    | arrive => exact ⟨hcalls, List.subset_cons_of_subset _ harrivals⟩

theorem Synced.verdict (hs : Synced ops c kFinal s) (hsettled : Settled ops c s)
    (hjudged : Judged c kFinal s) {call : Call} (hcall : call ∈ s.calls) {a : Arrival ι}
    (ha : a ∈ s.arrivals) (hunaltered : a.datagram = call.datagram) {i : ℕ} {e : DrawerEntry}
    (henters : a.Enters ops c i e) (htrusted : i ≤ s.receiver.verifier.trustedIndex) :
    (∃ v ∈ s.verdicts, v.interval = i ∧ v.entry = e) ∧
      ∀ v ∈ s.verdicts, v.interval = i → v.entry = e → e.extIndex = call.extIndex →
        v.verified = true := by
  obtain ⟨hint, hcovered, hmac⟩ := hs.enters_call hcall hunaltered henters
  obtain ⟨-, hpos, -⟩ := TeslaSchedule.intervalOf_ok hint
  refine ⟨(hsettled.verdict_iff i e).mpr ⟨⟨a, ha, henters⟩, hpos, htrusted⟩, ?_⟩
  rintro v hv rfl rfl hindex
  rw [hjudged v hv]
  apply decide_eq_true
  rw [hcovered, hmac, hindex]

theorem Synced.exists_processArrival (h : Synced ops c kFinal s) {datagram packet : Bytes}
    {arrivalNs : ℕ} (hclock : s.receiverClock ≤ arrivalNs) {ext : Extension}
    (hadm : s.receiver.Admitted datagram arrivalNs ext packet)
    (hinner : ∃ x, ops.unprotect s.receiver.inner packet = .ok x) :
    ∃ out receiver, s.receiver.processArrival ops c datagram arrivalNs = .ok (out, receiver) := by
  obtain ⟨ts, hledger, hclocks⟩ := h.books
  have hbalanced := hledger.balanced fun t ht => (hclocks t ht).trans hclock
  apply (hbalanced.processArrival_iff datagram).mpr
  intro ext' packet' hsplit _
  cases hadm.split.symm.trans hsplit
  exact ⟨⟨_, hadm.safe⟩, fun _ => hinner⟩

/-- A packet of the sender that arrives in time and passes the SRTP layer is turned away for
its disclosed key exactly if that key is more than `gMax` above the trusted one; so never if
a packet of at most `gMax` intervals before was delivered. Otherwise it is delivered, and it
is counted once the trusted index reaches its interval, as verified if the receiver recovered
the sender's index. -/
theorem honest_packet_rejected_iff (h₀ : Starts c kFinal s₀)
    (hreach : Reachable ops c Honest s₀ s) {call : Call} (hcall : call ∈ s.calls) {arrivalNs : ℕ}
    (hclock : s.receiverClock ≤ arrivalNs) (hu64 : arrivalNs ≤ u64Max)
    (hbound : s.senderClock ≤ arrivalNs + s.receiver.params.dTNs) {ext : Extension}
    {packet : Bytes} (hadm : s.receiver.Admitted call.datagram arrivalNs ext packet) {g : ℕ}
    {plain : Bytes} {inner : ι}
    (hinner : ops.unprotect s.receiver.inner packet = .ok ((.ok g, plain), inner)) :
    ∃ out receiver, s.receiver.processArrival ops c call.datagram arrivalNs = .ok (out, receiver) ∧
      (out.1 = .error .badDisclosure ↔
        s.receiver.verifier.trustedIndex + s.receiver.verifier.gMax <
          s.receiver.params.disclosedIndex ext.interval) ∧
      (∀ a ∈ s.arrivals, ∀ i e, a.Enters ops c i e →
        ext.interval ≤ i + s.receiver.verifier.gMax → out.1 ≠ .error .badDisclosure) ∧
      (out.1 ≠ .error .badDisclosure → (∃ verdicts, out.1 = .ok verdicts) ∧
        ∀ s', Reachable ops c Honest { s with
            receiver := receiver
            receiverClock := arrivalNs
            arrivals := ⟨s.receiver, s.calls, call.datagram, arrivalNs⟩ :: s.arrivals
            verdicts := s.verdicts ++ TeslaReceiver.verdictsOf out.1 } s' →
          ext.interval ≤ s'.receiver.verifier.trustedIndex →
          (∃ v ∈ s'.verdicts, v.interval = ext.interval ∧
            v.entry = s.receiver.entryOf arrivalNs ext packet) ∧
          ∀ v ∈ s'.verdicts, v.interval = ext.interval →
            v.entry = s.receiver.entryOf arrivalNs ext packet →
            s.receiver.recovery.recover (seqOf packet) = call.extIndex → v.verified = true) := by
  have hstart : Synced ops c kFinal s₀ := h₀.synced
  obtain ⟨hs, hsettled, hjudged⟩ := hstart.reachable h₀.settled h₀.judged hreach
  have hcan : Honest s ext packet := ⟨call, hcall, hadm.split⟩
  obtain ⟨out, receiver, hproc⟩ := hs.exists_processArrival hclock hadm ⟨_, hinner⟩
  have hiff : out.1 = .error .badDisclosure ↔
      s.receiver.verifier.trustedIndex + s.receiver.verifier.gMax <
        s.receiver.params.disclosedIndex ext.interval := by
    rw [← not_le, ← hs.exists_handsOut_iff hcan]
    rcases TeslaReceiver.processArrival_disclosed hadm hinner hproc with ⟨hbad, hno⟩ |
      ⟨keys, verifier, verdicts, hpass, hok⟩
    · simpa [hbad] using hno
    · simpa [hok] using ⟨keys, verifier, hpass.key⟩
  refine ⟨out, receiver, hproc, hiff, ?_, ?_⟩
  · intro a ha i e henters hle hbad
    -- the key that the delivered packet disclosed is trusted by now
    have htrusted := hs.delivered a ha i e henters
    have hfar := hiff.mp hbad
    unfold TeslaSchedule.disclosedIndex at htrusted hfar
    omega
  · intro hgood
    rcases TeslaReceiver.processArrival_disclosed hadm hinner hproc with ⟨hbad, -⟩ |
      ⟨keys, verifier, verdicts, hpass, hok⟩
    · exact absurd hbad hgood
    refine ⟨⟨verdicts, hok⟩, ?_⟩
    intro s' hlater htrusted
    have hstep : Step ops c Honest s _ := .arrive hclock hu64 hbound
      (fun ext packet hsplit => ⟨call, hcall, hsplit⟩) hproc
    obtain ⟨hs', hsettled', hjudged'⟩ := hs.reachable hsettled hjudged (.head hstep hlater)
    obtain ⟨hcalls, harrivals⟩ := Reachable.subset hlater
    exact hs'.verdict hsettled' hjudged' (hcalls hcall) (harrivals List.mem_cons_self) rfl
      ⟨ext, packet, keys, verifier, hpass, rfl, rfl⟩ htrusted

/-! ## The small stream with an outage -/

/-- A packet of interval 1 has arrived, those of intervals 2 and 3 are lost, and that of
interval 4, which discloses key 2, comes in. -/
structure ToyOutage (s₀ s : System Unit) (call : Call) (ext : Extension) (packet : Bytes) :
    Prop where
  starts : Starts Crypto.toy toyFinalKey s₀
  reachable : Reachable InnerOps.acceptAll Crypto.toy Honest s₀ s
  call_mem : call ∈ s.calls
  arrivals : s.arrivals.map Arrival.arrivalNs = [1]
  interval : ext.interval = 4
  receiverClock : s.receiverClock ≤ 35
  senderClock : s.senderClock ≤ 35 + s.receiver.params.dTNs
  admitted : s.receiver.Admitted call.datagram 35 ext packet
  inner : InnerOps.acceptAll.unprotect s.receiver.inner packet = .ok ((.ok 0, packet), ())

theorem exists_toyOutage {gMax : UInt32} {receiver receiver₂ : TeslaReceiver Unit}
    {outs : List (Except TeslaDrop (List Verdict) × Bytes)}
    (haccept : TeslaReceiver.accept Crypto.toy toyCommitment [] [] 0 gMax () = .ok (some receiver))
    (hsafe : receiver.params.accepts 35 4 = .ok .safe)
    (hrun : run (TeslaReceiver.arrival InnerOps.acceptAll Crypto.toy) receiver
      [(toyDatagram (toyPacket 3 1) 3 1 1, 1), (toyDatagram (toyPacket 6 1) 6 4 4, 35)] =
        .ok (outs, receiver₂)) :
    ∃ s₀ s call ext packet out₁ out₂, ToyOutage s₀ s call ext packet ∧ outs = [out₁, out₂] ∧
      s.receiver.processArrival InnerOps.acceptAll Crypto.toy call.datagram 35 =
        .ok (out₂, receiver₂) := by
  obtain ⟨sender, hsender⟩ : ∃ sender,
    TeslaSender.new Crypto.toy toySchedule .gmacAes128 toyFinalKey = .ok sender := ⟨_, rfl⟩
  have h₀ : Starts Crypto.toy toyFinalKey { sender := sender, receiver := receiver } :=
    .mk hsender (toy_describes hsender) haccept
  obtain ⟨datagrams, sender₂, hsent, hdatagrams⟩ := exists_of_returns
    (x := run (TeslaSender.authenticating Crypto.toy) sender
      [(toyPacket 3 1, 3, 0), (toyPacket 6 1, 6, 35)])
    (q := fun out _ => out = [toyDatagram (toyPacket 3 1) 3 1 1, toyDatagram (toyPacket 6 1) 6 4 4])
    (by cases hsender; decide +kernel)
  obtain ⟨d₁, sender₁, d₂, hauth₁, hauth₂, rfl⟩ := run_pair hsent
  obtain ⟨out₁, receiver₁, out₂, hproc₁, hproc₂, rfl⟩ := run_pair hrun
  obtain ⟨rfl, rfl⟩ : d₁ = toyDatagram (toyPacket 3 1) 3 1 1 ∧
      d₂ = toyDatagram (toyPacket 6 1) 6 4 4 := by simpa using hdatagrams
  have hsplit : splitExtension (toyDatagram (toyPacket 6 1) 6 4 4) = some (_, toyPacket 6 1) :=
    splitExtension_appendExtension (by simp [toyPacket]) (by decide)
  have hparams : receiver₁.params = receiver.params :=
    (TeslaReceiver.processArrival_drawers hproc₁).1
  have hadm : receiver₁.Admitted (toyDatagram (toyPacket 6 1) 6 4 4) 35 _ _ :=
    ⟨hsplit, by decide, by rw [hparams]; exact hsafe⟩
  -- the receiver hears the first packet before the sender is called again
  have hreach₁ : Reachable InnerOps.acceptAll Crypto.toy Honest
      { sender := sender, receiver := receiver } _ :=
    .single (.authenticate (Nat.zero_le 0) (Nat.zero_le _) hauth₁)
  have hreach₂ := hreach₁.tail (.arrive (Nat.zero_le 1) (by decide) (Nat.zero_le _)
    (fun ext packet hsplit => ⟨_, List.mem_cons_self, hsplit⟩) hproc₁)
  have hreach₃ := hreach₂.tail (.authenticate (Nat.zero_le 35) (by decide) hauth₂)
  exact ⟨_, _, _, _, _, out₁, out₂, ⟨h₀, hreach₃, List.mem_cons_self, rfl, rfl,
    (by decide : 1 ≤ 35), Nat.le_add_right _ _, hadm, rfl⟩, rfl, hproc₂⟩

/-- With a cap of eight steps the packet after the outage is delivered, and the packet of
interval 1 gets its verdict. -/
theorem honest_packet_delivered :
    ∃ (s₀ s : System Unit) (call : Call) (ext : Extension) (packet : Bytes),
      ToyOutage s₀ s call ext packet ∧
      ∃ out receiver verdicts, s.receiver.processArrival InnerOps.acceptAll Crypto.toy
          call.datagram 35 = .ok (out, receiver) ∧ out.1 = .ok verdicts ∧
        verdicts.map Verdict.verified = [true] ∧
        s.receiver.params.disclosedIndex ext.interval ≤
          s.receiver.verifier.trustedIndex + s.receiver.verifier.gMax := by
  obtain ⟨receiver, haccept⟩ : ∃ receiver,
    TeslaReceiver.accept Crypto.toy toyCommitment [] [] 0 8 () = .ok (some receiver) := ⟨_, rfl⟩
  obtain ⟨outs, receiver₂, hrun, hout⟩ := exists_of_returns
    (x := run (TeslaReceiver.arrival InnerOps.acceptAll Crypto.toy) receiver
      [(toyDatagram (toyPacket 3 1) 3 1 1, 1), (toyDatagram (toyPacket 6 1) 6 4 4, 35)])
    (q := fun out _ => (out.map fun o =>
      o.1.toOption.map fun verdicts => verdicts.map Verdict.verified) = [some [], some [true]])
    (by cases haccept; decide +kernel)
  obtain ⟨s₀, s, call, ext, packet, out₁, out₂, h, rfl, hproc⟩ := exists_toyOutage haccept
    (by cases haccept; decide) hrun
  obtain ⟨-, verdict, hverdict, hverified⟩ : out₁.1.toOption = some [] ∧
      ∃ verdict, out₂.1.toOption = some [verdict] ∧ verdict.verified = true := by simpa using hout
  have hok : out₂.1 = .ok [verdict] := by
    cases hres : out₂.1 <;> simp_all [Except.toOption]
  obtain ⟨out, receiver', hproc', hiff, -, -⟩ := honest_packet_rejected_iff h.starts h.reachable
    h.call_mem h.receiverClock (by decide) h.senderClock h.admitted h.inner
  obtain ⟨rfl, rfl⟩ := Prod.mk.inj (Except.ok.inj (hproc.symm.trans hproc'))
  refine ⟨s₀, s, call, ext, packet, h, out₂, receiver₂, [verdict], hproc, hok,
    by simp [hverified], ?_⟩
  refine not_lt.mp (mt hiff.mpr ?_)
  simp [hok]

/-- With a cap of one step it is turned away. -/
theorem outage_locks_out :
    ∃ (s₀ s : System Unit) (call : Call) (ext : Extension) (packet : Bytes),
      Starts Crypto.toy toyFinalKey s₀ ∧
      Reachable InnerOps.acceptAll Crypto.toy Honest s₀ s ∧ call ∈ s.calls ∧
      s.receiverClock ≤ 35 ∧ s.senderClock ≤ 35 + s.receiver.params.dTNs ∧
      s.receiver.Admitted call.datagram 35 ext packet ∧
      InnerOps.acceptAll.unprotect s.receiver.inner packet = .ok ((.ok 0, packet), ()) ∧
      ∃ out receiver, s.receiver.processArrival InnerOps.acceptAll Crypto.toy call.datagram 35 =
        .ok (out, receiver) ∧ out.1 = .error .badDisclosure := by
  obtain ⟨receiver, haccept⟩ : ∃ receiver,
    TeslaReceiver.accept Crypto.toy toyCommitment [] [] 0 1 () = .ok (some receiver) := ⟨_, rfl⟩
  obtain ⟨outs, receiver₂, hrun, hout⟩ := exists_of_returns
    (x := run (TeslaReceiver.arrival InnerOps.acceptAll Crypto.toy) receiver
      [(toyDatagram (toyPacket 3 1) 3 1 1, 1), (toyDatagram (toyPacket 6 1) 6 4 4, 35)])
    (q := fun out _ => out.map Prod.fst = [.ok [], .error .badDisclosure])
    (by cases haccept; decide +kernel)
  obtain ⟨s₀, s, call, ext, packet, out₁, out₂, h, rfl, hproc⟩ := exists_toyOutage haccept
    (by cases haccept; decide) hrun
  obtain ⟨-, hbad⟩ : out₁.1 = .ok [] ∧ out₂.1 = .error .badDisclosure := by simpa using hout
  exact ⟨s₀, s, call, ext, packet, h.starts, h.reachable, h.call_mem, h.receiverClock,
    h.senderClock, h.admitted, h.inner, out₂, receiver₂, hproc, hbad⟩

end System

end SafeCast
