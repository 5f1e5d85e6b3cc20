import SafeCast.Simulation.EndToEnd
import SafeCast.Tesla.IndexAgreement
import SafeCast.Tesla.System

/-! # Verdicts on genuine packets

A packet of the sender waits with the index that the receiver recovered, and its tag was
computed for the index the sender gave it. libsrtp keeps 48 bits of the index in the
nonce, the recovery keeps 64. So a genuine packet is verified when its key arrives, unless
packets of other group members have driven the index past `2 ^ 48` and the tag is a GMAC
tag, which covers all 64 bits.
-/

namespace SafeCast

open HashChain Runs

namespace System

section

variable {w : ℕ} {c : Crypto} {kFinal : ChainKey} {throwaway : KeySalt}
  {packets : List (ℕ × Bytes)} {s s₀ s' : System (ReceiverKeyManager (SrtpStream w))}

/-- No chain key is presented before it is public, and packet `i` of the sender passes the
SRTP layer only if libsrtp estimates its index as `i`. -/
structure Placed (c : Crypto) (kFinal : ChainKey) (throwaway : KeySalt)
    (packets : List (ℕ × Bytes)) (s : System (ReceiverKeyManager (SrtpStream w)))
    (ext : Extension) (packet : Bytes) : Prop where
  key : Unguessed c kFinal s ext packet
  index : ∀ i, (i, packet) ∈ packets → ∀ g plain inner,
    s.receiver.inner.unprotect (SrtpStream.ops c throwaway w) c packet =
        .ok ((.ok g, plain), inner) →
      (s.receiver.inner.rdbx.estimateIndex (seqOf packet)).1 = i

/-- The indices in every run: the two estimators stand together, and a delivered packet of
the sender waits with its own index, up to 48 bits. -/
structure Located (c : Crypto) (throwaway : KeySalt) (packets : List (ℕ × Bytes))
    (s : System (ReceiverKeyManager (SrtpStream w))) : Prop where
  tracks : s.receiver.Tracks
  index : ∀ a ∈ s.arrivals, ∀ i e,
    a.Enters (ReceiverKeyManager.innerOps (SrtpStream.ops c throwaway w) c) c i e →
      ∀ n, (n, e.covered) ∈ packets → e.extIndex % 2 ^ 48 = n

theorem Located.step (h : Located c throwaway packets s)
    (hstep : Step (ReceiverKeyManager.innerOps (SrtpStream.ops c throwaway w) c) c
      (Placed c kFinal throwaway packets) s s') : Located c throwaway packets s' := by
  cases hstep with
  | authenticate => exact ⟨h.tracks, h.index⟩
  | tick => exact ⟨h.tracks, h.index⟩
  | @arrive datagram arrivalNs out receiver hclock hu64 hbound hnet hproc =>
    refine ⟨h.tracks.processArrival hproc, ?_⟩
    intro a ha i e henters n hn
    rcases List.mem_cons.mp ha with rfl | ha
    · obtain ⟨ext, packet, keys, verifier, hpass, rfl, rfl⟩ := henters
      obtain ⟨g, plain, inner, hinner⟩ := hpass.authentic
      exact (h.tracks.recover_mod packet).trans
        ((hnet ext packet hpass.admitted.split).index n hn g plain inner hinner)
    · exact h.index a ha i e henters n hn

end

variable {windowSize : ℕ} {c : Crypto} {kFinal : ChainKey} {throwaway : KeySalt}
  {packets : List (ℕ × Bytes)}
  {s s₀ : System (ReceiverKeyManager (SrtpStream (windowBits windowSize)))}

theorem Starts.located {ssrc k seekCap : ℕ} {scheme : GenerationScheme} {ratchet : StreamRatchet}
    (h₀ : Starts c kFinal s₀)
    (hnew : ReceiverKeyManager.new (SrtpStream.ops c throwaway _)
      (SrtpStream.addStream ssrc windowSize) scheme ratchet k seekCap = .ok s₀.receiver.inner) :
    Located c throwaway packets s₀ := by
  obtain ⟨hrdbx, hlimit⟩ := ReceiverKeyManager.fresh_of_new hnew
  obtain ⟨-, -, haccept⟩ := h₀
  obtain ⟨params, -, rfl⟩ := TeslaReceiver.accept_ok haccept
  constructor
  case tracks =>
    refine ⟨hlimit, ?_⟩
    rw [hrdbx]
    rfl
  case index =>
    intro a ha
    cases ha

theorem Starts.located_of_reachable {ssrc k seekCap : ℕ} {scheme : GenerationScheme}
    {ratchet : StreamRatchet} (h₀ : Starts c kFinal s₀)
    (hnew : ReceiverKeyManager.new (SrtpStream.ops c throwaway _)
      (SrtpStream.addStream ssrc windowSize) scheme ratchet k seekCap = .ok s₀.receiver.inner)
    (hreach : Reachable (ReceiverKeyManager.innerOps (SrtpStream.ops c throwaway _) c) c
      (Placed c kFinal throwaway packets) s₀ s) : Located c throwaway packets s := by
  induction hreach with
  | refl => exact h₀.located hnew
  | tail _ hstep ih => exact ih.step hstep

end System

/-! ## Driving the index ahead -/

namespace ReceiverKeyManager

variable {w : ℕ} {c : Crypto} {start : StreamRatchet} {k ssrc n x : ℕ}
  {r : ReceiverKeyManager (SrtpStream w)}

/-- A receiver with one key per epoch that has accepted `n` packets, the highest at index
`x`. -/
structure AtIndex (c : Crypto) (start : StreamRatchet) (k ssrc n x : ℕ)
    (r : ReceiverKeyManager (SrtpStream w)) : Prop where
  window : KeyWindow c start k r
  scheme : r.scheme = .epochOnly
  seekCap_pos : 1 ≤ r.seekCap
  ssrc_eq : ssrc = r.session.stream.ssrc
  left : r.session.stream.numLeft + n = keyUsageLimit
  frontier : r.frontier = none ∨ r.frontier = some 0
  index : r.rdbx.index = x

theorem atIndex_new {throwaway : KeySalt} {windowSize seekCap : ℕ} (hstart : start.generation = 0)
    (hcap : 1 ≤ seekCap) {r : ReceiverKeyManager (SrtpStream (windowBits windowSize))}
    (h : new (SrtpStream.ops c throwaway _) (SrtpStream.addStream ssrc windowSize) .epochOnly start
      k seekCap = .ok r) : AtIndex c start k ssrc 0 0 r := by
  have hwindow : KeyWindow c start k r := keyWindow_new hstart h
  obtain ⟨s, hk, -, hs, rfl⟩ := new_ok h
  obtain rfl := SrtpStream.addStream_ok hs
  exact ⟨hwindow, rfl, hcap, rfl, rfl, .inl rfl, rfl⟩

theorem AtIndex.position (h : AtIndex c start k ssrc n x r) {seq y : ℕ}
    (hseq : seq % 2 ^ 16 = y % 2 ^ 16) (hxy : x < y) (hyx : y < x + 2 ^ 15) :
    r.rdbx.position (seq % 2 ^ 16) = y := by
  have hindex := h.index
  rw [hseq]
  exact Rdbx.position_of_near _ (abs_lt.mpr ⟨by omega, by omega⟩)

theorem AtIndex.estimateIndex (h : AtIndex c start k ssrc n x r) {seq y : ℕ}
    (hseq : seq % 2 ^ 16 = y % 2 ^ 16) (hxy : x < y) (hyx : y < x + 2 ^ 15) :
    r.rdbx.estimateIndex (seq % 2 ^ 16) = (y % 2 ^ 48, (y : ℤ) - r.rdbx.index) := by
  rw [Rdbx.estimateIndex_eq _ (Nat.mod_lt _ (by decide)), h.position hseq hxy hyx]

theorem AtIndex.unprotect (throwaway : KeySalt) (h : AtIndex c start k ssrc n x r)
    (hlt : ssrc < 2 ^ 32) (seq ts y : ℕ) (body : Bytes) (hseq : seq % 2 ^ 16 = y % 2 ^ 16)
    (hxy : x < y) (hyx : y < x + 2 ^ 15) (hx : x < 2 ^ 63) (hn : n < 2 ^ 47)
    (hlen : rtpHeaderLen + body.length + gcmTagLen < 2 ^ 31) :
    ∃ r', r.unprotect (SrtpStream.ops c throwaway w) c
        (sealedPacket c (start.keyAt c 0) seq ts ssrc (y % 2 ^ 48) body) =
          .ok ((.ok 0, rtpHeader seq ts ssrc ++ body), r') ∧
      AtIndex c start k ssrc (n + 1) y r' := by
  have hindex := h.index
  have hleft := h.left
  unfold keyUsageLimit at hleft
  have hreach : r.InReach 0 := by
    have hpos := r.ring_pos
    have hcap := h.seekCap_pos
    unfold InReach nextGeneration
    rcases h.frontier with hf | hf <;> rw [hf]
    · exact ⟨nofun, by simp only [Option.elim_none]; omega⟩
    · refine ⟨?_, by simp only [Option.elim_some]; omega⟩
      rintro f ⟨⟩
      omega
  obtain ⟨plan, stats, hplan, hgen, hu⟩ := h.window.unprotect_sealedPacket throwaway ts body
    (fun _ => ⟨none, by rw [h.scheme]; rfl⟩) hreach h.ssrc_eq hlt hlen
    (h.estimateIndex hseq hxy hyx) (by rw [Rdbx.check, if_pos (by omega)]) (by omega)
  refine ⟨_, hu, ?_⟩
  exact {
    window := h.window.unprotect hu
    scheme := (unprotect_scheme hu).trans h.scheme
    seekCap_pos := h.seekCap_pos.trans (adopt_seekCap r plan).ge
    ssrc_eq := h.ssrc_eq
    left := by
      unfold keyUsageLimit
      dsimp only
      omega
    frontier := by
      refine .inr ((h.window.frontier_adopt hplan).trans ?_)
      rw [hgen]
      rcases h.frontier with hf | hf <;> simp [hf]
    index := (r.rdbx.addIndex_index (by omega) (by omega)).trans (by omega) }

end ReceiverKeyManager

namespace System

variable {w : ℕ} {c : Crypto} {kFinal : ChainKey} {throwaway : KeySalt} {start : StreamRatchet}
  {packets : List (ℕ × Bytes)} {k ssrc n : ℕ}
  {s s₁ : System (ReceiverKeyManager (SrtpStream w))}

/-- From `s₁` on, only `n` packets of another group member have arrived, each half a
rollover quarter ahead of the one before, and each was dropped for its disclosed key. -/
structure Flooded (c : Crypto) (start : StreamRatchet) (k ssrc n : ℕ)
    (s₁ s : System (ReceiverKeyManager (SrtpStream w))) : Prop where
  sender : s.sender = s₁.sender
  senderClock : s.senderClock = s₁.senderClock
  calls : s.calls = s₁.calls
  receiverClock : s.receiverClock = s₁.receiverClock
  params : s.receiver.params = s₁.receiver.params
  verifier : s.receiver.verifier = s₁.receiver.verifier
  drawers : s.receiver.drawers = s₁.receiver.drawers
  pending : s.receiver.pending = s₁.receiver.pending
  inner : s.receiver.inner.AtIndex c start k ssrc n (2 ^ 14 * n)

/-- A packet of another group member for index `2 ^ 14 * n`. -/
def floodPacket (c : Crypto) (start : StreamRatchet) (ssrc n : ℕ) : Bytes :=
  sealedPacket c (start.keyAt c 0) (2 ^ 14 * n) 0 ssrc (2 ^ 14 * n % 2 ^ 48) []

/-- A label beyond the chain that passes the accept test at the receiver's time. -/
structure Stray (s : System (ReceiverKeyManager (SrtpStream w))) (label : ℕ) : Prop where
  lt : label < 2 ^ 32
  safe : s.receiver.params.accepts s.receiverClock label = .ok .safe
  untrusted : s.receiver.verifier.trustedIndex < s.receiver.params.disclosedIndex label
  beyond : s.receiver.verifier.nChain < s.receiver.params.disclosedIndex label
  clock : s.senderClock ≤ s.receiverClock + s.receiver.params.dTNs
  u64 : s.receiverClock ≤ u64Max

theorem Flooded.step (hf : (fStep c).Injective) (hs : Sound c kFinal s) (hssrc : ssrc < 2 ^ 32)
    (h : Flooded c start k ssrc n s₁ s) (hn : n < 2 ^ 47) {label : ℕ} (hlabel : Stray s₁ label)
    (hlength : ∀ p ∈ packets, p.2.length ≠ rtpHeaderLen + gcmTagLen) :
    ∃ s', Step (ReceiverKeyManager.innerOps (SrtpStream.ops c throwaway w) c) c
        (Placed c kFinal throwaway packets) s s' ∧ Flooded c start k ssrc (n + 1) s₁ s' := by
  obtain ⟨inner, hu, hnext⟩ := h.inner.unprotect throwaway hssrc (2 ^ 14 * (n + 1)) 0
    (2 ^ 14 * (n + 1)) [] rfl (by omega) (by omega) (by omega) hn (by decide)
  have hinner : (ReceiverKeyManager.innerOps (SrtpStream.ops c throwaway w) c).unprotect
      s.receiver.inner (floodPacket c start ssrc (n + 1)) = .ok ((.ok 0, _), inner) := hu
  have hlen : (floodPacket c start ssrc (n + 1)).length = rtpHeaderLen + gcmTagLen := by
    simp [floodPacket]
  have hsplit : splitExtension (appendExtension (floodPacket c start ssrc (n + 1)) label
      (s.chainKey c kFinal 0) (ByteArr.replicate _ 0)) =
        some (⟨label, s.chainKey c kFinal 0, ByteArr.replicate _ 0⟩, _) :=
    splitExtension_appendExtension (List.ne_nil_of_length_pos (by rw [hlen]; decide)) hlabel.lt
  have hadm : s.receiver.Admitted _ s₁.receiverClock _ _ :=
    ⟨hsplit, by omega, by rw [h.params]; exact hlabel.safe⟩
  have huntrusted : s.receiver.verifier.trustedIndex < s.receiver.params.disclosedIndex label := by
    rw [h.params, h.verifier]
    exact hlabel.untrusted
  have hbeyond : s.receiver.verifier.nChain < s.receiver.params.disclosedIndex label := by
    rw [h.params, h.verifier]
    exact hlabel.beyond
  have hproc := TeslaReceiver.processArrival_authentic hadm hinner
    (TeslaReceiver.disclose_beyondChain (c := c) huntrusted hbeyond)
  refine ⟨_, .arrive h.receiverClock.le hlabel.u64 ?_ ?_ hproc, ?_⟩
  · rw [h.senderClock, h.params]
    exact hlabel.clock
  · intro ext packet hext
    rw [hsplit] at hext
    cases hext
    refine ⟨hs.unguessed hf (Nat.zero_le _) (.inl rfl) rfl _, ?_⟩
    intro i hi
    exact absurd hlen (hlength _ hi)
  · exact ⟨h.sender, h.senderClock, h.calls, rfl, h.params, h.verifier, h.drawers, h.pending, hnext⟩

theorem exists_flooded {windowSize label : ℕ}
    {s₀ s₁ : System (ReceiverKeyManager (SrtpStream (windowBits windowSize)))}
    (hf : (fStep c).Injective) (h₀ : Starts c kFinal s₀)
    (hchain : Set.InjOn (s₀.chainKey c kFinal) (Set.Iic s₀.sender.params.nChain))
    (hreach : Reachable (ReceiverKeyManager.innerOps (SrtpStream.ops c throwaway _) c) c
      (Placed c kFinal throwaway packets) s₀ s₁)
    (hssrc : ssrc < 2 ^ 32) (hinner : s₁.receiver.inner.AtIndex c start k ssrc 0 0)
    (hlabel : Stray s₁ label) (hlength : ∀ p ∈ packets, p.2.length ≠ rtpHeaderLen + gcmTagLen)
    (n : ℕ) (hn : n ≤ 2 ^ 47) :
    ∃ s, Reachable (ReceiverKeyManager.innerOps (SrtpStream.ops c throwaway _) c) c
        (Placed c kFinal throwaway packets) s₀ s ∧ Flooded c start k ssrc n s₁ s := by
  induction n with
  | zero => exact ⟨s₁, hreach, rfl, rfl, rfl, rfl, rfl, rfl, rfl, rfl, hinner⟩
  | succ n ih =>
    obtain ⟨s, hs, hflooded⟩ := ih (by omega)
    have hsound := (h₀.invariant hchain (fun _ _ _ h => h.key) hs).1
    obtain ⟨s', hstep, hflooded'⟩ :=
      hflooded.step hf hsound hssrc (by omega) hlabel hlength
    exact ⟨s', hs.tail hstep, hflooded'⟩

variable (throwaway) in
/-- A packet of the sender for an index ahead of the highest one arrives unaltered; what the
receiver does with its disclosed key is left open. -/
theorem exists_step_genuine (hf : (fStep c).Injective) (hs : Sound c kFinal s)
    (hssrc : ssrc < 2 ^ 32) {x : ℕ} (hr : s.receiver.inner.AtIndex c start k ssrc n x)
    {call : Call} (hcall : call ∈ s.calls) {seq ts y : ℕ} {body : Bytes}
    (hpacket : call.packet = sealedPacket c (start.keyAt c 0) seq ts ssrc (y % 2 ^ 48) body)
    (hlen : rtpHeaderLen + body.length + gcmTagLen < 2 ^ 31) (hseq : seq % 2 ^ 16 = y % 2 ^ 16)
    (hxy : x < y) (hyx : y < x + 2 ^ 15) (hx : x < 2 ^ 63) (hn : n < 2 ^ 47)
    (hindex : ∀ j, (j, call.packet) ∈ packets → j = y % 2 ^ 48)
    {i t : ℕ} (hint : s.sender.params.intervalOf call.sendNs = .ok i) (hclock : s.receiverClock ≤ t)
    (hu64 : t ≤ u64Max) (hbound : s.senderClock ≤ t + s.receiver.params.dTNs)
    (hsafe : s.receiver.params.accepts t i = .ok .safe) :
    ∃ ext inner, ext.interval = i ∧
      ext.disclosed = s.chainKey c kFinal (s.sender.params.disclosedIndex i) ∧
      inner.AtIndex c start k ssrc (n + 1) y ∧
      s.receiver.Admitted call.datagram t ext call.packet ∧
      (∃ g plain, s.receiver.inner.unprotect (SrtpStream.ops c throwaway w) c call.packet =
        .ok ((.ok g, plain), inner)) ∧
      ∀ verdicts r, (s.receiver.authenticated inner call.packet).disclose c ext t =
          .ok (.ok verdicts, r) →
        Step (ReceiverKeyManager.innerOps (SrtpStream.ops c throwaway w) c) c
          (Placed c kFinal throwaway packets) s { s with
            receiver := r.deliver i (s.receiver.entryOf t ext call.packet)
            receiverClock := t
            arrivals := ⟨s.receiver, s.calls, call.datagram, t⟩ :: s.arrivals
            verdicts := s.verdicts ++ verdicts } := by
  obtain ⟨inner, hu, hnext⟩ := hr.unprotect throwaway hssrc seq ts y body hseq hxy hyx hx hn hlen
  rw [← hpacket] at hu
  have hlength : rtpHeaderLen ≤ call.packet.length := by
    rw [hpacket, length_sealedPacket]
    omega
  have hne : call.packet ≠ [] := List.ne_nil_of_length_pos (lt_of_lt_of_le (by decide) hlength)
  obtain ⟨interval, hint', hsplit⟩ := hs.toAligned.split_call hcall hne
  obtain rfl : i = interval := Except.ok.inj (hint.symm.trans hint')
  have hadm : s.receiver.Admitted call.datagram t _ call.packet := ⟨hsplit, hlength, hsafe⟩
  refine ⟨_, inner, rfl, rfl, hnext, hadm, ⟨_, _, hu⟩, ?_⟩
  intro verdicts r hkey
  have hproc : s.receiver.processArrival
      (ReceiverKeyManager.innerOps (SrtpStream.ops c throwaway w) c) c call.datagram t = _ :=
    TeslaReceiver.processArrival_authentic hadm hu hkey
  refine .arrive hclock hu64 hbound ?_ hproc
  intro ext packet hext
  refine ⟨hs.unguessed_call hf hcall hne hext, ?_⟩
  rw [hsplit] at hext
  cases hext
  intro j hj g plain inner' _
  rw [hindex j hj]
  have hest := hr.estimateIndex hseq hxy hyx
  rw [hpacket, sealedPacket, seqOf_rtpHeader, hest]

/-! ## The small stream over libsrtp -/

def toyModel : StreamModel := ⟨8, 7, by decide⟩

def toyStart : StreamRatchet := ⟨ByteArr.replicate _ 0, 0⟩

def toyStreamPacket (i : ℕ) : Bytes := toyModel.protectedPacket Crypto.toy .epochOnly toyStart i

theorem toyStreamPacket_eq (i : ℕ) : toyStreamPacket i =
    sealedPacket Crypto.toy (toyStart.keyAt Crypto.toy 0) i (toyModel.timestamp i) 7 i
      (toyModel.payload i) := rfl

def toyStream : List (ℕ × Bytes) := (List.range 3).map fun i => (i, toyStreamPacket i)

theorem toyStream_produced :
    ∃ sim sim',
      SimulatedSender.new Crypto.toy (ByteArr.replicate _ 0) toyModel .epochOnly toyStart =
        .ok sim ∧
      run (fun s (_ : Unit) => s.nextProtected Crypto.toy) sim (List.replicate 3 ()) =
        .ok (toyStream, sim') := by
  have hvalid : Granularity.epochOnly.Valid := trivial
  obtain ⟨sim, hsim⟩ : ∃ sim, SimulatedSender.new Crypto.toy (ByteArr.replicate _ 0) toyModel
    .epochOnly toyStart = .ok sim := ⟨_, rfl⟩
  obtain ⟨packets, sim', hrun⟩ := SimulatedSender.exists_run_nextProtected (n := 3) hvalid rfl
    (by decide) (by decide) hsim
  obtain ⟨rfl, -⟩ := SimulatedSender.run_nextProtected hvalid rfl (by decide) hsim hrun
  exact ⟨sim, sim', hsim, hrun⟩

theorem eq_of_mem_toyStream {i j : ℕ} (hi : i < 3) (h : (j, toyStreamPacket i) ∈ toyStream) :
    j = i := by
  obtain ⟨j', hj, heq⟩ := List.mem_map.mp h
  obtain ⟨rfl, hpacket⟩ := Prod.mk.inj heq
  have hseq := congrArg seqOf hpacket
  have := List.mem_range.mp hj
  simp only [toyStreamPacket_eq, sealedPacket, seqOf_rtpHeader] at hseq
  omega

/-- A run of the small stream over libsrtp, in which the network meets `Placed`. -/
structure ToyRun (s₀ s : System (ReceiverKeyManager (SrtpStream (windowBits 128)))) : Prop where
  starts : Starts Crypto.toy toyFinalKey s₀
  distinct : Set.InjOn (s₀.chainKey Crypto.toy toyFinalKey) (Set.Iic s₀.sender.params.nChain)
  layer : ReceiverKeyManager.new (SrtpStream.toyOps _) (SrtpStream.addStream 7 128) .epochOnly
    toyStart 4 10 = .ok s₀.receiver.inner
  reachable : Reachable (ReceiverKeyManager.innerOps (SrtpStream.toyOps _) Crypto.toy) Crypto.toy
    (Placed Crypto.toy toyFinalKey (ByteArr.replicate _ 0) toyStream) s₀ s

theorem ToyRun.sound {s₀ s : System (ReceiverKeyManager (SrtpStream (windowBits 128)))}
    (h : ToyRun s₀ s) : Sound Crypto.toy toyFinalKey s :=
  (h.starts.invariant h.distinct (fun _ _ _ h => h.key) h.reachable).1

theorem ToyRun.step {s₀ s s' : System (ReceiverKeyManager (SrtpStream (windowBits 128)))}
    (h : ToyRun s₀ s)
    (hstep : Step (ReceiverKeyManager.innerOps (SrtpStream.toyOps _) Crypto.toy) Crypto.toy
      (Placed Crypto.toy toyFinalKey (ByteArr.replicate _ 0) toyStream) s s') : ToyRun s₀ s' :=
  { h with reachable := h.reachable.tail hstep }

/-- Two packets have been sent in interval 1, the second by `call`, and none has arrived, but
`n` packets of the flood have. -/
structure ToyFlood (n : ℕ) (s : System (ReceiverKeyManager (SrtpStream (windowBits 128))))
    (call : Call) : Prop where
  senderParams : s.sender.params = toySchedule
  alg : s.sender.alg = .gmacAes128
  senderClock : s.senderClock = 0
  receiverClock : s.receiverClock = 0
  sent : s.calls.reverse.map (fun call => (call.extIndex, call.packet)) = toyStream.take 2
  call_mem : call ∈ s.calls
  packet : call.packet = toyStreamPacket 1
  extIndex : call.extIndex = 1
  sendNs : call.sendNs = 0
  params : s.receiver.params = toySchedule
  verifier : s.receiver.verifier =
    ChainVerifier.new (element (fStep Crypto.toy) toyFinalKey 5 0) 5 8
  drawers : s.receiver.drawers = ∅
  inner : s.receiver.inner.AtIndex Crypto.toy toyStart 4 7 n (2 ^ 14 * n)

theorem exists_toyFlood (n : ℕ) (hn : n ≤ 2 ^ 34) :
    ∃ s₀ s call, ToyRun s₀ s ∧ ToyFlood n s call := by
  obtain ⟨m₀, hnew⟩ : ∃ m₀, ReceiverKeyManager.new (SrtpStream.toyOps (windowBits 128))
    (SrtpStream.addStream 7 128) .epochOnly toyStart 4 10 = .ok m₀ := ⟨_, rfl⟩
  obtain ⟨sender, receiver, hsender, haccept, h₀, hchain⟩ := toy_starts m₀
  obtain rfl := toy_accept haccept
  obtain ⟨hgen, hparams, halg⟩ := TeslaSender.genuine_new hsender
  have hint : sender.params.intervalOf 0 = .ok 1 := by
    rw [hparams]
    decide
  have hauth₀ := hgen.authenticate_eq hint (toyStreamPacket 0) 0
  obtain ⟨hgen₁, -⟩ := hgen.authenticate hauth₀
  have hauth₁ := hgen₁.authenticate_eq hint (toyStreamPacket 1) 1
  have hrun₀ : ToyRun { sender := sender, receiver := _ } _ := ⟨h₀, hchain, hnew, .refl⟩
  have hrun₁ := (hrun₀.step (.authenticate (Nat.zero_le 0) (Nat.zero_le _) hauth₀)).step
    (.authenticate (Nat.zero_le 0) (Nat.zero_le _) hauth₁)
  have hlength : ∀ p ∈ toyStream, p.2.length ≠ rtpHeaderLen + gcmTagLen := by decide +kernel
  -- a label of 100 discloses a key beyond the chain
  obtain ⟨s, hreach, hflooded⟩ := exists_flooded fStep_toy_injective h₀ hchain hrun₁.reachable
    (by decide) (ReceiverKeyManager.atIndex_new (c := Crypto.toy) rfl (by decide) hnew)
    ⟨(by decide : 100 < 2 ^ 32), (by decide : toySchedule.accepts 0 100 = .ok .safe),
      (by decide : 0 < toySchedule.disclosedIndex 100),
      (by decide : 5 < toySchedule.disclosedIndex 100), Nat.zero_le _, Nat.zero_le _⟩
    hlength n (by omega)
  obtain ⟨datagram, hcall⟩ : ∃ datagram, ⟨toyStreamPacket 1, 1, 0, datagram⟩ ∈ s.calls := by
    rw [hflooded.calls]
    exact ⟨_, List.mem_cons_self⟩
  refine ⟨_, s, ⟨toyStreamPacket 1, 1, 0, datagram⟩, { hrun₁ with reachable := hreach }, ?_⟩
  exact {
    senderParams := by rw [hflooded.sender]; exact hparams
    alg := by rw [hflooded.sender]; exact halg
    senderClock := hflooded.senderClock
    receiverClock := hflooded.receiverClock
    sent := by rw [hflooded.calls]; rfl
    call_mem := hcall
    packet := rfl
    extIndex := rfl
    sendNs := rfl
    params := hflooded.params
    verifier := hflooded.verifier
    drawers := hflooded.drawers
    inner := hflooded.inner }

/-- Packet 1 of the small stream was delivered unaltered as `e`, all three packets have been
sent, and the key of interval 1 is trusted. -/
structure ToyDelivery (s : System (ReceiverKeyManager (SrtpStream (windowBits 128))))
    (call : Call) (a : Arrival (ReceiverKeyManager (SrtpStream (windowBits 128))))
    (e : DrawerEntry) : Prop where
  alg : s.sender.alg = .gmacAes128
  sent : s.calls.reverse.map (fun call => (call.extIndex, call.packet)) = toyStream
  call_mem : call ∈ s.calls
  extIndex : call.extIndex = 1
  arrival_mem : a ∈ s.arrivals
  unaltered : a.datagram = call.datagram
  enters : a.Enters (ReceiverKeyManager.innerOps (SrtpStream.toyOps _) Crypto.toy) Crypto.toy 1 e
  trusted : s.receiver.verifier.trustedIndex = 1

/-- A packet of the small stream is sealed under its own index, which it also has on a later
lap of the 48-bit index. -/
theorem toyStreamPacket_lap {m i : ℕ} (hm : m % 2 ^ 48 = 0) (hi : i < 3) :
    toyStreamPacket i = sealedPacket Crypto.toy (toyStart.keyAt Crypto.toy 0) i
        (toyModel.timestamp i) 7 ((m + i) % 2 ^ 48) (toyModel.payload i) ∧
      ∀ j, (j, toyStreamPacket i) ∈ toyStream → j = (m + i) % 2 ^ 48 := by
  rw [show (m + i) % 2 ^ 48 = i by omega]
  exact ⟨toyStreamPacket_eq i, fun j hj => eq_of_mem_toyStream hi hj⟩

theorem length_toyPayload (i : ℕ) :
    rtpHeaderLen + (toyModel.payload i).length + gcmTagLen < 2 ^ 31 := by
  rw [StreamModel.length_payload]
  decide

/-- After `n` packets of the flood that leave the 48 low bits of the index at zero, packets 1
and 2 of the small stream are delivered. -/
theorem exists_toyDelivery (n : ℕ) (hn : n ≤ 2 ^ 34) (hzero : 2 ^ 14 * n % 2 ^ 48 = 0) :
    ∃ s₀ s call a e, ToyRun s₀ s ∧ ToyDelivery s call a e ∧ e.extIndex = 2 ^ 14 * n + 1 := by
  obtain ⟨s₀, s, call, hrun, hflood⟩ := exists_toyFlood n hn
  have hfirst : s.sender.params.intervalOf call.sendNs = .ok 1 := by
    rw [hflood.senderParams, hflood.sendNs]
    decide
  have hthird : s.sender.params.intervalOf 20 = .ok 3 := by
    rw [hflood.senderParams]
    decide
  -- packet 1 arrives in interval 1
  obtain ⟨hpacket₁, hindex₁⟩ := toyStreamPacket_lap hzero (i := 1) (by decide)
  rw [← hflood.packet] at hpacket₁ hindex₁
  obtain ⟨ext₁, inner₁, hi₁, -, hat₁, hadm₁, ⟨g₁, plain₁, hu₁⟩, hstep₁⟩ :=
    exists_step_genuine (ByteArr.replicate _ 0) fStep_toy_injective hrun.sound (by decide)
      hflood.inner hflood.call_mem hpacket₁ (length_toyPayload 1) (by omega) (by omega)
      (by omega) (by omega) (by omega) hindex₁ hfirst (t := 0) hflood.receiverClock.le
      (Nat.zero_le _) (by rw [hflood.senderClock]; exact Nat.zero_le _)
      (by rw [hflood.params]; decide)
  have hold : s.receiver.params.disclosedIndex ext₁.interval ≤
      s.receiver.verifier.trustedIndex := by
    rw [hi₁, hflood.params]
    exact Nat.zero_le _
  have hrun₁ := hrun.step (hstep₁ [] _ (TeslaReceiver.disclose_notNew hold))
  -- packet 2 is sent in interval 3, and discloses the key of interval 1
  have hclock : s.senderClock ≤ 20 := by
    rw [hflood.senderClock]
    exact Nat.zero_le 20
  have hrun₂ := hrun₁.step (.authenticate hclock (by decide)
    (hrun.sound.genuine.authenticate_eq hthird (toyStreamPacket 2) 2))
  obtain ⟨hpacket₂, hindex₂⟩ := toyStreamPacket_lap hzero (i := 2) (by decide)
  obtain ⟨ext₂, inner₂, hi₂, hd₂, -, -, -, hstep₂⟩ :=
    exists_step_genuine (ByteArr.replicate _ 0) fStep_toy_injective hrun₂.sound (by decide) hat₁
      List.mem_cons_self hpacket₂ (length_toyPayload 2) (by omega) (by omega) (by omega)
      (by omega) (by omega) hindex₂ hthird (t := 20) (Nat.zero_le _) (by decide)
      (Nat.le_add_right _ _)
      (by simp only [TeslaReceiver.deliver, TeslaReceiver.authenticated, hflood.params]; decide)
  have hcheck : s.receiver.verifier.check Crypto.toy ext₂.disclosed
      (s.receiver.params.disclosedIndex ext₂.interval) =
        (.new [(1, element (fStep Crypto.toy) toyFinalKey 5 1)],
          ⟨5, 8, 1, element (fStep Crypto.toy) toyFinalKey 5 1⟩) := by
    simp only [chainKey, TeslaSender.inInterval, hflood.senderParams] at hd₂
    rw [hflood.verifier, hd₂, hi₂, hflood.params]
    decide +kernel
  have hlookup : ((s.receiver.authenticated inner₁ call.packet).deliver 1
      (s.receiver.entryOf 0 ext₁ call.packet)).drawers.lookup 1 =
        some [s.receiver.entryOf 0 ext₁ call.packet] := by
    simp only [TeslaReceiver.deliver, TeslaReceiver.authenticated, hflood.drawers,
      AList.lookup_insert]
    rfl
  obtain ⟨verdicts, r₂, hkey, hverifier⟩ := TeslaReceiver.exists_disclose_new
    (r := ((s.receiver.authenticated inner₁ call.packet).deliver 1
      (s.receiver.entryOf 0 ext₁ call.packet)).authenticated inner₂ (toyStreamPacket 2))
    hcheck hlookup (Nat.succ_ne_zero _) (Nat.zero_le 20)
  have hrun₃ := hrun₂.step (hstep₂ verdicts r₂ hkey)
  refine ⟨s₀, _, call, ⟨s.receiver, s.calls, call.datagram, 0⟩,
    s.receiver.entryOf 0 ext₁ call.packet, hrun₃, ?_, ?_⟩
  · exact {
      alg := hflood.alg
      sent := by
        rw [List.reverse_cons, List.map_append, hflood.sent]
        rfl
      call_mem := List.mem_cons_of_mem _ hflood.call_mem
      extIndex := hflood.extIndex
      arrival_mem := List.mem_cons_of_mem _ List.mem_cons_self
      unaltered := rfl
      enters := ⟨ext₁, call.packet, [], s.receiver.verifier, ⟨hadm₁, ⟨g₁, plain₁, inner₁, hu₁⟩,
        .inr ⟨by simp [ChainVerifier.check, hold], rfl, rfl⟩⟩, hi₁.symm, rfl⟩
      trusted := congrArg ChainVerifier.trustedIndex hverifier }
  · have htracks := (hrun.starts.located_of_reachable hrun.layer hrun.reachable).tracks
    change s.receiver.recovery.recover (seqOf call.packet) = _
    rw [recover_eq_position htracks.reference htracks.limit.index_lt (seqOf_lt _), hpacket₁,
      sealedPacket, seqOf_rtpHeader]
    exact hflood.inner.position (by omega) (by omega) (by omega)

/-! ## The verdicts -/

section

variable {windowSize : ℕ} {s s₀ : System (ReceiverKeyManager (SrtpStream (windowBits windowSize)))}

/-- A datagram of the sender that arrives unaltered and is delivered belongs to the interval
it was sent in, is never counted as forged, and is counted as verified exactly from the time
on when the trusted index reaches its interval. The packets may be any numbered packets, and
any other datagrams may arrive in between; with GMAC, the packet's recovered index must be
below `2 ^ 48`. -/
theorem genuine_packet_verdict (hf : (fStep c).Injective) (h₀ : Starts c kFinal s₀)
    (hchain : Set.InjOn (s₀.chainKey c kFinal) (Set.Iic s₀.sender.params.nChain))
    {ssrc k seekCap : ℕ} {scheme : GenerationScheme} {ratchet : StreamRatchet}
    (hnew : ReceiverKeyManager.new (SrtpStream.ops c throwaway _)
      (SrtpStream.addStream ssrc windowSize) scheme ratchet k seekCap = .ok s₀.receiver.inner)
    (hreach : Reachable (ReceiverKeyManager.innerOps (SrtpStream.ops c throwaway _) c) c
      (Placed c kFinal throwaway packets) s₀ s)
    (hsent : ∀ call ∈ s.calls, (call.extIndex, call.packet) ∈ packets)
    {call : Call} (hcall : call ∈ s.calls) {a : Arrival _} (ha : a ∈ s.arrivals)
    (hunaltered : a.datagram = call.datagram) {i : ℕ} {e : DrawerEntry}
    (henters : a.Enters (ReceiverKeyManager.innerOps (SrtpStream.ops c throwaway _) c) c i e)
    (hindex : s.sender.alg = .gmacAes128 → e.extIndex < 2 ^ 48) :
    s.sender.params.intervalOf call.sendNs = .ok i ∧
      (∀ v ∈ s.verdicts, v.interval = i → v.entry = e → v.verified = true) ∧
      ((∃ v ∈ s.verdicts, v.interval = i ∧ v.entry = e ∧ v.verified = true) ↔
        i ≤ s.receiver.verifier.trustedIndex) := by
  have hcan : ∀ s ext packet, Placed c kFinal throwaway packets s ext packet →
      Unguessed c kFinal (ι := ReceiverKeyManager (SrtpStream (windowBits windowSize)))
        s ext packet := fun _ _ _ h => h.key
  obtain ⟨hs, hsettled⟩ := h₀.invariant hchain hcan hreach
  have hjudged := h₀.invariant_judged hf hchain hcan hreach
  have hlocated := h₀.located_of_reachable hnew hreach
  obtain ⟨hint, hcovered, hmac⟩ := hs.toAligned.enters_call hcall hunaltered henters
  have hmod : e.extIndex % 2 ^ 48 = call.extIndex :=
    hlocated.index a ha i e henters _ (hcovered ▸ hsent call hcall)
  -- libsrtp keeps 48 bits of the index; an HMAC tag depends on no more of it
  have htag : (s.sender.alg.prepare c (s.chainKey c kFinal i)).tag c e.extIndex e.covered =
      e.mac := by
    rw [hcovered, hmac]
    refine TeslaMacAlg.tag_congr (by omega) ?_ c _ _
    intro halg
    have := hindex halg
    omega
  have hverified : ∀ v ∈ s.verdicts, v.interval = i → v.entry = e → v.verified = true := by
    intro v hv hi he
    rw [hjudged v hv, hi, he]
    exact decide_eq_true htag
  refine ⟨hint, hverified, ?_⟩
  obtain ⟨-, hpos, -⟩ := TeslaSchedule.intervalOf_ok hint
  constructor
  · rintro ⟨v, hv, hi, he, -⟩
    exact ((hsettled.verdict_iff i e).mp ⟨v, hv, hi, he⟩).2.2
  · intro hle
    obtain ⟨v, hv, hi, he⟩ := (hsettled.verdict_iff i e).mpr ⟨⟨a, ha, henters⟩, hpos, hle⟩
    exact ⟨v, hv, hi, he, hverified v hv hi he⟩

end

theorem genuine_packet_verified :
    ∃ s₀ s call a e, ToyRun s₀ s ∧ ToyDelivery s call a e ∧ e.extIndex = 1 ∧
      ∃ v ∈ s.verdicts, v.interval = 1 ∧ v.entry = e ∧ v.verified = true := by
  obtain ⟨s₀, s, call, a, e, hrun, hdel, hindex⟩ := exists_toyDelivery 0 (by decide) rfl
  have hsent : ∀ call ∈ s.calls, (call.extIndex, call.packet) ∈ toyStream := by
    intro call hcall
    rw [← hdel.sent]
    exact List.mem_map_of_mem (List.mem_reverse.mpr hcall)
  have hverdict := genuine_packet_verdict fStep_toy_injective hrun.starts hrun.distinct hrun.layer
    hrun.reachable hsent hdel.call_mem hdel.arrival_mem hdel.unaltered hdel.enters
    (fun _ => by rw [hindex]; decide)
  exact ⟨s₀, s, call, a, e, hrun, hdel, hindex, hverdict.2.2.mpr hdel.trusted.ge⟩

/-- After `2 ^ 34` packets of another group member, packet 1 of the small stream still passes
the SRTP layer at its own index, since libsrtp keeps 48 bits of it. The receiver recovers
`2 ^ 48 + 1`, and the packet is counted as forged. -/
theorem genuine_packet_forged :
    (fStep Crypto.toy).Injective ∧
    (∃ sim sim', SimulatedSender.new Crypto.toy (ByteArr.replicate _ 0) toyModel .epochOnly
        toyStart = .ok sim ∧
      run (fun s (_ : Unit) => s.nextProtected Crypto.toy) sim (List.replicate 3 ()) =
        .ok (toyStream, sim')) ∧
    ∃ s₀ s call a e, ToyRun s₀ s ∧ ToyDelivery s call a e ∧ e.extIndex = 2 ^ 48 + 1 ∧
      ∃ v ∈ s.verdicts, v.interval = 1 ∧ v.entry = e ∧ v.verified = false := by
  obtain ⟨s₀, s, call, a, e, hrun, hdel, hindex⟩ :=
    exists_toyDelivery (2 ^ 34) le_rfl (by norm_num)
  refine ⟨fStep_toy_injective, toyStream_produced, s₀, s, call, a, e, hrun, hdel,
    by rw [hindex]; norm_num, ?_⟩
  obtain ⟨-, hsettled⟩ := hrun.starts.invariant hrun.distinct (fun _ _ _ h => h.key) hrun.reachable
  have hjudged := hrun.starts.invariant_judged fStep_toy_injective hrun.distinct
    (fun _ _ _ h => h.key) hrun.reachable
  obtain ⟨v, hv, hi, he⟩ := (hsettled.verdict_iff 1 e).mpr
    ⟨⟨a, hdel.arrival_mem, hdel.enters⟩, le_rfl, hdel.trusted.ge⟩
  refine ⟨v, hv, hi, he, ?_⟩
  obtain ⟨-, hcovered, hmac⟩ :=
    hrun.sound.toAligned.enters_call hdel.call_mem hdel.unaltered hdel.enters
  rw [hjudged v hv, hi, he]
  refine decide_eq_false ?_
  intro htag
  rw [hcovered, hmac, hindex, hdel.extIndex, hdel.alg] at htag
  have hnonce : List.replicate 4 0 ++ Bytes.toBe 8 (2 ^ 14 * 2 ^ 34 + 1) =
      List.replicate 4 0 ++ Bytes.toBe 8 1 := congrArg Prod.fst (tagInput_eq_of_toy_tag htag)
  exact absurd hnonce (by decide)

end System

end SafeCast
