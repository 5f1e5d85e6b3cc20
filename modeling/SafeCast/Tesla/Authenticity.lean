import SafeCast.Tesla.System

/-! # Source authenticity and stuck packets

A verified packet was sent by the sender: the accept test admits a packet only while its
key is secret, so its tag is the sender's. A delivered packet waits for a key that will
come, unless its label lies outside the chain: the label is not authenticated, and none
of the receiver's tests bounds it.
-/

namespace SafeCast

open HashChain Runs

variable {ι : Type*} {ops : InnerOps ι} {c : Crypto} {kFinal : ChainKey}

def InnerOps.acceptAll : InnerOps Unit := ⟨fun _ packet => .ok ((.ok 0, packet), ())⟩

namespace System

variable {s s₀ s' : System ι}

/-- The network has no chain key before it is public, and no tag under a secret key but
those that the sender computed. -/
structure Unforged (c : Crypto) (kFinal : ChainKey) (s : System ι) (ext : Extension)
    (packet : Bytes) : Prop where
  key : Unguessed c kFinal s ext packet
  tag : ext.interval ≤ s.sender.params.nChain → ∀ extIndex,
    ext.mac = (s.sender.alg.prepare c (s.chainKey c kFinal ext.interval)).tag c extIndex packet →
    s.IsPublic c kFinal ext.interval ∨
      ∃ call ∈ s.calls, s.sender.params.intervalOf call.sendNs = .ok ext.interval ∧
        s.sender.alg.tagInput call.extIndex call.packet = s.sender.alg.tagInput extIndex packet

def SentAs (params : TeslaSchedule) (calls : List Call) (i : ℕ) (e : DrawerEntry) : Prop :=
  ∃ call ∈ calls, params.intervalOf call.sendNs = .ok i ∧ call.packet = e.covered ∧
    rocBits call.extIndex = rocBits e.extIndex

/-- Packets whose tag verifies under the key of their interval were sent before they
arrived. -/
def Backed (ops : InnerOps ι) (c : Crypto) (kFinal : ChainKey) (s : System ι) : Prop :=
  ∀ a ∈ s.arrivals, ∀ i e, a.Enters ops c i e → 1 ≤ i → i ≤ s.sender.params.nChain →
    (s.sender.alg.prepare c (s.chainKey c kFinal i)).tag c e.extIndex e.covered = e.mac →
    SentAs s.sender.params a.before i e

theorem Backed.step (hs : Sound c kFinal s) (h : Backed ops c kFinal s)
    (hstep : Step ops c (Unforged c kFinal) s s') : Backed ops c kFinal s' := by
  cases hstep with
  | authenticate hclock hu64 hauth =>
    obtain ⟨-, hparams, halg, -⟩ := hs.genuine.authenticate hauth
    simpa only [Backed, chainKey, hparams, halg] using h
  | tick => exact h
  | @arrive datagram arrivalNs out receiver hclock hu64 hbound hnet hproc =>
    intro a ha i e henters hi hn htag
    rcases List.mem_cons.mp ha with rfl | ha
    · obtain ⟨ext, packet, keys, verifier, hpass, rfl, rfl⟩ := henters
      rcases (hnet ext packet hpass.admitted.split).tag hn _ htag.symm with hpub | hcall
      · exact absurd hpub (hs.not_public hbound hpass.admitted.safe hi)
      · obtain ⟨call, hmem, hint, hinput⟩ := hcall
        obtain ⟨hpacket, hroc⟩ := TeslaMacAlg.tagInput_inj hinput
        exact ⟨call, hmem, hint, hpacket, hroc⟩
    · exact h a ha i e henters hi hn htag

/-- A packet that is counted as verified in interval `i` was given to the sender in
interval `i`, before it arrived, at a position with the same rollover count. -/
theorem verified_was_sent (hf : (fStep c).Injective) (h₀ : Starts c kFinal s₀)
    (hchain : Set.InjOn (s₀.chainKey c kFinal) (Set.Iic s₀.sender.params.nChain))
    (hreach : Reachable ops c (Unforged c kFinal) s₀ s) {v : Verdict} (hv : v ∈ s.verdicts)
    (hverified : v.verified = true) :
    (∃ a ∈ s.arrivals, a.Enters ops c v.interval v.entry) ∧
      ∀ a ∈ s.arrivals, a.Enters ops c v.interval v.entry →
        SentAs s.sender.params a.before v.interval v.entry := by
  have hcan : ∀ s ext packet, Unforged c kFinal s ext packet →
      Unguessed c kFinal (ι := ι) s ext packet := fun _ _ _ h => h.key
  obtain ⟨hs, hsettled⟩ := h₀.invariant hchain hcan hreach
  have hjudged := h₀.invariant_judged hf hchain hcan hreach v hv
  obtain ⟨hentered, hpos, hle⟩ := (hsettled.verdict_iff v.interval v.entry).mp ⟨v, hv, rfl, rfl⟩
  have hbacked : Backed ops c kFinal s := by
    clear hs hsettled hjudged hentered hpos hle hv
    induction hreach with
    | refl =>
      obtain ⟨-, -, -⟩ := h₀
      intro a ha
      cases ha
    | tail hreach hstep ih => exact ih.step (h₀.invariant hchain hcan hreach).1 hstep
  refine ⟨hentered, ?_⟩
  intro a ha henters
  refine hbacked a ha _ _ henters hpos (hle.trans hs.trusted_le) ?_
  rw [hjudged] at hverified
  exact of_decide_eq_true hverified

/-- The network can deliver what the sender has emitted, when a tag determines the
position. -/
theorem Sound.unforged_call (hf : (fStep c).Injective) (h : Sound c kFinal s)
    (htag : ∀ key x y packet,
      (s.sender.alg.prepare c key).tag c x packet = (s.sender.alg.prepare c key).tag c y packet →
        s.sender.alg.tagInput x packet = s.sender.alg.tagInput y packet)
    {call : Call} (hcall : call ∈ s.calls) (hpacket : call.packet ≠ []) {ext : Extension}
    {packet : Bytes} (hsplit : splitExtension call.datagram = some (ext, packet)) :
    Unforged c kFinal s ext packet := by
  refine ⟨h.unguessed_call hf hcall hpacket hsplit, ?_⟩
  obtain ⟨interval, hint, heq⟩ := h.toAligned.split_call hcall hpacket
  rw [heq] at hsplit
  cases hsplit
  intro _ extIndex hmac
  exact .inr ⟨call, hcall, hint, htag _ _ _ _ hmac⟩

theorem verified_was_sent_two_packets :
    ∃ (s₀ s : System Unit) (v : Verdict), Starts Crypto.toy toyFinalKey s₀ ∧
      Reachable InnerOps.acceptAll Crypto.toy (Unforged Crypto.toy toyFinalKey) s₀ s ∧
      v ∈ s.verdicts ∧ v.verified = true ∧
      (∃ a ∈ s.arrivals, a.Enters InnerOps.acceptAll Crypto.toy v.interval v.entry) ∧
      ∀ a ∈ s.arrivals, a.Enters InnerOps.acceptAll Crypto.toy v.interval v.entry →
        SentAs s.sender.params a.before v.interval v.entry := by
  obtain ⟨sender, receiver, hsender, haccept, h₀, hchain⟩ := toy_starts ()
  obtain ⟨outs, sender₂, hsent, houts⟩ := exists_of_returns
    (x := run (fun s i => TeslaSender.authenticate Crypto.toy s i.1 i.2.1 i.2.2) sender
      [(toyPacket 3 1, 3, 0), (toyPacket 4 1, 4, 20)])
    (q := fun out _ => out = [toyDatagram (toyPacket 3 1) 3 1 1, toyDatagram (toyPacket 4 1) 4 3 3])
    (by cases hsender; decide +kernel)
  obtain ⟨outs', receiver₂, hproc, hverdicts⟩ := exists_of_returns
    (x := run (fun r i => TeslaReceiver.processArrival InnerOps.acceptAll Crypto.toy r i.1 i.2)
      receiver [(toyDatagram (toyPacket 3 1) 3 1 1, 1), (toyDatagram (toyPacket 4 1) 4 3 3, 20)])
    (q := fun out _ => (out.map fun o => (TeslaReceiver.verdictsOf o.1).map Verdict.verified) =
      [[], [true]]) (by cases haccept; decide +kernel)
  obtain ⟨d₁, sender₁, d₂, hauth₁, hauth₂, rfl⟩ := run_pair hsent
  obtain ⟨out₁, receiver₁, out₂, hproc₁, hproc₂, rfl⟩ := run_pair hproc
  obtain ⟨rfl, rfl⟩ : d₁ = toyDatagram (toyPacket 3 1) 3 1 1 ∧
      d₂ = toyDatagram (toyPacket 4 1) 4 3 3 := by simpa using houts
  obtain ⟨-, hverified⟩ : TeslaReceiver.verdictsOf out₁.1 = [] ∧
      (TeslaReceiver.verdictsOf out₂.1).map Verdict.verified = [true] := by
    simpa using hverdicts
  have hlegal : ∀ {s : System Unit} {call : Call},
      Reachable InnerOps.acceptAll Crypto.toy (Unforged Crypto.toy toyFinalKey)
        { sender := sender, receiver := receiver } s →
      s.sender.alg = .gmacAes128 → call ∈ s.calls → call.packet ≠ [] → ∀ ext packet,
        splitExtension call.datagram = some (ext, packet) →
          Unforged Crypto.toy toyFinalKey s ext packet := by
    intro s call hreach halg hcall hpacket ext packet hsplit
    refine (h₀.invariant hchain (fun _ _ _ h => h.key) hreach).1.unforged_call fStep_toy_injective
      ?_ hcall hpacket hsplit
    rw [halg]
    exact fun key x y packet => tagInput_eq_of_toy_tag
  have halg := (TeslaSender.genuine_new hsender).2.2
  obtain ⟨hgen₁, -, halg₁, -⟩ := (h₀.sound hchain).genuine.authenticate hauth₁
  obtain ⟨-, -, halg₂, -⟩ := hgen₁.authenticate hauth₂
  have hreach₁ : Reachable InnerOps.acceptAll Crypto.toy (Unforged Crypto.toy toyFinalKey)
      { sender := sender, receiver := receiver } _ :=
    .single (.authenticate (Nat.zero_le 0) (Nat.zero_le _) hauth₁)
  have hreach₂ := hreach₁.tail (.arrive (Nat.zero_le 1) (by decide) (Nat.zero_le _)
    (hlegal hreach₁ (halg₁.trans halg) List.mem_cons_self (by simp [toyPacket])) hproc₁)
  have hreach₃ := hreach₂.tail (.authenticate (Nat.zero_le 20) (by decide) hauth₂)
  have hreach₄ := hreach₃.tail (.arrive (by decide : 1 ≤ 20) (by decide) (Nat.le_add_right _ _)
    (hlegal hreach₃ (halg₂.trans (halg₁.trans halg)) List.mem_cons_self (by simp [toyPacket]))
    hproc₂)
  obtain ⟨v, hv, hver⟩ := List.mem_map.mp (hverified ▸ List.mem_singleton_self true)
  have hmem := List.mem_append_right ([] ++ TeslaReceiver.verdictsOf out₁.1) hv
  exact ⟨_, _, v, h₀, hreach₄, hmem, hver,
    verified_was_sent fStep_toy_injective h₀ hchain hreach₄ hmem hver⟩

/-! ## Labels outside the chain -/

/-- Every waiting packet waits for a key between the trusted one and the end of the chain
exactly when every packet that passed was labelled with an interval of the chain. -/
theorem waiting_in_chain_iff (h₀ : Starts c kFinal s₀)
    (hchain : Set.InjOn (s₀.chainKey c kFinal) (Set.Iic s₀.sender.params.nChain))
    (hreach : Reachable ops c (Unguessed c kFinal) s₀ s) :
    (∀ i e, s.receiver.Waits i e →
        s.receiver.verifier.trustedIndex < i ∧ i ≤ s.receiver.verifier.nChain) ↔
      ∀ a ∈ s.arrivals, ∀ ext packet keys verifier,
        a.receiver.Passes ops c a.datagram a.arrivalNs ext packet keys verifier →
          1 ≤ ext.interval ∧ ext.interval ≤ s.receiver.verifier.nChain := by
  obtain ⟨hs, hsettled⟩ := h₀.invariant hchain (fun _ _ _ h => h) hreach
  have htrusted : s.receiver.verifier.trustedIndex ≤ s.receiver.verifier.nChain := by
    rw [hs.nChain]
    exact hs.trusted_le
  constructor
  · intro h a ha ext packet keys verifier hpass
    by_contra hlabel
    -- the trusted index never reaches a label outside the chain, so the packet still waits
    have hstuck : ext.interval = 0 ∨ s.receiver.verifier.trustedIndex < ext.interval := by omega
    have hwaits := (hsettled.waits_iff _ _).mpr
      ⟨⟨a, ha, ext, packet, keys, verifier, hpass, rfl, rfl⟩, hstuck⟩
    have := h _ _ hwaits
    omega
  · intro h i e hwaits
    obtain ⟨⟨a, ha, ext, packet, keys, verifier, hpass, rfl, rfl⟩, hahead⟩ :=
      (hsettled.waits_iff i e).mp hwaits
    have := h a ha ext packet keys verifier hpass
    omega

theorem toy_label_arrives (label : ℕ) (hlabel : label ≤ 1) :
    ∃ (s₀ s : System Unit) (a : Arrival Unit) (mac : TeslaMac),
      Starts Crypto.toy toyFinalKey s₀ ∧
      Set.InjOn (s₀.chainKey Crypto.toy toyFinalKey) (Set.Iic s₀.sender.params.nChain) ∧
      Reachable InnerOps.acceptAll Crypto.toy (Unguessed Crypto.toy toyFinalKey) s₀ s ∧
      s.arrivals = [a] ∧ s.receiver.verifier.nChain = 5 ∧ (∃ e, s.receiver.Waits label e) ∧
      splitExtension a.datagram =
        some (⟨label, element (fStep Crypto.toy) toyFinalKey 5 0, mac⟩, toyPacket 3 1) := by
  obtain ⟨sender, receiver, hsender, haccept, h₀, hchain⟩ := toy_starts ()
  obtain ⟨datagram, sender', hauth, -⟩ := exists_of_returns
    (x := sender.authenticate Crypto.toy (toyPacket 3 1) 3 0) (q := fun _ _ => true)
    (by cases hsender; decide +kernel)
  obtain ⟨out, receiver', hproc, hdrawer⟩ := exists_of_returns
    (x := receiver.processArrival InnerOps.acceptAll Crypto.toy
      (toyDatagram (toyPacket 3 1) 3 1 label) 1)
    (q := fun _ r => (r.drawers.lookup label).getD [] ≠ [] ∧ r.verifier.nChain = 5)
    (by
      obtain rfl | rfl : label = 0 ∨ label = 1 := by omega
      all_goals
        cases haccept
        decide +kernel)
  obtain ⟨hne, hn⟩ := of_decide_eq_true hdrawer
  have hwaits : ∃ e, receiver'.Waits label e := by
    rcases hl : receiver'.drawers.lookup label with - | entries
    · simp [hl] at hne
    · obtain ⟨e, he⟩ := List.exists_mem_of_ne_nil entries (by simpa [hl] using hne)
      exact ⟨e, entries, hl, he⟩
  obtain ⟨mac, hsplit⟩ : ∃ mac, splitExtension (toyDatagram (toyPacket 3 1) 3 1 label) =
      some (⟨label, element (fStep Crypto.toy) toyFinalKey 5 0, mac⟩, toyPacket 3 1) :=
    ⟨_, splitExtension_appendExtension (by simp [toyPacket]) (by omega)⟩
  have hreach : Reachable InnerOps.acceptAll Crypto.toy (Unguessed Crypto.toy toyFinalKey)
      { sender := sender, receiver := receiver } _ :=
    .single (.authenticate (Nat.zero_le 0) (Nat.zero_le _) hauth)
  have hs := (h₀.invariant hchain (fun _ _ _ h => h) hreach).1
  have hparams : sender'.params = toySchedule :=
    ((h₀.sound hchain).genuine.authenticate hauth).2.1.trans (TeslaSender.genuine_new hsender).2.1
  refine ⟨_, _, _, mac, h₀, hchain, hreach.tail (.arrive (Nat.zero_le 1) (by decide)
    (Nat.zero_le _) ?_ hproc), rfl, hn, hwaits, hsplit⟩
  intro ext packet hext
  rw [hsplit] at hext
  cases hext
  refine hs.unguessed fStep_toy_injective (Nat.zero_le _) (.inl rfl) ?_ _
  simp only [chainKey, hparams]
  rfl

theorem waiting_in_chain_of_genuine_label :
    ∃ (s₀ s : System Unit) (e : DrawerEntry), Starts Crypto.toy toyFinalKey s₀ ∧
      Reachable InnerOps.acceptAll Crypto.toy (Unguessed Crypto.toy toyFinalKey) s₀ s ∧
      s.receiver.Waits 1 e ∧ ∀ i e, s.receiver.Waits i e →
        s.receiver.verifier.trustedIndex < i ∧ i ≤ s.receiver.verifier.nChain := by
  obtain ⟨s₀, s, a, mac, h₀, hchain, hreach, harrivals, hn, ⟨e, he⟩, hsplit⟩ :=
    toy_label_arrives 1 le_rfl
  refine ⟨s₀, s, e, h₀, hreach, he, (waiting_in_chain_iff h₀ hchain hreach).mpr ?_⟩
  rw [harrivals, hn]
  intro b hb ext packet keys verifier hpass
  obtain rfl := List.mem_singleton.mp hb
  have heq := hsplit.symm.trans hpass.admitted.split
  cases heq
  exact ⟨le_rfl, (by decide : 1 ≤ 5)⟩

/-- A packet of interval 1 whose label was changed to 0 in flight waits for the key of
interval 0, which was handed out before the stream started. -/
theorem label_zero_waits :
    ∃ (s₀ s : System Unit) (e : DrawerEntry), Starts Crypto.toy toyFinalKey s₀ ∧
      Reachable InnerOps.acceptAll Crypto.toy (Unguessed Crypto.toy toyFinalKey) s₀ s ∧
      s.receiver.Waits 0 e ∧ ¬ ∀ i e, s.receiver.Waits i e →
        s.receiver.verifier.trustedIndex < i ∧ i ≤ s.receiver.verifier.nChain := by
  obtain ⟨s₀, s, -, -, h₀, -, hreach, -, -, ⟨e, he⟩, -⟩ := toy_label_arrives 0 (Nat.zero_le 1)
  refine ⟨s₀, s, e, h₀, hreach, he, ?_⟩
  intro h
  exact absurd (h 0 e he).1 (Nat.not_lt_zero _)

end System

end SafeCast
