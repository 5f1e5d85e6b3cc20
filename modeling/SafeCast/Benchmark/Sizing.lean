import SafeCast.Benchmark.Checks

/-! # The sizes of the windows

The sweep sizes the key window and the replay window by the lateness that skew and jitter can
cause. `disturb_late` shows that no packet is later, and `Tracks.run_covered` that windows of these
sizes take every packet, as long as no outage spans half a cycle of sequence numbers.
-/

namespace SafeCast

open Runs RunningMax

/-- Two paths of equal jitter, the second one longer by the skew. -/
def NetworkConfig.skewed (base jitter skew : ℕ) (lossA : LossModel) (lossB : Option LossModel)
    (seed : ℕ) : NetworkConfig :=
  ⟨⟨base, jitter, lossA⟩, lossB.map fun loss => ⟨base + skew, jitter, loss⟩, seed⟩

/-- Every packet is less than half a cycle of sequence numbers ahead of the newest one before
it; the first one is in the first cycle. -/
def Unbroken (arrived : List ℕ) : Prop :=
  ∀ pre i, pre ++ [i] <+: arrived → i < pre.max?.elim 65536 (· + 32768)

theorem unbroken_of_short {arrived : List ℕ} (h : ∀ i ∈ arrived, i < 32768) : Unbroken arrived := by
  intro pre i hpre
  have hi := h i (hpre.subset (by simp))
  cases pre.max? with
  | none => exact hi.trans (by decide)
  | some x => exact hi.trans_le (Nat.le_add_left _ _)

namespace Benchmark

variable {ρ : Type*} {rng : Rng ρ} {m : StreamModel} {base jitter skew seed n worst : ℕ}
  {lossA : LossModel} {lossB : Option LossModel}

theorem latenessPositions_eq (m : StreamModel) (hsum : skew + jitter ≤ u64Max) :
    latenessPositions m.payloadSize jitter skew =
      .ok ((skew + jitter + m.minGapNs - 1) / m.minGapNs) := by
  have hpayload := m.payloadSize_ge
  have hgap := m.minGapNs_pos
  unfold latenessPositions
  rw [if_neg (by omega)]
  dsimp only
  rw [if_neg (not_lt.mpr hsum)]
  exact if_neg (show m.minGapNs ≠ 0 by omega)

theorem lt_latenessPositions {d : ℕ}
    (hworst : latenessPositions m.payloadSize jitter skew = .ok worst)
    (hd : d * m.minGapNs < skew + jitter) : d < worst := by
  have hsum : skew + jitter ≤ u64Max := by
    unfold latenessPositions at hworst
    split_ifs at hworst with h₁ h₂
    exact not_lt.mp h₂
  rw [latenessPositions_eq m hsum] at hworst
  cases hworst
  rw [Nat.lt_iff_add_one_le, Nat.le_div_iff_mul_le m.minGapNs_pos, Nat.add_mul, Nat.one_mul]
  omega

/-! ## The network -/

theorem survivors_within {send : ℕ → ℕ} {i t : ℕ}
    (h : t ∈ survivors
      ((NetworkConfig.skewed base jitter skew lossA lossB seed).copies rng send i)) :
    send i + base ≤ t ∧ t ≤ send i + base + skew + jitter := by
  rcases List.mem_append.mp h with ha | hb
  · obtain ⟨j, hj, rfl⟩ := NetworkConfig.copies_within.1 (Option.mem_toList.mp ha)
    have hj : j ≤ jitter := hj
    change _ ≤ send i + base + j ∧ send i + base + j ≤ _
    omega
  · obtain ⟨path, hpath, j, hj, rfl⟩ := NetworkConfig.copies_within.2 (Option.mem_toList.mp hb)
    obtain ⟨loss, -, rfl⟩ := Option.map_eq_some_iff.mp hpath
    dsimp only at hj ⊢
    omega

theorem disturb_late (hworst : latenessPositions m.payloadSize jitter skew = .ok worst)
    (hpos : 0 < jitter + skew) (hs : ∀ i < n, m.sendNs i = .ok (m.sendTime i))
    {schedule : List (ℕ × ℕ)} {stats : NetworkStats}
    (h : disturb rng n m.sendNs (.skewed base jitter skew lossA lossB seed) =
      .ok (schedule, stats)) :
    (schedule.map Prod.snd).Pairwise fun x y => x < y + worst := by
  have hpositive : 0 < worst := lt_latenessPositions hworst (by omega)
  obtain ⟨hsorted, -, hmem⟩ := disturb_schedule hs h
  rw [List.pairwise_map]
  refine hsorted.imp_of_mem ?_
  rintro ⟨t, i⟩ ⟨t', i'⟩ hi hi' horder
  dsimp only at horder ⊢
  obtain ⟨hlow, -⟩ := survivors_within (List.min?_mem ((hmem t i).mp hi).2)
  obtain ⟨-, hhigh⟩ := survivors_within (List.min?_mem ((hmem t' i').mp hi').2)
  rcases le_or_gt i i' with hle | hgt
  · omega
  · -- the later packet arrived strictly earlier, so the send times are close
    obtain ⟨d, rfl⟩ := Nat.exists_eq_add_of_le hgt.le
    have hspaced := m.sendTime_add i' d
    have := lt_latenessPositions (d := d) hworst (by omega)
    omega

end Benchmark

/-! ## The receiver -/

namespace ReceiverKeyManager

variable {w : ℕ} {c : Crypto} {m : StreamModel} {granularity : Granularity} {start : StreamRatchet}
  {k seekCap calls worst : ℕ} {throwaway : KeySalt} {r r' : ReceiverKeyManager (SrtpStream w)}

theorem Serves.exists_run (throwaway : KeySalt) (hg : granularity.Valid) (l : List ℕ)
    (hlen : l ≠ [] → rtpHeaderLen + m.payloadSize + gcmTagLen < 2 ^ 31)
    (h : Serves c m granularity start k calls r) (hcalls : calls + l.length + 1 < 2 ^ 48) :
    ∃ outs r', run (ReceiverKeyManager.unprotect (SrtpStream.ops c throwaway w) c) r
      (l.map (m.protectedPacket c granularity start)) = .ok (outs, r') := by
  induction l generalizing calls r with
  | nil => exact ⟨[], r, rfl⟩
  | cons i l ih =>
    rw [List.length_cons] at hcalls
    have hlen := hlen (List.cons_ne_nil i l)
    obtain ⟨out, r₁, hu, h₁⟩ := h.exists_unprotect throwaway hg hlen (by omega) i
    obtain ⟨outs, r₂, hrun⟩ := ih (fun _ => hlen) h₁ (by omega)
    exact ⟨_, r₂, run_cons_ok_iff.mpr ⟨out, r₁, outs, hu, hrun, rfl⟩⟩

theorem Tracks.run_covered (throwaway : KeySalt) (hw : 0 < w) {l : List ℕ} {n : ℕ}
    (hlen : l ≠ [] → rtpHeaderLen + m.payloadSize + gcmTagLen < 2 ^ 31)
    (h : Tracks c m .packet start k seekCap none [] 0 r)
    (hnodup : l.Nodup) (hlt : ∀ i ∈ l, i < n) (hn : n + 1 < 2 ^ 48)
    (hlate : l.Pairwise fun x y => x < y + worst) (hwindow : worst + 1 ≤ k) (hreplay : worst ≤ w)
    (hhalf : worst ≤ 32767) (hunbroken : Unbroken l) {outs : List (Except RecvDrop ℕ × Bytes)}
    (hrun : run (ReceiverKeyManager.unprotect (SrtpStream.ops c throwaway w) c) r
      (l.map (m.protectedPacket c .packet start)) = .ok (outs, r'))
    (hcap : r'.stats.dropsSeekCap = 0) :
    outs = l.map (fun i => (.ok i, m.plainPacket i)) ∧ (∀ d, r'.stats.drops d = 0) ∧
      Tracks c m .packet start k seekCap l.max? l.reverse l.length r' := by
  induction l using List.reverseRecOn generalizing outs r' with
  | nil =>
    cases hrun
    refine ⟨rfl, ?_, h⟩
    have houtcomes := h.outcomes
    intro d
    cases d <;> simp only [RecvStats.drops] <;> omega
  | append_singleton l i ih =>
    rw [List.map_append, List.map_singleton] at hrun
    obtain ⟨outs₁, r₁, out, hrun₁, hu, rfl⟩ := run_concat_ok_iff.mp hrun
    obtain ⟨hnodup₁, -, hnew⟩ := List.nodup_append.mp hnodup
    obtain ⟨hlate₁, -, hlast⟩ := List.pairwise_append.mp hlate
    have hseek : r'.stats.dropsSeekCap = r₁.stats.dropsSeekCap + _ :=
      unprotect_drops hu .seekCapExceeded
    have hlen := hlen (List.append_ne_nil_of_right_ne_nil l (List.cons_ne_nil i []))
    obtain ⟨rfl, hdrops, htracks⟩ := ih (fun _ => hlen) hnodup₁
      (fun j hj => hlt j (List.mem_append_left _ hj)) hlate₁
      (fun pre j hpre => hunbroken pre j (hpre.trans (List.prefix_append _ _))) hrun₁ (by omega)
    -- the packet is less than half a cycle from the newest one
    have hread : readIndex l.max? i = i := by
      refine readIndex_of_near ?_ (hunbroken l i List.prefix_rfl) ?_
      · intro x hx
        have := hlt x (List.mem_append_left _ (List.max?_mem hx))
        omega
      · intro x hx
        have := hlast x (List.max?_mem hx) i (List.mem_singleton_self i)
        omega
    have hlength := length_le_of_lt hnodup hlt
    rw [List.length_append, List.length_singleton] at hlength
    have hi := hlt i (by simp)
    have hnotin : i ∉ l.reverse := by
      rw [List.mem_reverse]
      exact fun hi => hnew i hi i (List.mem_singleton_self i) rfl
    obtain ⟨out', r₂, hu', hcase⟩ := htracks.unprotect_right throwaway trivial hw hlen (by omega)
      (by omega) hnotin hread rfl
    cases hu.symm.trans hu'
    rcases hcase with ⟨rfl, htracks'⟩ | ⟨d, hout, -, rfl | ⟨x, hx, hold⟩⟩
    · refine ⟨by rw [List.map_append]; rfl, ?_, ?_⟩
      · intro d
        rw [unprotect_drops hu, hdrops, if_neg (by simp)]
      · rw [max?_concat, List.reverse_append, List.length_append]
        exact htracks'
    · rw [if_pos hout] at hseek
      omega
    · -- a packet that either window has left behind would be later than the worst
      have hbehind := hlast x (List.max?_mem hx) i (List.mem_singleton_self i)
      rcases hold with ⟨-, hold⟩ | ⟨-, hold⟩
      · have hold : i + k ≤ x := hold
        omega
      · omega

end ReceiverKeyManager

namespace Benchmark

variable {ρ : Type*}

theorem sweepCfg_covers {payload worst : ℕ} {facility : Bool} {args : Args} {cfg : RunConfig}
    (h : sweepCfg .packet payload facility args = .ok cfg)
    (hworst : latenessPositions payload cfg.jitterNs cfg.skewNs = .ok worst)
    (hmax : worst ≤ libsrtpReplayMax) :
    worst + 1 ≤ cfg.keyWindow ∧ worst ≤ cfg.replayWindow := by
  unfold sweepCfg at h
  generalize hnet : (if facility then (args.jitterNs, args.loss, args.skewNs, false)
    else (0, 0, 0, true)) = network at h
  obtain ⟨jitter, loss, skew, singlePath⟩ := network
  dsimp only at h
  cases hlate : latenessPositions payload jitter skew with
  | error p =>
    rw [hlate] at h
    cases h
  | ok worst' =>
    rw [hlate] at h
    cases h
    cases hlate.symm.trans hworst
    exact ⟨by simp, le_min (le_max_left _ _) hmax⟩

theorem exists_run_covered {c : Crypto} {throwaway throwaway' : KeySalt} {m : StreamModel}
    {start : StreamRatchet} {k windowSize seekCap n worst : ℕ} {s s' : SimulatedSender}
    {packets arrivals : List (ℕ × Bytes)}
    {r₀ : ReceiverKeyManager (SrtpStream (windowBits windowSize))}
    (hk : worst + 1 ≤ k) (hwindow : worst ≤ windowSize) (hhalf : worst ≤ 32767)
    (hstart : start.generation = 0)
    (hsender : SimulatedSender.new c throwaway m .packet start = .ok s)
    (hpackets : run (fun s (_ : Unit) => s.nextProtected c) s (List.replicate n ()) =
      .ok (packets, s'))
    (hreceiver : ReceiverKeyManager.new (SrtpStream.ops c throwaway' _)
      (SrtpStream.addStream m.ssrc.toNat windowSize)
      (.forGranularity .packet startTs framePeriod 0) start k seekCap = .ok r₀)
    (hsent : ∀ a ∈ arrivals, a ∈ packets) (hnodup : (arrivals.map Prod.fst).Nodup)
    (hlate : (arrivals.map Prod.fst).Pairwise fun x y => x < y + worst) :
    ∃ outs r, run (ReceiverKeyManager.unprotect (SrtpStream.ops c throwaway' _) c) r₀
        (arrivals.map Prod.snd) = .ok (outs, r) ∧
      (r.stats.dropsSeekCap = 0 → Unbroken (arrivals.map Prod.fst) →
        outs = arrivals.map (fun a => (.ok a.1, m.plainPacket a.1)) ∧
        ∀ d, r.stats.drops d = 0) := by
  have hg : Granularity.packet.Valid := trivial
  have hbits : windowSize ≤ windowBits windowSize := by
    unfold windowBits
    split_ifs <;> omega
  have hlimit := SimulatedSender.lt_of_run_nextProtected hg hstart hsender hpackets
  obtain ⟨rfl, hfits⟩ := SimulatedSender.run_nextProtected hg hstart hlimit hsender hpackets
  obtain ⟨hlt, hbytes⟩ := StreamModel.map_snd_of_sent hsent
  have hn : n + 1 < 2 ^ 48 := by
    rcases Nat.eq_zero_or_pos n with rfl | hn
    · decide
    · exact (hfits hn).2
  have hlen : arrivals.map Prod.fst ≠ [] → rtpHeaderLen + m.payloadSize + gcmTagLen < 2 ^ 31 := by
    intro hne
    obtain ⟨i, hi⟩ := List.exists_mem_of_ne_nil _ hne
    exact (hfits (Nat.zero_lt_of_lt (hlt i hi))).1
  have hlength := length_le_of_lt hnodup hlt
  have h₀ := ReceiverKeyManager.tracks_new hstart hreceiver
  obtain ⟨outs, r, hrun⟩ := h₀.exists_run throwaway' hg _ hlen (by omega)
  rw [hbytes]
  refine ⟨outs, r, hrun, ?_⟩
  intro hcap hunbroken
  obtain ⟨houts, hdrops, -⟩ := h₀.run_covered throwaway' (windowBits_pos _) hlen hnodup hlt hn hlate
    hk (hwindow.trans hbits) hhalf hunbroken hrun hcap
  rw [List.map_map] at houts
  exact ⟨houts, hdrops⟩

/-- The network makes no packet as late as the sweep allows for. A packet-level receiver whose
windows are sized for that lateness decrypts every packet delivered, if none is beyond the seek
cap and none comes after an outage of half a cycle of sequence numbers. -/
theorem sweep_windows_suffice (rng : Rng ρ) (c : Crypto) (throwaway throwaway' : KeySalt)
    (m : StreamModel) (base jitter skew : ℕ) (lossA : LossModel) (lossB : Option LossModel)
    (seed n worst : ℕ) (hpos : 0 < jitter + skew)
    (hworst : latenessPositions m.payloadSize jitter skew = .ok worst)
    (hs : ∀ i < n, ∃ t, m.sendNs i = .ok t) :
    ((∀ i < n, m.sendTime i + base + skew + jitter ≤ u64Max) →
        ∃ r, disturb rng n m.sendNs (.skewed base jitter skew lossA lossB seed) = .ok r) ∧
      ∀ schedule stats, disturb rng n m.sendNs (.skewed base jitter skew lossA lossB seed) =
          .ok (schedule, stats) →
        (∀ j < schedule.length, lateness (schedule.map Prod.snd) j < worst) ∧
        stats.displacement.maxLateness < worst ∧
        ∀ (secret : ByteArr chainSecretLen) (k windowSize seekCap : ℕ)
          (s s' : SimulatedSender) (packets arrivals : List (ℕ × Bytes))
          (r₀ : ReceiverKeyManager (SrtpStream (windowBits windowSize))),
          worst + 1 ≤ k → worst ≤ windowSize → worst ≤ 32767 →
          SimulatedSender.new c throwaway m .packet ⟨secret, 0⟩ = .ok s →
          run (fun s (_ : Unit) => s.nextProtected c) s (List.replicate n ()) =
            .ok (packets, s') →
          ReceiverKeyManager.new (SrtpStream.ops c throwaway' _)
            (SrtpStream.addStream m.ssrc.toNat windowSize)
            (.forGranularity .packet startTs framePeriod 0) ⟨secret, 0⟩ k seekCap = .ok r₀ →
          (∀ a ∈ arrivals, a ∈ packets) → arrivals.map Prod.fst = schedule.map Prod.snd →
          ∃ outs r, run (ReceiverKeyManager.unprotect (SrtpStream.ops c throwaway' _) c) r₀
              (arrivals.map Prod.snd) = .ok (outs, r) ∧
            (r.stats.dropsSeekCap = 0 → Unbroken (schedule.map Prod.snd) →
              outs = arrivals.map (fun a => (.ok a.1, m.plainPacket a.1)) ∧
              r.stats.dropsBehind = 0 ∧ r.stats.dropsReplay = 0 ∧ r.stats.dropsAuth = 0) := by
  have hsend : ∀ i < n, m.sendNs i = .ok (m.sendTime i) := by
    intro i hi
    obtain ⟨t, ht⟩ := hs i hi
    rw [ht, m.sendNs_ok ht]
  refine ⟨?_, ?_⟩
  · intro hfit
    rw [exists_disturb_iff hsend]
    intro i hi t ht
    exact (survivors_within ht).2.trans (hfit i hi)
  · intro schedule stats hnet
    have hlate := disturb_late hworst hpos hsend hnet
    have hpositive : 0 < worst := lt_latenessPositions hworst (by omega)
    have hbound : ∀ j < schedule.length, lateness (schedule.map Prod.snd) j < worst := by
      intro j hj
      exact lateness_lt_of_pairwise hlate hpositive (by rwa [List.length_map])
    refine ⟨hbound, ?_, ?_⟩
    · obtain ⟨-, hmeasure, -⟩ := disturb_ok hsend hnet
      obtain ⟨displacement, hd, -, hmax, -⟩ := measureDisplacement_ok schedule
      cases hmeasure.symm.trans hd
      rw [hmax]
      cases hm : (latenesses (schedule.map Prod.snd)).max? with
      | none => exact hpositive
      | some x =>
        obtain ⟨j, hj, rfl⟩ := List.mem_map.mp (List.max?_mem hm)
        rw [List.mem_range, List.length_map] at hj
        exact hbound j hj
    · intro secret k windowSize seekCap s s' packets arrivals r₀ hk hwindow hhalf hsender
        hpackets hreceiver hsent horder
      obtain ⟨-, hnodup, -⟩ := disturb_schedule hsend hnet
      rw [← horder] at hnodup hlate ⊢
      obtain ⟨outs, r, hrun, hdecrypted⟩ := exists_run_covered hk hwindow hhalf rfl hsender hpackets
        hreceiver hsent hnodup hlate
      refine ⟨outs, r, hrun, ?_⟩
      intro hcap hunbroken
      obtain ⟨houts, hdrops⟩ := hdecrypted hcap hunbroken
      exact ⟨houts, hdrops .behindWindow, hdrops .srtpReplay, hdrops .authFail⟩

theorem sweep_windows_suffice_reordered :
    ∃ (m : StreamModel) (packet : ℕ → Bytes) (schedule : List (ℕ × ℕ)) (stats : NetworkStats)
      (r₀ r : ReceiverKeyManager (SrtpStream (windowBits 512))),
      disturb Rng.counter 4 m.sendNs
        (.skewed baseDelayNs 40 40 (.independent (1 / 2)) (some .none) 0) = .ok (schedule, stats) ∧
      schedule.map Prod.snd = [1, 0, 2, 3] ∧ stats.displacement.maxLateness < 4 ∧
      run (ReceiverKeyManager.unprotect (SrtpStream.toyOps _) Crypto.toy) r₀
        ([1, 0, 2, 3].map packet) =
          .ok ([1, 0, 2, 3].map (fun i => (.ok i, m.plainPacket i)), r) ∧
      r.stats.dropsBehind = 0 ∧ r.stats.dropsReplay = 0 ∧ r.stats.dropsAuth = 0 := by
  have hworst : latenessPositions 8 40 40 = .ok 4 := rfl
  have hcfg : sweepCfg .packet 8 true ⟨4, 40, 1 / 2, 40, 0⟩ =
    .ok ⟨.packet, 8, 4, 40, 1 / 2, 40, false, 512, 4096, 512, 0⟩ := rfl
  obtain ⟨hk, hwindow⟩ := sweepCfg_covers hcfg hworst (by decide)
  have hs : ∀ i < 4, ∃ t, (StreamModel.mk 8 ssrc (by decide)).sendNs i = .ok t := by
    intro i hi
    refine ⟨_, StreamModel.sendNs_of_fit _ ?_⟩
    have := Nat.div_le_self i (StreamModel.mk 8 ssrc (by decide)).packetsPerFrame
    omega
  obtain ⟨schedule, stats, hnet, horder⟩ := exists_of_returns
    (q := fun schedule _ => schedule.map Prod.snd == [1, 0, 2, 3])
    (x := disturb Rng.counter 4 (StreamModel.mk 8 ssrc (by decide)).sendNs
      (.skewed baseDelayNs 40 40 (.independent (1 / 2)) (some .none) 0)) (by decide +kernel)
  have horder : schedule.map Prod.snd = [1, 0, 2, 3] := eq_of_beq horder
  obtain ⟨s, hsender⟩ : ∃ s, SimulatedSender.new Crypto.toy (ByteArr.replicate _ 0)
    ⟨8, ssrc, by decide⟩ .packet ⟨ByteArr.replicate _ 0, 0⟩ = .ok s := ⟨_, rfl⟩
  have hg : Granularity.packet.Valid := trivial
  obtain ⟨packets, s', hpackets⟩ := SimulatedSender.exists_run_nextProtected (n := 4) hg rfl
    (by decide) (by decide) hsender
  obtain ⟨rfl, -⟩ := SimulatedSender.run_nextProtected hg rfl (by decide) hsender hpackets
  -- no packet is beyond the seek cap
  obtain ⟨r₀, hreceiver, hseek⟩ : ∃ r₀, ReceiverKeyManager.new (SrtpStream.toyOps (windowBits 512))
      (SrtpStream.addStream ssrc.toNat 512) (.forGranularity .packet startTs framePeriod 0)
      ⟨ByteArr.replicate _ 0, 0⟩ 512 4096 = .ok r₀ ∧
    returns (fun _ r => r.stats.dropsSeekCap == 0)
      (run (ReceiverKeyManager.unprotect (SrtpStream.toyOps _) Crypto.toy) r₀
        ([1, 0, 2, 3].map ((StreamModel.mk 8 ssrc (by decide)).protectedPacket Crypto.toy .packet
          ⟨ByteArr.replicate _ 0, 0⟩))) = true := ⟨_, rfl, by decide +kernel⟩
  obtain ⟨-, hall⟩ := sweep_windows_suffice Rng.counter Crypto.toy (ByteArr.replicate _ 0)
    (ByteArr.replicate _ 0) ⟨8, ssrc, by decide⟩ baseDelayNs 40 40 (.independent (1 / 2))
    (some .none) 0 4 4 (by decide) hworst hs
  obtain ⟨-, hmax, hreceived⟩ := hall schedule stats hnet
  obtain ⟨outs, r, hrun, hdecrypted⟩ := hreceived _ 512 512 4096 s s' _
    ([1, 0, 2, 3].map fun i => (i, (StreamModel.mk 8 ssrc (by decide)).protectedPacket Crypto.toy
      .packet ⟨ByteArr.replicate _ 0, 0⟩ i))
    r₀ hk hwindow (by decide) hsender hpackets hreceiver (by simp) horder.symm
  obtain ⟨_, _, hrun', hcap⟩ := exists_of_returns hseek
  cases hrun.symm.trans hrun'
  obtain ⟨rfl, hdrops⟩ := hdecrypted (eq_of_beq hcap)
    (unbroken_of_short (by rw [horder]; decide))
  rw [List.map_map, List.map_map] at hrun
  exact ⟨_, _, schedule, stats, r₀, r, hnet, horder, hmax, hrun, hdrops⟩

/-- After an outage of one cycle of sequence numbers, a packet fails to authenticate in a receiver
with the windows of the sweep. -/
theorem sweep_windows_fail_after_outage :
    ∃ (m : StreamModel) (worst : ℕ) (schedule : List (ℕ × ℕ)) (stats : NetworkStats)
      (s s' : SimulatedSender) (packets arrivals : List (ℕ × Bytes))
      (r₀ r : ReceiverKeyManager (SrtpStream (windowBits 512)))
      (outs : List (Except RecvDrop ℕ × Bytes)),
      latenessPositions m.payloadSize 50000 150000 = .ok worst ∧
      worst + 1 ≤ 512 ∧ worst ≤ 512 ∧ worst ≤ 32767 ∧
      disturb (Rng.outage 65536) (65536 + 1) m.sendNs
        (.skewed baseDelayNs 50000 150000 (.independent (1 / 2)) none 1) = .ok (schedule, stats) ∧
      SimulatedSender.new Crypto.toy (ByteArr.replicate _ 0) m .packet
        ⟨ByteArr.replicate _ 0, 0⟩ = .ok s ∧
      run (fun s (_ : Unit) => s.nextProtected Crypto.toy) s (List.replicate (65536 + 1) ()) =
        .ok (packets, s') ∧
      ReceiverKeyManager.new (SrtpStream.toyOps _) (SrtpStream.addStream m.ssrc.toNat 512)
        (.forGranularity .packet startTs framePeriod 0) ⟨ByteArr.replicate _ 0, 0⟩ 512 4096 =
          .ok r₀ ∧
      (∀ a ∈ arrivals, a ∈ packets) ∧ arrivals.map Prod.fst = schedule.map Prod.snd ∧
      run (ReceiverKeyManager.unprotect (SrtpStream.toyOps _) Crypto.toy) r₀
        (arrivals.map Prod.snd) = .ok (outs, r) ∧
      r.stats.dropsSeekCap = 0 ∧ r.stats.dropsAuth = 1 := by
  obtain ⟨m, hsize, hworst, hfit, s, hsender, r₀, hreceiver⟩ :
    ∃ m : StreamModel, m.payloadSize = 1424 ∧
      latenessPositions m.payloadSize 50000 150000 = .ok 44 ∧
      m.sendTime 65536 + baseDelayNs ≤ u64Max ∧
      ∃ s, SimulatedSender.new Crypto.toy (ByteArr.replicate _ 0) m .packet
        ⟨ByteArr.replicate _ 0, 0⟩ = .ok s ∧
      ∃ r₀, ReceiverKeyManager.new (SrtpStream.toyOps (windowBits 512))
        (SrtpStream.addStream m.ssrc.toNat 512) (.forGranularity .packet startTs framePeriod 0)
        ⟨ByteArr.replicate _ 0, 0⟩ 512 4096 = .ok r₀ :=
    ⟨⟨1424, ssrc, by decide⟩, rfl, rfl, by decide +kernel, _, rfl, _, rfl⟩
  have hg : Granularity.packet.Valid := trivial
  have hlen : rtpHeaderLen + m.payloadSize + gcmTagLen < 2 ^ 31 := by
    rw [hsize]
    decide
  obtain ⟨stats, hnet⟩ := disturb_sendNs_outage m (n := 65536) (by decide) hfit
  obtain ⟨packets, s', hpackets⟩ := SimulatedSender.exists_run_nextProtected (n := 65536 + 1) hg rfl
    (by decide) hlen hsender
  have hproduced := (SimulatedSender.run_nextProtected hg rfl (by decide) hsender hpackets).1
  -- packet 65536 has the sequence number of packet 0
  have h₀ := ReceiverKeyManager.tracks_new rfl hreceiver
  have houtcomes := h₀.outcomes
  obtain ⟨r, hu⟩ := h₀.first_packet_fails (i := 65536) (ByteArr.replicate _ 0) (windowBits_pos _)
    hlen (by decide) (authentic_toy _ _ _) (by decide) (by decide)
  have hseek : r.stats.dropsSeekCap = r₀.stats.dropsSeekCap + _ :=
    ReceiverKeyManager.unprotect_drops hu .seekCapExceeded
  have hauth : r.stats.dropsAuth = r₀.stats.dropsAuth + _ :=
    ReceiverKeyManager.unprotect_drops hu .authFail
  rw [if_neg nofun] at hseek
  rw [if_pos rfl] at hauth
  refine ⟨m, 44, _, stats, s, s', _,
    [(65536, m.protectedPacket Crypto.toy .packet ⟨ByteArr.replicate _ 0, 0⟩ 65536)], r₀, r, _,
    hworst, by decide, by decide, by decide, hnet, hsender, hpackets, hreceiver, ?_, rfl,
    run_singleton.mpr hu, by omega, by omega⟩
  intro a ha
  rw [List.mem_singleton.mp ha, hproduced]
  exact List.mem_map_of_mem (List.mem_range.mpr (Nat.lt_succ_self _))

end Benchmark

end SafeCast
