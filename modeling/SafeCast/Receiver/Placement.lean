import SafeCast.Receiver.Window

/-! # Which packets are placed, and which abort the receiver

A packet reaches decryption when its header maps it to a generation within reach. An
epoch whose base is past the first sequence-number cycle never places its first packets.
From a reachable state a call returns exactly when the packet is dropped before
decryption or libsrtp answers with a packet, a replay error or an authentication error.
-/

namespace SafeCast

open Runs

variable {c : Crypto}

namespace ReceiverKeyManager

variable {σ : Type*} {ops : SrtpOps σ} {r r₀ : ReceiverKeyManager σ} {buf : Bytes}
  {start : StreamRatchet} {k : ℕ}

def MapsTo (r : ReceiverKeyManager σ) (buf : Bytes) (g : ℕ) : Prop :=
  ∃ estIndex, r.scheme.mapGeneration r.recovery buf = .ok (.ok (g, estIndex))

def InReach (r : ReceiverKeyManager σ) (g : ℕ) : Prop :=
  (∀ f, r.frontier = some f → f < g + r.ring.length) ∧ g < r.nextGeneration + r.seekCap

theorem classify_ok_iff (hr : KeyWindow c start k r) (g : ℕ) :
    (∃ placement, r.classify g = .ok (.ok placement)) ↔ r.InReach g := by
  obtain ⟨x, hx⟩ := hr.classify_ok g
  unfold InReach nextGeneration
  constructor
  · rintro ⟨placement | jump, h⟩
    · obtain ⟨f, hf, hg, hk, -⟩ := classify_inWindow h
      rw [hf]
      refine ⟨?_, by simp only [Option.elim_some]; omega⟩
      rintro f' ⟨⟩
      exact hk
    · obtain ⟨hcap, hg, hj⟩ := classify_ahead h
      unfold nextGeneration at hg hj
      refine ⟨?_, by omega⟩
      intro f hf
      rw [hf, Option.elim_some] at hg
      omega
  · rintro ⟨hbehind, hahead⟩
    rcases x with d | placement
    · exfalso
      unfold classify at hx
      split at hx
      · rename_i hf
        rw [hf, Option.elim_none] at hahead
        dsimp only at hx
        rw [if_neg (by omega)] at hx
        cases hx
      · rename_i f hf
        have := hbehind f hf
        rw [hf, Option.elim_some] at hahead
        split at hx
        · rw [if_neg (by omega)] at hx
          split at hx
          · split at hx <;> cases hx
          · cases hx
        · dsimp only at hx
          rw [if_neg (by omega)] at hx
          cases hx
    · exact ⟨placement, hx⟩

theorem plan_ok_iff (hr : KeyWindow c start k r) :
    (∃ p, r.plan c buf = .ok (.ok p)) ↔
      rtpHeaderLen ≤ buf.length ∧ ∃ g, r.MapsTo buf g ∧ r.InReach g := by
  constructor
  · rintro ⟨p, hp⟩
    obtain ⟨hlen, hmap, placement, hplace, -⟩ := plan_ok hp
    exact ⟨hlen, p.generation, ⟨_, hmap⟩, (classify_ok_iff hr _).mp ⟨_, hplace⟩⟩
  · rintro ⟨hlen, g, ⟨estIndex, hmap⟩, hreach⟩
    obtain ⟨placement, hplace⟩ := (classify_ok_iff hr g).mpr hreach
    obtain ⟨⟨keySalt, pending⟩, hfetch⟩ := hr.fetchKey_ok hplace
    refine ⟨⟨g, estIndex, keySalt, pending⟩, ?_⟩
    unfold plan
    rw [if_neg (not_lt.mpr hlen)]
    simp only [hmap, hplace, hfetch]

/-! ## The first packet of an epoch -/

def Plans (c : Crypto) (r : ReceiverKeyManager σ) (buf : Bytes) (g : ℕ) : Prop :=
  ∃ p, r.plan c buf = .ok (.ok p) ∧ p.generation = g

theorem generation_of_mapsTo {g : ℕ} {p : Plan} (hmaps : r.MapsTo buf g)
    (hplan : r.plan c buf = .ok (.ok p)) : p.generation = g := by
  obtain ⟨estIndex, hmap⟩ := hmaps
  obtain ⟨-, hmap', -⟩ := plan_ok hplan
  exact congrArg Prod.fst (Except.ok.inj (Except.ok.inj (hmap'.symm.trans hmap)))

theorem plans_iff (hr : KeyWindow c start k r) {g : ℕ} :
    r.Plans c buf g ↔ rtpHeaderLen ≤ buf.length ∧ r.MapsTo buf g ∧ r.InReach g := by
  constructor
  · rintro ⟨p, hp, rfl⟩
    obtain ⟨hlen, hmap, placement, hplace, -⟩ := plan_ok hp
    exact ⟨hlen, ⟨_, hmap⟩, (classify_ok_iff hr _).mp ⟨_, hplace⟩⟩
  · rintro ⟨hlen, hmap, hreach⟩
    obtain ⟨p, hp⟩ := (plan_ok_iff hr).mpr ⟨hlen, g, hmap, hreach⟩
    exact ⟨p, hp, generation_of_mapsTo hmap hp⟩

theorem plan_of_mapsTo (hr : KeyWindow c start k r) (hlen : rtpHeaderLen ≤ buf.length) {g : ℕ}
    (hmaps : r.MapsTo buf g) :
    r.Plans c buf g ∨
      (r.plan c buf = .ok (.error .behindWindow) ∧ ∃ f, r.frontier = some f ∧ g + k ≤ f) ∨
      (r.plan c buf = .ok (.error .seekCapExceeded) ∧ r.nextGeneration + r.seekCap ≤ g) := by
  by_cases hreach : r.InReach g
  · exact .inl ((plans_iff hr).mpr ⟨hlen, hmaps, hreach⟩)
  right
  obtain ⟨estIndex, hmap⟩ := hmaps
  unfold plan
  rw [if_neg (not_lt.mpr hlen), hmap]
  dsimp only
  have hring := hr.length_ring
  rw [InReach, not_and_or, not_lt] at hreach
  unfold classify
  cases hf : r.frontier with
  | none =>
    have hnext : r.nextGeneration = 0 := by rw [nextGeneration, hf, Option.elim_none]
    right
    -- before the first packet nothing is behind, so the generation is beyond the cap
    have hcap : r.seekCap ≤ g := by
      rcases hreach with hbehind | hcap
      · exact absurd (fun f h => by rw [hf] at h; cases h) hbehind
      · omega
    simp only [if_pos (show g + 1 > r.seekCap by omega)]
    exact ⟨trivial, by omega⟩
  | some f =>
    have hnext := nextGeneration_of_frontier hf
    by_cases hg : g ≤ f
    · left
      have hbehind : g + k ≤ f := by
        rcases hreach with hbehind | hcap
        · simp only [hf, Option.some.injEq, forall_eq', not_lt] at hbehind
          omega
        · omega
      simp only [if_pos hg, if_pos (show f - g ≥ r.ring.length by omega)]
      exact ⟨trivial, f, rfl, hbehind⟩
    · right
      have hcap : r.nextGeneration + r.seekCap ≤ g := by
        rcases hreach with hbehind | hcap
        · simp only [hf, Option.some.injEq, forall_eq', not_lt] at hbehind
          omega
        · exact hcap
      simp only [if_neg hg, if_pos (show g - f > r.seekCap by omega)]
      exact ⟨trivial, hcap⟩

/-- A fresh receiver reads the sequence number as the index, so it places the packet `j`
of an epoch exactly when that index is in the first cycle. -/
theorem plans_first_packet_iff (ops : SrtpOps σ) (c : Crypto) (stream : Except SrtpError σ)
    (seed : ByteArr chainSecretLen) (base j n seekCap : ℕ) {g : ℕ} {scheme : GenerationScheme}
    (hbase : base < 2 ^ 47) (hj : j < 32768) (hn : 1 ≤ n)
    (hscheme : scheme = .packet base ∧ g = j ∨ scheme = .everyN base n ∧ g = j / n)
    (hcap : j + 1 ≤ seekCap) (h₀ : new ops stream scheme ⟨seed, 0⟩ k seekCap = .ok r₀)
    (hlen : rtpHeaderLen ≤ buf.length) (hseq : seqOf buf = (base + j) % 2 ^ 16) :
    r₀.Plans c buf g ↔ base + j < 2 ^ 16 := by
  have hr : KeyWindow c ⟨seed, 0⟩ k r₀ := keyWindow_new rfl h₀
  have hgj : g ≤ j := by
    rcases hscheme with ⟨-, rfl⟩ | ⟨-, rfl⟩
    · exact le_rfl
    · exact Nat.div_le_self j n
  have hreach : r₀.InReach g := by
    obtain ⟨s, hk, -, -, rfl⟩ := new_ok h₀
    refine ⟨nofun, ?_⟩
    change g < 0 + seekCap
    omega
  have hindex : base ≤ seqOf buf ↔ base + j < 2 ^ 16 := by omega
  rw [plans_iff hr, ← hindex]
  obtain ⟨s, hk, -, -, rfl⟩ := new_ok h₀
  constructor
  · rintro ⟨-, ⟨estIndex, hmap⟩, -⟩
    rcases hscheme with ⟨rfl, -⟩ | ⟨rfl, -⟩
    · exact (GenerationScheme.mapGeneration_packet_iff.mp hmap).1
    · exact ((GenerationScheme.mapGeneration_everyN_iff hn).mp hmap).1
  · intro hle
    have hsub : seqOf buf - base = j := by omega
    refine ⟨hlen, ⟨some (seqOf buf), ?_⟩, hreach⟩
    rcases hscheme with ⟨rfl, rfl⟩ | ⟨rfl, rfl⟩
    · exact GenerationScheme.mapGeneration_packet_iff.mpr ⟨hle, hsub.symm, rfl⟩
    · exact (GenerationScheme.mapGeneration_everyN_iff hn).mpr ⟨hle, by rw [← hsub]; rfl, rfl⟩

theorem plans_first_packet_every_three :
    ∃ r₀, new acceptAll (.ok ()) (.everyN 40000 3) ⟨ByteArr.replicate _ 0, 0⟩ 4 10 = .ok r₀ ∧
      r₀.Plans Crypto.toy [0x80, 96, 156, 71, 0, 0, 0, 0, 0, 0, 0, 7] 2 := by
  obtain ⟨r₀, h₀⟩ : ∃ r₀, new acceptAll (.ok ()) (.everyN 40000 3) ⟨ByteArr.replicate _ 0, 0⟩ 4 10 =
    .ok r₀ := ⟨_, rfl⟩
  exact ⟨r₀, h₀, (plans_first_packet_iff acceptAll Crypto.toy _ _ 40000 7 3 10 (by norm_num)
    (by norm_num) (by norm_num) (.inr ⟨rfl, rfl⟩) (by norm_num) h₀ (by decide) (by decide)).mpr
    (by norm_num)⟩

/-- An epoch that starts after one full cycle: its first packet is dropped. -/
theorem unprotect_first_packet_of_next_cycle :
    ∃ r₀ r, new acceptAll (.ok ()) (.packet 65536) ⟨ByteArr.replicate _ 0, 0⟩ 4 10 = .ok r₀ ∧
      seqOf [0x80, 96, 0, 0, 0, 0, 0, 0, 0, 0, 0, 7] = 65536 % 2 ^ 16 ∧
      r₀.unprotect acceptAll Crypto.toy [0x80, 96, 0, 0, 0, 0, 0, 0, 0, 0, 0, 7] =
        .ok ((.error .behindWindow, [0x80, 96, 0, 0, 0, 0, 0, 0, 0, 0, 0, 7]), r) := by
  obtain ⟨r₀, h₀⟩ : ∃ r₀, new acceptAll (.ok ()) (.packet 65536) ⟨ByteArr.replicate _ 0, 0⟩ 4 10 =
    .ok r₀ := ⟨_, rfl⟩
  obtain ⟨out, r, hr, hout⟩ := exists_of_returns
    (x := r₀.unprotect acceptAll Crypto.toy [0x80, 96, 0, 0, 0, 0, 0, 0, 0, 0, 0, 7])
    (q := fun out _ => out = (.error .behindWindow, [0x80, 96, 0, 0, 0, 0, 0, 0, 0, 0, 0, 7]))
    (by cases h₀; decide +kernel)
  rw [of_decide_eq_true hout] at hr
  exact ⟨r₀, r, h₀, by decide, hr⟩

/-! ## Aborts -/

end ReceiverKeyManager

variable {w : ℕ}

theorem SrtpStream.unprotectAead_servable_iff (s : SrtpStream w) (ks : KeySalt) (est : ℕ) (δ : ℤ)
    {packet : Bytes} (hlen : packet.length < 2 ^ 31) :
    (encStart packet + gcmTagLen ≤ packet.length ∧ s.keyLimitUpdate.numLeft ≠ 0) ↔
      ∀ e, (s.unprotectAead c ks packet est δ).1 = .error e → RecvDrop.ofSrtpError e ≠ none := by
  by_cases hroom : encStart packet + gcmTagLen ≤ packet.length
  · rw [unprotectAead_long hlen hroom]
    by_cases hlimit : s.keyLimitUpdate.numLeft < 1
    · rw [if_pos hlimit]
      constructor
      · rintro ⟨-, h⟩
        omega
      · intro h
        exact absurd rfl (h .keyExpired rfl)
    · rw [if_neg hlimit]
      constructor
      · rintro - e he
        split at he <;> cases he
        exact nofun
      · intro h
        exact ⟨hroom, by omega⟩
  · constructor
    · rintro ⟨h, -⟩
      exact absurd h hroom
    · intro h
      rcases unprotectAead_short c s ks est δ (not_le.mp hroom) with hs | hs
      · exact absurd rfl (h .parseErr (by rw [hs]))
      · exact absurd rfl (h .cipherFail (by rw [hs]))

theorem SrtpStream.servable_iff (s : SrtpStream w) (ks : KeySalt) (packet : Bytes) :
    s.Servable packet ↔ ∀ e, (s.unprotect c ks packet).1 = .error e →
      RecvDrop.ofSrtpError e ≠ none := by
  unfold Servable SrtpStream.unprotect
  by_cases hlen : 2 ^ 31 ≤ packet.length
  · rw [if_pos hlen]
    constructor
    · rintro ⟨h, -⟩
      omega
    · intro h
      exact absurd rfl (h .badParam rfl)
  rw [if_neg hlen]
  rcases hv : validateRtpHeader packet with e | u
  · obtain rfl := validateRtpHeader_error hv
    constructor
    · rintro ⟨-, h, -⟩
      cases h
    · intro h
      exact absurd rfl (h .badParam rfl)
  dsimp only
  by_cases hssrc : ssrcOf packet = s.ssrc
  swap
  · rw [if_pos hssrc]
    constructor
    · rintro ⟨-, -, h, -⟩
      exact absurd h hssrc
    · intro h
      exact absurd rfl (h .noCtx rfl)
  rw [if_neg (not_not.mpr hssrc)]
  rcases hc : s.rdbx.check (s.rdbx.estimateIndex (seqOf packet)).2 with e | u'
  · constructor
    · rintro - e' he'
      cases he'
      rcases Rdbx.check_error hc with rfl | rfl <;> exact nofun
    · intro h
      exact ⟨by omega, rfl, hssrc, .inl ⟨e, rfl⟩⟩
  dsimp only
  rw [← unprotectAead_servable_iff s ks _ _ (not_le.mp hlen)]
  constructor
  · rintro ⟨-, -, -, ⟨e, he⟩ | h⟩
    · cases he
    · exact h
  · intro h
    exact ⟨not_le.mp hlen, rfl, hssrc, .inr h⟩

namespace ReceiverKeyManager

theorem KeyWindow.exists_unprotect (throwaway : KeySalt) {start : StreamRatchet} {k : ℕ}
    {r : ReceiverKeyManager (SrtpStream w)} (hr : KeyWindow c start k r) (hvalid : r.scheme.Valid)
    {buf : Bytes} (hserv : rtpHeaderLen ≤ buf.length → ∀ g, r.MapsTo buf g → r.InReach g →
      r.session.stream.Servable buf) :
    ∃ out r', r.unprotect (SrtpStream.ops c throwaway w) c buf = .ok (out, r') := by
  rcases hu : r.unprotect (SrtpStream.ops c throwaway w) c buf with q | ⟨out, r'⟩
  · exfalso
    rcases ReceiverKeyManager.unprotect_error hu with hq | ⟨p, e, stream, hp, hs, hd, -⟩
    · exact (hr.plan_error hq).2 hvalid
    · obtain ⟨hlen, g, hmap, hreach⟩ := (plan_ok_iff hr).mp ⟨p, hp⟩
      have := hserv hlen g hmap hreach
      rw [SrtpStream.servable_iff (c := c) _ (r.cipherKey p)] at this
      exact this e (congrArg Prod.fst hs) hd
  · exact ⟨out, r', rfl⟩

/-- From every reachable state, a call returns exactly when the packet is dropped before
decryption or is one that libsrtp serves. -/
theorem unprotect_returns_iff (c : Crypto) (throwaway : KeySalt) (ssrc windowSize : ℕ)
    (scheme : GenerationScheme) (hscheme : scheme.Valid) (seed : ByteArr chainSecretLen)
    (k seekCap : ℕ) {r₀ r : ReceiverKeyManager (SrtpStream (windowBits windowSize))}
    (h₀ : new (SrtpStream.ops c throwaway _) (SrtpStream.addStream ssrc windowSize) scheme
      ⟨seed, 0⟩ k seekCap = .ok r₀)
    (h : Reaches (ReceiverKeyManager.unprotect (SrtpStream.ops c throwaway _) c)
      (fun _ => True) r₀ r) (buf : Bytes) :
    (∃ out r', r.unprotect (SrtpStream.ops c throwaway _) c buf = .ok (out, r')) ↔
      (rtpHeaderLen ≤ buf.length → ∀ g, r.MapsTo buf g → r.InReach g →
        r.session.stream.Servable buf) := by
  have hr : KeyWindow c ⟨seed, 0⟩ k r := KeyWindow.of_reaches rfl h₀ h
  have hvalid : r.scheme.Valid := by
    rw [scheme_of_reaches h₀ h]
    exact hscheme
  constructor
  · rintro ⟨out, r', hu⟩ hlen g hmap hreach
    obtain ⟨p, hp⟩ := (plan_ok_iff hr).mpr ⟨hlen, g, hmap, hreach⟩
    rw [SrtpStream.servable_iff (c := c) _ (r.cipherKey p)]
    intro e he hd
    have hs : (SrtpStream.ops c throwaway _).unprotect r.session.stream (r.cipherKey p) buf =
        (.error e, _) := Prod.ext he rfl
    rw [unprotect_unexpected hp hs hd] at hu
    cases hu
  · exact hr.exists_unprotect throwaway hvalid

theorem unprotect_returns_for_tagged :
    ∃ r₀ : ReceiverKeyManager (SrtpStream (windowBits 128)), ∃ out r',
      r₀.unprotect (SrtpStream.toyOps _) Crypto.toy
        ([0x80, 96, 0, 0, 0, 0, 0, 0, 0, 0, 0, 7] ++ List.replicate 16 0) = .ok (out, r') :=
  ⟨_, (unprotect_returns_iff Crypto.toy (ByteArr.replicate _ 0) 7 128 (.packet 0) trivial
    (ByteArr.replicate _ 0) 4 10 rfl (.start trivial) _).mpr fun _ _ _ _ =>
      ⟨by decide, by decide, by decide, .inr ⟨by decide, by decide⟩⟩⟩

/-- A bare RTP header of the stream has no room for the tag: libsrtp answers with
`cipher_fail` and the receiver aborts. -/
theorem unprotect_bare_header :
    ∃ r₀ : ReceiverKeyManager (SrtpStream (windowBits 128)),
      new (SrtpStream.toyOps _) (SrtpStream.addStream 7 128)
        (.packet 0) ⟨ByteArr.replicate _ 0, 0⟩ 4 10 = .ok r₀ ∧
      r₀.unprotect (SrtpStream.toyOps _) Crypto.toy
        [0x80, 96, 0, 0, 0, 0, 0, 0, 0, 0, 0, 7] = .error (.unexpectedSrtpError .cipherFail) := by
  refine ⟨_, rfl, ?_⟩
  rw [← abort?_eq_some]
  decide +kernel

end ReceiverKeyManager

end SafeCast
