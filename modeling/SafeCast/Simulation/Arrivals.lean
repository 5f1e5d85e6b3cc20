import SafeCast.Receiver.WorkLedger
import SafeCast.Simulation.EndToEnd

/-! # Packets of the stream in any order

What the receiver does with a packet of the stream that arrives at any time, also one that it
reads wrong: a sequence number does not tell positions apart that are a multiple of `2 ^ 16`
away. `Tracks` describes the receiver by the newest packet that it has decrypted.
-/

namespace SafeCast

open Runs

def readIndex (newest : Option ℕ) (i : ℕ) : ℕ := (IndexRecovery.mk newest).recover (i % 2 ^ 16)

theorem readIndex_of_near {newest : Option ℕ} {i : ℕ} (hlt : ∀ n ∈ newest, n < 2 ^ 63)
    (hahead : i < newest.elim 65536 (· + 32768)) (hbehind : ∀ n ∈ newest, n < i + 32768) :
    readIndex newest i = i := by
  apply IndexRecovery.recover_of_near hlt
  cases newest with
  | none => exact hahead
  | some n =>
    have := hbehind n rfl
    rw [Option.elim_some] at hahead
    exact abs_lt.mpr ⟨by omega, by omega⟩

theorem le_add_of_readIndex {n i : ℕ} (hn : n < 2 ^ 48) (h : readIndex (some n) i = i) :
    n ≤ i + 32768 := by
  by_contra hlate
  unfold readIndex at h
  rw [IndexRecovery.recover_eq_unwrap _ (Nat.mod_lt _ (by decide)) (show n < _ by omega)] at h
  unfold IndexRecovery.reference SerialNumber.unwrap SerialNumber.delta at h
  simp only [Option.getD_some] at h
  split_ifs at h <;> omega

theorem StreamModel.generation_mono (m : StreamModel) (granularity : Granularity) :
    Monotone (m.generation granularity) := by
  apply monotone_nat_of_le_succ
  intro i
  rcases m.generation_succ granularity i with h | h <;> omega

namespace StreamModel

variable (m : StreamModel) (granularity : Granularity) (k seekCap : ℕ)

/-- The receiver drops packet `i` after `newest` without harm to its books: before it derives a
key, or because it reads an old generation at a wrong position from a packet that is half a cycle
late. libsrtp keeps 48 bits of the position. -/
def Discards (newest : Option ℕ) (i : ℕ) : Prop :=
  let index := readIndex newest i
  let g := m.readGeneration granularity index i
  match newest with
  | none => seekCap ≤ g
  | some n =>
    m.generation granularity n + seekCap < g ∨
      (g + k ≤ m.generation granularity n ∧ (granularity = .packet → i ≤ n)) ∨
      (index % 2 ^ 48 ≠ i ∧ g ≤ m.generation granularity n ∧ i + 32768 ≤ n)

/-- The receiver reads packet `i` right, or drops it without harm. -/
def Tolerates (newest : Option ℕ) (i : ℕ) : Prop :=
  (readIndex newest i = i ∧
      m.readGeneration granularity (readIndex newest i) i = m.generation granularity i) ∨
    m.Discards granularity k seekCap newest i

end StreamModel

/-- AES-GCM does not open a packet of the stream at a position that it was not sealed for. -/
def Authentic (c : Crypto) (m : StreamModel) (granularity : Granularity) (start : StreamRatchet) :
    Prop :=
  ∀ i g est, i < 2 ^ 48 → est < 2 ^ 48 → est ≠ i →
    c.gcmOpen (splitKeySalt (start.keyAt c g)).1
      (calcAeadIv (splitKeySalt (start.keyAt c g)).2 m.ssrc.toNat est) (m.header i)
      ((m.protectedPacket c granularity start i).drop rtpHeaderLen) = none

theorem zipWith_xor_replicate (l : Bytes) (b : UInt8) :
    List.zipWith (· ^^^ ·) l (List.replicate l.length b) = l.map (· ^^^ b) := by
  induction l with
  | nil => rfl
  | cons x l ih =>
    rw [List.length_cons, List.replicate_succ, List.zipWith_cons_cons, ih, List.map_cons]

theorem calcAeadIv_replicate_inj {b b' : UInt8} {ssrc est est' : ℕ} (hest : est < 2 ^ 48)
    (hest' : est' < 2 ^ 48)
    (h : calcAeadIv (List.replicate 12 b) ssrc est = calcAeadIv (List.replicate 12 b') ssrc est') :
    est = est' := by
  have hmap : ∀ b est, calcAeadIv (List.replicate 12 b) ssrc est =
      ([0, 0] ++ Bytes.toBe 4 ssrc ++ Bytes.toBe 4 (est / 2 ^ 16) ++ Bytes.toBe 2 est).map
        (· ^^^ b) := by
    intro b est
    rw [calcAeadIv, ← zipWith_xor_replicate]
    congr 2
  rw [hmap, hmap] at h
  obtain rfl : b = b' := by simpa using congrArg List.head? h
  have hinj : Function.Injective (· ^^^ b) := fun x y hxy => (UInt8.xor_left_inj b).mp hxy
  obtain ⟨hfront, hseq⟩ := List.append_inj' (List.map_injective_iff.mpr hinj h) (by simp)
  obtain ⟨-, hroc⟩ := List.append_inj' hfront (by simp)
  have hroc := Bytes.toBe_inj (by omega) (by omega) hroc
  have hseq : est % 256 ^ 2 = est' % 256 ^ 2 := by
    rw [← Bytes.beNat_toBe, ← Bytes.beNat_toBe, hseq]
  omega

theorem authentic_toy (m : StreamModel) (granularity : Granularity) (start : StreamRatchet) :
    Authentic Crypto.toy m granularity start := by
  intro i g est hi hest hne
  obtain ⟨b, hb⟩ : ∃ b, (splitKeySalt (start.keyAt Crypto.toy g)).2 = List.replicate 12 b :=
    ⟨_, rfl⟩
  obtain ⟨b', hb'⟩ : ∃ b, (splitKeySalt (start.keyAt Crypto.toy (m.generation granularity i))).2 =
    List.replicate 12 b := ⟨_, rfl⟩
  have hlen : ∀ b est, (calcAeadIv (List.replicate 12 b) m.ssrc.toNat est).length = 12 := by
    intro b est
    simp [calcAeadIv]
  rw [StreamModel.protectedPacket, sealedPacket, drop_rtpHeader, Crypto.toy_gcmOpen_gcmSeal, hb,
    hb', if_neg]
  intro htag
  have hiv := Crypto.toyTag_inj (by rw [hlen, hlen]) (by rw [hlen]; decide) htag
  exact hne (calcAeadIv_replicate_inj hi hest hiv).symm

namespace ReceiverKeyManager

variable {w : ℕ} {c : Crypto} {m : StreamModel} {granularity : Granularity} {start : StreamRatchet}
  {k seekCap calls : ℕ} {newest : Option ℕ} {done : List ℕ} {i : ℕ} {throwaway : KeySalt}
  {r r' : ReceiverKeyManager (SrtpStream w)} {out : Except RecvDrop ℕ × Bytes}

/-- A receiver of the stream after some calls, whatever they were. -/
structure Serves (c : Crypto) (m : StreamModel) (granularity : Granularity)
    (start : StreamRatchet) (k calls : ℕ) (r : ReceiverKeyManager (SrtpStream w)) : Prop where
  window : KeyWindow c start k r
  scheme : r.scheme = .forGranularity granularity startTs framePeriod 0
  ssrc : r.session.stream.ssrc = m.ssrc.toNat
  left : keyUsageLimit ≤ r.session.stream.numLeft + calls
  outcomes : calls = r.stats.decrypted + r.stats.dropsBehind + r.stats.dropsSeekCap +
    r.stats.dropsReplay + r.stats.dropsAuth
  derived : r.stats.catchupSteps = r.stats.catchupStepsWasted + r.nextGeneration

theorem protectedPacket_eq (c : Crypto) (m : StreamModel) (granularity : Granularity)
    (start : StreamRatchet) (i : ℕ) :
    m.protectedPacket c granularity start i =
      m.header i ++ (m.protectedPacket c granularity start i).drop rtpHeaderLen := by
  simp only [StreamModel.protectedPacket, sealedPacket, StreamModel.header, drop_rtpHeader]

theorem length_protectedPacket (c : Crypto) (m : StreamModel) (granularity : Granularity)
    (start : StreamRatchet) (i : ℕ) :
    (m.protectedPacket c granularity start i).length =
      rtpHeaderLen + m.payloadSize + gcmTagLen := by
  rw [StreamModel.protectedPacket, length_sealedPacket, m.length_payload]

theorem rtpHeaderLen_le_length (c : Crypto) (m : StreamModel) (granularity : Granularity)
    (start : StreamRatchet) (i : ℕ) :
    rtpHeaderLen ≤ (m.protectedPacket c granularity start i).length := by
  rw [length_protectedPacket, Nat.add_assoc]
  exact Nat.le_add_right _ _

theorem srtp_unprotect_left {s s' : SrtpStream w} {ks : KeySalt} {buf : Bytes}
    {res : Except SrtpError Bytes} (hleft : s.numLeft ≠ 0)
    (h : s.unprotect c ks buf = (res, s')) :
    s'.ssrc = s.ssrc ∧ s.numLeft ≤ s'.numLeft + 1 := by
  have hlimit : s.keyLimitUpdate.numLeft = s.numLeft - 1 := if_neg hleft
  rcases SrtpStream.unprotect_cases h with ⟨-, -, -, rfl⟩ | ⟨-, -, rfl | ⟨rfl, -⟩⟩
  · exact ⟨rfl, by dsimp only; omega⟩
  · exact ⟨rfl, Nat.le_succ _⟩
  · exact ⟨rfl, by omega⟩

theorem unprotect_stream {buf : Bytes} (hleft : r.session.stream.numLeft ≠ 0)
    (h : r.unprotect (SrtpStream.ops c throwaway w) c buf = .ok (out, r')) :
    r'.session.stream.ssrc = r.session.stream.ssrc ∧
      r.session.stream.numLeft ≤ r'.session.stream.numLeft + 1 := by
  rcases unprotect_cases h with ⟨d, stats, -, -, rfl⟩ |
    ⟨p, e, d, stream, stats, -, hs, -, -, rfl⟩ | ⟨p, plain, stream, stats, -, hs, -, rfl⟩
  · exact ⟨rfl, Nat.le_succ _⟩
  · exact srtp_unprotect_left hleft hs
  · exact srtp_unprotect_left hleft hs

theorem Serves.step (h : Serves c m granularity start k calls r) (hcalls : calls + 2 < 2 ^ 48)
    {buf : Bytes} (hu : r.unprotect (SrtpStream.ops c throwaway w) c buf = .ok (out, r')) :
    Serves c m granularity start k (calls + 1) r' := by
  have hleft := h.left
  unfold keyUsageLimit at hleft
  obtain ⟨hssrc, hnum⟩ := unprotect_stream (by omega) hu
  have hcounts := h.window.callCounts hu
  exact {
    window := h.window.unprotect hu
    scheme := (unprotect_scheme hu).trans h.scheme
    ssrc := hssrc.trans h.ssrc
    left := by
      unfold keyUsageLimit
      omega
    outcomes := by
      rw [hcounts.outcome, ← h.outcomes]
    derived := by
      have := h.derived
      have := hcounts.steps
      have := hcounts.derived
      omega }

theorem Serves.exists_unprotect (throwaway : KeySalt)
    (h : Serves c m granularity start k calls r) (hg : granularity.Valid)
    (hlen : rtpHeaderLen + m.payloadSize + gcmTagLen < 2 ^ 31) (hcalls : calls + 2 < 2 ^ 48)
    (i : ℕ) :
    ∃ out r', r.unprotect (SrtpStream.ops c throwaway w) c
        (m.protectedPacket c granularity start i) = .ok (out, r') ∧
      Serves c m granularity start k (calls + 1) r' := by
  have hvalid : r.scheme.Valid := by
    rw [h.scheme]
    cases granularity with
    | frame => exact (by decide : 1 ≤ framePeriod)
    | everyN n => exact hg
    | _ => trivial
  have hleft := h.left
  unfold keyUsageLimit at hleft
  have hserv : r.session.stream.Servable (m.protectedPacket c granularity start i) := by
    have hlength := length_protectedPacket c m granularity start i
    refine ⟨by rwa [hlength], ?_, ?_, .inr ⟨?_, ?_⟩⟩
    · rw [StreamModel.protectedPacket, sealedPacket, validateRtpHeader_rtpHeader]
    · rw [StreamModel.protectedPacket, sealedPacket, ssrcOf_rtpHeader,
        Nat.mod_eq_of_lt m.ssrc.toNat_lt, h.ssrc]
    · rw [hlength, StreamModel.protectedPacket, sealedPacket, encStart_rtpHeader]
      omega
    · rw [SrtpStream.keyLimitUpdate, if_neg (by omega)]
      dsimp only
      omega
  obtain ⟨out, r', hu⟩ := h.window.exists_unprotect throwaway hvalid fun _ _ _ _ => hserv
  exact ⟨out, r', hu, h.step hcalls hu⟩

/-! ## What has been decrypted -/

/-- The receiver after decrypting the packets `done`, of which `newest` is the newest. -/
structure Tracks (c : Crypto) (m : StreamModel) (granularity : Granularity)
    (start : StreamRatchet) (k seekCap : ℕ) (newest : Option ℕ) (done : List ℕ) (calls : ℕ)
    (r : ReceiverKeyManager (SrtpStream w)) : Prop extends
    Serves c m granularity start k calls r where
  seekCap_eq : r.seekCap = seekCap
  recovery : r.scheme.Indexed → r.recovery = ⟨newest⟩
  frontier : r.frontier = newest.map (m.generation granularity)
  index : r.rdbx.index = newest.getD 0
  index_lt : r.rdbx.index < 2 ^ 48
  fresh : newest = none → done = []
  records : r.rdbx.Records (· ∈ done)
  done_le : ∀ j ∈ done, j ≤ r.rdbx.index
  /-- No catch-up was thrown away. -/
  unwasted : r.stats.catchupStepsWasted = 0

variable (h : Tracks c m granularity start k seekCap newest done calls r)

include h

theorem Tracks.nextGeneration_eq :
    r.nextGeneration = newest.elim 0 (m.generation granularity · + 1) := by
  rw [nextGeneration, h.frontier]
  cases newest <;> rfl

theorem Tracks.position (i : ℕ) : r.rdbx.position (i % 2 ^ 16) = readIndex newest i := by
  have hindex := h.index_lt
  have hreference : (IndexRecovery.mk newest).reference = r.rdbx.index := h.index.symm
  exact (recover_eq_position hreference (by omega) (Nat.mod_lt _ (by decide))).symm

theorem Tracks.estimateIndex (i : ℕ) :
    r.rdbx.estimateIndex (i % 2 ^ 16) =
      (readIndex newest i % 2 ^ 48, (readIndex newest i : ℤ) - r.rdbx.index) := by
  rw [Rdbx.estimateIndex_eq _ (Nat.mod_lt _ (by decide)), h.position]

theorem Tracks.mapsTo (hg : granularity.Valid) (i : ℕ) (body : Bytes) :
    r.MapsTo (m.header i ++ body) (m.readGeneration granularity (readIndex newest i) i) := by
  refine mapsTo_header hg h.scheme ?_ body
  intro hind
  rw [h.recovery hind, readIndex]

/-- A packet that is dropped changes nothing that the receiver tracks, unless a catch-up is
thrown away with it. -/
theorem Tracks.drop {buf : Bytes} {d : RecvDrop} (hcalls : calls + 2 < 2 ^ 48)
    (hu : r.unprotect (SrtpStream.ops c throwaway w) c buf = .ok (out, r'))
    (hout : out.1 = .error d)
    (hold : ∀ p, r.plan c buf = .ok (.ok p) → p.generation < r.nextGeneration) :
    Tracks c m granularity start k seekCap newest done (calls + 1) r' := by
  have hcounts := h.window.callCounts hu
  have hrdbx : r'.rdbx = r.rdbx := by
    rcases unprotect_rdbx hu with ⟨g, hok, -⟩ | ⟨-, -, hsame⟩
    · cases hok.symm.trans hout
    · exact hsame
  have hfrontier : r'.frontier = r.frontier := by
    obtain ⟨-, ⟨-, -, -, hf, -⟩ | ⟨p, -, ⟨-, -, hf, -⟩ | ⟨hok, -⟩⟩⟩ := unprotect_stats hu
    · exact hf
    · exact hf
    · cases hok.symm.trans hout
  -- the ratchet steps only for a generation ahead
  have hsteps : r.ratchetSteps c buf = 0 := by
    obtain ⟨-, ⟨d', hplan, -⟩ | ⟨p, hplan, -⟩⟩ := unprotect_stats hu
    · exact ratchetSteps_of_dropped hplan
    · obtain ⟨hjump, -, hpos, -⟩ := h.window.plan_jump hplan
      rcases h.window.plan_cases hplan with ⟨hnone, -⟩ | ⟨hahead, -⟩
      · rw [← hjump, Plan.jump, hnone, Option.elim_none]
      · exact absurd (hold p hplan) (not_lt.mpr hahead)
  exact {
    toServes := h.toServes.step hcalls hu
    seekCap_eq := hcounts.seekCap.trans h.seekCap_eq
    recovery := by
      intro hind
      rw [unprotect_scheme hu] at hind
      rcases unprotect_recovery hind hu with ⟨g, hok, -⟩ | ⟨-, -, hsame⟩
      · cases hok.symm.trans hout
      · rw [hsame, h.recovery hind]
    frontier := by rw [hfrontier, h.frontier]
    index := by rw [hrdbx, h.index]
    index_lt := by
      rw [hrdbx]
      exact h.index_lt
    fresh := h.fresh
    records := by
      rw [hrdbx]
      exact h.records
    done_le := by
      rw [hrdbx]
      exact h.done_le
    unwasted := by
      have hderived := hcounts.derived
      rw [h.unwasted, hsteps, nextGeneration, hfrontier, ← nextGeneration] at hderived
      omega }

theorem Tracks.accept (hg : granularity.Valid) (hcalls : calls + 2 < 2 ^ 48) (hlt : i < 2 ^ 48)
    (hread : readIndex newest i = i)
    (hgen : m.readGeneration granularity i i = m.generation granularity i)
    (hin : r.rdbx.index < i + w) {g : ℕ}
    (hu : r.unprotect (SrtpStream.ops c throwaway w) c (m.protectedPacket c granularity start i) =
      .ok (out, r')) (hout : out.1 = .ok g) :
    Tracks c m granularity start k seekCap (some (newest.elim i (max · i))) (i :: done)
      (calls + 1) r' := by
  have hindex := h.index_lt
  have hposition : r.rdbx.position (i % 2 ^ 16) = i := (h.position i).trans hread
  have hnear : i < r.rdbx.index + 2 ^ 16 :=
    hposition.symm.trans_lt (r.rdbx.position_le (Nat.mod_lt _ (by decide)))
  have hseq : seqOf (m.protectedPacket c granularity start i) = i % 2 ^ 16 := by
    rw [StreamModel.protectedPacket, sealedPacket, seqOf_rtpHeader]
  have hrdbx : r'.rdbx = r.rdbx.addIndex ((i : ℤ) - r.rdbx.index) := by
    rcases unprotect_rdbx hu with ⟨-, -, hadd⟩ | ⟨d, herr, -⟩
    · rw [hadd, hseq, h.estimateIndex, hread]
    · cases herr.symm.trans hout
  have hmax := r.rdbx.addIndex_index hnear (by omega)
  rw [← hrdbx] at hmax
  -- late or ahead, the index is that of the newest packet
  have hnewest : max r.rdbx.index i = newest.elim i (max · i) := by
    rw [h.index]
    cases newest with
    | none => exact Nat.zero_max i
    | some n => rfl
  obtain ⟨-, ⟨d, -, herr, -⟩ | ⟨p, hplan, ⟨d, herr, -⟩ | ⟨-, hfrontier, hstats⟩⟩⟩ :=
    unprotect_stats hu
  · cases herr.symm.trans hout
  · cases herr.symm.trans hout
  have hmaps := h.mapsTo hg i ((m.protectedPacket c granularity start i).drop rtpHeaderLen)
  rw [← protectedPacket_eq, hread, hgen] at hmaps
  have hp := generation_of_mapsTo hmaps hplan
  exact {
    toServes := h.toServes.step hcalls hu
    seekCap_eq := (h.window.callCounts hu).seekCap.trans h.seekCap_eq
    recovery := by
      intro hind
      rw [unprotect_scheme hu] at hind
      rcases unprotect_recovery hind hu with ⟨-, -, hupdate⟩ | ⟨d, herr, -⟩
      · rw [hupdate, hseq, h.recovery hind, ← readIndex, hread,
          ← IndexRecovery.highest_update ⟨newest⟩ i]
      · cases herr.symm.trans hout
    frontier := by
      rw [hfrontier, h.window.frontier_adopt hplan, h.frontier, hp]
      cases newest with
      | none => rfl
      | some n => exact congrArg some ((m.generation_mono granularity).map_max).symm
    index := by rw [hmax, hnewest, Option.getD_some]
    index_lt := by
      rw [hmax]
      exact max_lt hindex hlt
    fresh := fun hnone => absurd hnone (Option.some_ne_none _)
    records := by
      rw [hrdbx]
      simp only [List.mem_cons]
      exact h.records.addIndex h.done_le hin hnear (by omega)
    done_le := by
      rw [hmax]
      intro j hj
      rcases List.mem_cons.mp hj with rfl | hj
      · exact le_max_right _ _
      · exact (h.done_le j hj).trans (le_max_left _ _)
    unwasted := by
      rw [hstats, stats_install, stats_countFetch]
      exact h.unwasted }

theorem Tracks.srtp_unprotect
    (hlen : rtpHeaderLen + m.payloadSize + gcmTagLen < 2 ^ 31) (hcalls : calls + 2 < 2 ^ 48)
    (ks : KeySalt) (i : ℕ) :
    r.session.stream.unprotect c ks (m.protectedPacket c granularity start i) =
      match r.rdbx.check ((readIndex newest i : ℤ) - r.rdbx.index) with
      | .error e => (.error e, r.session.stream)
      | .ok () =>
        match c.gcmOpen (splitKeySalt ks).1
          (calcAeadIv (splitKeySalt ks).2 m.ssrc.toNat (readIndex newest i % 2 ^ 48)) (m.header i)
          ((m.protectedPacket c granularity start i).drop rtpHeaderLen) with
        | none => (.error .authFail,
            { r.session.stream with numLeft := r.session.stream.numLeft - 1 })
        | some plain => (.ok (m.header i ++ plain), ⟨r.session.stream.ssrc,
            r.rdbx.addIndex ((readIndex newest i : ℤ) - r.rdbx.index),
            r.session.stream.numLeft - 1⟩) := by
  have hleft := h.left
  unfold keyUsageLimit at hleft
  have hlength := length_protectedPacket c m granularity start i
  have hest := h.estimateIndex i
  unfold rdbx at hest ⊢
  rw [protectedPacket_eq, List.length_append, StreamModel.header, length_rtpHeader] at hlength
  have hunprotect := @SrtpStream.unprotect_rtpHeader w c r.session.stream ks i m.ssrc.toNat
    (m.timestamp i) ((m.protectedPacket c granularity start i).drop rtpHeaderLen) h.ssrc.symm
    m.ssrc.toNat_lt (by omega) (by omega) (by omega)
  rw [hest, ← StreamModel.header, ← protectedPacket_eq] at hunprotect
  exact hunprotect

theorem Tracks.maps_protectedPacket (hg : granularity.Valid) (i : ℕ) :
    r.MapsTo (m.protectedPacket c granularity start i)
      (m.readGeneration granularity (readIndex newest i) i) := by
  have hmaps := h.mapsTo hg i ((m.protectedPacket c granularity start i).drop rtpHeaderLen)
  rwa [← protectedPacket_eq] at hmaps

theorem Tracks.drop_planned (throwaway : KeySalt) {buf : Bytes} {d : RecvDrop}
    (hcalls : calls + 2 < 2 ^ 48) (hplan : r.plan c buf = .ok (.error d)) :
    ∃ out r', r.unprotect (SrtpStream.ops c throwaway w) c buf = .ok (out, r') ∧
      out.1 = .error d ∧ Tracks c m granularity start k seekCap newest done (calls + 1) r' := by
  obtain ⟨stats, hu⟩ := unprotect_dropped (SrtpStream.ops c throwaway w) hplan
  refine ⟨_, _, hu, rfl, h.drop hcalls hu rfl ?_⟩
  intro p hp
  cases hplan.symm.trans hp

theorem Tracks.drop_failed (throwaway : KeySalt) {buf : Bytes} {p : Plan} {e : SrtpError}
    {stream : SrtpStream w} {d : RecvDrop} (hcalls : calls + 2 < 2 ^ 48)
    (hplan : r.plan c buf = .ok (.ok p))
    (hs : r.session.stream.unprotect c (r.cipherKey p) buf = (.error e, stream))
    (hd : RecvDrop.ofSrtpError e = some d) (hold : p.generation < r.nextGeneration) :
    ∃ out r', r.unprotect (SrtpStream.ops c throwaway w) c buf = .ok (out, r') ∧
      out.1 = .error d ∧ Tracks c m granularity start k seekCap newest done (calls + 1) r' := by
  have hs : (SrtpStream.ops c throwaway w).unprotect _ _ _ = _ := hs
  obtain ⟨stats, hu⟩ := unprotect_failed hplan hs hd
  refine ⟨_, _, hu, rfl, h.drop hcalls hu rfl ?_⟩
  intro p' hp'
  cases hplan.symm.trans hp'
  exact hold

theorem Tracks.unprotect_right (throwaway : KeySalt) (hg : granularity.Valid) (hw : 0 < w)
    (hlen : rtpHeaderLen + m.payloadSize + gcmTagLen < 2 ^ 31) (hcalls : calls + 2 < 2 ^ 48)
    (hlt : i < 2 ^ 48) (hi : i ∉ done) (hread : readIndex newest i = i)
    (hgen : m.readGeneration granularity i i = m.generation granularity i) :
    ∃ out r', r.unprotect (SrtpStream.ops c throwaway w) c
        (m.protectedPacket c granularity start i) = .ok (out, r') ∧
      (out = (.ok (m.generation granularity i), m.plainPacket i) ∧
          Tracks c m granularity start k seekCap (some (newest.elim i (max · i))) (i :: done)
            (calls + 1) r' ∨
        ∃ d, out.1 = .error d ∧
          Tracks c m granularity start k seekCap newest done (calls + 1) r' ∧
          (d = .seekCapExceeded ∨ ∃ n, newest = some n ∧
            (d = .behindWindow ∧
                m.generation granularity i + k ≤ m.generation granularity n ∨
              d = .srtpReplay ∧ i + w ≤ n))) := by
  have hmaps := h.maps_protectedPacket hg i
  rw [hread, hgen] at hmaps
  have hshort := rtpHeaderLen_le_length c m granularity start i
  rcases plan_of_mapsTo h.window hshort hmaps with
    ⟨p, hplan, hp⟩ | ⟨hplan, f, hf, hbehind⟩ | ⟨hplan, -⟩
  · -- the packet reaches decryption
    have hkey := h.window.toKeysFrom.cipherKey hplan
    rw [hp] at hkey
    have hsrtp := h.srtp_unprotect hlen hcalls (r.cipherKey p) i
    rw [hread, Nat.mod_eq_of_lt hlt] at hsrtp
    by_cases hin : r.rdbx.index < i + w
    · have hopen : c.gcmOpen (splitKeySalt (r.cipherKey p)).1
          (calcAeadIv (splitKeySalt (r.cipherKey p)).2 m.ssrc.toNat i) (m.header i)
          ((m.protectedPacket c granularity start i).drop rtpHeaderLen) = some (m.payload i) := by
        rw [hkey]
        simp only [StreamModel.protectedPacket, sealedPacket, drop_rtpHeader, StreamModel.header,
          c.gcmOpen_gcmSeal]
      rw [h.records.check_ok hin hi, hopen] at hsrtp
      have hsrtp : (SrtpStream.ops c throwaway w).unprotect _ _ _ = _ := hsrtp
      obtain ⟨stats, hu⟩ := unprotect_decrypted hplan hsrtp
      refine ⟨_, _, hu, .inl ⟨by rw [hp]; rfl, ?_⟩⟩
      exact h.accept hg hcalls hlt hread hgen hin hu rfl
    · -- the replay window has moved past the packet
      obtain ⟨n, rfl⟩ : ∃ n, newest = some n := by
        rw [h.index] at hin
        cases newest with
        | none => exact absurd hw (by simp only [Option.getD_none] at hin; omega)
        | some n => exact ⟨n, rfl⟩
      have hindex : r.rdbx.index = n := h.index
      have hcheck : r.rdbx.check ((i : ℤ) - r.rdbx.index) = .error .replayOld := by
        rw [Rdbx.check, if_neg (by omega), if_pos (by omega)]
      rw [hcheck] at hsrtp
      have hold : p.generation < r.nextGeneration := by
        rw [h.nextGeneration_eq, hp, Option.elim_some, Nat.lt_succ_iff]
        exact m.generation_mono granularity (by omega)
      obtain ⟨out, r', hu, hout, htracks⟩ := h.drop_failed throwaway hcalls hplan hsrtp rfl hold
      exact ⟨out, r', hu, .inr ⟨_, hout, htracks, .inr ⟨n, rfl, .inr ⟨rfl, by omega⟩⟩⟩⟩
  · obtain ⟨out, r', hu, hout, htracks⟩ := h.drop_planned throwaway hcalls hplan
    refine ⟨out, r', hu, .inr ⟨_, hout, htracks, .inr ?_⟩⟩
    rw [h.frontier] at hf
    obtain ⟨n, hn, rfl⟩ := Option.map_eq_some_iff.mp hf
    exact ⟨n, hn, .inl ⟨rfl, hbehind⟩⟩
  · obtain ⟨out, r', hu, hout, htracks⟩ := h.drop_planned throwaway hcalls hplan
    exact ⟨out, r', hu, .inr ⟨_, hout, htracks, .inl rfl⟩⟩

/-- A packet that is read at a wrong position, and not ahead of the frontier, is dropped. -/
theorem Tracks.unprotect_misread (throwaway : KeySalt) (hg : granularity.Valid)
    (hlen : rtpHeaderLen + m.payloadSize + gcmTagLen < 2 ^ 31) (hcalls : calls + 2 < 2 ^ 48)
    (hlt : i < 2 ^ 48) (hauth : Authentic c m granularity start)
    (hread : readIndex newest i % 2 ^ 48 ≠ i)
    (hold : m.readGeneration granularity (readIndex newest i) i < r.nextGeneration) :
    ∃ out r' d, r.unprotect (SrtpStream.ops c throwaway w) c
        (m.protectedPacket c granularity start i) = .ok (out, r') ∧
      out.1 = .error d ∧ Tracks c m granularity start k seekCap newest done (calls + 1) r' := by
  have hshort := rtpHeaderLen_le_length c m granularity start i
  rcases plan_of_mapsTo h.window hshort (h.maps_protectedPacket hg i) with
    ⟨p, hplan, hp⟩ | ⟨hplan, -⟩ | ⟨hplan, -⟩
  · rw [← hp] at hold
    have hkey := h.window.toKeysFrom.cipherKey hplan
    have hsrtp := h.srtp_unprotect hlen hcalls (r.cipherKey p) i
    cases hcheck : r.rdbx.check ((readIndex newest i : ℤ) - r.rdbx.index) with
    | error e =>
      rw [hcheck] at hsrtp
      have hd : RecvDrop.ofSrtpError e = some .srtpReplay := by
        rcases Rdbx.check_error hcheck with rfl | rfl <;> rfl
      obtain ⟨out, r', hu, hout, htracks⟩ := h.drop_failed throwaway hcalls hplan hsrtp hd hold
      exact ⟨out, r', _, hu, hout, htracks⟩
    | ok u =>
      have hopen := hauth i p.generation (readIndex newest i % 2 ^ 48) hlt
        (Nat.mod_lt _ (by decide)) hread
      rw [← hkey] at hopen
      rw [hcheck, hopen] at hsrtp
      obtain ⟨out, r', hu, hout, htracks⟩ := h.drop_failed throwaway hcalls hplan hsrtp rfl hold
      exact ⟨out, r', _, hu, hout, htracks⟩
  · obtain ⟨out, r', hu, hout, htracks⟩ := h.drop_planned throwaway hcalls hplan
    exact ⟨out, r', _, hu, hout, htracks⟩
  · obtain ⟨out, r', hu, hout, htracks⟩ := h.drop_planned throwaway hcalls hplan
    exact ⟨out, r', _, hu, hout, htracks⟩

theorem Tracks.plan_ahead {buf : Bytes} {g : ℕ} (hlen : rtpHeaderLen ≤ buf.length)
    (hmaps : r.MapsTo buf g) (hfar : r.nextGeneration + seekCap ≤ g) :
    r.plan c buf = .ok (.error .seekCapExceeded) := by
  rcases plan_of_mapsTo h.window hlen hmaps with hplans | ⟨-, f, hf, hbehind⟩ | ⟨hplan, -⟩
  · obtain ⟨-, -, -, hreach⟩ := (plans_iff h.window).mp hplans
    rw [h.seekCap_eq] at hreach
    omega
  · rw [nextGeneration_of_frontier hf] at hfar
    omega
  · exact hplan

theorem Tracks.plan_behind {buf : Bytes} {g f : ℕ} (hlen : rtpHeaderLen ≤ buf.length)
    (hmaps : r.MapsTo buf g) (hf : r.frontier = some f) (hfar : g + k ≤ f) :
    r.plan c buf = .ok (.error .behindWindow) := by
  have hring := h.window.length_ring
  rcases plan_of_mapsTo h.window hlen hmaps with hplans | ⟨hplan, -⟩ | ⟨-, hahead⟩
  · obtain ⟨-, -, hreach, -⟩ := (plans_iff h.window).mp hplans
    have := hreach f hf
    omega
  · exact hplan
  · rw [nextGeneration_of_frontier hf] at hahead
    omega

theorem Tracks.unprotect_discarded (throwaway : KeySalt) (hg : granularity.Valid)
    (hlen : rtpHeaderLen + m.payloadSize + gcmTagLen < 2 ^ 31) (hcalls : calls + 2 < 2 ^ 48)
    (hlt : i < 2 ^ 48) (hauth : Authentic c m granularity start)
    (hdisc : m.Discards granularity k seekCap newest i) :
    ∃ out r' d, r.unprotect (SrtpStream.ops c throwaway w) c
        (m.protectedPacket c granularity start i) = .ok (out, r') ∧ out.1 = .error d ∧
      Tracks c m granularity start k seekCap newest done (calls + 1) r' ∧
      (d = .authFail → ∃ n, newest = some n ∧ i + 32768 ≤ n) ∧
      (granularity = .packet → d ≠ .seekCapExceeded → ∃ n, newest = some n ∧ i ≤ n) := by
  have hmaps := h.maps_protectedPacket hg i
  have hshort := rtpHeaderLen_le_length c m granularity start i
  have hnext := h.nextGeneration_eq
  have hfrontier := h.frontier
  rcases newest with - | n
  · rw [Option.elim_none] at hnext
    have hcap : seekCap ≤ m.readGeneration granularity (readIndex none i) i := hdisc
    have hplan := h.plan_ahead hshort hmaps (by omega)
    obtain ⟨out, r', hu, hout, htracks⟩ := h.drop_planned throwaway hcalls hplan
    exact ⟨out, r', _, hu, hout, htracks, nofun, fun _ h => absurd rfl h⟩
  rw [Option.elim_some] at hnext
  rcases hdisc with hahead | ⟨hbehind, hlate⟩ | ⟨hread, hold, hlate⟩
  · have hplan := h.plan_ahead hshort hmaps (by omega)
    obtain ⟨out, r', hu, hout, htracks⟩ := h.drop_planned throwaway hcalls hplan
    exact ⟨out, r', _, hu, hout, htracks, nofun, fun _ h => absurd rfl h⟩
  · have hplan := h.plan_behind hshort hmaps hfrontier hbehind
    obtain ⟨out, r', hu, hout, htracks⟩ := h.drop_planned throwaway hcalls hplan
    exact ⟨out, r', _, hu, hout, htracks, nofun, fun hpacket _ => ⟨n, rfl, hlate hpacket⟩⟩
  · obtain ⟨out, r', d, hu, hout, htracks⟩ :=
      h.unprotect_misread throwaway hg hlen hcalls hlt hauth hread (by omega)
    exact ⟨out, r', d, hu, hout, htracks, fun _ => ⟨n, rfl, hlate⟩, fun _ _ => ⟨n, rfl, by omega⟩⟩

theorem Tracks.unprotect_tolerated (throwaway : KeySalt) (hg : granularity.Valid) (hw : 0 < w)
    (hlen : rtpHeaderLen + m.payloadSize + gcmTagLen < 2 ^ 31) (hcalls : calls + 2 < 2 ^ 48)
    (hlt : i < 2 ^ 48) (hi : i ∉ done) (hauth : Authentic c m granularity start)
    (htol : m.Tolerates granularity k seekCap newest i) :
    ∃ out r', r.unprotect (SrtpStream.ops c throwaway w) c
        (m.protectedPacket c granularity start i) = .ok (out, r') ∧
      ((∃ g, out.1 = .ok g ∧ readIndex newest i = i ∧
          Tracks c m granularity start k seekCap (some (newest.elim i (max · i))) (i :: done)
            (calls + 1) r') ∨
        ∃ d, out.1 = .error d ∧
          Tracks c m granularity start k seekCap newest done (calls + 1) r' ∧
          (d = .authFail → ∃ n, newest = some n ∧ i + 32768 ≤ n) ∧
          (granularity = .packet → d ≠ .seekCapExceeded → ∃ n, newest = some n ∧ i ≤ n)) := by
  rcases htol with ⟨hread, hgen⟩ | hdisc
  · rw [hread] at hgen
    obtain ⟨out, r', hu, ⟨hout, htracks⟩ | ⟨d, hout, htracks, hd⟩⟩ :=
      h.unprotect_right throwaway hg hw hlen hcalls hlt hi hread hgen
    · exact ⟨out, r', hu, .inl ⟨_, by rw [hout], hread, htracks⟩⟩
    · refine ⟨out, r', hu, .inr ⟨d, hout, htracks, ?_, ?_⟩⟩
      · rintro rfl
        rcases hd with hd | ⟨n, -, ⟨hd, -⟩ | ⟨hd, -⟩⟩ <;> cases hd
      · rintro rfl hcap
        rcases hd with hd | ⟨n, hn, ⟨-, hbehind⟩ | ⟨-, hold⟩⟩
        · exact absurd hd hcap
        · exact ⟨n, hn, (Nat.le_add_right _ _).trans hbehind⟩
        · exact ⟨n, hn, (Nat.le_add_right _ _).trans hold⟩
  · obtain ⟨out, r', d, hu, hout, htracks, hauthFail, hlate⟩ :=
      h.unprotect_discarded throwaway hg hlen hcalls hlt hauth hdisc
    exact ⟨out, r', hu, .inr ⟨d, hout, htracks, hauthFail, hlate⟩⟩

omit h

theorem tracks_new {windowSize : ℕ} (hstart : start.generation = 0)
    {r : ReceiverKeyManager (SrtpStream (windowBits windowSize))}
    (h : new (SrtpStream.ops c throwaway _) (SrtpStream.addStream m.ssrc.toNat windowSize)
      (.forGranularity granularity startTs framePeriod 0) start k seekCap = .ok r) :
    Tracks c m granularity start k seekCap none [] 0 r := by
  have hwindow : KeyWindow c start k r := keyWindow_new hstart h
  obtain ⟨s, hk, -, hs, rfl⟩ := new_ok h
  obtain rfl := SrtpStream.addStream_ok hs
  exact {
    window := hwindow
    scheme := rfl
    ssrc := rfl
    left := le_rfl
    outcomes := rfl
    derived := rfl
    seekCap_eq := rfl
    recovery := fun _ => rfl
    frontier := rfl
    index := rfl
    index_lt := (by decide : 0 < 2 ^ 48)
    fresh := fun _ => rfl
    records := by
      simp only [List.not_mem_nil]
      exact Rdbx.records_init _
    done_le := nofun
    unwasted := rfl }

/-- A first packet that is a full cycle or more into the stream is read as one of the first cycle
and fails to authenticate, unless it is taken to be too far ahead. -/
theorem Tracks.first_packet_fails (throwaway : KeySalt) (hw : 0 < w)
    (h : Tracks c m .packet start k seekCap none [] 0 r)
    (hlen : rtpHeaderLen + m.payloadSize + gcmTagLen < 2 ^ 31) (hlt : i < 2 ^ 48)
    (hauth : Authentic c m .packet start) (hcycle : 2 ^ 16 ≤ i) (hcap : i % 2 ^ 16 < seekCap) :
    ∃ r', r.unprotect (SrtpStream.ops c throwaway w) c (m.protectedPacket c .packet start i) =
      .ok ((.error .authFail, []), r') := by
  have hg : Granularity.packet.Valid := trivial
  have hread : readIndex none i = i % 2 ^ 16 := rfl
  have hnext : r.nextGeneration = 0 := h.nextGeneration_eq
  have hreach : r.InReach (m.readGeneration .packet (readIndex none i) i) := by
    refine ⟨?_, ?_⟩
    · intro f hf
      cases h.frontier.symm.trans hf
    · rw [hnext, h.seekCap_eq, Nat.zero_add]
      exact hcap
  obtain ⟨p, hplan, -⟩ := (plans_iff h.window).mpr
    ⟨rtpHeaderLen_le_length c m .packet start i, h.maps_protectedPacket hg i, hreach⟩
  have hindex : r.rdbx.index = 0 := h.index
  have hcheck := h.records.check_ok (i := readIndex none i) (by omega) List.not_mem_nil
  have hopen := hauth i p.generation (readIndex none i % 2 ^ 48) hlt (Nat.mod_lt _ (by decide))
    (by omega)
  have hsrtp := h.srtp_unprotect hlen (by decide) (r.cipherKey p) i
  rw [← h.window.toKeysFrom.cipherKey hplan] at hopen
  rw [hcheck, hopen] at hsrtp
  have hsrtp : (SrtpStream.ops c throwaway w).unprotect _ _ _ = _ := hsrtp
  obtain ⟨stats, hu⟩ := unprotect_failed hplan hsrtp rfl
  exact ⟨_, hu⟩

end ReceiverKeyManager

end SafeCast
