import SafeCast.Receiver.Placement
import SafeCast.Simulation.Sender
import SafeCast.Receiver.Estimates

/-! # End-to-end decryption

The sender computes generations from its own state, the receiver from wrapping header
fields. `Admissible` says how far an arrival may be from what has been decrypted; then
every packet is decrypted under its generation, in any order and with any losses.
-/

namespace SafeCast

open Runs

/-- The frontier and the highest packet number, once a packet has been decrypted. -/
abbrev Progress := Option (ℕ × ℕ)

namespace StreamModel

variable (m : StreamModel) (granularity : Granularity)

def advance (p : Progress) (i : ℕ) : Progress :=
  some (p.elim (m.generation granularity i, i)
    fun x => (max x.1 (m.generation granularity i), max x.2 i))

/-- Packet `i` may arrive: its generation is in the key window or not too far ahead, its
number is near the highest one and in the replay window of `w` packets, and at frame level
its timestamp has not wrapped. -/
def Admits (k seekCap w : ℕ) (p : Progress) (i : ℕ) : Prop :=
  (granularity = .frame → i / m.packetsPerFrame * framePeriod < 2 ^ 32) ∧
    match p with
    | none => m.generation granularity i + 1 ≤ seekCap ∧ i < 65536
    | some (frontier, highest) =>
      frontier < m.generation granularity i + k ∧
        m.generation granularity i ≤ frontier + seekCap ∧
        |(i : ℤ) - highest| < 32768 ∧ highest < i + w

def Admissible (k seekCap w : ℕ) : Progress → List ℕ → Prop
  | _, [] => True
  | p, i :: is =>
    m.Admits granularity k seekCap w p i ∧ Admissible k seekCap w (m.advance granularity p i) is

/-- The generation in the header of packet `i`, if its sequence number is read as `index`. -/
def readGeneration (index i : ℕ) : ℕ :=
  match granularity with
  | .epochOnly => 0
  | .frame => m.timestamp i / framePeriod
  | .packet => index
  | .everyN n => index / n

theorem readGeneration_self {i : ℕ}
    (hfit : granularity = .frame → i / m.packetsPerFrame * framePeriod < 2 ^ 32) :
    m.readGeneration granularity i i = m.generation granularity i := by
  cases granularity with
  | frame =>
    have hfit := hfit rfl
    unfold readGeneration generation timestamp startTs framePeriod at *
    dsimp only
    omega
  | _ => rfl

end StreamModel

theorem SrtpStream.unprotect_rtpHeader {w : ℕ} (c : Crypto) {s : SrtpStream w} (ks : KeySalt)
    {seq ssrc : ℕ} (ts : ℕ) {body : Bytes} (hssrc : ssrc = s.ssrc) (hlt : ssrc < 2 ^ 32)
    (hlen : rtpHeaderLen + body.length < 2 ^ 31) (htag : gcmTagLen ≤ body.length)
    (hleft : 1 < s.numLeft) :
    s.unprotect c ks (rtpHeader seq ts ssrc ++ body) =
      match s.rdbx.check (s.rdbx.estimateIndex (seq % 2 ^ 16)).2 with
      | .error e => (.error e, s)
      | .ok () =>
        match c.gcmOpen (splitKeySalt ks).1
          (calcAeadIv (splitKeySalt ks).2 ssrc (s.rdbx.estimateIndex (seq % 2 ^ 16)).1)
          (rtpHeader seq ts ssrc) body with
        | none => (.error .authFail, { s with numLeft := s.numLeft - 1 })
        | some plain => (.ok (rtpHeader seq ts ssrc ++ plain),
            ⟨s.ssrc, s.rdbx.addIndex (s.rdbx.estimateIndex (seq % 2 ^ 16)).2, s.numLeft - 1⟩) := by
  subst hssrc
  have hlimit : s.keyLimitUpdate = { s with numLeft := s.numLeft - 1 } := by
    rw [keyLimitUpdate, if_neg (by omega)]
  have hlength : (rtpHeader seq ts s.ssrc ++ body).length = rtpHeaderLen + body.length := by
    rw [List.length_append, length_rtpHeader]
  have hlong := fun est δ => @unprotectAead_long w c s ks (rtpHeader seq ts s.ssrc ++ body) est δ
    (by rwa [hlength]) (by rw [hlength, encStart_rtpHeader]; omega)
  have hleft : ¬ s.numLeft - 1 < 1 := by omega
  unfold unprotect
  rw [hlength, if_neg (not_le.mpr hlen)]
  simp only [validateRtpHeader_rtpHeader, ssrcOf_rtpHeader, Nat.mod_eq_of_lt hlt, ne_eq,
    not_true_eq_false, if_false, seqOf_rtpHeader]
  cases s.rdbx.check (s.rdbx.estimateIndex (seq % 2 ^ 16)).2 with
  | error e => rfl
  | ok u =>
    dsimp only
    rw [hlong, encStart_rtpHeader, take_rtpHeader, drop_rtpHeader, ssrcOf_rtpHeader,
      Nat.mod_eq_of_lt hlt, hlimit]
    cases c.gcmOpen (splitKeySalt ks).1 (calcAeadIv (splitKeySalt ks).2 s.ssrc
      (s.rdbx.estimateIndex (seq % 2 ^ 16)).1) (rtpHeader seq ts s.ssrc) body <;>
      exact if_neg hleft

theorem SrtpStream.unprotect_sealedPacket {w : ℕ} (c : Crypto) {s : SrtpStream w} (ks : KeySalt)
    {seq ssrc est : ℕ} (ts : ℕ) {δ : ℤ} {body : Bytes} (hssrc : ssrc = s.ssrc)
    (hlt : ssrc < 2 ^ 32) (hlen : rtpHeaderLen + body.length + gcmTagLen < 2 ^ 31)
    (hest : s.rdbx.estimateIndex (seq % 2 ^ 16) = (est, δ)) (hcheck : s.rdbx.check δ = .ok ())
    (hleft : 1 < s.numLeft) :
    s.unprotect c ks (sealedPacket c ks seq ts ssrc est body) =
      (.ok (rtpHeader seq ts ssrc ++ body), ⟨s.ssrc, s.rdbx.addIndex δ, s.numLeft - 1⟩) := by
  unfold sealedPacket
  have hlength := c.length_gcmSeal (splitKeySalt ks).1 (calcAeadIv (splitKeySalt ks).2 ssrc est)
    (rtpHeader seq ts ssrc) body
  unfold gcmTagLen at hlen
  rw [unprotect_rtpHeader c ks ts hssrc hlt (by omega) (by unfold gcmTagLen; omega) hleft, hest]
  simp only [hcheck, c.gcmOpen_gcmSeal]

namespace ReceiverKeyManager

variable {c : Crypto} {m : StreamModel} {granularity : Granularity} {start : StreamRatchet}
  {k seekCap w : ℕ} {p : Progress} {done : List ℕ} {i : ℕ}
  {r r' : ReceiverKeyManager (SrtpStream w)}

/-- The receiver after decrypting the packets `done`. -/
structure Received (c : Crypto) (m : StreamModel) (granularity : Granularity)
    (start : StreamRatchet) (k seekCap : ℕ) (p : Progress) (done : List ℕ)
    (r : ReceiverKeyManager (SrtpStream w)) : Prop where
  window : KeyWindow c start k r
  scheme : r.scheme = .forGranularity granularity startTs framePeriod 0
  seekCap_eq : r.seekCap = seekCap
  ssrc : r.session.stream.ssrc = m.ssrc.toNat
  left : r.session.stream.numLeft + done.length = keyUsageLimit
  recovery : r.scheme.Indexed → r.recovery.reference = r.rdbx.index
  frontier : r.frontier = p.map Prod.fst
  fresh : p = none → r.rdbx = Rdbx.init w
  index : ∀ f h, p = some (f, h) → r.rdbx.index = h
  index_lt : r.rdbx.index < 2 ^ 48
  records : r.rdbx.Records (· ∈ done)
  done_le : ∀ j ∈ done, j ≤ r.rdbx.index

theorem Received.position (h : Received c m granularity start k seekCap p done r)
    (hadm : m.Admits granularity k seekCap w p i) : r.rdbx.position (i % 2 ^ 16) = i := by
  obtain ⟨-, hadm⟩ := hadm
  rcases p with - | ⟨f, highest⟩
  · rw [h.fresh rfl]
    exact Rdbx.position_init w hadm.2
  · refine Rdbx.position_of_near _ ?_
    rw [h.index f highest rfl]
    exact hadm.2.2.1

theorem mapsTo_header (hg : granularity.Valid)
    (hscheme : r.scheme = .forGranularity granularity startTs framePeriod 0) {index : ℕ}
    (hindex : r.scheme.Indexed → r.recovery.recover (i % 2 ^ 16) = index) (body : Bytes) :
    r.MapsTo (m.header i ++ body) (m.readGeneration granularity index i) := by
  unfold MapsTo StreamModel.header
  rw [hscheme] at hindex ⊢
  cases granularity with
  | epochOnly => exact ⟨none, rfl⟩
  | frame =>
    have hts : (m.timestamp i % 2 ^ 32 + (2 ^ 32 - startTs)) % 2 ^ 32 = m.timestamp i := by
      unfold StreamModel.timestamp startTs
      omega
    refine ⟨none, ?_⟩
    simp only [GenerationScheme.forGranularity, GenerationScheme.mapGeneration, frameGeneration,
      timestampOf_rtpHeader, StreamModel.readGeneration, hts]
    rfl
  | packet =>
    refine ⟨some index, GenerationScheme.mapGeneration_packet_iff.mpr ?_⟩
    rw [seqOf_rtpHeader, hindex trivial]
    exact ⟨Nat.zero_le _, rfl, rfl⟩
  | everyN n =>
    refine ⟨some index, (GenerationScheme.mapGeneration_everyN_iff hg).mpr ?_⟩
    rw [seqOf_rtpHeader, hindex trivial]
    exact ⟨Nat.zero_le _, rfl, rfl⟩

theorem Received.mapsTo (hg : granularity.Valid)
    (h : Received c m granularity start k seekCap p done r)
    (hadm : m.Admits granularity k seekCap w p i) (body : Bytes) :
    r.MapsTo (m.header i ++ body) (m.generation granularity i) := by
  have hindex := h.index_lt
  rw [← m.readGeneration_self granularity hadm.1]
  refine mapsTo_header hg h.scheme ?_ body
  intro hind
  rw [recover_eq_position (h.recovery hind) (by omega) (Nat.mod_lt _ (by decide)),
    h.position hadm]

theorem Received.inReach (h : Received c m granularity start k seekCap p done r)
    (hadm : m.Admits granularity k seekCap w p i) : r.InReach (m.generation granularity i) := by
  obtain ⟨-, hadm⟩ := hadm
  unfold InReach nextGeneration
  rw [h.frontier, h.window.length_ring, h.seekCap_eq]
  rcases p with - | ⟨f, highest⟩
  · refine ⟨nofun, ?_⟩
    have := hadm.1
    simp only [Option.map_none, Option.elim_none]
    omega
  · refine ⟨?_, ?_⟩
    · rintro f' ⟨⟩
      exact hadm.1
    · have := hadm.2.1
      simp only [Option.map_some, Option.elim_some]
      omega

theorem Received.in_window (h : Received c m granularity start k seekCap p done r)
    (hw : 0 < w) (hadm : m.Admits granularity k seekCap w p i) :
    r.rdbx.index < i + w ∧ i < r.rdbx.index + 2 ^ 16 := by
  obtain ⟨-, hadm⟩ := hadm
  rcases p with - | ⟨f, highest⟩
  · rw [h.fresh rfl]
    simp only [Rdbx.init]
    omega
  · rw [h.index f highest rfl]
    have := abs_lt.mp hadm.2.2.1
    omega

theorem KeyWindow.unprotect_sealedPacket (throwaway : KeySalt) (hr : KeyWindow c start k r)
    {seq ssrc g est : ℕ} (ts : ℕ) {δ : ℤ} (body : Bytes)
    (hmaps : ∀ body, r.MapsTo (rtpHeader seq ts ssrc ++ body) g) (hreach : r.InReach g)
    (hssrc : ssrc = r.session.stream.ssrc) (hlt : ssrc < 2 ^ 32)
    (hlen : rtpHeaderLen + body.length + gcmTagLen < 2 ^ 31)
    (hest : r.rdbx.estimateIndex (seq % 2 ^ 16) = (est, δ)) (hcheck : r.rdbx.check δ = .ok ())
    (hleft : 1 < r.session.stream.numLeft) :
    ∃ plan stats,
      r.plan c (sealedPacket c (start.keyAt c g) seq ts ssrc est body) = .ok (.ok plan) ∧
      plan.generation = g ∧
      r.unprotect (SrtpStream.ops c throwaway w) c
          (sealedPacket c (start.keyAt c g) seq ts ssrc est body) =
        .ok ((.ok g, rtpHeader seq ts ssrc ++ body), { r.adopt plan with
          session := ⟨r.cipherKey plan,
            ⟨r.session.stream.ssrc, r.rdbx.addIndex δ, r.session.stream.numLeft - 1⟩⟩
          installed := some g
          recovery := plan.estIndex.elim r.recovery r.recovery.update
          stats := stats }) := by
  -- phases 1 to 3 find the key of the packet's generation
  obtain ⟨plan, hplan, hgen⟩ : r.Plans c (sealedPacket c (start.keyAt c g) seq ts ssrc est body)
      g := (plans_iff hr).mpr ⟨by rw [length_sealedPacket]; omega, hmaps _, hreach⟩
  have hkey := hr.toKeysFrom.cipherKey hplan
  rw [hgen] at hkey
  -- phase 4 decrypts at the packet's own index
  have hdecrypt : (SrtpStream.ops c throwaway w).unprotect r.session.stream (start.keyAt c g)
      (sealedPacket c (start.keyAt c g) seq ts ssrc est body) = _ :=
    SrtpStream.unprotect_sealedPacket c (start.keyAt c g) ts hssrc hlt hlen hest hcheck hleft
  rw [← hkey] at hdecrypt hplan ⊢
  obtain ⟨stats, hu⟩ := unprotect_decrypted hplan hdecrypt
  rw [hgen] at hu
  exact ⟨plan, stats, hplan, hgen, hu⟩

theorem Received.unprotect (throwaway : KeySalt) (hg : granularity.Valid) (hw : 0 < w)
    (h : Received c m granularity start k seekCap p done r)
    (hadm : m.Admits granularity k seekCap w p i) (hi : i ∉ done) (hlt : i < 2 ^ 48)
    (hdone : done.length + 2 < 2 ^ 48)
    (hlen : rtpHeaderLen + m.payloadSize + gcmTagLen < 2 ^ 31) :
    ∃ r', r.unprotect (SrtpStream.ops c throwaway w) c (m.protectedPacket c granularity start i) =
        .ok ((.ok (m.generation granularity i), m.plainPacket i), r') ∧
      Received c m granularity start k seekCap (m.advance granularity p i) (i :: done) r' := by
  obtain ⟨hin, hnear⟩ := h.in_window hw hadm
  have hindex := h.index_lt
  have hleft := h.left
  unfold keyUsageLimit at hleft
  have hest : r.rdbx.estimateIndex (i % 2 ^ 16) = (i, (i : ℤ) - r.rdbx.index) := by
    rw [Rdbx.estimateIndex_eq _ (Nat.mod_lt _ (by decide)), h.position hadm, Nat.mod_eq_of_lt hlt]
  obtain ⟨plan, stats, hplan, hgen, hu⟩ := h.window.unprotect_sealedPacket throwaway
    (m.timestamp i) (m.payload i) (h.mapsTo hg hadm) (h.inReach hadm) h.ssrc.symm
    m.ssrc.toNat_lt (by rwa [m.length_payload]) hest (h.records.check_ok hin hi) (by omega)
  have hmax := r.rdbx.addIndex_index hnear (by omega)
  have hrecords := h.records.addIndex h.done_le hin hnear (by omega)
  refine ⟨_, hu, ?_⟩
  exact {
    window := h.window.unprotect hu
    scheme := (unprotect_scheme hu).trans h.scheme
    seekCap_eq := (adopt_seekCap r plan).trans h.seekCap_eq
    ssrc := h.ssrc
    left := by
      simp only [List.length_cons]
      unfold keyUsageLimit
      omega
    recovery := by
      intro hind
      rw [unprotect_scheme hu] at hind
      exact reference_eq_of_unprotect hind (by omega) (h.recovery hind) hu
    frontier := by
      refine (h.window.frontier_adopt hplan).trans ?_
      rw [h.frontier, hgen]
      cases p <;> rfl
    fresh := nofun
    index := by
      rintro f highest hp
      refine hmax.trans ?_
      rcases p with - | ⟨f₀, h₀⟩
      · cases hp
        rw [h.fresh rfl]
        exact Nat.zero_max i
      · cases hp
        rw [h.index f₀ h₀ rfl]
    index_lt := lt_of_eq_of_lt hmax (by omega)
    records := by
      simp only [List.mem_cons]
      exact hrecords
    done_le := by
      intro j hj
      refine le_of_le_of_eq ?_ hmax.symm
      rcases List.mem_cons.mp hj with rfl | hj
      · exact le_max_right _ _
      · exact (h.done_le j hj).trans (le_max_left _ _) }

theorem Received.run (throwaway : KeySalt) (hg : granularity.Valid) (hw : 0 < w)
    {arrivals : List ℕ} {n : ℕ} (h : Received c m granularity start k seekCap p done r)
    (hadm : m.Admissible granularity k seekCap w p arrivals)
    (hnodup : (done ++ arrivals).Nodup) (hlt : ∀ i ∈ done ++ arrivals, i < n)
    (hn : n + 1 < 2 ^ 48) (hlen : rtpHeaderLen + m.payloadSize + gcmTagLen < 2 ^ 31) :
    ∃ r', run (ReceiverKeyManager.unprotect (SrtpStream.ops c throwaway w) c) r
        (arrivals.map (m.protectedPacket c granularity start)) =
          .ok (arrivals.map fun i => (.ok (m.generation granularity i), m.plainPacket i), r') ∧
      r'.frontier = (arrivals.foldl (m.advance granularity) p).map Prod.fst := by
  induction arrivals generalizing p done r with
  | nil => exact ⟨r, rfl, h.frontier⟩
  | cons i arrivals ih =>
    obtain ⟨hi, hrest⟩ := hadm
    have hperm : (done ++ i :: arrivals).Perm (i :: done ++ arrivals) := List.perm_middle
    rw [hperm.nodup_iff] at hnodup
    have hlt' : ∀ j ∈ i :: done ++ arrivals, j < n := fun j hj => hlt j (hperm.mem_iff.mpr hj)
    have hnodup' := hnodup.of_append_left
    -- the packets so far are distinct numbers below `n`
    have hdone : (i :: done).length ≤ n :=
      RunningMax.length_le_of_lt hnodup' fun j hj => hlt' j (List.mem_append_left _ hj)
    rw [List.length_cons] at hdone
    have hi' := hlt' i (by simp)
    obtain ⟨r₁, hu, h₁⟩ := h.unprotect throwaway hg hw hi
      (List.nodup_cons.mp hnodup').1 (by omega) (by omega) hlen
    obtain ⟨r₂, hrun, hf⟩ := ih h₁ hrest hnodup hlt'
    refine ⟨r₂, ?_, hf⟩
    rw [List.map_cons, run_cons_of_ok hu, hrun]
    rfl

theorem received_new {throwaway : KeySalt} {windowSize : ℕ} (hstart : start.generation = 0)
    {r : ReceiverKeyManager (SrtpStream (windowBits windowSize))}
    (h : new (SrtpStream.ops c throwaway _) (SrtpStream.addStream m.ssrc.toNat windowSize)
      (.forGranularity granularity startTs framePeriod 0) start k seekCap = .ok r) :
    Received c m granularity start k seekCap none [] r := by
  have hwindow : KeyWindow c start k r := keyWindow_new hstart h
  obtain ⟨s, hk, -, hs, rfl⟩ := new_ok h
  obtain rfl := SrtpStream.addStream_ok hs
  exact {
    window := hwindow
    scheme := rfl
    seekCap_eq := rfl
    ssrc := rfl
    left := rfl
    recovery := fun _ => rfl
    frontier := rfl
    fresh := fun _ => rfl
    index := nofun
    index_lt := (by decide : 0 < 2 ^ 48)
    records := by
      simp only [List.not_mem_nil]
      exact Rdbx.records_init _
    done_le := nofun }

end ReceiverKeyManager

theorem StreamModel.map_snd_of_sent {c : Crypto} {m : StreamModel} {granularity : Granularity}
    {start : StreamRatchet} {n : ℕ} {arrivals : List (ℕ × Bytes)}
    (hsent : ∀ a ∈ arrivals,
      a ∈ (List.range n).map fun i => (i, m.protectedPacket c granularity start i)) :
    (∀ i ∈ arrivals.map Prod.fst, i < n) ∧
      arrivals.map Prod.snd =
        (arrivals.map Prod.fst).map (m.protectedPacket c granularity start) := by
  have hpacket : ∀ a ∈ arrivals, a.1 < n ∧ a.2 = m.protectedPacket c granularity start a.1 := by
    intro a ha
    obtain ⟨i, hi, rfl⟩ := List.mem_map.mp (hsent a ha)
    exact ⟨List.mem_range.mp hi, rfl⟩
  constructor
  · intro i hi
    obtain ⟨a, ha, rfl⟩ := List.mem_map.mp hi
    exact (hpacket a ha).1
  · rw [List.map_map]
    exact List.map_congr_left fun a ha => (hpacket a ha).2

/-- Packets of the sender that arrive in any admissible order, each at most once, are
decrypted under their generations to the original packets. The frontier that `Admissible`
refers to is the receiver's. -/
theorem shuffled_packets_decrypt (c : Crypto) (throwaway throwaway' : KeySalt) (m : StreamModel)
    (granularity : Granularity) (hg : granularity.Valid) (seed : ByteArr chainSecretLen)
    (k seekCap windowSize n : ℕ) (hn : n < 2 ^ 48) {s s' : SimulatedSender}
    {packets : List (ℕ × Bytes)}
    {r₀ : ReceiverKeyManager (SrtpStream (windowBits windowSize))}
    (hsender : SimulatedSender.new c throwaway m granularity ⟨seed, 0⟩ = .ok s)
    (hpackets : run (fun s (_ : Unit) => s.nextProtected c) s (List.replicate n ()) =
      .ok (packets, s'))
    (hreceiver : ReceiverKeyManager.new (SrtpStream.ops c throwaway' _)
      (SrtpStream.addStream m.ssrc.toNat windowSize)
      (.forGranularity granularity startTs framePeriod 0) ⟨seed, 0⟩ k seekCap = .ok r₀)
    (arrivals : List (ℕ × Bytes)) (hsent : ∀ a ∈ arrivals, a ∈ packets)
    (honce : (arrivals.map Prod.fst).Nodup)
    (hadm : m.Admissible granularity k seekCap (windowBits windowSize) none
      (arrivals.map Prod.fst)) :
    ∃ r, run (ReceiverKeyManager.unprotect (SrtpStream.ops c throwaway' _) c) r₀
        (arrivals.map Prod.snd) =
          .ok (arrivals.map fun a => (.ok (m.generation granularity a.1), m.plainPacket a.1), r) ∧
      r.frontier = ((arrivals.map Prod.fst).foldl (m.advance granularity) none).map Prod.fst := by
  obtain ⟨rfl, hlimit⟩ := SimulatedSender.run_nextProtected hg rfl hn hsender hpackets
  obtain ⟨hlt, hbytes⟩ := StreamModel.map_snd_of_sent hsent
  rcases arrivals with - | ⟨a, arrivals⟩
  · obtain ⟨-, -, -, -, rfl⟩ := ReceiverKeyManager.new_ok hreceiver
    exact ⟨_, rfl, rfl⟩
  obtain ⟨hlen, hn'⟩ := hlimit (Nat.zero_lt_of_lt (hlt a.1 (by simp)))
  obtain ⟨r, hrun, hfrontier⟩ := (ReceiverKeyManager.received_new rfl hreceiver).run throwaway' hg
    (windowBits_pos windowSize) hadm honce hlt hn' hlen
  refine ⟨r, ?_, hfrontier⟩
  rw [hbytes, hrun, List.map_map]
  rfl

theorem shuffled_packets_decrypt_three :
    ∃ (m : StreamModel) (packet : ℕ → Bytes)
      (r₀ r : ReceiverKeyManager (SrtpStream (windowBits 128))),
      run (ReceiverKeyManager.unprotect (SrtpStream.toyOps _) Crypto.toy) r₀
        [packet 2, packet 0, packet 1] =
          .ok ([(.ok 2, m.plainPacket 2), (.ok 0, m.plainPacket 0), (.ok 1, m.plainPacket 1)],
            r) := by
  obtain ⟨m, hm⟩ : ∃ m, StreamModel.new 8 7 = .ok m := ⟨_, rfl⟩
  have hsize : m.payloadSize = 8 := by
    cases hm
    rfl
  obtain ⟨s, hs⟩ : ∃ s, SimulatedSender.new Crypto.toy (ByteArr.replicate _ 0) m .packet
    ⟨ByteArr.replicate _ 0, 0⟩ = .ok s := ⟨_, rfl⟩
  have hvalid : Granularity.packet.Valid := trivial
  obtain ⟨packets, s', hpackets⟩ := SimulatedSender.exists_run_nextProtected (n := 3) hvalid rfl
    (by decide) (by rw [hsize]; decide) hs
  obtain ⟨rfl, -⟩ := SimulatedSender.run_nextProtected hvalid rfl (by decide) hs hpackets
  obtain ⟨r₀, hr₀⟩ : ∃ r₀, ReceiverKeyManager.new (SrtpStream.toyOps (windowBits 128))
    (SrtpStream.addStream m.ssrc.toNat 128) (.forGranularity .packet startTs framePeriod 0)
    ⟨ByteArr.replicate _ 0, 0⟩ 4 10 = .ok r₀ := ⟨_, rfl⟩
  obtain ⟨r, hrun, -⟩ := shuffled_packets_decrypt Crypto.toy _ _ m .packet hvalid _ 4 10 128 3
    (by decide) hs hpackets hr₀
    ([2, 0, 1].map fun i => (i, m.protectedPacket Crypto.toy .packet
      ⟨ByteArr.replicate _ 0, 0⟩ i))
    (by simp) (by simp)
    (by simp [StreamModel.Admissible, StreamModel.Admits, StreamModel.advance,
      StreamModel.generation, windowBits])
  exact ⟨m, m.protectedPacket Crypto.toy .packet ⟨ByteArr.replicate _ 0, 0⟩, r₀, r, hrun⟩

end SafeCast
