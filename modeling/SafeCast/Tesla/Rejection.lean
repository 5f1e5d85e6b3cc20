import SafeCast.Receiver.NonInterference
import SafeCast.Tesla.System

/-! # What a rejected datagram leaves behind

Two receivers that agree on everything but drop counters and the SRTP layer's work stay
in agreement. So a datagram that is rejected before the SRTP layer accepts it leaves no
trace. One that is rejected for its disclosed key has already been consumed by the SRTP
layer, and a second copy of its packet is dropped as a replay.
-/

namespace SafeCast

open Runs

namespace TeslaReceiver

variable {ι : Type*} {ops : InnerOps ι} {c : Crypto} {R : ι → ι → Prop} {r t : TeslaReceiver ι}

/-- Two receivers that differ at most in their drop counters, over related SRTP layers. -/
structure SameUpToDrops (R : ι → ι → Prop) (r t : TeslaReceiver ι) : Prop where
  params : r.params = t.params
  verifier : r.verifier = t.verifier
  alg : r.alg = t.alg
  inner : R r.inner t.inner
  recovery : r.recovery = t.recovery
  drawers : r.drawers = t.drawers
  pending : r.pending = t.pending
  delivered : r.stats.delivered = t.stats.delivered
  verified : r.stats.verified = t.stats.verified
  forged : r.stats.forged = t.stats.forged
  peakPending : r.stats.peakPending = t.stats.peakPending
  latenciesNs : r.stats.latenciesNs = t.stats.latenciesNs

namespace SameUpToDrops

theorem mono {R' : ι → ι → Prop} (h : SameUpToDrops R r t) (hr : ∀ s t, R s t → R' s t) :
    SameUpToDrops R' r t :=
  { h with inner := hr _ _ h.inner }

theorem countDrop_left (h : SameUpToDrops R r t) (d : TeslaDrop) :
    SameUpToDrops R (r.countDrop d) t := by
  cases d <;> exact { h with }

theorem countDrop (h : SameUpToDrops R r t) (d d' : TeslaDrop) :
    SameUpToDrops R (r.countDrop d) (t.countDrop d') := by
  cases d <;> cases d' <;> exact { h with }

theorem settleEntry (h : SameUpToDrops R r t) (prepared : PreparedMac) (interval nowNs : ℕ)
    (entry : DrawerEntry) :
    Agree (SameUpToDrops R) (settleEntry c prepared interval nowNs r entry)
      (settleEntry c prepared interval nowNs t entry) := by
  unfold TeslaReceiver.settleEntry
  rw [h.pending]
  split_ifs
  · exact .error _
  · exact .error _
  · refine .ok _ { h with pending := rfl, verified := ?_, latenciesNs := ?_ }
    · simp [h.verified]
    · simp [h.latenciesNs]
  · exact .error _
  · refine .ok _ { h with pending := rfl, forged := ?_ }
    simp [h.forged]

theorem settleInterval (h : SameUpToDrops R r t) (nowNs : ℕ) (k : ℕ × ChainKey) :
    Agree (SameUpToDrops R) (settleInterval c nowNs r k) (settleInterval c nowNs t k) := by
  unfold TeslaReceiver.settleInterval
  rw [h.drawers]
  split
  · exact .ok [] h
  · rw [h.alg]
    exact run_agree (fun _ _ entry h => h.settleEntry _ _ _ entry) _ _ _
      { h with alg := rfl, drawers := rfl }

theorem settle (h : SameUpToDrops R r t) (keys : List (ℕ × ChainKey)) (nowNs : ℕ) :
    Agree (SameUpToDrops R) (settle c r keys nowNs) (settle c t keys nowNs) :=
  (run_agree (fun _ _ k h => h.settleInterval nowNs k) keys r t h).map List.flatten

theorem disclose (h : SameUpToDrops R r t) (ext : Extension) (nowNs : ℕ) :
    Agree (SameUpToDrops R) (r.disclose c ext nowNs) (t.disclose c ext nowNs) := by
  have hcheck : r.verifier.check c ext.disclosed (r.params.disclosedIndex ext.interval) =
      t.verifier.check c ext.disclosed (t.params.disclosedIndex ext.interval) := by
    rw [h.verifier, h.params]
  unfold TeslaReceiver.disclose
  rw [hcheck]
  split
  · rename_i keys verifier _
    have hsettle := settle (c := c) (r := { r with verifier := verifier })
      (t := { t with verifier := verifier }) { h with verifier := rfl } keys nowNs
    generalize TeslaReceiver.settle c { r with verifier := verifier } keys nowNs = x at hsettle ⊢
    generalize TeslaReceiver.settle c { t with verifier := verifier } keys nowNs = y at hsettle ⊢
    cases hsettle with
    | error p => exact .error p
    | ok verdicts h => exact .ok _ h
  · exact .ok _ h
  all_goals exact .ok _ (h.countDrop _ _)

theorem authenticated {inner inner' : ι} (h : SameUpToDrops R r t) (hr : R inner inner')
    (packet : Bytes) :
    SameUpToDrops R (r.authenticated inner packet) (t.authenticated inner' packet) :=
  { h with inner := hr, recovery := by simp [TeslaReceiver.authenticated, h.recovery] }

theorem deliver (h : SameUpToDrops R r t) (interval : ℕ) (entry : DrawerEntry) :
    SameUpToDrops R (r.deliver interval entry) (t.deliver interval entry) := by
  refine { h with drawers := ?_, pending := ?_, delivered := ?_, peakPending := ?_ }
  · simp [TeslaReceiver.deliver, h.drawers]
  · simp [TeslaReceiver.deliver, h.pending]
  · simp [TeslaReceiver.deliver, h.delivered]
  · simp [TeslaReceiver.deliver, h.pending, h.peakPending]

theorem processArrival
    (hinner : ∀ s t packet, R s t → Agree R (ops.unprotect s packet) (ops.unprotect t packet))
    (h : SameUpToDrops R r t) (buf : Bytes) (arrivalNs : ℕ) :
    Agree (SameUpToDrops R) (r.processArrival ops c buf arrivalNs)
      (t.processArrival ops c buf arrivalNs) := by
  have haccepts : ∀ interval, r.params.accepts arrivalNs interval =
      t.params.accepts arrivalNs interval := by simp [h.params]
  unfold TeslaReceiver.processArrival
  rcases splitExtension buf with - | ⟨ext, packet⟩
  · exact .ok _ (h.countDrop _ _)
  dsimp only
  split_ifs
  · exact .ok _ (h.countDrop _ _)
  rw [haccepts]
  rcases t.params.accepts arrivalNs ext.interval with p | check
  · exact .error p
  cases check with
  | unsafeLate => exact .ok _ (h.countDrop _ _)
  | safe =>
    dsimp only
    -- the SRTP layers agree, so both receivers go the same way from here on
    have hu := hinner _ _ packet h.inner
    generalize ops.unprotect r.inner packet = x at hu ⊢
    generalize ops.unprotect t.inner packet = y at hu ⊢
    cases hu with
    | error p => exact .error p
    | @ok inner inner' out hr =>
      rcases out with ⟨d | g, b⟩
      · have hfailed : SameUpToDrops R { r with inner := inner } { t with inner := inner' } :=
          { h with inner := hr }
        exact .ok _ (hfailed.countDrop _ _)
      · have hd := (h.authenticated hr packet).disclose (c := c) ext arrivalNs
        unfold TeslaReceiver.authenticated at hd
        dsimp only
        generalize TeslaReceiver.disclose c { r with
          inner := inner
          recovery := r.recovery.update (r.recovery.recover (seqOf packet)) } ext arrivalNs = x
          at hd ⊢
        generalize TeslaReceiver.disclose c { t with
          inner := inner'
          recovery := t.recovery.update (t.recovery.recover (seqOf packet)) } ext arrivalNs = y
          at hd ⊢
        cases hd with
        | error p => exact .error p
        | ok res h' =>
          rcases res with d | verdicts
          · exact .ok _ h'
          · rw [h.recovery]
            exact .ok _ (h'.deliver _ _)

theorem of_rejected (h : SameUpToDrops R r t) {buf : Bytes} {arrivalNs : ℕ} {d : TeslaDrop}
    {b : Bytes} {r' : TeslaReceiver ι}
    (hfail : ∀ packet d b inner, ops.unprotect r.inner packet = .ok ((.error d, b), inner) →
      R inner t.inner)
    (hproc : r.processArrival ops c buf arrivalNs = .ok ((.error d, b), r'))
    (hno : ∀ ext packet, r.Admitted buf arrivalNs ext packet → ∀ g plain inner,
      ops.unprotect r.inner packet ≠ .ok ((.ok g, plain), inner)) :
    SameUpToDrops R r' t := by
  rcases processArrival_cases hproc with ⟨d, -, -, -, rfl⟩ | ⟨ext, packet, hadm,
    ⟨d, b, inner, hinner, -, rfl⟩ | ⟨g, plain, inner, hinner, -⟩ |
    ⟨g, plain, inner, keys, verifier, verdicts, r₁, hinner, -⟩⟩
  · exact h.countDrop_left d
  · have hfailed : SameUpToDrops R { r with inner := inner } t :=
      { h with inner := hfail packet d b inner hinner }
    exact hfailed.countDrop_left _
  · exact absurd hinner (hno ext packet hadm g plain inner)
  · exact absurd hinner (hno ext packet hadm g plain inner)

end SameUpToDrops

theorem rejected_of_authentic {buf b packet plain : Bytes} {arrivalNs g : ℕ} {d : TeslaDrop}
    {r' : TeslaReceiver ι} {ext : Extension} {inner : ι}
    (hproc : r.processArrival ops c buf arrivalNs = .ok ((.error d, b), r'))
    (hadm : r.Admitted buf arrivalNs ext packet)
    (hinner : ops.unprotect r.inner packet = .ok ((.ok g, plain), inner)) :
    d = .badDisclosure ∧ r' = (r.authenticated inner packet).countDrop .badDisclosure := by
  rcases processArrival_cases hproc with ⟨-, -, hnot, -⟩ | ⟨ext', packet', hadm',
    ⟨d', b', inner', hinner', -⟩ | ⟨g', plain', inner', hinner', -, hout, hr'⟩ |
    ⟨g', plain', inner', keys, verifier, verdicts, r₁, -, -, -, hout, -⟩⟩
  · exact absurd hadm (hnot ext packet)
  all_goals obtain ⟨rfl, rfl⟩ := hadm.unique hadm'
  · rw [hinner] at hinner'
    cases hinner'
  · rw [hinner] at hinner'
    cases hinner'
    cases hout
    exact ⟨rfl, hr'⟩
  · cases hout

end TeslaReceiver

variable {σ δ : Type*} {ops : SrtpOps σ} {db : σ → δ} {c : Crypto}

/-- A library that marks packets as seen: after a success, the same packet fails, whatever
the key. -/
def SrtpOps.Marks (ops : SrtpOps σ) (db : σ → δ) : Prop :=
  ∀ s key packet plain, (ops.unprotect s key packet).1 = .ok plain →
    ∀ t key' plain', db t = db (ops.unprotect s key packet).2 →
      (ops.unprotect t key' packet).1 ≠ .ok plain'

theorem ReceiverKeyManager.unprotect_twice (hmarks : ops.Marks db)
    {r r' r'' : ReceiverKeyManager σ} {packet plain plain' : Bytes} {g g' : ℕ}
    (h : r.unprotect ops c packet = .ok ((.ok g, plain), r')) :
    r'.unprotect ops c packet ≠ .ok ((.ok g', plain'), r'') := by
  intro h'
  rcases unprotect_cases h with ⟨d, stats, -, hout, -⟩ |
    ⟨p, e, d, stream, stats, -, -, -, hout, -⟩ | ⟨p, out, stream, stats, -, hs, -, rfl⟩
  · cases hout
  · cases hout
  rcases unprotect_cases h' with ⟨d, stats, -, hout, -⟩ |
    ⟨p, e, d, stream, stats, -, -, -, hout, -⟩ | ⟨q, out', stream', stats, -, hs', -, -⟩
  · cases hout
  · cases hout
  · have hfirst : (ops.unprotect r.session.stream (r.cipherKey p) packet).1 = .ok out := by rw [hs]
    refine hmarks _ _ _ _ hfirst _ _ out' ?_ (congrArg Prod.fst hs')
    rw [hs]

namespace TeslaReceiver

variable {r₀ r r' : TeslaReceiver (ReceiverKeyManager σ)}

theorem keysFrom_of_reaches {start : StreamRatchet}
    {B : TeslaReceiver (ReceiverKeyManager σ) → Prop}
    (hreach : Reaches (arrival (ReceiverKeyManager.innerOps ops c) c) B r₀ r)
    (h₀ : ReceiverKeyManager.KeysFrom c start r₀.inner) :
    ReceiverKeyManager.KeysFrom c start r.inner := by
  refine hreach.invariant (fun r => ReceiverKeyManager.KeysFrom c start r.inner) h₀ ?_
  rintro r ⟨buf, arrivalNs⟩ out r' - hr hproc -
  rcases processArrival_inner hproc with ⟨hi, -⟩ | ⟨packet, d, b, hu, -⟩ | ⟨packet, g, plain, hu, -⟩
  · rw [hi]
    exact hr
  · exact hr.unprotect hu
  · exact hr.unprotect hu

/-- A rejected datagram leaves no trace in what follows exactly when the SRTP layer did not
accept its packet. -/
theorem rejected_without_trace_iff (hops : ops.Faithful db) (hmarks : ops.Marks db) (c : Crypto)
    (stream : Except SrtpError σ) (scheme : GenerationScheme) (ratchet : StreamRatchet)
    (k seekCap : ℕ) {m₀ : ReceiverKeyManager σ}
    (hnew : ReceiverKeyManager.new ops stream scheme ratchet k seekCap = .ok m₀)
    (commitment : TeslaCommitment) (signature senderPublicKey : Bytes) (dTNs : UInt64)
    (gMax : UInt32)
    (haccept : accept c commitment signature senderPublicKey dTNs gMax m₀ = .ok (some r₀))
    (hreach : Reaches (arrival (ReceiverKeyManager.innerOps ops c) c) (fun _ => True) r₀ r)
    {buf b : Bytes} {arrivalNs : ℕ} {d : TeslaDrop}
    (hproc : r.processArrival (ReceiverKeyManager.innerOps ops c) c buf arrivalNs =
      .ok ((.error d, b), r')) :
    (∀ later, Agree (SameUpToDrops (ReceiverKeyManager.SameState db))
        (run (arrival (ReceiverKeyManager.innerOps ops c) c) r' later)
        (run (arrival (ReceiverKeyManager.innerOps ops c) c) r later)) ↔
      ∀ ext packet, r.Admitted buf arrivalNs ext packet → ∀ g plain inner,
        r.inner.unprotect ops c packet ≠ .ok ((.ok g, plain), inner) := by
  have hkeys : ReceiverKeyManager.KeysFrom c ratchet r.inner := by
    refine keysFrom_of_reaches hreach ?_
    obtain ⟨params, -, rfl⟩ := accept_ok haccept
    exact ReceiverKeyManager.keysFrom_new hnew
  constructor
  · -- a second copy of a consumed packet is dropped by the SRTP layer
    intro h ext packet hadm g plain inner hinner
    have hfirst : run (arrival (ReceiverKeyManager.innerOps ops c) c) r [(buf, arrivalNs)] =
        .ok ([(.error d, b)], r') := run_singleton.mpr hproc
    have hagree := h [(buf, arrivalNs)]
    rw [hfirst] at hagree
    obtain ⟨t, hsecond, -⟩ := hagree.ok_right
    have hagain : r'.processArrival (ReceiverKeyManager.innerOps ops c) c buf arrivalNs =
        .ok ((.error d, b), t) := run_singleton.mp hsecond
    obtain ⟨rfl, rfl⟩ := rejected_of_authentic hproc hadm hinner
    -- the copy passes the same tests up to the SRTP layer
    have hadm' : ((r.authenticated inner packet).countDrop .badDisclosure).Admitted buf arrivalNs
        ext packet := ⟨hadm.split, hadm.length, hadm.safe⟩
    rcases processArrival_cases hagain with ⟨-, -, hnot, -⟩ | ⟨ext', packet', hadm'',
      ⟨d, b', inner', -, hout, -⟩ | ⟨g', plain', inner', hinner', -⟩ |
      ⟨g', plain', inner', keys, verifier, verdicts, r₁, -, -, -, hout, -⟩⟩
    · exact hnot ext packet hadm'
    · cases hout
    · obtain ⟨rfl, rfl⟩ := hadm'.unique hadm''
      exact ReceiverKeyManager.unprotect_twice hmarks hinner hinner'
    · cases hout
  · intro hno later
    have hself : ReceiverKeyManager.Alike c ratchet db r.inner r.inner :=
      ⟨hkeys, hkeys, ⟨rfl, rfl, rfl, rfl, rfl, rfl, rfl⟩⟩
    have hrefl : SameUpToDrops (ReceiverKeyManager.Alike c ratchet db) r r :=
      ⟨rfl, rfl, rfl, hself, rfl, rfl, rfl, rfl, rfl, rfl, rfl, rfl⟩
    have hsame := hrefl.of_rejected
      (fun packet d b inner hu => hself.rejected hops hu rfl) hproc hno
    have hagree : Agree (SameUpToDrops (ReceiverKeyManager.Alike c ratchet db))
        (run (arrival (ReceiverKeyManager.innerOps ops c) c) r' later)
        (run (arrival (ReceiverKeyManager.innerOps ops c) c) r later) :=
      run_agree (fun s t i h => h.processArrival (fun _ _ packet h => h.unprotect hops packet)
        i.1 i.2) later _ _ hsame
    exact hagree.mono fun s t h => h.mono fun _ _ h => h.same

end TeslaReceiver

theorem replayOps_marks (c : Crypto) {w : ℕ} (hw : 0 < w) : (replayOps c w).Marks id := by
  intro s key packet plain h t key' plain' ht
  have hcheck : s.check (s.estimateIndex (seqOf packet)).2 = .ok () := by
    unfold replayOps at h
    dsimp only at h
    split at h
    · cases h
    · assumption
  have hnext : t = s.addIndex (s.estimateIndex (seqOf packet)).2 := by
    unfold replayOps at h ht
    simp only [hcheck] at h ht
    split at h
    · cases h
    · rename_i hopen
      simpa [hopen] using ht
  have hreplay := s.check_addIndex hw (seqOf_lt packet) hcheck
  rw [← hnext] at hreplay
  unfold replayOps
  simp only [hreplay]
  exact nofun

namespace TeslaReceiver

theorem rejected_without_trace_of_forged :
    ∃ (r r' : TeslaReceiver (ReceiverKeyManager (Rdbx 64))) (d : RecvDrop) (b : Bytes),
      r.processArrival (ReceiverKeyManager.innerOps (replayOps Crypto.toy 64) Crypto.toy)
        Crypto.toy (toyDatagram (toyPacket 5 0) 5 1 1) 1 = .ok ((.error (.srtp d), b), r') ∧
      ∀ later, Agree (SameUpToDrops (ReceiverKeyManager.SameState id))
        (run (arrival (ReceiverKeyManager.innerOps (replayOps Crypto.toy 64) Crypto.toy)
          Crypto.toy) r' later)
        (run (arrival (ReceiverKeyManager.innerOps (replayOps Crypto.toy 64) Crypto.toy)
          Crypto.toy) r later) := by
  obtain ⟨m₀, hnew⟩ : ∃ m₀, ReceiverKeyManager.new (replayOps Crypto.toy 64)
    (.ok (Rdbx.init 64)) (.packet 0) ⟨ByteArr.replicate _ 0, 0⟩ 4 10 = .ok m₀ := ⟨_, rfl⟩
  obtain ⟨-, r₀, -, haccept, -⟩ := toy_starts m₀
  obtain ⟨out, r', hproc, hout⟩ := exists_of_returns
    (x := r₀.processArrival (ReceiverKeyManager.innerOps (replayOps Crypto.toy 64) Crypto.toy)
      Crypto.toy (toyDatagram (toyPacket 5 0) 5 1 1) 1)
    (q := fun out _ => out.1 = .error (.srtp .authFail))
    (by cases hnew; cases haccept; decide +kernel)
  obtain ⟨res, b⟩ := out
  obtain rfl : res = .error (.srtp .authFail) := of_decide_eq_true hout
  refine ⟨r₀, r', .authFail, b, hproc, ?_⟩
  refine (rejected_without_trace_iff (replayOps_faithful Crypto.toy 64)
    (replayOps_marks Crypto.toy (by decide)) Crypto.toy _ _ _ 4 10 hnew _ _ _ _ _ haccept
    (.start trivial) hproc).mpr ?_
  intro ext packet hadm g plain inner hinner
  obtain ⟨hd, -⟩ := rejected_of_authentic hproc hadm hinner
  cases hd

/-- A genuine packet whose label was changed from 1 to 4 in flight is rejected for its
disclosed key; the unaltered copy is then dropped as a replay, although it would have been
delivered. -/
theorem altered_copy_blocks_genuine :
    ∃ (m₀ : ReceiverKeyManager (SrtpStream (windowBits 128))) (r₀ r₁ r₂ r₃ : TeslaReceiver _)
      (b₁ b₂ b₃ : Bytes),
      ReceiverKeyManager.new (SrtpStream.toyOps (windowBits 128)) (SrtpStream.addStream 7 128)
        (.packet 0) ⟨ByteArr.replicate _ 0, 0⟩ 4 10 = .ok m₀ ∧
      accept Crypto.toy toyCommitment [] [] 0 8 m₀ = .ok (some r₀) ∧
      r₀.processArrival (ReceiverKeyManager.innerOps (SrtpStream.toyOps _) Crypto.toy)
        Crypto.toy (toyDatagram (toyPacket 0 1) 0 1 4) 1 = .ok ((.error .badDisclosure, b₁), r₁) ∧
      r₁.processArrival (ReceiverKeyManager.innerOps (SrtpStream.toyOps _) Crypto.toy)
        Crypto.toy (toyDatagram (toyPacket 0 1) 0 1 1) 1 =
          .ok ((.error (.srtp .srtpReplay), b₂), r₂) ∧
      r₀.processArrival (ReceiverKeyManager.innerOps (SrtpStream.toyOps _) Crypto.toy)
        Crypto.toy (toyDatagram (toyPacket 0 1) 0 1 1) 1 = .ok ((.ok [], b₃), r₃) := by
  obtain ⟨m₀, hnew⟩ : ∃ m₀, ReceiverKeyManager.new (SrtpStream.toyOps (windowBits 128))
    (SrtpStream.addStream 7 128) (.packet 0) ⟨ByteArr.replicate _ 0, 0⟩ 4 10 = .ok m₀ := ⟨_, rfl⟩
  obtain ⟨-, r₀, -, haccept, -⟩ := toy_starts m₀
  obtain ⟨outs, r₂, hboth, houts⟩ := exists_of_returns
    (x := run (arrival (ReceiverKeyManager.innerOps (SrtpStream.toyOps _) Crypto.toy) Crypto.toy) r₀
      [(toyDatagram (toyPacket 0 1) 0 1 4, 1), (toyDatagram (toyPacket 0 1) 0 1 1, 1)])
    (q := fun outs _ => outs.map Prod.fst = [.error .badDisclosure, .error (.srtp .srtpReplay)])
    (by cases hnew; cases haccept; decide +kernel)
  obtain ⟨⟨res, b₃⟩, r₃, halone, hout⟩ := exists_of_returns
    (x := r₀.processArrival (ReceiverKeyManager.innerOps (SrtpStream.toyOps _) Crypto.toy)
      Crypto.toy (toyDatagram (toyPacket 0 1) 0 1 1) 1)
    (q := fun out _ => out.1 = .ok []) (by cases hnew; cases haccept; decide +kernel)
  obtain ⟨⟨res₁, b₁⟩, r₁, ⟨res₂, b₂⟩, h₁, h₂, rfl⟩ := run_pair hboth
  obtain ⟨rfl, rfl⟩ : res₁ = .error .badDisclosure ∧ res₂ = .error (.srtp .srtpReplay) := by
    simpa using houts
  obtain rfl : res = .ok [] := of_decide_eq_true hout
  exact ⟨m₀, r₀, r₁, r₂, r₃, b₁, b₂, b₃, hnew, haccept, h₁, h₂, halone⟩

end TeslaReceiver

end SafeCast
