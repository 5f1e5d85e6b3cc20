import SafeCast.Receiver.Estimates
import SafeCast.Tesla.Receiver

/-! # The index estimators agree

The receivers place a sequence number with `IndexRecovery`, libsrtp with its replay
database. Both start at zero, both move to the highest position that authenticated, and
both read a sequence number as the nearest position. As long as positions fit 48 bits
they give the same index.
-/

namespace SafeCast

open Runs

variable {w : ℕ}

/-- The recovery and the replay database stand at one index and estimate alike. -/
structure Agrees (recovery : IndexRecovery) (rdbx : Rdbx w) : Prop where
  reference : recovery.reference = rdbx.index
  estimate : ∀ seq < 2 ^ 16, recovery.recover seq = (rdbx.estimateIndex seq).1

theorem agrees_of_reference {recovery : IndexRecovery} {db : Rdbx w}
    (h : recovery.reference = db.index)
    (hb : db.index < 2 ^ 48 - 2 ^ 16) : Agrees recovery db := by
  refine ⟨h, ?_⟩
  intro seq hseq
  have hle := db.position_le hseq
  rw [recover_eq_position h (by omega) hseq, db.estimateIndex_eq hseq,
    Nat.mod_eq_of_lt (by omega)]

namespace TeslaReceiver

variable {c : Crypto} {throwaway : KeySalt}
  {r r' : TeslaReceiver (ReceiverKeyManager (SrtpStream w))} {buf : Bytes} {arrivalNs : ℕ}
  {out : Except TeslaDrop (List Verdict) × Bytes}

theorem reference_eq_of_processArrival (hb : r.inner.rdbx.index < 2 ^ 64 - 2 ^ 16)
    (hr : r.recovery.reference = r.inner.rdbx.index)
    (h : r.processArrival (ReceiverKeyManager.innerOps (SrtpStream.ops c throwaway w) c) c buf
      arrivalNs = .ok (out, r')) :
    r'.recovery.reference = r'.inner.rdbx.index := by
  rcases processArrival_inner h with ⟨hi, hrec⟩ | ⟨packet, d, b, hu, hrec⟩ |
    ⟨packet, g, plain, hu, hrec⟩
  · rw [hi, hrec]
    exact hr
  · rcases ReceiverKeyManager.unprotect_rdbx hu with ⟨g, hg, -⟩ | ⟨-, -, hdb⟩
    · cases hg
    · rw [hrec, hdb]
      exact hr
  · rcases ReceiverKeyManager.unprotect_rdbx hu with ⟨-, -, hdb⟩ | ⟨d, hd, -⟩
    · rw [hrec, hdb]
      exact reference_update_eq hr hb (seqOf_lt packet)
    · cases hd

structure Tracks (r : TeslaReceiver (ReceiverKeyManager (SrtpStream w))) : Prop where
  limit : r.inner.WithinLimit
  reference : r.recovery.reference = r.inner.rdbx.index

theorem Tracks.processArrival (hr : r.Tracks)
    (h : r.processArrival (ReceiverKeyManager.innerOps (SrtpStream.ops c throwaway w) c) c buf
      arrivalNs = .ok (out, r')) : r'.Tracks := by
  refine ⟨?_, reference_eq_of_processArrival hr.limit.index_lt hr.reference h⟩
  rcases processArrival_inner h with ⟨hi, -⟩ | ⟨packet, d, b, hu, -⟩ | ⟨packet, g, plain, hu, -⟩
  · rw [hi]
    exact hr.limit
  · exact hr.limit.unprotect hu
  · exact hr.limit.unprotect hu

theorem Tracks.recover_mod (hr : r.Tracks) (packet : Bytes) :
    r.recovery.recover (seqOf packet) % 2 ^ 48 =
      (r.inner.rdbx.estimateIndex (seqOf packet)).1 := by
  rw [recover_eq_position hr.reference hr.limit.index_lt (seqOf_lt packet),
    Rdbx.estimateIndex_eq _ (seqOf_lt packet)]

end TeslaReceiver

/-- In every run of either receiver over libsrtp, with indices below `2 ^ 48 - 2 ^ 16`, the
recovered index and the estimated index agree. -/
theorem indices_agree (c : Crypto) (throwaway : KeySalt) (ssrc windowSize : ℕ)
    (scheme : GenerationScheme) (ratchet : StreamRatchet) (k seekCap : ℕ)
    {m₀ : ReceiverKeyManager (SrtpStream (windowBits windowSize))}
    (hnew : ReceiverKeyManager.new (SrtpStream.ops c throwaway _)
      (SrtpStream.addStream ssrc windowSize) scheme ratchet k seekCap = .ok m₀) :
    (scheme.Indexed → ∀ m, Reaches (ReceiverKeyManager.unprotect (SrtpStream.ops c throwaway _) c)
        (fun m => m.rdbx.index < 2 ^ 48 - 2 ^ 16) m₀ m → Agrees m.recovery m.rdbx) ∧
      ∀ commitment signature senderPublicKey dTNs gMax r₀ r,
        TeslaReceiver.accept c commitment signature senderPublicKey dTNs gMax m₀ =
            .ok (some r₀) →
          Reaches (fun (r : TeslaReceiver _) (i : Bytes × ℕ) => r.processArrival
              (ReceiverKeyManager.innerOps (SrtpStream.ops c throwaway _) c) c i.1 i.2)
            (fun r => r.inner.rdbx.index < 2 ^ 48 - 2 ^ 16) r₀ r →
          Agrees r.recovery r.inner.rdbx := by
  have hfresh : m₀.rdbx.index = 0 := by
    rw [(ReceiverKeyManager.fresh_of_new hnew).1]
    rfl
  constructor
  · intro hscheme m hm
    refine agrees_of_reference ?_ hm.bound
    refine (hm.invariant
      (fun m => m.scheme.Indexed ∧ m.recovery.reference = m.rdbx.index) ?_ ?_).2
    · obtain ⟨s, hk, -, -, rfl⟩ := ReceiverKeyManager.new_ok hnew
      exact ⟨hscheme, hfresh.symm⟩
    · rintro s buf out s' hb ⟨hs, href⟩ hstep -
      exact ⟨ReceiverKeyManager.unprotect_scheme hstep ▸ hs,
        ReceiverKeyManager.reference_eq_of_unprotect hs (by omega) href hstep⟩
  · intro commitment signature senderPublicKey dTNs gMax r₀ r haccept hr
    refine agrees_of_reference ?_ hr.bound
    refine hr.invariant (fun r => r.recovery.reference = r.inner.rdbx.index) ?_ ?_
    · obtain ⟨params, -, rfl⟩ := TeslaReceiver.accept_ok haccept
      exact hfresh.symm
    · rintro s i out s' hb href hstep -
      exact TeslaReceiver.reference_eq_of_processArrival (by omega) href hstep

theorem indices_agree_after_packet :
    ∃ (m : ReceiverKeyManager (SrtpStream (windowBits 128)))
      (r : TeslaReceiver (ReceiverKeyManager (SrtpStream (windowBits 128)))),
      m.rdbx.index = 3 ∧ Agrees m.recovery m.rdbx ∧
        r.inner.rdbx.index = 3 ∧ Agrees r.recovery r.inner.rdbx := by
  obtain ⟨m₀, hnew⟩ : ∃ m₀, ReceiverKeyManager.new
    (SrtpStream.toyOps (windowBits 128)) (SrtpStream.addStream 7 128) (.packet 0)
    ⟨ByteArr.replicate _ 0, 0⟩ 4 10 = .ok m₀ := ⟨_, rfl⟩
  obtain ⟨r₀, haccept⟩ : ∃ r₀, TeslaReceiver.accept Crypto.toy
    ⟨ByteArr.replicate _ 0, 0, 10, 2, 5, .hmacSha256, [], 7, [], 0⟩ [] [] 0 8 m₀ =
      .ok (some r₀) := ⟨_, rfl⟩
  obtain ⟨out, m, hm, hindex⟩ := exists_of_returns
    (x := m₀.unprotect (SrtpStream.toyOps _) Crypto.toy (toyPacket 3 4))
    (q := fun _ m => m.rdbx.index = 3) (by cases hnew; decide +kernel)
  obtain ⟨out', r, hr, hindex'⟩ := exists_of_returns (x := r₀.processArrival
      (ReceiverKeyManager.innerOps (SrtpStream.toyOps _) Crypto.toy) Crypto.toy
      (appendExtension (toyPacket 3 4) 1 (ByteArr.replicate _ 0) (ByteArr.replicate _ 0)) 0)
    (q := fun _ r => r.inner.rdbx.index = 3) (by cases hnew; cases haccept; decide +kernel)
  have hm3 := of_decide_eq_true hindex
  have hr3 := of_decide_eq_true hindex'
  have hzero : m₀.rdbx.index = 0 ∧ r₀.inner.rdbx.index = 0 := by
    cases hnew
    cases haccept
    exact ⟨rfl, rfl⟩
  have hagree := indices_agree Crypto.toy (ByteArr.replicate _ 0) 7 128 (.packet 0) _ 4 10 hnew
  refine ⟨m, r, hm3, hagree.1 trivial m (.next (.start ?_) hm ?_), hr3,
    hagree.2 _ _ _ _ _ r₀ r haccept (.next (i := (_, 0)) (.start ?_) hr ?_)⟩
  · rw [hzero.1]
    norm_num
  · rw [hm3]
    norm_num
  · rw [hzero.2]
    norm_num
  · rw [hr3]
    norm_num

end SafeCast
