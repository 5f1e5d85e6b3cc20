import SafeCast.Srtp.ReplayWindow
import SafeCast.Tesla.IndexAgreement

/-! # No packet is delivered twice

The receiver swaps keys in and out of the cipher as packets of different generations
arrive, and every swap keeps the replay database. So over a whole run each packet index
is decrypted at most once, under any generation, and the TESLA receiver delivers each
index at most once.
-/

namespace SafeCast

open Runs

variable {w : ℕ} {c : Crypto} {throwaway : KeySalt}

theorem SrtpStream.check_of_unprotect {s s' : SrtpStream w} {ks : KeySalt} {packet plain : Bytes}
    (h : s.unprotect c ks packet = (.ok plain, s')) :
    s.rdbx.check (s.rdbx.estimateIndex (seqOf packet)).2 = .ok () := by
  unfold unprotect at h
  split at h
  · cases h
  split at h
  · cases h
  split at h
  · cases h
  dsimp only at h
  split at h
  · cases h
  · assumption

namespace ReceiverKeyManager

variable {r r' : ReceiverKeyManager (SrtpStream w)} {buf : Bytes} {out : Except RecvDrop ℕ × Bytes}

def decryptedIndex
    (t : Transition (ReceiverKeyManager (SrtpStream w)) Bytes (Except RecvDrop ℕ × Bytes)) :
    Option ℕ :=
  match t.output.1 with
  | .error _ => none
  | .ok _ => some (t.before.rdbx.estimateIndex (seqOf t.input)).1

theorem accepts_of_unprotect
    (h : r.unprotect (SrtpStream.ops c throwaway w) c buf = .ok (out, r')) :
    r.rdbx.Accepts (decryptedIndex ⟨r, buf, out, r'⟩) r'.rdbx := by
  rcases unprotect_rdbx h with ⟨g, hg, hdb⟩ | ⟨d, hd, hdb⟩
  · rcases unprotect_cases h with ⟨d, stats, -, rfl, -⟩ |
      ⟨p, e, d, stream, stats, -, -, -, rfl, -⟩ | ⟨p, plain, stream, stats, -, hs, rfl, -⟩
    · cases hg
    · cases hg
    · rw [hdb]
      exact .passed (seqOf_lt buf) (SrtpStream.check_of_unprotect hs)
  · rw [decryptedIndex, hd, hdb]
    exact .kept

/-- No packet index is decrypted twice, whatever buffers arrive and whichever generations'
keys are swapped into the cipher in between. -/
theorem decrypted_indices_nodup (c : Crypto) (throwaway : KeySalt) (ssrc windowSize : ℕ)
    (scheme : GenerationScheme) (ratchet : StreamRatchet) (k seekCap : ℕ)
    {r₀ r : ReceiverKeyManager (SrtpStream (windowBits windowSize))} {bufs : List Bytes}
    {outs : List (Except RecvDrop ℕ × Bytes)}
    (h₀ : new (SrtpStream.ops c throwaway _) (SrtpStream.addStream ssrc windowSize) scheme ratchet
      k seekCap = .ok r₀)
    (hrun : run (ReceiverKeyManager.unprotect (SrtpStream.ops c throwaway _) c) r₀ bufs =
      .ok (outs, r))
    (hlen : bufs.length ≤ 2 ^ 32) :
    ((calls (ReceiverKeyManager.unprotect (SrtpStream.ops c throwaway _) c) r₀ bufs).filterMap
      decryptedIndex).Nodup :=
  (Rdbx.history_of_calls rdbx decryptedIndex (fun _ _ _ _ => accepts_of_unprotect)
    (fresh_of_new h₀).1 hrun hlen).nodup

theorem decrypted_indices_nodup_replayed :
    ∃ r₀ outs r, run (ReceiverKeyManager.unprotect (SrtpStream.toyOps (windowBits 128)) Crypto.toy)
        r₀ [toyPacket 0 1, toyPacket 1 2, toyPacket 0 1] = .ok (outs, r) ∧
      outs.map (fun o => o.1.isOk) = [true, true, false] ∧
      ((calls (ReceiverKeyManager.unprotect (SrtpStream.toyOps (windowBits 128)) Crypto.toy) r₀
        [toyPacket 0 1, toyPacket 1 2, toyPacket 0 1]).filterMap decryptedIndex).Nodup := by
  obtain ⟨r₀, h₀⟩ : ∃ r₀, new (SrtpStream.toyOps (windowBits 128)) (SrtpStream.addStream 7 128)
    (.packet 0) ⟨ByteArr.replicate _ 0, 0⟩ 4 10 = .ok r₀ := ⟨_, rfl⟩
  obtain ⟨outs, r, hrun, houts⟩ := exists_of_returns
    (x := run (ReceiverKeyManager.unprotect (SrtpStream.toyOps (windowBits 128)) Crypto.toy) r₀
      [toyPacket 0 1, toyPacket 1 2, toyPacket 0 1])
    (q := fun outs _ => outs.map (fun o => o.1.isOk) = [true, true, false])
    (by cases h₀; decide +kernel)
  exact ⟨r₀, outs, r, hrun, of_decide_eq_true houts,
    decrypted_indices_nodup Crypto.toy _ _ _ _ _ _ _ h₀ hrun (by decide)⟩

end ReceiverKeyManager

namespace TeslaReceiver

variable {r r' : TeslaReceiver (ReceiverKeyManager (SrtpStream w))} {i : Bytes × ℕ}
  {out : Except TeslaDrop (List Verdict) × Bytes}

/-- The index with which a delivered packet waits for its verdict. -/
def deliveredIndex (t : Transition (TeslaReceiver (ReceiverKeyManager (SrtpStream w))) (Bytes × ℕ)
    (Except TeslaDrop (List Verdict) × Bytes)) : Option ℕ :=
  match t.output.1 with
  | .ok _ => (splitExtension t.input.1).map fun x => t.before.recovery.recover (seqOf x.2)
  | .error _ => none

/-- The index of a packet that the SRTP layer accepted, also if it was then dropped for its
disclosed key. -/
def acceptedIndex (t : Transition (TeslaReceiver (ReceiverKeyManager (SrtpStream w))) (Bytes × ℕ)
    (Except TeslaDrop (List Verdict) × Bytes)) : Option ℕ :=
  match t.output.1 with
  | .ok _ | .error .badDisclosure =>
    (splitExtension t.input.1).map fun x => (t.before.inner.rdbx.estimateIndex (seqOf x.2)).1
  | .error _ => none

theorem accepts_of_arrival
    (h : r.arrival (ReceiverKeyManager.innerOps (SrtpStream.ops c throwaway w) c) c i =
      .ok (out, r')) :
    r.inner.rdbx.Accepts (acceptedIndex ⟨r, i, out, r'⟩) r'.inner.rdbx := by
  have hinner : ∀ {packet g plain inner}, ReceiverKeyManager.unprotect
      (SrtpStream.ops c throwaway w) c r.inner packet = .ok ((.ok g, plain), inner) →
      r.inner.rdbx.Accepts (some (r.inner.rdbx.estimateIndex (seqOf packet)).1) inner.rdbx :=
    fun h => ReceiverKeyManager.accepts_of_unprotect h
  rcases processArrival_cases h with ⟨d, hd, -, hout, rfl⟩ | ⟨ext, packet, hadm,
    ⟨d, b, inner, hu, rfl, rfl⟩ | ⟨g, plain, inner, hu, -, rfl, rfl⟩ |
    ⟨g, plain, inner, keys, verifier, verdicts, r₁, hu, -, hsettle, rfl, rfl⟩⟩
  · rcases hd with rfl | rfl
    · rw [acceptedIndex, hout]
      exact .kept
    · rw [acceptedIndex, hout]
      exact .kept
  · exact ReceiverKeyManager.accepts_of_unprotect hu
  · simp only [acceptedIndex, hadm.split, Option.map_some]
    exact hinner hu
  · obtain ⟨-, pending, stats, rfl⟩ := settle_ok hsettle
    simp only [acceptedIndex, hadm.split, Option.map_some]
    exact hinner hu

theorem acceptedIndex_of_delivered
    {t : Transition (TeslaReceiver (ReceiverKeyManager (SrtpStream w))) (Bytes × ℕ)
      (Except TeslaDrop (List Verdict) × Bytes)} {index : ℕ} (ht : t.before.Tracks)
    (h : deliveredIndex t = some index) : acceptedIndex t = some (index % 2 ^ 48) := by
  unfold deliveredIndex at h
  unfold acceptedIndex
  split at h
  · rename_i verdicts hout
    obtain ⟨x, hx, rfl⟩ := Option.map_eq_some_iff.mp h
    rw [hout, hx, ht.recover_mod]
    rfl
  · cases h

theorem tracks_of_mem_calls {r₀ : TeslaReceiver (ReceiverKeyManager (SrtpStream w))}
    {inputs : List (Bytes × ℕ)} {outs : List (Except TeslaDrop (List Verdict) × Bytes)}
    (h₀ : r₀.Tracks)
    (hrun : run (arrival (ReceiverKeyManager.innerOps (SrtpStream.ops c throwaway w) c) c) r₀
      inputs = .ok (outs, r)) :
    ∀ t ∈ calls (arrival (ReceiverKeyManager.innerOps (SrtpStream.ops c throwaway w) c) c) r₀
      inputs, t.before.Tracks := by
  refine (run_ledger (fun ts s => (∀ t ∈ ts, t.before.Tracks) ∧ s.Tracks) ⟨?_, h₀⟩ ?_ hrun).1
  · intro t ht
    cases ht
  · rintro ts s i o s' ⟨hts, hs⟩ hstep
    refine ⟨?_, hs.processArrival hstep⟩
    intro t ht
    rcases List.mem_append.mp ht with ht | ht
    · exact hts t ht
    · rw [List.mem_singleton.mp ht]
      exact hs

/-- Over any run of the receiver no packet index is delivered twice. -/
theorem delivered_indices_nodup (c : Crypto) (throwaway : KeySalt) (ssrc windowSize : ℕ)
    (scheme : GenerationScheme) (ratchet : StreamRatchet) (k seekCap : ℕ)
    (commitment : TeslaCommitment) (signature senderPublicKey : Bytes) (dTNs : UInt64)
    (gMax : UInt32) {inner : ReceiverKeyManager (SrtpStream (windowBits windowSize))}
    {r₀ r : TeslaReceiver (ReceiverKeyManager (SrtpStream (windowBits windowSize)))}
    {inputs : List (Bytes × ℕ)} {outs : List (Except TeslaDrop (List Verdict) × Bytes)}
    (hnew : ReceiverKeyManager.new (SrtpStream.ops c throwaway _)
      (SrtpStream.addStream ssrc windowSize) scheme ratchet k seekCap = .ok inner)
    (h₀ : accept c commitment signature senderPublicKey dTNs gMax inner = .ok (some r₀))
    (hrun : run (arrival (ReceiverKeyManager.innerOps (SrtpStream.ops c throwaway _) c) c) r₀
      inputs = .ok (outs, r))
    (hlen : inputs.length ≤ 2 ^ 32) :
    ((calls (arrival (ReceiverKeyManager.innerOps (SrtpStream.ops c throwaway _) c) c) r₀
      inputs).filterMap deliveredIndex).Nodup := by
  obtain ⟨hfresh, hlimit⟩ := ReceiverKeyManager.fresh_of_new hnew
  have hstart : r₀.inner = inner ∧ r₀.Tracks := by
    obtain ⟨params, -, rfl⟩ := accept_ok h₀
    refine ⟨rfl, hlimit, ?_⟩
    change 0 = inner.rdbx.index
    rw [hfresh]
    rfl
  have htracks := tracks_of_mem_calls hstart.2 hrun
  have haccepted := (Rdbx.history_of_calls (fun r => r.inner.rdbx) acceptedIndex
    (fun _ _ _ _ => accepts_of_arrival) (hstart.1 ▸ hfresh) hrun hlen).nodup
  rw [List.Nodup, List.pairwise_filterMap] at haccepted ⊢
  refine haccepted.imp_of_mem ?_
  rintro t t' ht ht' hne index hindex index' hindex' rfl
  exact hne _ (acceptedIndex_of_delivered (htracks t ht) hindex) _
    (acceptedIndex_of_delivered (htracks t' ht') hindex') rfl

theorem delivered_indices_nodup_duplicated :
    ∃ r₀ outs r, run (arrival (ReceiverKeyManager.innerOps (SrtpStream.toyOps (windowBits 128))
        Crypto.toy) Crypto.toy) r₀ (List.replicate 2 (appendExtension (toyPacket 3 4) 1
          (ByteArr.replicate _ 0) (ByteArr.replicate _ 0), 0)) = .ok (outs, r) ∧
      outs.map (fun o => o.1.isOk) = [true, false] ∧
      ((calls (arrival (ReceiverKeyManager.innerOps (SrtpStream.toyOps (windowBits 128))
        Crypto.toy) Crypto.toy) r₀ (List.replicate 2 (appendExtension (toyPacket 3 4) 1
          (ByteArr.replicate _ 0) (ByteArr.replicate _ 0), 0))).filterMap
            deliveredIndex).Nodup := by
  obtain ⟨inner, hnew⟩ : ∃ inner, ReceiverKeyManager.new
    (SrtpStream.toyOps (windowBits 128)) (SrtpStream.addStream 7 128) (.packet 0)
    ⟨ByteArr.replicate _ 0, 0⟩ 4 10 = .ok inner := ⟨_, rfl⟩
  obtain ⟨r₀, h₀⟩ : ∃ r₀, accept Crypto.toy
    ⟨ByteArr.replicate _ 0, 0, 10, 2, 5, .hmacSha256, [], 7, [], 0⟩ [] [] 0 8 inner =
      .ok (some r₀) := ⟨_, rfl⟩
  obtain ⟨outs, r, hrun, houts⟩ := exists_of_returns
    (x := run (arrival (ReceiverKeyManager.innerOps (SrtpStream.toyOps (windowBits 128))
      Crypto.toy) Crypto.toy) r₀ (List.replicate 2 (appendExtension (toyPacket 3 4) 1
        (ByteArr.replicate _ 0) (ByteArr.replicate _ 0), 0)))
    (q := fun outs _ => outs.map (fun o => o.1.isOk) = [true, false])
    (by cases hnew; cases h₀; decide +kernel)
  exact ⟨r₀, outs, r, hrun, of_decide_eq_true houts,
    delivered_indices_nodup Crypto.toy _ _ _ _ _ _ _ _ _ _ _ _ hnew h₀ hrun (by simp)⟩

end TeslaReceiver

end SafeCast
