import SafeCast.Receiver.Window

/-! # The two estimates of a packet's index

A receiver places a sequence number with `IndexRecovery`, libsrtp with its replay database.
Both move to the highest position that authenticated, so they stay at one index as long as
it is far from the end of its 64 bits.
-/

namespace SafeCast

variable {w : ℕ}

section

variable {recovery : IndexRecovery} {db : Rdbx w}

theorem recover_eq_position (h : recovery.reference = db.index)
    (hb : db.index < 2 ^ 64 - 2 ^ 16) {seq : ℕ} (hseq : seq < 2 ^ 16) :
    recovery.recover seq = db.position seq := by
  rw [recovery.recover_eq_unwrap hseq (by omega), h]
  rfl

theorem reference_update_eq (h : recovery.reference = db.index)
    (hb : db.index < 2 ^ 64 - 2 ^ 16) {seq : ℕ} (hseq : seq < 2 ^ 16) :
    (recovery.update (recovery.recover seq)).reference =
      (db.addIndex (db.estimateIndex seq).2).index := by
  rw [recovery.reference_update, recover_eq_position h hb hseq, h, db.estimateIndex_eq hseq,
    db.addIndex_index (db.position_le hseq) (by omega)]

end

namespace ReceiverKeyManager

variable {c : Crypto} {throwaway : KeySalt} {r r' : ReceiverKeyManager (SrtpStream w)} {buf : Bytes}
  {out : Except RecvDrop ℕ × Bytes}

def rdbx (r : ReceiverKeyManager (SrtpStream w)) : Rdbx w := r.session.stream.rdbx

theorem unprotect_rdbx (h : r.unprotect (SrtpStream.ops c throwaway w) c buf = .ok (out, r')) :
    (∃ g, out.1 = .ok g ∧ r'.rdbx = r.rdbx.addIndex (r.rdbx.estimateIndex (seqOf buf)).2) ∨
      ∃ d, out.1 = .error d ∧ r'.rdbx = r.rdbx := by
  rcases unprotect_cases h with ⟨d, stats, -, rfl, rfl⟩ |
    ⟨p, e, d, stream, stats, -, hs, -, rfl, rfl⟩ | ⟨p, plain, stream, stats, -, hs, rfl, rfl⟩
  · exact .inr ⟨d, rfl, rfl⟩
  · rcases SrtpStream.unprotect_cases hs with ⟨plain, hok, -⟩ | ⟨e', -, rfl | ⟨rfl, -⟩⟩
    · cases hok
    · exact .inr ⟨d, rfl, rfl⟩
    · exact .inr ⟨d, rfl, rfl⟩
  · rcases SrtpStream.unprotect_cases hs with ⟨plain', -, -, rfl⟩ | ⟨e, herr, -⟩
    · exact .inl ⟨p.generation, rfl, rfl⟩
    · cases herr

/-- Every recorded packet has used up one of the packets that the key allows, so the index
does not reach the end of its 64 bits. -/
def WithinLimit (r : ReceiverKeyManager (SrtpStream w)) : Prop :=
  1 ≤ r.session.stream.numLeft ∧
    r.rdbx.index + 2 ^ 16 * r.session.stream.numLeft ≤ 2 ^ 64 - 2 ^ 16

theorem WithinLimit.index_lt (h : r.WithinLimit) : r.rdbx.index < 2 ^ 64 - 2 ^ 16 := by
  unfold WithinLimit at h
  omega

theorem WithinLimit.unprotect (hr : r.WithinLimit)
    (h : r.unprotect (SrtpStream.ops c throwaway w) c buf = .ok (out, r')) : r'.WithinLimit := by
  obtain ⟨hleft, hsum⟩ := hr
  have hlimit : r.session.stream.keyLimitUpdate.numLeft = r.session.stream.numLeft - 1 :=
    if_neg (by omega)
  rcases unprotect_cases h with ⟨d, stats, -, -, rfl⟩ |
    ⟨p, e, d, stream, stats, -, hs, hd, -, rfl⟩ | ⟨p, plain, stream, stats, -, hs, -, rfl⟩
  · exact ⟨hleft, hsum⟩
  · rcases SrtpStream.unprotect_cases hs with ⟨plain, hok, -⟩ | ⟨e', he, rfl | ⟨rfl, hexp | hpos⟩⟩
    · cases hok
    · exact ⟨hleft, hsum⟩
    · -- an expired key aborts the call
      cases he
      rw [hexp] at hd
      cases hd
    · refine ⟨hpos, ?_⟩
      change r.rdbx.index + 2 ^ 16 * r.session.stream.keyLimitUpdate.numLeft ≤ _
      omega
  · rcases SrtpStream.unprotect_cases hs with ⟨plain', -, hpos, rfl⟩ | ⟨e, herr, -⟩
    · refine ⟨hpos, ?_⟩
      have hposition := r.rdbx.position_le (seqOf_lt buf)
      have hindex := r.rdbx.addIndex_index hposition (by omega)
      have hpos' : 1 ≤ r.session.stream.keyLimitUpdate.numLeft := hpos
      have hnext : (r.rdbx.addIndex ((r.rdbx.position (seqOf buf) : ℤ) - r.rdbx.index)).index +
          2 ^ 16 * r.session.stream.keyLimitUpdate.numLeft ≤ 2 ^ 64 - 2 ^ 16 := by omega
      rwa [Rdbx.estimateIndex_eq _ (seqOf_lt buf)]
    · cases herr

theorem fresh_of_new {ssrc windowSize k seekCap : ℕ} {scheme : GenerationScheme}
    {ratchet : StreamRatchet} {r : ReceiverKeyManager (SrtpStream (windowBits windowSize))}
    (h : new (SrtpStream.ops c throwaway _) (SrtpStream.addStream ssrc windowSize) scheme ratchet
      k seekCap = .ok r) : r.rdbx = Rdbx.init _ ∧ r.WithinLimit := by
  obtain ⟨s, hk, -, hs, rfl⟩ := new_ok h
  obtain rfl := SrtpStream.addStream_ok hs
  refine ⟨rfl, ?_⟩
  unfold WithinLimit rdbx
  norm_num [Rdbx.init, keyUsageLimit]

theorem unprotect_recovery {σ : Type*} {ops : SrtpOps σ} {r r' : ReceiverKeyManager σ}
    (hscheme : r.scheme.Indexed) (h : r.unprotect ops c buf = .ok (out, r')) :
    (∃ g, out.1 = .ok g ∧ r'.recovery = r.recovery.update (r.recovery.recover (seqOf buf))) ∨
      ∃ d, out.1 = .error d ∧ r'.recovery = r.recovery := by
  rcases unprotect_cases h with ⟨d, stats, -, rfl, rfl⟩ |
    ⟨p, e, d, stream, stats, -, -, -, rfl, rfl⟩ | ⟨p, plain, stream, stats, hplan, -, rfl, rfl⟩
  · exact .inr ⟨d, rfl, rfl⟩
  · exact .inr ⟨d, rfl, rfl⟩
  · obtain ⟨-, hmap, -⟩ := plan_ok hplan
    rw [GenerationScheme.mapGeneration_indexed hscheme hmap]
    exact .inl ⟨p.generation, rfl, rfl⟩

theorem reference_eq_of_unprotect (hscheme : r.scheme.Indexed)
    (hb : r.rdbx.index < 2 ^ 64 - 2 ^ 16) (hr : r.recovery.reference = r.rdbx.index)
    (h : r.unprotect (SrtpStream.ops c throwaway w) c buf = .ok (out, r')) :
    r'.recovery.reference = r'.rdbx.index := by
  rcases unprotect_rdbx h with ⟨g, hg, hdb⟩ | ⟨d, hd, hdb⟩ <;>
    rcases unprotect_recovery hscheme h with ⟨g', hg', hrec⟩ | ⟨d', hd', hrec⟩
  · rw [hrec, hdb]
    exact reference_update_eq hr hb (seqOf_lt buf)
  · rw [hg] at hd'
    cases hd'
  · rw [hd] at hg'
    cases hg'
  · rw [hrec, hdb]
    exact hr

end ReceiverKeyManager

end SafeCast
