import SafeCast.Keying.Granularity
import SafeCast.Srtp.ReplayWindow

/-! # The sender never repeats a nonce

libsrtp forms the nonce of a packet from the salt, the SSRC and the estimated index. The
rekeying sender changes key and salt between packets but keeps the replay database, so an
index is used at most once in the life of a stream.
-/

namespace SafeCast

open Runs

theorem zipWith_xor_inj {a b salt : Bytes} (ha : a.length = salt.length)
    (hb : b.length = salt.length)
    (h : List.zipWith (· ^^^ ·) a salt = List.zipWith (· ^^^ ·) b salt) : a = b := by
  induction salt generalizing a b with
  | nil => rw [List.length_eq_zero_iff.mp ha, List.length_eq_zero_iff.mp hb]
  | cons z salt ih =>
    obtain ⟨x, a, rfl⟩ := List.exists_cons_of_length_eq_add_one ha
    obtain ⟨y, b, rfl⟩ := List.exists_cons_of_length_eq_add_one hb
    rw [List.zipWith_cons_cons, List.zipWith_cons_cons] at h
    obtain ⟨hhead, htail⟩ := List.cons.inj h
    rw [(UInt8.xor_left_inj z).mp hhead,
      ih (Nat.succ.inj ha) (Nat.succ.inj hb) htail]

theorem calcAeadIv_inj {salt : Bytes} {ssrc ssrc' est est' : ℕ} (hsalt : salt.length = 12)
    (hest : est < 2 ^ 48) (hest' : est' < 2 ^ 48)
    (h : calcAeadIv salt ssrc est = calcAeadIv salt ssrc' est') : est = est' := by
  have hplain := zipWith_xor_inj (by simp [hsalt]) (by simp [hsalt]) h
  obtain ⟨hfront, hseq⟩ := List.append_inj' hplain (by simp)
  obtain ⟨-, hroc⟩ := List.append_inj' hfront (by simp)
  have hhigh := Bytes.toBe_inj (by omega) (by omega) hroc
  have hlow : est % 256 ^ 2 = est' % 256 ^ 2 := by
    rw [← Bytes.beNat_toBe, ← Bytes.beNat_toBe, hseq]
  omega

namespace SrtpStream

variable {w : ℕ} {c : Crypto} {s s' : SrtpStream w} {ks : KeySalt} {packet : Bytes}

def nonce (s : SrtpStream w) (ks : KeySalt) (packet : Bytes) : Bytes :=
  calcAeadIv (splitKeySalt ks).2 (ssrcOf packet) (s.rdbx.estimateIndex (seqOf packet)).1

theorem protect_cases {res : Except SrtpError Bytes} (h : s.protect c ks packet = (res, s')) :
    (res = .ok (packet.take (encStart packet) ++ c.gcmSeal (splitKeySalt ks).1 (s.nonce ks packet)
          (packet.take (encStart packet)) (packet.drop (encStart packet))) ∧
        s.rdbx.check (s.rdbx.estimateIndex (seqOf packet)).2 = .ok () ∧
        s' = { s.keyLimitUpdate with
          rdbx := s.rdbx.addIndex (s.rdbx.estimateIndex (seqOf packet)).2 }) ∨
      ∃ e, res = .error e ∧ (s' = s ∨ s' = s.keyLimitUpdate) := by
  unfold protect at h
  split at h
  · cases h
    exact .inr ⟨_, rfl, .inl rfl⟩
  split at h
  · cases h
    exact .inr ⟨_, rfl, .inl rfl⟩
  split at h
  · cases h
    exact .inr ⟨_, rfl, .inl rfl⟩
  unfold protectAead at h
  dsimp only at h
  split at h
  · cases h
    exact .inr ⟨_, rfl, .inr rfl⟩
  split at h
  · cases h
    exact .inr ⟨_, rfl, .inr rfl⟩
  split at h
  · cases h
    exact .inr ⟨_, rfl, .inr rfl⟩
  · rename_i hcheck
    cases h
    exact .inl ⟨rfl, hcheck, rfl⟩

end SrtpStream

namespace RekeyingStream

variable {c : Crypto} {s s' : RekeyingStream} {packet : Bytes}

theorem advanceFor_stream {ts : ℕ} (h : s.advanceFor c ts = .ok s') :
    s'.session.stream = s.session.stream := by
  unfold advanceFor at h
  split at h
  · cases h
  · cases h
    dsimp only
    split <;> rfl

theorem protect_ok {res : Except SrtpError Bytes} (h : s.protect c packet = .ok (res, s')) :
    s.session.stream.protect c s'.session.keySalt packet = (res, s'.session.stream) := by
  unfold protect at h
  split at h
  · cases h
  split at h
  · cases h
  · rename_i t ht
    cases h
    rw [← advanceFor_stream ht]

/-- The key and salt in the cipher and the nonce with which a call sealed its packet. -/
def sealing (t : Transition RekeyingStream Bytes (Except SrtpError Bytes)) :
    Option (KeySalt × Bytes) :=
  match t.output with
  | .error _ => none
  | .ok _ => some (t.after.session.keySalt,
      t.before.session.stream.nonce t.after.session.keySalt t.input)

def sealedIndex (t : Transition RekeyingStream Bytes (Except SrtpError Bytes)) : Option ℕ :=
  match t.output with
  | .error _ => none
  | .ok _ => some (t.before.session.stream.rdbx.estimateIndex (seqOf t.input)).1

theorem accepts_of_protect {res : Except SrtpError Bytes}
    (h : s.protect c packet = .ok (res, s')) :
    s.session.stream.rdbx.Accepts (sealedIndex ⟨s, packet, res, s'⟩) s'.session.stream.rdbx := by
  rcases SrtpStream.protect_cases (protect_ok h) with ⟨rfl, hcheck, hs⟩ | ⟨e, rfl, hs | hs⟩
  · rw [hs]
    exact .passed (seqOf_lt packet) hcheck
  · rw [hs]
    exact .kept
  · rw [hs]
    exact .kept

theorem sealing_eq {t : Transition RekeyingStream Bytes (Except SrtpError Bytes)}
    {x : KeySalt × Bytes} (h : sealing t = some x) :
    ∃ est, sealedIndex t = some est ∧ est < 2 ^ 48 ∧
      x.2 = calcAeadIv (splitKeySalt x.1).2 (ssrcOf t.input) est := by
  unfold sealing at h
  unfold sealedIndex
  cases ho : t.output with
  | error e =>
    rw [ho] at h
    cases h
  | ok out =>
    rw [ho] at h
    cases h
    refine ⟨_, rfl, ?_, rfl⟩
    rw [Rdbx.estimateIndex_eq _ (seqOf_lt t.input)]
    exact Nat.mod_lt _ (by decide)

theorem sealedIndex_of_sealing_eq {t t' : Transition RekeyingStream Bytes (Except SrtpError Bytes)}
    {x : KeySalt × Bytes} (h : sealing t = some x) (h' : sealing t' = some x) :
    ∃ est, sealedIndex t = some est ∧ sealedIndex t' = some est := by
  obtain ⟨est, hest, hlt, hiv⟩ := sealing_eq h
  obtain ⟨est', hest', hlt', hiv'⟩ := sealing_eq h'
  have hsalt : (splitKeySalt x.1).2.length = 12 := by
    simp [splitKeySalt, x.1.length_val, srtpKeyMaterialLen, aes128GcmKeyLen]
  obtain rfl := calcAeadIv_inj hsalt hlt hlt' (hiv.symm.trans hiv')
  exact ⟨est, hest, hest'⟩

/-- Over the life of a stream no two packets are sealed with the same key, salt and nonce,
whatever packets are fed and however often the key changes. -/
theorem nonces_never_repeat (c : Crypto) (throwaway : KeySalt) (granularity : Granularity)
    (ssrc : ℕ) (ratchet : StreamRatchet) {s₀ : RekeyingStream} {packets : List Bytes}
    {outs : List (Except SrtpError Bytes)}
    (h₀ : new c throwaway granularity ssrc ratchet = .ok s₀)
    (hrun : run (protect c) s₀ packets = .ok (outs, s)) (hlen : packets.length ≤ 2 ^ 32) :
    ((calls (protect c) s₀ packets).filterMap sealing).Nodup ∧
      ∀ t ∈ calls (protect c) s₀ packets, ∀ out, t.output = .ok out →
        ∃ ks iv, sealing t = some (ks, iv) ∧
          out = t.input.take (encStart t.input) ++ c.gcmSeal (splitKeySalt ks).1 iv
            (t.input.take (encStart t.input)) (t.input.drop (encStart t.input)) := by
  constructor
  · have hfresh : s₀.session.stream.rdbx = Rdbx.init _ := by
      unfold new SrtpStream.addStream senderWindowSize at h₀
      cases h₀
      rfl
    have hindices := (Rdbx.history_of_calls (fun s : RekeyingStream => s.session.stream.rdbx)
      sealedIndex (fun _ _ _ _ => accepts_of_protect) hfresh hrun hlen).nodup
    rw [List.Nodup, List.pairwise_filterMap] at hindices ⊢
    refine hindices.imp ?_
    rintro t t' hne x hx x' hx' rfl
    obtain ⟨est, hest, hest'⟩ := sealedIndex_of_sealing_eq hx hx'
    exact hne est hest est hest' rfl
  · intro t ht out hout
    rcases SrtpStream.protect_cases (protect_ok (step_of_mem_calls ht)) with
      ⟨hok, -, -⟩ | ⟨e, herr, -⟩
    · refine ⟨_, _, by rw [sealing, hout], ?_⟩
      rw [hout] at hok
      exact Except.ok.inj hok
    · rw [hout] at herr
      cases herr

theorem nonces_never_repeat_four :
    ∃ s₀ outs s, run (protect Crypto.toy) s₀ [toyPacket 0 1, toyPacket 1 1, toyPacket 2 1,
        toyPacket 1 1] = .ok (outs, s) ∧ outs.map Except.isOk = [true, true, true, false] ∧
      ((calls (protect Crypto.toy) s₀ [toyPacket 0 1, toyPacket 1 1, toyPacket 2 1,
        toyPacket 1 1]).filterMap sealing).Nodup := by
  obtain ⟨s₀, h₀⟩ : ∃ s₀, new Crypto.toy (ByteArr.replicate _ 0) (.everyN 2) 7
    ⟨ByteArr.replicate _ 0, 0⟩ = .ok s₀ := ⟨_, rfl⟩
  obtain ⟨outs, s, hrun, houts⟩ := exists_of_returns
    (x := run (protect Crypto.toy) s₀ [toyPacket 0 1, toyPacket 1 1, toyPacket 2 1, toyPacket 1 1])
    (q := fun outs _ => outs.map Except.isOk = [true, true, true, false])
    (by cases h₀; decide +kernel)
  exact ⟨s₀, outs, s, hrun, of_decide_eq_true houts,
    (nonces_never_repeat Crypto.toy _ _ _ _ h₀ hrun (by decide)).1⟩

end RekeyingStream

end SafeCast
