import SafeCast.Receiver.Window

/-! # Rejected packets have no influence

A failed packet may leave an unauthenticated generation's key in the cipher. No later
packet sees it: `KeysFrom` makes the key a packet is decrypted with a function of its
generation. So two receivers that agree on everything but the counters and the
installed key stay in agreement, and erasing the rejected packets of a run changes
none of its deliveries.
-/

namespace SafeCast

open Runs

variable {σ δ : Type*} {ops : SrtpOps σ} {db : σ → δ} {c : Crypto}

/-- What the receiver assumes of an SRTP library with replay database `db`: results and
the next database depend on the database, the key and the packet, and a failure keeps
the database. -/
structure SrtpOps.Faithful (ops : SrtpOps σ) (db : σ → δ) : Prop where
  result_eq : ∀ s t key packet, db s = db t →
    (ops.unprotect s key packet).1 = (ops.unprotect t key packet).1
  next_eq : ∀ s t key packet, db s = db t →
    db (ops.unprotect s key packet).2 = db (ops.unprotect t key packet).2
  failed : ∀ s key packet e, (ops.unprotect s key packet).1 = .error e →
    db (ops.unprotect s key packet).2 = db s

namespace ReceiverKeyManager

variable {r t : ReceiverKeyManager σ}

/-- Two receivers that differ at most in the counters and the installed key. -/
structure SameState (db : σ → δ) (r t : ReceiverKeyManager σ) : Prop where
  scheme : r.scheme = t.scheme
  recovery : r.recovery = t.recovery
  ratchet : r.ratchet = t.ratchet
  ring : r.ring = t.ring
  frontier : r.frontier = t.frontier
  seekCap : r.seekCap = t.seekCap
  database : db r.session.stream = db t.session.stream

theorem SameState.plan_eq (h : SameState db r t) (buf : Bytes) : r.plan c buf = t.plan c buf := by
  have hclassify : ∀ g, r.classify g = t.classify g := by
    intro g
    unfold classify
    rw [h.frontier, h.ring, h.seekCap]
  have hfetch : ∀ g placement, r.fetchKey c g placement = t.fetchKey c g placement := by
    intro g placement
    unfold fetchKey
    rw [h.ring, h.ratchet]
  unfold plan
  simp only [h.scheme, h.recovery, hclassify, hfetch]

theorem SameState.adopt (h : SameState db r t) (p : Plan) :
    SameState db (r.adopt p) (t.adopt p) := by
  unfold ReceiverKeyManager.adopt
  split
  · exact h
  · exact ⟨h.scheme, h.recovery, rfl, congrArg (SlotRing.storeAll · _) h.ring, rfl, h.seekCap,
      h.database⟩

/-- The receivers of the two runs: alike, with the keys of one chain. -/
structure Alike (c : Crypto) (start : StreamRatchet) (db : σ → δ) (r t : ReceiverKeyManager σ) :
    Prop where
  left : KeysFrom c start r
  right : KeysFrom c start t
  same : SameState db r t

variable {start : StreamRatchet}

theorem Alike.cipherKey (h : Alike c start db r t) {p : Plan} {buf : Bytes}
    (hplan : r.plan c buf = .ok (.ok p)) : r.cipherKey p = t.cipherKey p := by
  rw [h.left.cipherKey hplan]
  rw [h.same.plan_eq] at hplan
  rw [h.right.cipherKey hplan]

theorem Alike.unprotect (hops : ops.Faithful db) (h : Alike c start db r t) (buf : Bytes) :
    Agree (Alike c start db) (r.unprotect ops c buf) (t.unprotect ops c buf) := by
  rcases hplan : r.plan c buf with q | d | p
  · have hplan' := hplan
    rw [h.same.plan_eq] at hplan'
    rw [ReceiverKeyManager.unprotect, hplan, ReceiverKeyManager.unprotect, hplan']
    exact .error q
  · have hplan' := hplan
    rw [h.same.plan_eq] at hplan'
    obtain ⟨stats, hr⟩ := unprotect_dropped ops hplan
    obtain ⟨stats', ht⟩ := unprotect_dropped ops hplan'
    have hl := h.left.unprotect hr
    have hr' := h.right.unprotect ht
    rw [hr, ht]
    obtain ⟨h₁, h₂, h₃, h₄, h₅, h₆, h₇⟩ := h.same
    exact .ok _ ⟨hl, hr', ⟨h₁, h₂, h₃, h₄, h₅, h₆, h₇⟩⟩
  · have hplan' := hplan
    rw [h.same.plan_eq] at hplan'
    -- the installed keys may differ, but not the keys when the packet is decrypted
    have hkey := h.cipherKey hplan
    have hres := hops.result_eq _ _ (r.cipherKey p) buf h.same.database
    have hnext := hops.next_eq _ _ (r.cipherKey p) buf h.same.database
    rcases hs : ops.unprotect r.session.stream (r.cipherKey p) buf with ⟨e | plain, stream⟩
    · rcases hs' : ops.unprotect t.session.stream (t.cipherKey p) buf with ⟨res, stream'⟩
      rw [hkey, hs', ← hkey, hs] at hres hnext
      subst hres
      rcases hd : RecvDrop.ofSrtpError e with - | d
      · rw [unprotect_unexpected hplan hs hd, unprotect_unexpected hplan' hs' hd]
        exact .error _
      · obtain ⟨stats, hr⟩ := unprotect_failed hplan hs hd
        obtain ⟨stats', ht⟩ := unprotect_failed hplan' hs' hd
        have hl := h.left.unprotect hr
        have hr' := h.right.unprotect ht
        rw [hr, ht]
        obtain ⟨h₁, h₂, h₃, h₄, h₅, h₆, -⟩ := h.same
        exact .ok _ ⟨hl, hr', ⟨h₁, h₂, h₃, h₄, h₅, h₆, hnext⟩⟩
    · rcases hs' : ops.unprotect t.session.stream (t.cipherKey p) buf with ⟨res, stream'⟩
      rw [hkey, hs', ← hkey, hs] at hres hnext
      subst hres
      obtain ⟨stats, hr⟩ := unprotect_decrypted hplan hs
      obtain ⟨stats', ht⟩ := unprotect_decrypted hplan' hs'
      have hl := h.left.unprotect hr
      have hr' := h.right.unprotect ht
      rw [hr, ht]
      obtain ⟨h₁, h₂, h₃, h₄, h₅, h₆, -⟩ := h.same.adopt p
      exact .ok _ ⟨hl, hr', ⟨h₁, by rw [h.same.recovery], h₃, h₄, h₅, h₆, hnext⟩⟩

theorem Alike.rejected (hops : ops.Faithful db) (h : Alike c start db r t) {buf : Bytes}
    {out : Except RecvDrop ℕ × Bytes} {r' : ReceiverKeyManager σ}
    (hu : r.unprotect ops c buf = .ok (out, r')) (hout : out.1.isOk = false) :
    Alike c start db r' t := by
  refine ⟨h.left.unprotect hu, h.right, ?_⟩
  obtain ⟨h₁, h₂, h₃, h₄, h₅, h₆, h₇⟩ := h.same
  rcases unprotect_cases hu with ⟨d, stats, -, -, rfl⟩ |
    ⟨p, e, d, stream, stats, -, hs, -, -, rfl⟩ | ⟨p, plain, stream, stats, -, -, rfl, -⟩
  · exact ⟨h₁, h₂, h₃, h₄, h₅, h₆, h₇⟩
  · have hdb := hops.failed r.session.stream (r.cipherKey p) buf e (by rw [hs])
    rw [hs] at hdb
    exact ⟨h₁, h₂, h₃, h₄, h₅, h₆, hdb.trans h₇⟩
  · cases hout

def delivered (out : Except RecvDrop ℕ × Bytes) : Bool := out.1.isOk

/-- Erasing the rejected buffers of a run keeps the deliveries and the final state, up to
the counters and the installed key. -/
theorem run_without_rejected (hops : ops.Faithful db) (c : Crypto)
    (stream : Except SrtpError σ) (scheme : GenerationScheme) (ratchet : StreamRatchet)
    (k seekCap : ℕ) {r₀ r : ReceiverKeyManager σ} {bufs : List Bytes}
    {outs : List (Except RecvDrop ℕ × Bytes)}
    (h₀ : new ops stream scheme ratchet k seekCap = .ok r₀)
    (hrun : run (ReceiverKeyManager.unprotect ops c) r₀ bufs = .ok (outs, r)) :
    ∃ t, run (ReceiverKeyManager.unprotect ops c) r₀
        (kept (ReceiverKeyManager.unprotect ops c) delivered r₀ bufs) =
          .ok (outs.filter delivered, t) ∧ SameState db r t := by
  have hkeys : KeysFrom c ratchet r₀ := keysFrom_new h₀
  have hstart : Alike c ratchet db r₀ r₀ := ⟨hkeys, hkeys, ⟨rfl, rfl, rfl, rfl, rfl, rfl, rfl⟩⟩
  obtain ⟨t, ht, halike⟩ := run_erase delivered (R := Alike c ratchet db)
    (fun _ _ buf h => h.unprotect hops buf) (fun _ _ _ _ _ h hu hout => h.rejected hops hu hout)
    bufs r₀ r₀ outs r hstart hrun
  exact ⟨t, ht, halike.same⟩

end ReceiverKeyManager

def replayOps (c : Crypto) (w : ℕ) : SrtpOps (Rdbx w) where
  unprotect s ks packet :=
    let guess := s.estimateIndex (seqOf packet)
    match s.check guess.2 with
    | .error e => (.error e, s)
    | .ok () =>
      match c.gcmOpen (splitKeySalt ks).1 (calcAeadIv (splitKeySalt ks).2 (ssrcOf packet) guess.1)
        (packet.take rtpHeaderLen) (packet.drop rtpHeaderLen) with
      | none => (.error .authFail, s)
      | some plain => (.ok (packet.take rtpHeaderLen ++ plain), s.addIndex guess.2)
  throwaway := ByteArr.replicate _ 0

theorem replayOps_faithful (c : Crypto) (w : ℕ) : (replayOps c w).Faithful id := by
  refine ⟨?_, ?_, ?_⟩
  · rintro s t key packet h
    rw [show s = t from h]
  · rintro s t key packet h
    rw [show s = t from h]
  · intro s key packet e h
    unfold replayOps at h ⊢
    dsimp only at h ⊢
    split at h
    · rfl
    · split at h
      · rfl
      · cases h

namespace ReceiverKeyManager

/-- A forged packet between two genuine ones, far ahead of them. -/
theorem run_without_forged :
    ∃ r₀ r t outs, run (ReceiverKeyManager.unprotect (replayOps Crypto.toy 64) Crypto.toy) r₀
        [toyPacket 0 1, toyPacket 5 0, toyPacket 1 2] = .ok (outs, r) ∧
      outs.map delivered = [true, false, true] ∧
      run (ReceiverKeyManager.unprotect (replayOps Crypto.toy 64) Crypto.toy) r₀
        [toyPacket 0 1, toyPacket 1 2] = .ok (outs.filter delivered, t) ∧
      SameState id r t := by
  obtain ⟨r₀, h₀⟩ : ∃ r₀, new (replayOps Crypto.toy 64) (.ok (Rdbx.init 64)) (.packet 0)
    ⟨ByteArr.replicate _ 0, 0⟩ 4 10 = .ok r₀ := ⟨_, rfl⟩
  have hkept : kept (ReceiverKeyManager.unprotect (replayOps Crypto.toy 64) Crypto.toy) delivered r₀
      [toyPacket 0 1, toyPacket 5 0, toyPacket 1 2] = [toyPacket 0 1, toyPacket 1 2] := by
    cases h₀
    decide +kernel
  obtain ⟨outs, r, hrun, houts⟩ := exists_of_returns
    (x := run (ReceiverKeyManager.unprotect (replayOps Crypto.toy 64) Crypto.toy) r₀
      [toyPacket 0 1, toyPacket 5 0, toyPacket 1 2])
    (q := fun outs _ => outs.map delivered = [true, false, true]) (by cases h₀; decide +kernel)
  obtain ⟨t, ht, hsame⟩ := run_without_rejected (replayOps_faithful Crypto.toy 64) Crypto.toy _ _ _
    4 10 h₀ hrun
  rw [hkept] at ht
  exact ⟨r₀, r, t, outs, hrun, of_decide_eq_true houts, ht, hsame⟩

end ReceiverKeyManager

end SafeCast
