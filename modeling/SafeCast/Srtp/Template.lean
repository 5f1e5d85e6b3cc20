import Mathlib.Data.List.AList
import SafeCast.Library.Multiplex
import SafeCast.Srtp.Session

/-! # Template sessions

A session that is created from a template has no streams at first. A stream comes into
being with the first packet of its SSRC: when sending, before the packet is processed; when
receiving, after it has authenticated. All streams share the key and its usage limit.
-/

namespace SafeCast

open Multiplex

/-- A session of `srtp_create` with a wildcard policy: `srtp_ctx_t` with its
`stream_template` and `stream_list`. -/
structure TemplateSession (w : ℕ) where
  keySalt : KeySalt
  /-- The key usage limit. Clones point to the limit of the template. -/
  numLeft : ℕ
  /-- The replay databases of the streams, by SSRC. -/
  streams : AList fun _ : ℕ => Rdbx w

/-- The two kinds of template, `ssrc_any_outbound` and `ssrc_any_inbound`. -/
inductive Direction where
  | outbound
  | inbound
  deriving DecidableEq, Repr

namespace TemplateSession

variable {w : ℕ}

/-- A session of a template, with the key and salt that are derived from the master key. -/
def create (ks : KeySalt) (windowSize : ℕ) :
    Except SrtpError (TemplateSession (windowBits windowSize)) :=
  if windowSize ≠ 0 ∧ (windowSize < 64 ∨ 0x8000 ≤ windowSize) then .error .badParam
  else .ok ⟨ks, keyUsageLimit, ∅⟩

def rdbx (s : TemplateSession w) (ssrc : ℕ) : Rdbx w := (s.streams.lookup ssrc).getD (Rdbx.init w)

/-- `srtp_get_stream`, or else `srtp_stream_clone` of the template. -/
def stream (s : TemplateSession w) (ssrc : ℕ) : SrtpStream w := ⟨ssrc, s.rdbx ssrc, s.numLeft⟩

def store (s : TemplateSession w) (t : SrtpStream w) : TemplateSession w :=
  { s with numLeft := t.numLeft, streams := s.streams.insert t.ssrc t.rdbx }

def finish (s : TemplateSession w) (r : Except SrtpError Bytes × SrtpStream w) :
    Except SrtpError Bytes × TemplateSession w :=
  (r.1, s.store r.2)

/-- `srtp_protect` behind the `srtp` crate. A new stream is inserted even if the packet is
then rejected. -/
def protect (c : Crypto) (s : TemplateSession w) (packet : Bytes) :
    Except SrtpError Bytes × TemplateSession w :=
  if 2 ^ 31 ≤ packet.length + gcmTagLen then (.error .badParam, s)
  else
    match validateRtpHeader packet with
    | .error e => (.error e, s)
    | .ok () => s.finish ((s.stream (ssrcOf packet)).protectAead c s.keySalt packet)

/-- The end of `srtp_unprotect_aead` for the template itself: the stream is cloned once the
packet has authenticated. -/
def settle (s : TemplateSession w) (r : Except SrtpError Bytes × SrtpStream w) :
    Except SrtpError Bytes × TemplateSession w :=
  match r.1 with
  | .error e => (.error e, { s with numLeft := r.2.numLeft })
  | .ok plain => (.ok plain, s.store r.2)

/-- A packet of a new SSRC uses the template provisionally: the sequence number is the index,
and there is no replay check. -/
def unprotectProvisional (c : Crypto) (s : TemplateSession w) (packet : Bytes) :
    Except SrtpError Bytes × TemplateSession w :=
  s.settle ((SrtpStream.mk (ssrcOf packet) (Rdbx.init w) s.numLeft).unprotectAead c s.keySalt packet
    (seqOf packet) (seqOf packet))

def unprotectKnown (c : Crypto) (s : TemplateSession w) (rdbx : Rdbx w) (packet : Bytes) :
    Except SrtpError Bytes × TemplateSession w :=
  let guess := rdbx.estimateIndex (seqOf packet)
  match rdbx.check guess.2 with
  | .error e => (.error e, s)
  | .ok () =>
    s.finish ((SrtpStream.mk (ssrcOf packet) rdbx s.numLeft).unprotectAead c s.keySalt packet
      guess.1 guess.2)

/-- `srtp_unprotect` behind the `srtp` crate. -/
def unprotect (c : Crypto) (s : TemplateSession w) (packet : Bytes) :
    Except SrtpError Bytes × TemplateSession w :=
  if 2 ^ 31 ≤ packet.length then (.error .badParam, s)
  else
    match validateRtpHeader packet with
    | .error e => (.error e, s)
    | .ok () =>
      match s.streams.lookup (ssrcOf packet) with
      | none => s.unprotectProvisional c packet
      | some rdbx => s.unprotectKnown c rdbx packet

def process (c : Crypto) (dir : Direction) (s : TemplateSession w) (packet : Bytes) :
    Except SrtpError Bytes × TemplateSession w :=
  match dir with
  | .outbound => s.protect c packet
  | .inbound => s.unprotect c packet

end TemplateSession

namespace SrtpStream

variable {w : ℕ}

def process (c : Crypto) (ks : KeySalt) (dir : Direction) (s : SrtpStream w) (packet : Bytes) :
    Except SrtpError Bytes × SrtpStream w :=
  match dir with
  | .outbound => s.protect c ks packet
  | .inbound => s.unprotect c ks packet

/-- A call on `s` answered and recorded what another call did, and used up one packet of the
key at most. -/
structure SameAnswer (s : SrtpStream w) (x y : Except SrtpError Bytes × SrtpStream w) : Prop where
  answer : x.1 = y.1
  rdbx : x.2.rdbx = y.2.rdbx
  ssrc : x.2.ssrc = s.ssrc
  left : s.numLeft ≤ x.2.numLeft + 1

variable {c : Crypto} {ks : KeySalt} {dir : Direction} {s t : SrtpStream w} {packet : Bytes}

theorem keyLimitUpdate_left (h : 1 < s.numLeft) :
    ¬ s.keyLimitUpdate.numLeft < 1 ∧ s.numLeft ≤ s.keyLimitUpdate.numLeft + 1 := by
  unfold keyLimitUpdate
  rw [if_neg (by omega)]
  dsimp only
  exact ⟨by omega, by omega⟩

section Congr

variable (hrdbx : s.rdbx = t.rdbx) (hs : 1 < s.numLeft) (ht : 1 < t.numLeft)

include hrdbx hs ht

theorem unprotectAead_congr (est : ℕ) (δ : ℤ) :
    SameAnswer s (s.unprotectAead c ks packet est δ) (t.unprotectAead c ks packet est δ) := by
  obtain ⟨hexpired, hleft⟩ := keyLimitUpdate_left hs
  obtain ⟨hexpired', -⟩ := keyLimitUpdate_left ht
  have hself : s.numLeft ≤ s.numLeft + 1 := by omega
  unfold unprotectAead
  dsimp only
  rw [if_neg hexpired, if_neg hexpired']
  split
  · exact ⟨rfl, hrdbx, rfl, hself⟩
  split
  · exact ⟨rfl, hrdbx, rfl, hself⟩
  split
  · exact ⟨rfl, hrdbx, rfl, hleft⟩
  · exact ⟨rfl, congrArg (Rdbx.addIndex · δ) hrdbx, rfl, hleft⟩

theorem protectAead_congr :
    SameAnswer s (s.protectAead c ks packet) (t.protectAead c ks packet) := by
  obtain ⟨hexpired, hleft⟩ := keyLimitUpdate_left hs
  obtain ⟨hexpired', -⟩ := keyLimitUpdate_left ht
  unfold protectAead
  simp only [if_neg hexpired, if_neg hexpired', keyLimitUpdate_rdbx, hrdbx]
  split
  · exact ⟨rfl, hrdbx, rfl, hleft⟩
  cases t.rdbx.check (t.rdbx.estimateIndex (seqOf packet)).2 with
  | error e => exact ⟨rfl, hrdbx, rfl, hleft⟩
  | ok _ => exact ⟨rfl, rfl, rfl, hleft⟩

/-- As long as the key usage limit is not reached, it has no influence on the answer. -/
theorem process_congr (hssrc : s.ssrc = t.ssrc) :
    SameAnswer s (s.process c ks dir packet) (t.process c ks dir packet) := by
  have hself : s.numLeft ≤ s.numLeft + 1 := by omega
  cases dir with
  | outbound =>
    unfold process protect
    dsimp only
    rw [hssrc]
    split
    · exact ⟨rfl, hrdbx, rfl, hself⟩
    cases validateRtpHeader packet with
    | error e => exact ⟨rfl, hrdbx, rfl, hself⟩
    | ok _ =>
      dsimp only
      split
      · exact ⟨rfl, hrdbx, rfl, hself⟩
      · exact protectAead_congr hrdbx hs ht
  | inbound =>
    unfold process unprotect
    dsimp only
    rw [hssrc, hrdbx]
    split
    · exact ⟨rfl, hrdbx, rfl, hself⟩
    cases validateRtpHeader packet with
    | error e => exact ⟨rfl, hrdbx, rfl, hself⟩
    | ok _ =>
      dsimp only
      split
      · exact ⟨rfl, hrdbx, rfl, hself⟩
      cases t.rdbx.check (t.rdbx.estimateIndex (seqOf packet)).2 with
      | error e => exact ⟨rfl, hrdbx, rfl, hself⟩
      | ok _ => exact unprotectAead_congr hrdbx hs ht _ _

end Congr

end SrtpStream

namespace TemplateSession

variable {w : ℕ} {c : Crypto} {dir : Direction} {s : TemplateSession w} {packet : Bytes}

@[simp] theorem store_rdbx (s : TemplateSession w) (t : SrtpStream w) (ssrc : ℕ) :
    (s.store t).rdbx ssrc = if ssrc = t.ssrc then t.rdbx else s.rdbx ssrc := by
  unfold rdbx store
  split_ifs with h
  · rw [h, AList.lookup_insert, Option.getD_some]
  · rw [AList.lookup_insert_ne h]

structure Updated (s : TemplateSession w) (t : SrtpStream w) (s' : TemplateSession w) : Prop where
  keySalt : s'.keySalt = s.keySalt
  numLeft : s'.numLeft = t.numLeft
  rdbx : ∀ ssrc, s'.rdbx ssrc = if ssrc = t.ssrc then t.rdbx else s.rdbx ssrc

theorem updated_store (s : TemplateSession w) (t : SrtpStream w) : s.Updated t (s.store t) :=
  ⟨rfl, rfl, store_rdbx s t⟩

theorem finish_eq (s : TemplateSession w) (r : Except SrtpError Bytes × SrtpStream w) :
    (s.finish r).1 = r.1 ∧ s.Updated r.2 (s.finish r).2 :=
  ⟨rfl, updated_store s r.2⟩

theorem updated_self (s : TemplateSession w) (ssrc : ℕ) : s.Updated (s.stream ssrc) s := by
  refine ⟨rfl, rfl, ?_⟩
  intro ssrc'
  split_ifs with h
  · rw [h]
    rfl
  · rfl

@[simp] theorem stream_ssrc (s : TemplateSession w) (ssrc : ℕ) : (s.stream ssrc).ssrc = ssrc := rfl

theorem updated_fresh {ssrc : ℕ} (hlookup : s.streams.lookup ssrc = none) (numLeft : ℕ) :
    s.Updated ⟨ssrc, Rdbx.init w, numLeft⟩ { s with numLeft := numLeft } := by
  refine ⟨rfl, rfl, ?_⟩
  intro ssrc'
  split_ifs with h
  · rw [h, rdbx, hlookup, Option.getD_none]
  · rfl

theorem protect_eq (c : Crypto) (s : TemplateSession w) (packet : Bytes) :
    (s.protect c packet).1 = ((s.stream (ssrcOf packet)).protect c s.keySalt packet).1 ∧
      s.Updated ((s.stream (ssrcOf packet)).protect c s.keySalt packet).2
        (s.protect c packet).2 := by
  unfold protect SrtpStream.protect
  by_cases hlen : 2 ^ 31 ≤ packet.length + gcmTagLen
  · rw [if_pos hlen, if_pos hlen]
    exact ⟨rfl, updated_self s _⟩
  rw [if_neg hlen, if_neg hlen]
  cases validateRtpHeader packet with
  | error e => exact ⟨rfl, updated_self s _⟩
  | ok _ =>
    dsimp only
    rw [if_neg (not_not.mpr (stream_ssrc s (ssrcOf packet)).symm)]
    exact finish_eq s _

theorem init_estimateIndex (hw : 0 < w) (seq : ℕ) :
    (Rdbx.init w).estimateIndex seq = (seq, (seq : ℤ)) ∧
      (Rdbx.init w).check (seq : ℤ) = .ok () := by
  refine ⟨?_, ?_⟩
  · simp [Rdbx.estimateIndex, Rdbx.init]
  · have hcheck := (Rdbx.records_init w).check_ok (i := seq) (Nat.add_pos_right seq hw) (by simp)
    simpa [Rdbx.init] using hcheck

/-- The provisional stream takes a short way to what a fresh stream would do. -/
theorem settle_eq {est : ℕ} {δ : ℤ} {r : Except SrtpError Bytes × SrtpStream w}
    (hlookup : s.streams.lookup (ssrcOf packet) = none)
    (hr : (SrtpStream.mk (ssrcOf packet) (Rdbx.init w) s.numLeft).unprotectAead c s.keySalt packet
      est δ = r) :
    (s.settle r).1 = r.1 ∧ s.Updated r.2 (s.settle r).2 := by
  obtain ⟨res, t⟩ := r
  rcases SrtpStream.unprotectAead_cases hr with ⟨plain, rfl, -, -⟩ | ⟨e, rfl, rfl | ⟨rfl, -⟩⟩
  · exact ⟨rfl, updated_store s t⟩
  · exact ⟨rfl, updated_fresh hlookup _⟩
  · exact ⟨rfl, updated_fresh hlookup _⟩

theorem unprotect_eq (hw : 0 < w) (c : Crypto) (s : TemplateSession w) (packet : Bytes) :
    (s.unprotect c packet).1 = ((s.stream (ssrcOf packet)).unprotect c s.keySalt packet).1 ∧
      s.Updated ((s.stream (ssrcOf packet)).unprotect c s.keySalt packet).2
        (s.unprotect c packet).2 := by
  by_cases hlen : 2 ^ 31 ≤ packet.length
  · rw [unprotect, SrtpStream.unprotect, if_pos hlen, if_pos hlen]
    exact ⟨rfl, updated_self s _⟩
  cases hvalid : validateRtpHeader packet with
  | error e =>
    rw [unprotect, SrtpStream.unprotect, if_neg hlen, if_neg hlen, hvalid]
    exact ⟨rfl, updated_self s _⟩
  | ok _ =>
    have hfits := not_le.mp hlen
    cases hlookup : s.streams.lookup (ssrcOf packet) with
    | none =>
      -- a new SSRC: the provisional stream does what a fresh stream would
      have hfresh : s.stream (ssrcOf packet) = ⟨ssrcOf packet, Rdbx.init w, s.numLeft⟩ := by
        rw [stream, rdbx, hlookup, Option.getD_none]
      have hstep : s.unprotect c packet = s.unprotectProvisional c packet := by
        rw [unprotect, if_neg hlen, hvalid]
        simp only [hlookup]
      obtain ⟨hest, hcheck⟩ := init_estimateIndex hw (seqOf packet)
      have hopen : (SrtpStream.mk (ssrcOf packet) (Rdbx.init w) s.numLeft).unprotect c s.keySalt
          packet = _ := SrtpStream.unprotect_of_check hfits hvalid rfl hest hcheck
      rw [hstep, hfresh, hopen]
      exact settle_eq hlookup rfl
    | some r =>
      have hstream : s.stream (ssrcOf packet) = ⟨ssrcOf packet, r, s.numLeft⟩ := by
        rw [stream, rdbx, hlookup, Option.getD_some]
      have hstep : s.unprotect c packet = s.unprotectKnown c r packet := by
        rw [unprotect, if_neg hlen, hvalid]
        simp only [hlookup]
      rw [hstep, unprotectKnown]
      cases hcheck : r.check (r.estimateIndex (seqOf packet)).2 with
      | error e =>
        have hself := updated_self s (ssrcOf packet)
        have hdrop : (SrtpStream.mk (ssrcOf packet) r s.numLeft).unprotect c s.keySalt packet = _ :=
          SrtpStream.unprotect_of_check_error hfits hvalid rfl hcheck
        rw [hstream] at hself ⊢
        rw [hdrop]
        exact ⟨rfl, hself⟩
      | ok _ =>
        have hopen : (SrtpStream.mk (ssrcOf packet) r s.numLeft).unprotect c s.keySalt packet = _ :=
          SrtpStream.unprotect_of_check hfits hvalid rfl Prod.mk.eta.symm hcheck
        rw [hstream, hopen]
        exact finish_eq s _

theorem process_eq (hw : 0 < w) (c : Crypto) (dir : Direction) (s : TemplateSession w)
    (packet : Bytes) :
    (s.process c dir packet).1 =
        ((s.stream (ssrcOf packet)).process c s.keySalt dir packet).1 ∧
      s.Updated ((s.stream (ssrcOf packet)).process c s.keySalt dir packet).2
        (s.process c dir packet).2 := by
  cases dir with
  | outbound => exact s.protect_eq c packet
  | inbound => exact s.unprotect_eq hw c packet

/-- A session and a stream of its own for one SSRC, with `n` packets still to come. -/
structure Shadows (ks : KeySalt) (ssrc n : ℕ) (s : TemplateSession w) (t : SrtpStream w) :
    Prop where
  keySalt : s.keySalt = ks
  rdbx : s.rdbx ssrc = t.rdbx
  owner : t.ssrc = ssrc
  left : n < s.numLeft
  left' : n < t.numLeft

variable {ks : KeySalt} {ssrc n : ℕ} {t : SrtpStream w}

theorem Shadows.own (hw : 0 < w) (h : Shadows ks ssrc (n + 1) s t) (hown : ssrcOf packet = ssrc) :
    (s.process c dir packet).1 = (t.process c ks dir packet).1 ∧
      Shadows ks ssrc n (s.process c dir packet).2 (t.process c ks dir packet).2 := by
  obtain ⟨hanswer, hupdated⟩ := process_eq hw c dir s packet
  rw [hown, h.keySalt] at hanswer hupdated
  have hleft : n + 1 < (s.stream ssrc).numLeft := h.left
  have hleft' := h.left'
  have hsame : SrtpStream.SameAnswer (s.stream ssrc) ((s.stream ssrc).process c ks dir packet)
      (t.process c ks dir packet) :=
    SrtpStream.process_congr h.rdbx (by omega) (by omega) h.owner.symm
  have hback : SrtpStream.SameAnswer t (t.process c ks dir packet)
      ((s.stream ssrc).process c ks dir packet) :=
    SrtpStream.process_congr h.rdbx.symm (by omega) (by omega) h.owner
  refine ⟨hanswer.trans hsame.answer, hupdated.keySalt.trans h.keySalt, ?_,
    hback.ssrc.trans h.owner, ?_, ?_⟩
  · rw [hupdated.rdbx, hsame.ssrc, stream_ssrc, if_pos rfl]
    exact hsame.rdbx
  · have := hsame.left
    rw [hupdated.numLeft]
    omega
  · have := hback.left
    omega

theorem Shadows.other (hw : 0 < w) (h : Shadows ks ssrc (n + 1) s t)
    (hother : ssrcOf packet ≠ ssrc) :
    Shadows ks ssrc n (s.process c dir packet).2 t := by
  obtain ⟨-, hupdated⟩ := process_eq hw c dir s packet
  have hleft : n + 1 < (s.stream (ssrcOf packet)).numLeft := h.left
  have hleft' := h.left'
  have hsame : SrtpStream.SameAnswer (s.stream (ssrcOf packet))
      ((s.stream (ssrcOf packet)).process c s.keySalt dir packet)
      ((s.stream (ssrcOf packet)).process c s.keySalt dir packet) :=
    SrtpStream.process_congr rfl (by omega) (by omega) rfl
  refine ⟨hupdated.keySalt.trans h.keySalt, ?_, h.owner, ?_, by omega⟩
  · rw [hupdated.rdbx, hsame.ssrc, stream_ssrc, if_neg (Ne.symm hother)]
    exact h.rdbx
  · have := hsame.left
    rw [hupdated.numLeft]
    omega

theorem create_ok {windowSize : ℕ} {s : TemplateSession (windowBits windowSize)}
    (h : create ks windowSize = .ok s) : s = ⟨ks, keyUsageLimit, ∅⟩ := by
  unfold create at h
  split_ifs at h
  cases h
  rfl

end TemplateSession

/-- The streams of a template session do not see each other: whatever packets come in between,
the packets of one SSRC are answered as if a session had been created for this SSRC alone. Only
the key usage limit is shared. -/
theorem template_streams_isolated (c : Crypto) (dir : Direction) (ks : KeySalt)
    (windowSize ssrc : ℕ) {s₀ : TemplateSession (windowBits windowSize)}
    {t₀ : SrtpStream (windowBits windowSize)} (hs : TemplateSession.create ks windowSize = .ok s₀)
    (ht : SrtpStream.addStream ssrc windowSize = .ok t₀) (packets : List Bytes)
    (hlimit : packets.length < keyUsageLimit) :
    answersTo (ssrcOf · == ssrc) (TemplateSession.process c dir) s₀ packets =
      answers (SrtpStream.process c ks dir) t₀ (packets.filter (ssrcOf · == ssrc)) := by
  obtain rfl := TemplateSession.create_ok hs
  obtain rfl := SrtpStream.addStream_ok ht
  have hw := windowBits_pos windowSize
  refine answersTo_eq (R := TemplateSession.Shadows ks ssrc) ?_ ?_ packets _ _ ?_
  · intro n s t packet hown h
    exact h.own hw (beq_iff_eq.mp hown)
  · intro n s t packet hother h
    exact h.other hw (beq_eq_false_iff_ne.mp hother)
  · exact ⟨rfl, rfl, rfl, hlimit, hlimit⟩

/-- A packet of stream 7, a forged one of stream 8, and the first packet again. -/
theorem template_streams_isolated_replay :
    ∃ (s₀ : TemplateSession (windowBits 128)) (t₀ : SrtpStream (windowBits 128)) (plain : Bytes),
      answersTo (ssrcOf · == 7) (TemplateSession.process Crypto.toy .inbound) s₀
          [toyPacket 0 1, [0x80, 96, 0, 0, 0, 0, 0, 0, 0, 0, 0, 8], toyPacket 0 1] =
        answers (SrtpStream.process Crypto.toy (ByteArr.replicate _ 1) .inbound) t₀
          [toyPacket 0 1, toyPacket 0 1] ∧
      answers (SrtpStream.process Crypto.toy (ByteArr.replicate _ 1) .inbound) t₀
          [toyPacket 0 1, toyPacket 0 1] = [.ok plain, .error .replayFail] := by
  obtain ⟨s₀, hs⟩ : ∃ s₀, TemplateSession.create (ByteArr.replicate _ 1) 128 = .ok s₀ := ⟨_, rfl⟩
  obtain ⟨t₀, ht⟩ : ∃ t₀, SrtpStream.addStream 7 128 = .ok t₀ := ⟨_, rfl⟩
  refine ⟨s₀, t₀, [0x80, 96, 0, 0, 0, 0, 0, 0, 0, 0, 0, 7], ?_, ?_⟩
  · have hown : [toyPacket 0 1, [0x80, 96, 0, 0, 0, 0, 0, 0, 0, 0, 0, 8], toyPacket 0 1].filter
        (ssrcOf · == 7) = [toyPacket 0 1, toyPacket 0 1] := by decide +kernel
    rw [← hown]
    exact template_streams_isolated Crypto.toy .inbound _ 128 7 hs ht _ (by decide +kernel)
  · cases ht
    decide +kernel

end SafeCast
