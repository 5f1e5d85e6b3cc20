import SafeCast.Receiver.Placement

/-! # The receiver without its caches

A plain receiver keeps the highest generation that authenticated and derives the key of
every packet from the seed. It has no ring of keys, no ratchet that is copied and moved on,
and no key left in a cipher. The key manager answers every packet of every run as the
plain receiver does, so its caches are invisible.
-/

namespace SafeCast

open Runs

structure ReceiverSetup where
  scheme : GenerationScheme
  seed : ByteArr chainSecretLen
  /-- How many generations behind the highest one are still served. -/
  window : ℕ
  seekCap : ℕ

structure PlainReceiver (σ : Type*) where
  stream : σ
  recovery : IndexRecovery
  /-- The highest generation that authenticated. -/
  frontier : Option ℕ

namespace PlainReceiver

variable {σ : Type*}

def refusal (setup : ReceiverSetup) (p : PlainReceiver σ) (g : ℕ) : Option RecvDrop :=
  match p.frontier with
  | none => if setup.seekCap < g + 1 then some .seekCapExceeded else none
  | some f =>
    if g + setup.window ≤ f then some .behindWindow
    else if f + setup.seekCap < g then some .seekCapExceeded
    else none

def target (setup : ReceiverSetup) (p : PlainReceiver σ) (buf : Bytes) :
    Except Panic (Except RecvDrop (ℕ × Option ℕ)) :=
  if buf.length < rtpHeaderLen then .ok (.error .authFail)
  else
    match setup.scheme.mapGeneration p.recovery buf with
    | .error q => .error q
    | .ok (.error d) => .ok (.error d)
    | .ok (.ok x) =>
      match p.refusal setup x.1 with
      | some d => .ok (.error d)
      | none => .ok (.ok x)

/-- Decrypt a packet under the key of its generation; the state moves when it
authenticates. -/
def unprotect (ops : SrtpOps σ) (c : Crypto) (setup : ReceiverSetup) (p : PlainReceiver σ)
    (buf : Bytes) : Except Panic ((Except RecvDrop ℕ × Bytes) × PlainReceiver σ) :=
  match p.target setup buf with
  | .error q => .error q
  | .ok (.error d) => .ok ((.error d, buf), p)
  | .ok (.ok (g, index)) =>
    match ops.unprotect p.stream (generationKey c setup.seed g) buf with
    | (.ok plain, stream) =>
      .ok ((.ok g, plain), ⟨stream, index.elim p.recovery p.recovery.update,
        some (p.frontier.elim g (max · g))⟩)
    | (.error e, stream) =>
      match RecvDrop.ofSrtpError e with
      | some d => .ok ((.error d, []), { p with stream := stream })
      | none => .error (.unexpectedSrtpError e)

end PlainReceiver

namespace ReceiverKeyManager

variable {σ : Type*} {ops : SrtpOps σ} {c : Crypto} {setup : ReceiverSetup}
  {r : ReceiverKeyManager σ} {p : PlainReceiver σ} {buf : Bytes}

/-- The key manager holds what the plain receiver holds, with its caches in order. -/
structure Refines (c : Crypto) (setup : ReceiverSetup) (r : ReceiverKeyManager σ)
    (p : PlainReceiver σ) : Prop where
  caches : KeyWindow c ⟨setup.seed, 0⟩ setup.window r
  scheme : r.scheme = setup.scheme
  seekCap : r.seekCap = setup.seekCap
  stream : r.session.stream = p.stream
  recovery : r.recovery = p.recovery
  frontier : r.frontier = p.frontier

theorem Refines.refusal_eq_none (h : Refines c setup r p) {g : ℕ} (hg : r.InReach g) :
    p.refusal setup g = none := by
  obtain ⟨hbehind, hahead⟩ := hg
  rw [h.caches.length_ring] at hbehind
  unfold nextGeneration at hahead
  unfold PlainReceiver.refusal
  rw [h.frontier, h.seekCap] at hahead
  rw [h.frontier] at hbehind
  cases hf : p.frontier with
  | none =>
    rw [hf, Option.elim_none] at hahead
    exact if_neg (by omega)
  | some f =>
    have hlt := hbehind f hf
    rw [hf, Option.elim_some] at hahead
    dsimp only
    rw [if_neg (by omega), if_neg (by omega)]

theorem Refines.refusal_behind (h : Refines c setup r p) {g f : ℕ} (hf : r.frontier = some f)
    (hg : g + setup.window ≤ f) : p.refusal setup g = some .behindWindow := by
  unfold PlainReceiver.refusal
  rw [← h.frontier, hf]
  exact if_pos hg

theorem Refines.refusal_ahead (h : Refines c setup r p) {g : ℕ}
    (hg : r.nextGeneration + r.seekCap ≤ g) : p.refusal setup g = some .seekCapExceeded := by
  unfold nextGeneration at hg
  unfold PlainReceiver.refusal
  rw [h.seekCap] at hg
  cases hf : r.frontier with
  | none =>
    rw [hf, Option.elim_none] at hg
    rw [← h.frontier, hf]
    exact if_pos (by omega)
  | some f =>
    rw [hf, Option.elim_some] at hg
    rw [← h.frontier, hf]
    dsimp only
    rw [if_neg (by omega), if_pos (by omega)]

theorem Refines.plan (h : Refines c setup r p) (buf : Bytes) :
    match p.target setup buf with
    | .error q => r.plan c buf = .error q
    | .ok (.error d) => r.plan c buf = .ok (.error d)
    | .ok (.ok x) =>
      ∃ plan, r.plan c buf = .ok (.ok plan) ∧ (plan.generation, plan.estIndex) = x := by
  unfold PlainReceiver.target
  by_cases hlen : buf.length < rtpHeaderLen
  · rw [if_pos hlen]
    exact if_pos hlen
  rw [if_neg hlen, ← h.scheme, ← h.recovery]
  rcases hmap : r.scheme.mapGeneration r.recovery buf with q | d | ⟨g, index⟩
  · dsimp only
    rw [ReceiverKeyManager.plan, if_neg hlen, hmap]
  · dsimp only
    rw [ReceiverKeyManager.plan, if_neg hlen, hmap]
  dsimp only
  have hmaps : r.MapsTo buf g := ⟨index, hmap⟩
  rcases plan_of_mapsTo h.caches (not_lt.mp hlen) hmaps with hplans |
    ⟨hplan, f, hf, hg⟩ | ⟨hplan, hg⟩
  · rw [h.refusal_eq_none ((plans_iff h.caches).mp hplans).2.2]
    obtain ⟨plan, hplan, rfl⟩ := hplans
    refine ⟨plan, hplan, ?_⟩
    exact Except.ok.inj (Except.ok.inj ((plan_ok hplan).2.1.symm.trans hmap))
  · rw [h.refusal_behind hf hg]
    exact hplan
  · rw [h.refusal_ahead hg]
    exact hplan

theorem Refines.unprotect (h : Refines c setup r p) (buf : Bytes) :
    Agree (Refines c setup) (r.unprotect ops c buf) (p.unprotect ops c setup buf) := by
  have hphases := h.plan buf
  unfold PlainReceiver.unprotect
  rcases ht : p.target setup buf with q | d | ⟨g, index⟩
  · rw [ht] at hphases
    rw [ReceiverKeyManager.unprotect, hphases]
    exact .error q
  · rw [ht] at hphases
    obtain ⟨stats, hu⟩ := unprotect_dropped ops hphases
    have hcaches := h.caches.unprotect hu
    rw [hu]
    obtain ⟨-, h₁, h₂, h₃, h₄, h₅⟩ := h
    exact .ok _ ⟨hcaches, h₁, h₂, h₃, h₄, h₅⟩
  rw [ht] at hphases
  obtain ⟨plan, hplan, hx⟩ := hphases
  obtain ⟨rfl, rfl⟩ := Prod.mk.inj hx
  -- the key is cached on one side and derived from the seed on the other
  have hkey : r.cipherKey plan = generationKey c setup.seed plan.generation :=
    h.caches.cipherKey hplan
  dsimp only
  rw [← h.stream, ← hkey]
  rcases hs : ops.unprotect r.session.stream (r.cipherKey plan) buf with ⟨e | plain, stream⟩
  · dsimp only
    rcases hd : RecvDrop.ofSrtpError e with - | d
    · rw [unprotect_unexpected hplan hs hd]
      exact .error _
    · obtain ⟨stats, hu⟩ := unprotect_failed hplan hs hd
      have hcaches := h.caches.unprotect hu
      rw [hu]
      obtain ⟨-, h₁, h₂, -, h₄, h₅⟩ := h
      exact .ok _ ⟨hcaches, h₁, h₂, rfl, h₄, h₅⟩
  · obtain ⟨stats, hu⟩ := unprotect_decrypted hplan hs
    have hcaches := h.caches.unprotect hu
    have hfrontier := h.caches.frontier_adopt hplan
    rw [hu]
    obtain ⟨-, h₁, h₂, -, h₄, h₅⟩ := h
    refine .ok _ ⟨hcaches, ?_, ?_, rfl, ?_, ?_⟩
    · exact (adopt_scheme r plan).trans h₁
    · exact (adopt_seekCap r plan).trans h₂
    · dsimp only
      rw [h₄]
    · dsimp only
      rw [hfrontier, h₅]

/-- The key manager and the plain receiver give the same answers and aborts on every
sequence of buffers, over every SRTP library. -/
theorem run_refines_plain (ops : SrtpOps σ) (c : Crypto) (stream : σ) (setup : ReceiverSetup)
    {r₀ : ReceiverKeyManager σ}
    (h₀ : new ops (.ok stream) setup.scheme ⟨setup.seed, 0⟩ setup.window setup.seekCap = .ok r₀)
    (bufs : List Bytes) :
    Agree (Refines c setup) (run (ReceiverKeyManager.unprotect ops c) r₀ bufs)
      (run (PlainReceiver.unprotect ops c setup) ⟨stream, {}, none⟩ bufs) := by
  refine run_agree (fun r p buf h => h.unprotect buf) bufs r₀ _ ?_
  have hcaches : KeyWindow c ⟨setup.seed, 0⟩ setup.window r₀ := keyWindow_new rfl h₀
  obtain ⟨s, hk, -, hs, rfl⟩ := new_ok h₀
  cases hs
  exact ⟨hcaches, rfl, rfl, rfl, rfl, rfl⟩

theorem run_refines_plain_reordered :
    ∃ r₀ outs r p, run (ReceiverKeyManager.unprotect acceptAll Crypto.toy) r₀
        [toyPacket 0 1, toyPacket 3 4, toyPacket 2 3] = .ok (outs, r) ∧
      run (PlainReceiver.unprotect acceptAll Crypto.toy ⟨.packet 0, ByteArr.replicate _ 0, 2, 10⟩)
        ⟨(), {}, none⟩ [toyPacket 0 1, toyPacket 3 4, toyPacket 2 3] = .ok (outs, p) ∧
      r.frontier = some 3 ∧ p.frontier = some 3 := by
  obtain ⟨r₀, h₀⟩ : ∃ r₀, new acceptAll (.ok ()) (.packet 0) ⟨ByteArr.replicate _ 0, 0⟩ 2 10 =
    .ok r₀ := ⟨_, rfl⟩
  obtain ⟨outs, r, hrun, hf⟩ := exists_of_returns
    (x := run (ReceiverKeyManager.unprotect acceptAll Crypto.toy) r₀
      [toyPacket 0 1, toyPacket 3 4, toyPacket 2 3])
    (q := fun _ r => r.frontier = some 3) (by cases h₀; decide +kernel)
  have hagree := run_refines_plain acceptAll Crypto.toy ()
    ⟨.packet 0, ByteArr.replicate _ 0, 2, 10⟩ h₀ [toyPacket 0 1, toyPacket 3 4, toyPacket 2 3]
  rw [hrun] at hagree
  obtain ⟨p, hp, hrel⟩ := hagree.ok_left
  have hfrontier := of_decide_eq_true hf
  exact ⟨r₀, outs, r, p, hrun, hp, hfrontier, hrel.frontier ▸ hfrontier⟩

end ReceiverKeyManager

end SafeCast
