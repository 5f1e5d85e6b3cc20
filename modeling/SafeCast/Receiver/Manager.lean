import SafeCast.Library.SlotRing
import SafeCast.Receiver.Generation

/-! # The receiver's key manager

`unprotect` maps a packet to its generation, places the generation against the key
window, fetches the key from the ring or from a copy of the ratchet, and decrypts.
The first three phases only read the state and end in a `Plan`; the state changes
when the packet has authenticated. A failed packet leaves its key in the cipher.
-/

namespace SafeCast

structure RecvStats where
  decrypted : ℕ := 0
  cacheHits : ℕ := 0
  catchupSteps : ℕ := 0
  catchupStepsWasted : ℕ := 0
  maxCatchup : ℕ := 0
  installs : ℕ := 0
  dropsBehind : ℕ := 0
  dropsSeekCap : ℕ := 0
  dropsReplay : ℕ := 0
  dropsAuth : ℕ := 0
  deriving DecidableEq, Repr

/-- A receiver with a ring of the last generation keys, generation `g` in slot
`g % ring.length`. -/
structure ReceiverKeyManager (σ : Type*) where
  session : Session σ
  scheme : GenerationScheme
  recovery : IndexRecovery
  ratchet : StreamRatchet
  ring : List (Option (ℕ × KeySalt))
  ring_pos : 0 < ring.length
  frontier : Option ℕ
  installed : Option ℕ
  seekCap : ℕ
  stats : RecvStats

inductive Placement where
  | inWindow (keySalt : KeySalt)
  | ahead (jump : ℕ)

/-- A catch-up that waits for its packet to authenticate. -/
structure PendingCatchup where
  ratchet : StreamRatchet
  derived : List (ℕ × KeySalt)
  jump : ℕ

/-- What the first three phases found out about a packet: its generation, its index,
the key, and the catch-up that derived it. -/
structure Plan where
  generation : ℕ
  estIndex : Option ℕ
  keySalt : KeySalt
  pending : Option PendingCatchup

def RecvDrop.ofSrtpError : SrtpError → Option RecvDrop
  | .replayFail | .replayOld => some .srtpReplay
  | .authFail => some .authFail
  | _ => none

def RecvStats.countDrop (stats : RecvStats) : RecvDrop → RecvStats
  | .behindWindow => { stats with dropsBehind := stats.dropsBehind + 1 }
  | .seekCapExceeded => { stats with dropsSeekCap := stats.dropsSeekCap + 1 }
  | .srtpReplay => { stats with dropsReplay := stats.dropsReplay + 1 }
  | .authFail => { stats with dropsAuth := stats.dropsAuth + 1 }

/-- Derive keys until the ratchet is past generation `g`, keeping the last `k`. -/
def catchUp (c : Crypto) (k g : ℕ) :
    ℕ → StreamRatchet × List (ℕ × KeySalt) → StreamRatchet × List (ℕ × KeySalt)
  | 0, s => s
  | fuel + 1, (ratchet, derived) =>
    if ratchet.generation ≤ g then
      let (derivedKey, ratchet) := ratchet.nextKeySalt c
      catchUp c k g fuel (ratchet, SlotRing.pushBounded k derived derivedKey)
    else (ratchet, derived)

namespace ReceiverKeyManager

variable {σ : Type*}

/-- A receiver for the stream that `add_stream` returned, with a window of `k` keys. -/
def new (ops : SrtpOps σ) (stream : Except SrtpError σ) (scheme : GenerationScheme)
    (ratchet : StreamRatchet) (k seekCap : ℕ) : Except Panic (ReceiverKeyManager σ) :=
  if h : 1 ≤ k then
    match stream with
    | .error e => .error (.addStreamFailed e)
    | .ok stream =>
      .ok { session := ⟨ops.throwaway, stream⟩, scheme := scheme, recovery := {},
            ratchet := ratchet, ring := List.replicate k none,
            ring_pos := by rw [List.length_replicate]; exact h,
            frontier := none, installed := none, seekCap := seekCap, stats := {} }
  else .error .emptyWindow

def nextGeneration (r : ReceiverKeyManager σ) : ℕ := r.frontier.elim 0 (· + 1)

/-- Place a generation against the window `[frontier - k + 1, frontier]`. -/
def classify (r : ReceiverKeyManager σ) (g : ℕ) : Except Panic (Except RecvDrop Placement) :=
  let ahead (jump : ℕ) : Except Panic (Except RecvDrop Placement) :=
    if jump > r.seekCap then .ok (.error .seekCapExceeded) else .ok (.ok (.ahead jump))
  match r.frontier with
  | none => ahead (g + 1)
  | some f =>
    if g ≤ f then
      if f - g ≥ r.ring.length then .ok (.error .behindWindow)
      else
        match r.ring[g % r.ring.length]? with
        | some (some (tag, keySalt)) =>
          if tag = g then .ok (.ok (.inWindow keySalt)) else .error (.missingFromRing g)
        | _ => .error (.missingFromRing g)
    else ahead (g - f)

/-- The key of a placed generation; a generation ahead is derived on a copy of the
ratchet. -/
def fetchKey (c : Crypto) (r : ReceiverKeyManager σ) (g : ℕ) :
    Placement → Except Panic (KeySalt × Option PendingCatchup)
  | .inWindow keySalt => .ok (keySalt, none)
  | .ahead jump =>
    let (ratchet, derived) :=
      catchUp c r.ring.length g (g + 1 - r.ratchet.generation) (r.ratchet, [])
    match derived.getLast? with
    | none => .error .noDerivedKey
    | some (_, keySalt) => .ok (keySalt, some ⟨ratchet, derived, jump⟩)

/-- Phases 1 to 3. -/
def plan (c : Crypto) (r : ReceiverKeyManager σ) (buf : Bytes) :
    Except Panic (Except RecvDrop Plan) :=
  if buf.length < rtpHeaderLen then .ok (.error .authFail)
  else
    match r.scheme.mapGeneration r.recovery buf with
    | .error p => .error p
    | .ok (.error d) => .ok (.error d)
    | .ok (.ok (g, estIndex)) =>
      match r.classify g with
      | .error p => .error p
      | .ok (.error d) => .ok (.error d)
      | .ok (.ok placement) =>
        match r.fetchKey c g placement with
        | .error p => .error p
        | .ok (keySalt, pending) => .ok (.ok ⟨g, estIndex, keySalt, pending⟩)

def countFetch (r : ReceiverKeyManager σ) (p : Plan) : ReceiverKeyManager σ :=
  match p.pending with
  | none => { r with stats := { r.stats with cacheHits := r.stats.cacheHits + 1 } }
  | some pending =>
    { r with stats := { r.stats with
        catchupSteps := r.stats.catchupSteps + pending.jump
        maxCatchup := max r.stats.maxCatchup pending.jump } }

/-- Load the packet's key into the cipher unless its generation is installed. -/
def install (r : ReceiverKeyManager σ) (p : Plan) : ReceiverKeyManager σ :=
  if r.installed = some p.generation then r
  else { r with
    session := r.session.inplaceRekey p.keySalt
    installed := some p.generation
    stats := { r.stats with installs := r.stats.installs + 1 } }

/-- Take over a catch-up: its ratchet, its keys, and its generation as the frontier. -/
def adopt (r : ReceiverKeyManager σ) (p : Plan) : ReceiverKeyManager σ :=
  match p.pending with
  | none => r
  | some pending =>
    { r with
      ratchet := pending.ratchet
      ring := SlotRing.storeAll r.ring pending.derived
      ring_pos := by rw [SlotRing.length_storeAll]; exact r.ring_pos
      frontier := some p.generation }

def finalize (r : ReceiverKeyManager σ) (p : Plan) : ReceiverKeyManager σ :=
  let r := r.adopt p
  { r with
    recovery := p.estIndex.elim r.recovery r.recovery.update
    stats := { r.stats with decrypted := r.stats.decrypted + 1 } }

def countDrop (r : ReceiverKeyManager σ) (d : RecvDrop) : ReceiverKeyManager σ :=
  { r with stats := r.stats.countDrop d }

def countWasted (r : ReceiverKeyManager σ) (p : Plan) : ReceiverKeyManager σ :=
  match p.pending with
  | none => r
  | some pending =>
    { r with stats := { r.stats with
        catchupStepsWasted := r.stats.catchupStepsWasted + pending.jump } }

/-- Phase 4: decrypt, and finalize on success. A failed call empties the buffer. -/
def decrypt (ops : SrtpOps σ) (r : ReceiverKeyManager σ) (p : Plan) (buf : Bytes) :
    Except Panic ((Except RecvDrop ℕ × Bytes) × ReceiverKeyManager σ) :=
  let r := (r.countFetch p).install p
  match r.session.unprotect ops buf with
  | (.ok plain, session) =>
    .ok ((.ok p.generation, plain), finalize { r with session := session } p)
  | (.error e, session) =>
    match RecvDrop.ofSrtpError e with
    | some d => .ok ((.error d, []), (countWasted { r with session := session } p).countDrop d)
    | none => .error (.unexpectedSrtpError e)

/-- Decrypts a packet: the generation it decrypted under or the reason it was dropped,
and the buffer afterwards. -/
def unprotect (ops : SrtpOps σ) (c : Crypto) (r : ReceiverKeyManager σ) (buf : Bytes) :
    Except Panic ((Except RecvDrop ℕ × Bytes) × ReceiverKeyManager σ) :=
  match r.plan c buf with
  | .error p => .error p
  | .ok (.error d) => .ok ((.error d, buf), r.countDrop d)
  | .ok (.ok p) => r.decrypt ops p buf

/-! ## What a call can do -/

variable {ops : SrtpOps σ} {c : Crypto} {r r' : ReceiverKeyManager σ} {buf : Bytes}

theorem new_ok {stream : Except SrtpError σ} {scheme : GenerationScheme}
    {ratchet : StreamRatchet} {k seekCap : ℕ}
    (h : new ops stream scheme ratchet k seekCap = .ok r) :
    ∃ s hk, 0 < k ∧ stream = .ok s ∧
      r = { session := ⟨ops.throwaway, s⟩, scheme := scheme, recovery := {},
            ratchet := ratchet, ring := List.replicate k none, ring_pos := hk,
            frontier := none, installed := none, seekCap := seekCap, stats := {} } := by
  unfold new at h
  split at h
  · rename_i hk
    split at h
    · cases h
    · cases h
      exact ⟨_, _, hk, rfl, rfl⟩
  · cases h

/-- The key in the cipher when a planned packet is decrypted. -/
def cipherKey (r : ReceiverKeyManager σ) (p : Plan) : KeySalt :=
  if r.installed = some p.generation then r.session.keySalt else p.keySalt

theorem countFetch_eq (r : ReceiverKeyManager σ) (p : Plan) :
    ∃ stats, r.countFetch p = { r with stats := stats } := by
  unfold countFetch
  split <;> exact ⟨_, rfl⟩

theorem countWasted_eq (r : ReceiverKeyManager σ) (p : Plan) :
    ∃ stats, r.countWasted p = { r with stats := stats } := by
  unfold countWasted
  split <;> exact ⟨_, rfl⟩

theorem install_eq (r : ReceiverKeyManager σ) (p : Plan) :
    ∃ stats, r.install p = { r with
      session := ⟨r.cipherKey p, r.session.stream⟩, installed := some p.generation,
      stats := stats } := by
  unfold install cipherKey
  split
  · rename_i h
    exact ⟨r.stats, by rw [← h]⟩
  · exact ⟨_, rfl⟩

theorem prepare_eq (r : ReceiverKeyManager σ) (p : Plan) :
    ∃ stats, (r.countFetch p).install p = { r with
      session := ⟨r.cipherKey p, r.session.stream⟩, installed := some p.generation,
      stats := stats } := by
  obtain ⟨stats, hs⟩ := r.countFetch_eq p
  rw [hs]
  exact install_eq _ p

theorem plan_ok {p : Plan} (h : r.plan c buf = .ok (.ok p)) :
    rtpHeaderLen ≤ buf.length ∧
      r.scheme.mapGeneration r.recovery buf = .ok (.ok (p.generation, p.estIndex)) ∧
      ∃ placement, r.classify p.generation = .ok (.ok placement) ∧
        r.fetchKey c p.generation placement = .ok (p.keySalt, p.pending) := by
  unfold plan at h
  split at h
  · cases h
  rename_i hlen
  split at h
  · cases h
  · cases h
  rename_i g estIndex hmap
  split at h
  · cases h
  · cases h
  rename_i placement hplace
  split at h
  · cases h
  rename_i keySalt pending hfetch
  cases h
  exact ⟨not_lt.mp hlen, hmap, placement, hplace, hfetch⟩

theorem classify_inWindow {g : ℕ} {keySalt : KeySalt}
    (h : r.classify g = .ok (.ok (.inWindow keySalt))) :
    ∃ f, r.frontier = some f ∧ g ≤ f ∧ f < g + r.ring.length ∧
      r.ring[g % r.ring.length]? = some (some (g, keySalt)) := by
  unfold classify at h
  split at h
  · dsimp only at h
    split at h <;> cases h
  · rename_i f hf
    split at h
    · rename_i hg
      split at h
      · cases h
      · rename_i hk
        split at h
        · rename_i tag ks hslot
          split at h
          · rename_i htag
            cases h
            subst htag
            exact ⟨f, hf, hg, by omega, hslot⟩
          · cases h
        · cases h
    · dsimp only at h
      split at h <;> cases h

theorem nextGeneration_of_frontier {f : ℕ} (hf : r.frontier = some f) :
    r.nextGeneration = f + 1 := by
  rw [nextGeneration, hf]
  rfl

theorem classify_ahead {g jump : ℕ} (h : r.classify g = .ok (.ok (.ahead jump))) :
    jump ≤ r.seekCap ∧ r.nextGeneration ≤ g ∧ g + 1 = r.nextGeneration + jump := by
  unfold nextGeneration
  unfold classify at h
  split at h
  · rename_i hf
    dsimp only at h
    split at h <;> cases h
    rw [hf]
    exact ⟨by omega, Nat.zero_le _, by simp⟩
  · rename_i f hf
    rw [hf]
    split at h
    · split at h
      · cases h
      · split at h
        · split at h <;> cases h
        · cases h
    · dsimp only at h
      split at h <;> cases h
      simp only [Option.elim_some]
      omega

/-! The four ways a call ends once the phases before decryption have not aborted. -/

theorem unprotect_dropped (ops : SrtpOps σ) {d : RecvDrop} (hplan : r.plan c buf = .ok (.error d)) :
    ∃ stats, r.unprotect ops c buf = .ok ((.error d, buf), { r with stats := stats }) := by
  unfold unprotect
  rw [hplan]
  exact ⟨_, rfl⟩

variable {p : Plan} {e : SrtpError} {stream : σ}

theorem unprotect_failed {d : RecvDrop} (hplan : r.plan c buf = .ok (.ok p))
    (hs : ops.unprotect r.session.stream (r.cipherKey p) buf = (.error e, stream))
    (hd : RecvDrop.ofSrtpError e = some d) :
    ∃ stats, r.unprotect ops c buf = .ok ((.error d, []), { r with
      session := ⟨r.cipherKey p, stream⟩, installed := some p.generation,
      stats := stats }) := by
  obtain ⟨stats, hprep⟩ := r.prepare_eq p
  unfold unprotect decrypt
  simp only [hplan, hprep, Session.unprotect, hs, hd]
  obtain ⟨stats', hw⟩ := countWasted_eq (σ := σ) _ p
  rw [hw]
  exact ⟨_, rfl⟩

theorem unprotect_unexpected (hplan : r.plan c buf = .ok (.ok p))
    (hs : ops.unprotect r.session.stream (r.cipherKey p) buf = (.error e, stream))
    (hd : RecvDrop.ofSrtpError e = none) :
    r.unprotect ops c buf = .error (.unexpectedSrtpError e) := by
  obtain ⟨stats, hprep⟩ := r.prepare_eq p
  unfold unprotect decrypt
  simp only [hplan, hprep, Session.unprotect, hs, hd]

theorem unprotect_decrypted {plain : Bytes} (hplan : r.plan c buf = .ok (.ok p))
    (hs : ops.unprotect r.session.stream (r.cipherKey p) buf = (.ok plain, stream)) :
    ∃ stats, r.unprotect ops c buf = .ok ((.ok p.generation, plain), { r.adopt p with
      session := ⟨r.cipherKey p, stream⟩, installed := some p.generation,
      recovery := p.estIndex.elim r.recovery r.recovery.update, stats := stats }) := by
  obtain ⟨stats, hprep⟩ := r.prepare_eq p
  refine ⟨{ stats with decrypted := stats.decrypted + 1 }, ?_⟩
  unfold unprotect decrypt
  simp only [hplan, hprep, Session.unprotect, hs]
  unfold finalize adopt
  cases p.pending <;> rfl

theorem unprotect_cases {out : Except RecvDrop ℕ × Bytes}
    (h : r.unprotect ops c buf = .ok (out, r')) :
    (∃ d stats, r.plan c buf = .ok (.error d) ∧ out = (.error d, buf) ∧
        r' = { r with stats := stats }) ∨
      (∃ p e d stream stats, r.plan c buf = .ok (.ok p) ∧
        ops.unprotect r.session.stream (r.cipherKey p) buf = (.error e, stream) ∧
        RecvDrop.ofSrtpError e = some d ∧ out = (.error d, []) ∧
        r' = { r with
          session := ⟨r.cipherKey p, stream⟩, installed := some p.generation,
          stats := stats }) ∨
      ∃ p plain stream stats, r.plan c buf = .ok (.ok p) ∧
        ops.unprotect r.session.stream (r.cipherKey p) buf = (.ok plain, stream) ∧
        out = (.ok p.generation, plain) ∧
        r' = { r.adopt p with
          session := ⟨r.cipherKey p, stream⟩, installed := some p.generation,
          recovery := p.estIndex.elim r.recovery r.recovery.update, stats := stats } := by
  rcases hplan : r.plan c buf with q | d | p
  · rw [unprotect, hplan] at h
    cases h
  · obtain ⟨stats, hu⟩ := unprotect_dropped ops hplan
    rw [hu] at h
    cases h
    exact .inl ⟨d, stats, rfl, rfl, rfl⟩
  · right
    rcases hs : ops.unprotect r.session.stream (r.cipherKey p) buf with ⟨e | plain, stream⟩
    · rcases hd : RecvDrop.ofSrtpError e with - | d
      · rw [unprotect_unexpected hplan hs hd] at h
        cases h
      · obtain ⟨stats, hu⟩ := unprotect_failed hplan hs hd
        rw [hu] at h
        cases h
        exact .inl ⟨p, e, d, stream, stats, rfl, hs, hd, rfl, rfl⟩
    · obtain ⟨stats, hu⟩ := unprotect_decrypted hplan hs
      rw [hu] at h
      cases h
      exact .inr ⟨p, plain, stream, stats, rfl, hs, rfl, rfl⟩

@[simp] theorem adopt_scheme (r : ReceiverKeyManager σ) (p : Plan) :
    (r.adopt p).scheme = r.scheme := by
  unfold adopt
  split <;> rfl

@[simp] theorem adopt_seekCap (r : ReceiverKeyManager σ) (p : Plan) :
    (r.adopt p).seekCap = r.seekCap := by
  unfold adopt
  split <;> rfl

theorem unprotect_scheme {out : Except RecvDrop ℕ × Bytes}
    (h : r.unprotect ops c buf = .ok (out, r')) : r'.scheme = r.scheme := by
  rcases unprotect_cases h with ⟨d, stats, -, -, rfl⟩ |
    ⟨p, e, d, stream, stats, -, -, -, -, rfl⟩ | ⟨p, plain, stream, stats, -, -, -, rfl⟩
  · rfl
  · rfl
  · exact adopt_scheme r p

/-- A call aborts in the phases before decryption, or on an error of libsrtp that the
receiver does not expect. -/
theorem unprotect_error {q : Panic} (h : r.unprotect ops c buf = .error q) :
    r.plan c buf = .error q ∨ ∃ p e stream, r.plan c buf = .ok (.ok p) ∧
      ops.unprotect r.session.stream (r.cipherKey p) buf = (.error e, stream) ∧
      RecvDrop.ofSrtpError e = none ∧ q = .unexpectedSrtpError e := by
  rcases hplan : r.plan c buf with q' | d | p
  · rw [unprotect, hplan] at h
    cases h
    exact .inl rfl
  · obtain ⟨stats, hu⟩ := unprotect_dropped ops hplan
    rw [hu] at h
    cases h
  · right
    rcases hs : ops.unprotect r.session.stream (r.cipherKey p) buf with ⟨e | plain, stream⟩
    · rcases hd : RecvDrop.ofSrtpError e with - | d
      · rw [unprotect_unexpected hplan hs hd] at h
        cases h
        exact ⟨p, e, stream, rfl, hs, hd, rfl⟩
      · obtain ⟨stats, hu⟩ := unprotect_failed hplan hs hd
        rw [hu] at h
        cases h
    · obtain ⟨stats, hu⟩ := unprotect_decrypted hplan hs
      rw [hu] at h
      cases h

end ReceiverKeyManager

end SafeCast
