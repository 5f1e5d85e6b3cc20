import Mathlib.Data.List.AList
import SafeCast.Library.Runs
import SafeCast.Receiver.Manager
import SafeCast.Tesla.Messages

/-! # The TESLA receiver

An arriving datagram passes the accept test, the SRTP layer and the check of the key it
discloses, in this order. A new key settles the packets that waited for it or for a key
below it; then the packet joins the drawer of its own interval. The SRTP layer is a
parameter.
-/

namespace SafeCast

open Runs

inductive TeslaDrop where
  | malformed
  | unsafeLate
  | badDisclosure
  | srtp (drop : RecvDrop)
  deriving DecidableEq, Repr

structure TeslaStats where
  delivered : ℕ := 0
  verified : ℕ := 0
  forged : ℕ := 0
  dropsMalformed : ℕ := 0
  dropsUnsafe : ℕ := 0
  dropsBadDisclosure : ℕ := 0
  dropsSrtp : ℕ := 0
  peakPending : ℕ := 0
  latenciesNs : List ℕ := []
  deriving DecidableEq, Repr

structure DrawerEntry where
  extIndex : ℕ
  arrivalNs : ℕ
  mac : TeslaMac
  covered : Bytes
  deriving DecidableEq

abbrev Drawers := AList fun _ : ℕ => List DrawerEntry

structure Verdict where
  interval : ℕ
  entry : DrawerEntry
  verified : Bool
  deriving DecidableEq

structure InnerOps (ι : Type*) where
  unprotect : ι → Bytes → Except Panic ((Except RecvDrop ℕ × Bytes) × ι)

structure TeslaReceiver (ι : Type*) where
  params : TeslaSchedule
  verifier : ChainVerifier
  alg : TeslaMacAlg
  inner : ι
  recovery : IndexRecovery
  drawers : Drawers
  pending : ℕ
  stats : TeslaStats

def TeslaStats.countDrop (stats : TeslaStats) : TeslaDrop → TeslaStats
  | .malformed => { stats with dropsMalformed := stats.dropsMalformed + 1 }
  | .unsafeLate => { stats with dropsUnsafe := stats.dropsUnsafe + 1 }
  | .badDisclosure => { stats with dropsBadDisclosure := stats.dropsBadDisclosure + 1 }
  | .srtp _ => { stats with dropsSrtp := stats.dropsSrtp + 1 }

namespace TeslaReceiver

variable {ι : Type*}

/-- A receiver for a commitment whose signature verifies. -/
def accept (c : Crypto) (commitment : TeslaCommitment) (signature senderPublicKey : Bytes)
    (dTNs : UInt64) (gMax : UInt32) (inner : ι) : Except Panic (Option (TeslaReceiver ι)) :=
  if !commitment.verify c signature senderPublicKey then .ok none
  else
    match commitment.schedule dTNs gMax with
    | .error p => .error p
    | .ok params =>
      .ok (some
        { params := params
          verifier := ChainVerifier.new commitment.anchor params.nChain params.gMax
          alg := commitment.macAlg, inner := inner, recovery := {}, drawers := ∅, pending := 0
          stats := {} })

def countDrop (r : TeslaReceiver ι) (d : TeslaDrop) : TeslaReceiver ι :=
  { r with stats := r.stats.countDrop d }

/-- Judges one waiting packet with the MAC state of its interval. The latency and the
pending count are unsigned subtractions. -/
def settleEntry (c : Crypto) (prepared : PreparedMac) (interval nowNs : ℕ)
    (r : TeslaReceiver ι) (entry : DrawerEntry) : Except Panic (Verdict × TeslaReceiver ι) :=
  if prepared.tag c entry.extIndex entry.covered = entry.mac then
    if nowNs < entry.arrivalNs then .error .overflow
    else if r.pending = 0 then .error .overflow
    else .ok (⟨interval, entry, true⟩, { r with
      pending := r.pending - 1
      stats := { r.stats with
        verified := r.stats.verified + 1
        latenciesNs := r.stats.latenciesNs ++ [nowNs - entry.arrivalNs] } })
  else if r.pending = 0 then .error .overflow
  else .ok (⟨interval, entry, false⟩, { r with
    pending := r.pending - 1
    stats := { r.stats with forged := r.stats.forged + 1 } })

def settleInterval (c : Crypto) (nowNs : ℕ) (r : TeslaReceiver ι) (k : ℕ × ChainKey) :
    Except Panic (List Verdict × TeslaReceiver ι) :=
  match r.drawers.lookup k.1 with
  | none => .ok ([], r)
  | some entries =>
    run (settleEntry c (r.alg.prepare c k.2) k.1 nowNs)
      { r with drawers := r.drawers.erase k.1 } entries

/-- Judges the packets that waited for the given keys; the source returns how many. -/
def settle (c : Crypto) (r : TeslaReceiver ι) (keys : List (ℕ × ChainKey)) (nowNs : ℕ) :
    Except Panic (List Verdict × TeslaReceiver ι) :=
  (run (settleInterval c nowNs) r keys).map fun x => (x.1.flatten, x.2)

def disclose (c : Crypto) (r : TeslaReceiver ι) (ext : Extension) (nowNs : ℕ) :
    Except Panic (Except TeslaDrop (List Verdict) × TeslaReceiver ι) :=
  match r.verifier.check c ext.disclosed (r.params.disclosedIndex ext.interval) with
  | (.new keys, verifier) =>
    match settle c { r with verifier := verifier } keys nowNs with
    | .error p => .error p
    | .ok (verdicts, r) => .ok (.ok verdicts, r)
  | (.notNew, _) => .ok (.ok [], r)
  | (.invalid, _) | (.tooFarAhead, _) | (.beyondChain, _) =>
    .ok (.error .badDisclosure, r.countDrop .badDisclosure)

def deliver (r : TeslaReceiver ι) (interval : ℕ) (entry : DrawerEntry) : TeslaReceiver ι :=
  { r with
    drawers := r.drawers.insert interval ((r.drawers.lookup interval).getD [] ++ [entry])
    pending := r.pending + 1
    stats := { r.stats with
      peakPending := max r.stats.peakPending (r.pending + 1)
      delivered := r.stats.delivered + 1 } }

/-- Processes a datagram that arrives at `arrivalNs`: the verdicts its disclosed key gave,
or why it was dropped, and the buffer afterwards. -/
def processArrival (ops : InnerOps ι) (c : Crypto) (r : TeslaReceiver ι) (buf : Bytes)
    (arrivalNs : ℕ) :
    Except Panic ((Except TeslaDrop (List Verdict) × Bytes) × TeslaReceiver ι) :=
  match splitExtension buf with
  | none => .ok ((.error .malformed, buf), r.countDrop .malformed)
  | some (ext, packet) =>
    if packet.length < rtpHeaderLen then .ok ((.error .malformed, packet), r.countDrop .malformed)
    else
      match r.params.accepts arrivalNs ext.interval with
      | .error p => .error p
      | .ok .unsafeLate => .ok ((.error .unsafeLate, packet), r.countDrop .unsafeLate)
      | .ok .safe =>
        let extIndex := r.recovery.recover (seqOf packet)
        match ops.unprotect r.inner packet with
        | .error p => .error p
        | .ok ((.error d, buf), inner) =>
          .ok ((.error (.srtp d), buf), countDrop { r with inner := inner } (.srtp d))
        | .ok ((.ok _, plain), inner) =>
          let r := { r with inner := inner, recovery := r.recovery.update extIndex }
          match r.disclose c ext arrivalNs with
          | .error p => .error p
          | .ok (.error d, r) => .ok ((.error d, plain), r)
          | .ok (.ok verdicts, r) =>
            .ok ((.ok verdicts, plain),
              r.deliver ext.interval ⟨extIndex, arrivalNs, ext.mac, packet⟩)

def arrival (ops : InnerOps ι) (c : Crypto) (r : TeslaReceiver ι) (i : Bytes × ℕ) :
    Except Panic ((Except TeslaDrop (List Verdict) × Bytes) × TeslaReceiver ι) :=
  r.processArrival ops c i.1 i.2

/-! ## Settling -/

def judge (c : Crypto) (alg : TeslaMacAlg) (interval : ℕ) (key : ChainKey) (entry : DrawerEntry) :
    Verdict :=
  ⟨interval, entry, (alg.prepare c key).tag c entry.extIndex entry.covered = entry.mac⟩

def verdictsFor (c : Crypto) (alg : TeslaMacAlg) : Drawers → List (ℕ × ChainKey) → List Verdict
  | _, [] => []
  | drawers, (interval, key) :: keys =>
    ((drawers.lookup interval).getD []).map (judge c alg interval key) ++
      verdictsFor c alg (drawers.erase interval) keys

def eraseAll (drawers : Drawers) (keys : List (ℕ × ChainKey)) : Drawers :=
  keys.foldl (fun d k => d.erase k.1) drawers

variable {c : Crypto} {alg : TeslaMacAlg} {drawers : Drawers} {keys : List (ℕ × ChainKey)}

theorem lookup_eraseAll (i : ℕ) :
    (eraseAll drawers keys).lookup i =
      if i ∈ keys.map Prod.fst then none else drawers.lookup i := by
  induction keys generalizing drawers with
  | nil => rfl
  | cons k keys ih =>
    change (eraseAll (drawers.erase k.1) keys).lookup i = _
    rw [ih, List.map_cons]
    by_cases hk : i = k.1
    · rw [hk, AList.lookup_erase, ite_self, if_pos List.mem_cons_self]
    · rw [AList.lookup_erase_ne hk]
      exact if_congr (by simp [hk]) rfl rfl

theorem mem_verdictsFor {v : Verdict} (h : v ∈ verdictsFor c alg drawers keys) :
    ∃ key entries, (v.interval, key) ∈ keys ∧ drawers.lookup v.interval = some entries ∧
      v.entry ∈ entries ∧ v = judge c alg v.interval key v.entry := by
  induction keys generalizing drawers with
  | nil => cases h
  | cons k keys ih =>
    rcases List.mem_append.mp h with h | h
    · obtain ⟨entry, hentry, rfl⟩ := List.mem_map.mp h
      rcases hl : drawers.lookup k.1 with - | entries
      · rw [hl] at hentry
        cases hentry
      · rw [hl] at hentry
        exact ⟨k.2, entries, List.mem_cons_self, hl, hentry, rfl⟩
    · obtain ⟨key, entries, hmem, hl, hentry, hv⟩ := ih h
      refine ⟨key, entries, List.mem_cons_of_mem _ hmem, ?_, hentry, hv⟩
      by_cases hk : v.interval = k.1
      · rw [hk, AList.lookup_erase] at hl
        cases hl
      · rwa [AList.lookup_erase_ne hk] at hl

theorem exists_mem_verdictsFor {i : ℕ} {entries : List DrawerEntry} {e : DrawerEntry}
    (hi : i ∈ keys.map Prod.fst) (hl : drawers.lookup i = some entries) (he : e ∈ entries) :
    ∃ key, (i, key) ∈ keys ∧ judge c alg i key e ∈ verdictsFor c alg drawers keys := by
  induction keys generalizing drawers with
  | nil => cases hi
  | cons k keys ih =>
    by_cases hk : i = k.1
    · subst hk
      refine ⟨k.2, List.mem_cons_self, List.mem_append_left _ ?_⟩
      rw [hl]
      exact List.mem_map_of_mem he
    · have hmem : i ∈ keys.map Prod.fst := by simpa [hk] using hi
      obtain ⟨key, hkey, hv⟩ := ih hmem ((AList.lookup_erase_ne hk).trans hl)
      exact ⟨key, List.mem_cons_of_mem _ hkey, List.mem_append_right _ hv⟩

variable {r r' : TeslaReceiver ι} {nowNs : ℕ} {verdicts : List Verdict}

theorem settleEntry_ok {key : ChainKey} {interval : ℕ} {entry : DrawerEntry} {v : Verdict}
    (h : settleEntry c (alg.prepare c key) interval nowNs r entry = .ok (v, r')) :
    v = judge c alg interval key entry ∧
      ∃ pending stats, r' = { r with pending := pending, stats := stats } := by
  unfold settleEntry at h
  split_ifs at h with htag h₁ h₂ h₃
  · cases h
    exact ⟨by simp [judge, htag], _, _, rfl⟩
  · cases h
    exact ⟨by simp [judge, htag], _, _, rfl⟩

theorem settleEntries_ok {key : ChainKey} {interval : ℕ} {entries : List DrawerEntry}
    (h : run (settleEntry c (alg.prepare c key) interval nowNs) r entries = .ok (verdicts, r')) :
    verdicts = entries.map (judge c alg interval key) ∧
      ∃ pending stats, r' = { r with pending := pending, stats := stats } := by
  induction entries generalizing r verdicts with
  | nil =>
    cases h
    exact ⟨rfl, _, _, rfl⟩
  | cons entry entries ih =>
    obtain ⟨v, r₁, vs, hstep, hrun, rfl⟩ := run_cons_ok_iff.mp h
    obtain ⟨rfl, p₁, s₁, rfl⟩ := settleEntry_ok hstep
    obtain ⟨rfl, p₂, s₂, rfl⟩ := ih hrun
    exact ⟨rfl, p₂, s₂, rfl⟩

theorem settleInterval_ok {k : ℕ × ChainKey}
    (h : settleInterval c nowNs r k = .ok (verdicts, r')) :
    verdicts = ((r.drawers.lookup k.1).getD []).map (judge c r.alg k.1 k.2) ∧
      ∃ pending stats, r' = { r with
        drawers := r.drawers.erase k.1, pending := pending, stats := stats } := by
  unfold settleInterval at h
  split at h
  · rename_i hl
    cases h
    have herase : r.drawers.erase k.1 = r.drawers :=
      AList.ext (List.kerase_of_notMem_keys (AList.lookup_eq_none.mp hl))
    exact ⟨by rw [hl]; rfl, r.pending, r.stats, by rw [herase]⟩
  · rename_i entries hl
    obtain ⟨rfl, p, s, rfl⟩ := settleEntries_ok h
    exact ⟨by rw [hl]; rfl, p, s, rfl⟩

theorem settle_ok (h : settle c r keys nowNs = .ok (verdicts, r')) :
    verdicts = verdictsFor c r.alg r.drawers keys ∧
      ∃ pending stats, r' = { r with
        drawers := eraseAll r.drawers keys, pending := pending, stats := stats } := by
  unfold settle at h
  rcases hrun : run (settleInterval c nowNs) r keys with p | ⟨vss, r₁⟩
  · rw [hrun] at h
    cases h
  rw [hrun] at h
  cases h
  induction keys generalizing r vss with
  | nil =>
    cases hrun
    exact ⟨rfl, _, _, rfl⟩
  | cons k keys ih =>
    obtain ⟨vs, r₂, vss', hstep, hrest, rfl⟩ := run_cons_ok_iff.mp hrun
    obtain ⟨rfl, p₁, s₁, rfl⟩ := settleInterval_ok hstep
    obtain ⟨hvs, p₂, s₂, rfl⟩ := ih vss' hrest
    exact ⟨by rw [List.flatten_cons, hvs]; rfl, p₂, s₂, rfl⟩

/-! ## What a call can do -/

theorem accept_ok {commitment : TeslaCommitment} {signature senderPublicKey : Bytes}
    {dTNs : UInt64} {gMax : UInt32} {inner : ι}
    (h : accept c commitment signature senderPublicKey dTNs gMax inner = .ok (some r)) :
    ∃ params, commitment.schedule dTNs gMax = .ok params ∧
      r = { params := params
            verifier := ChainVerifier.new commitment.anchor params.nChain params.gMax
            alg := commitment.macAlg, inner := inner, recovery := {}, drawers := ∅, pending := 0
            stats := {} } := by
  unfold accept at h
  split at h
  · cases h
  split at h
  · cases h
  · rename_i params hparams
    cases h
    exact ⟨params, hparams, rfl⟩

/-- The part of a datagram's processing that changes nothing: its extension and packet, and
that it passed the accept test. -/
structure Admitted (r : TeslaReceiver ι) (buf : Bytes) (arrivalNs : ℕ) (ext : Extension)
    (packet : Bytes) : Prop where
  split : splitExtension buf = some (ext, packet)
  length : rtpHeaderLen ≤ packet.length
  safe : r.params.accepts arrivalNs ext.interval = .ok .safe

def entryOf (r : TeslaReceiver ι) (arrivalNs : ℕ) (ext : Extension) (packet : Bytes) :
    DrawerEntry :=
  ⟨r.recovery.recover (seqOf packet), arrivalNs, ext.mac, packet⟩

def authenticated (r : TeslaReceiver ι) (inner : ι) (packet : Bytes) : TeslaReceiver ι :=
  { r with inner := inner, recovery := r.recovery.update (r.recovery.recover (seqOf packet)) }

/-- The keys that the check of a disclosed key hands out. -/
def HandsOut (c : Crypto) (r : TeslaReceiver ι) (ext : Extension) (keys : List (ℕ × ChainKey))
    (verifier : ChainVerifier) : Prop :=
  r.verifier.check c ext.disclosed (r.params.disclosedIndex ext.interval) =
      (.new keys, verifier) ∨
    (r.verifier.check c ext.disclosed (r.params.disclosedIndex ext.interval) =
      (.notNew, r.verifier) ∧ keys = [] ∧ verifier = r.verifier)

theorem disclose_cases {ext : Extension} {res : Except TeslaDrop (List Verdict)}
    (h : r.disclose c ext nowNs = .ok (res, r')) :
    (res = .error .badDisclosure ∧ (∀ keys verifier, ¬ r.HandsOut c ext keys verifier) ∧
        r' = r.countDrop .badDisclosure) ∨
      ∃ keys verifier verdicts, r.HandsOut c ext keys verifier ∧
        settle c { r with verifier := verifier } keys nowNs = .ok (verdicts, r') ∧
        res = .ok verdicts := by
  unfold disclose at h
  split at h
  · rename_i keys verifier hcheck
    split at h
    · cases h
    · rename_i verdicts r₁ hsettle
      cases h
      exact .inr ⟨keys, verifier, verdicts, .inl hcheck, hsettle, rfl⟩
  · rename_i v hcheck
    cases h
    rw [ChainVerifier.check_unchanged hcheck nofun] at hcheck
    exact .inr ⟨[], r.verifier, [], .inr ⟨hcheck, rfl, rfl⟩, rfl, rfl⟩
  all_goals
    rename_i hcheck
    cases h
    refine .inl ⟨rfl, ?_, rfl⟩
    rintro keys verifier (hnew | ⟨hold, -⟩)
    · rw [hcheck] at hnew
      cases hnew
    · rw [hcheck] at hold
      cases hold

theorem disclose_notNew {ext : Extension}
    (h : r.params.disclosedIndex ext.interval ≤ r.verifier.trustedIndex) :
    r.disclose c ext nowNs = .ok (.ok [], r) := by
  simp [disclose, ChainVerifier.check, h]

theorem exists_disclose_new {ext : Extension} {k : ℕ × ChainKey} {verifier : ChainVerifier}
    {e : DrawerEntry}
    (hcheck : r.verifier.check c ext.disclosed (r.params.disclosedIndex ext.interval) =
      (.new [k], verifier))
    (hl : r.drawers.lookup k.1 = some [e]) (hpending : r.pending ≠ 0) (he : e.arrivalNs ≤ nowNs) :
    ∃ verdicts r', r.disclose c ext nowNs = .ok (.ok verdicts, r') ∧ r'.verifier = verifier := by
  simp only [disclose, hcheck, settle, run, settleInterval, hl, settleEntry, if_neg hpending,
    if_neg (not_lt.mpr he)]
  split_ifs <;> exact ⟨_, _, rfl, rfl⟩

theorem disclose_beyondChain {ext : Extension}
    (h : r.verifier.trustedIndex < r.params.disclosedIndex ext.interval)
    (hn : r.verifier.nChain < r.params.disclosedIndex ext.interval) :
    r.disclose c ext nowNs = .ok (.error .badDisclosure, r.countDrop .badDisclosure) := by
  simp [disclose, ChainVerifier.check, not_le.mpr h, hn]

variable {ops : InnerOps ι} {buf : Bytes} {arrivalNs : ℕ}

theorem processArrival_cases {out : Except TeslaDrop (List Verdict) × Bytes}
    (h : r.processArrival ops c buf arrivalNs = .ok (out, r')) :
    (∃ d, (d = .malformed ∨ d = .unsafeLate) ∧
        (∀ ext packet, ¬ r.Admitted buf arrivalNs ext packet) ∧ out.1 = .error d ∧
        r' = r.countDrop d) ∨
      ∃ ext packet, r.Admitted buf arrivalNs ext packet ∧
        ((∃ d b inner, ops.unprotect r.inner packet = .ok ((.error d, b), inner) ∧
            out = (.error (.srtp d), b) ∧
            r' = countDrop { r with inner := inner } (.srtp d)) ∨
          (∃ g plain inner, ops.unprotect r.inner packet = .ok ((.ok g, plain), inner) ∧
            (∀ keys verifier, ¬ r.HandsOut c ext keys verifier) ∧
            out = (.error .badDisclosure, plain) ∧
            r' = (r.authenticated inner packet).countDrop .badDisclosure) ∨
          ∃ g plain inner keys verifier verdicts r₁,
            ops.unprotect r.inner packet = .ok ((.ok g, plain), inner) ∧
            r.HandsOut c ext keys verifier ∧
            settle c { r.authenticated inner packet with verifier := verifier } keys arrivalNs =
              .ok (verdicts, r₁) ∧
            out = (.ok verdicts, plain) ∧
            r' = r₁.deliver ext.interval (r.entryOf arrivalNs ext packet)) := by
  unfold processArrival at h
  split at h
  · rename_i hsplit
    cases h
    refine .inl ⟨_, .inl rfl, ?_, rfl, rfl⟩
    intro ext packet ha
    rw [ha.split] at hsplit
    cases hsplit
  rename_i ext packet hsplit
  -- the buffer splits in one way, so whatever is admitted is this packet
  have hext : ∀ ext' packet', r.Admitted buf arrivalNs ext' packet' →
      ext = ext' ∧ packet = packet' := by
    intro ext' packet' ha
    rw [ha.split] at hsplit
    cases hsplit
    exact ⟨rfl, rfl⟩
  split at h
  · rename_i hlen
    cases h
    refine .inl ⟨_, .inl rfl, ?_, rfl, rfl⟩
    intro ext' packet' ha
    obtain ⟨rfl, rfl⟩ := hext _ _ ha
    exact absurd ha.length (not_le.mpr hlen)
  rename_i hlen
  split at h
  · cases h
  · rename_i hsafe
    cases h
    refine .inl ⟨_, .inr rfl, ?_, rfl, rfl⟩
    intro ext' packet' ha
    obtain ⟨rfl, rfl⟩ := hext _ _ ha
    rw [ha.safe] at hsafe
    cases hsafe
  rename_i hsafe
  -- from here on the datagram is admitted
  refine .inr ⟨ext, packet, ⟨hsplit, not_lt.mp hlen, hsafe⟩, ?_⟩
  dsimp only at h
  split at h
  · cases h
  · rename_i d b inner hinner
    cases h
    exact .inl ⟨d, b, inner, hinner, rfl, rfl⟩
  rename_i g plain inner hinner
  right
  rcases hd : (r.authenticated inner packet).disclose c ext arrivalNs with p | ⟨res, r₁⟩
  · rw [authenticated] at hd
    rw [hd] at h
    cases h
  · have hcases := disclose_cases hd
    rw [authenticated] at hd
    rw [hd] at h
    rcases hcases with ⟨rfl, hbad, rfl⟩ | ⟨keys, verifier, verdicts, hkeys, hsettle, rfl⟩
    · cases h
      exact .inl ⟨g, plain, inner, hinner, hbad, rfl, rfl⟩
    · cases h
      exact .inr ⟨g, plain, inner, keys, verifier, verdicts, r₁, hinner, hkeys, hsettle, rfl, rfl⟩

theorem processArrival_authentic {ext : Extension} {packet plain : Bytes} {g : ℕ} {inner : ι}
    {res : Except TeslaDrop (List Verdict)} {r₁ : TeslaReceiver ι}
    (hadm : r.Admitted buf arrivalNs ext packet)
    (hinner : ops.unprotect r.inner packet = .ok ((.ok g, plain), inner))
    (hkey : (r.authenticated inner packet).disclose c ext arrivalNs = .ok (res, r₁)) :
    r.processArrival ops c buf arrivalNs = .ok ((res, plain),
      match res with
      | .error _ => r₁
      | .ok _ => r₁.deliver ext.interval (r.entryOf arrivalNs ext packet)) := by
  unfold processArrival
  unfold authenticated at hkey
  simp only [hadm.split, if_neg (not_lt.mpr hadm.length), hadm.safe, hinner, hkey]
  cases res <;> rfl

/-- The datagram passes every test of the receiver: it is admitted, the SRTP layer accepts
its packet, and its disclosed key checks out, which hands out `keys`. -/
structure Passes (ops : InnerOps ι) (c : Crypto) (r : TeslaReceiver ι) (buf : Bytes)
    (arrivalNs : ℕ) (ext : Extension) (packet : Bytes) (keys : List (ℕ × ChainKey))
    (verifier : ChainVerifier) : Prop where
  admitted : r.Admitted buf arrivalNs ext packet
  authentic : ∃ g plain inner, ops.unprotect r.inner packet = .ok ((.ok g, plain), inner)
  key : r.HandsOut c ext keys verifier

theorem Admitted.unique {ext ext' : Extension} {packet packet' : Bytes}
    (h : r.Admitted buf arrivalNs ext packet) (h' : r.Admitted buf arrivalNs ext' packet') :
    ext = ext' ∧ packet = packet' := by
  have := h.split.symm.trans h'.split
  cases this
  exact ⟨rfl, rfl⟩

theorem processArrival_disclosed {ext : Extension} {packet plain : Bytes} {g : ℕ} {inner : ι}
    {out : Except TeslaDrop (List Verdict) × Bytes} (hadm : r.Admitted buf arrivalNs ext packet)
    (hinner : ops.unprotect r.inner packet = .ok ((.ok g, plain), inner))
    (h : r.processArrival ops c buf arrivalNs = .ok (out, r')) :
    (out.1 = .error .badDisclosure ∧ ∀ keys verifier, ¬ r.HandsOut c ext keys verifier) ∨
      ∃ keys verifier verdicts, r.Passes ops c buf arrivalNs ext packet keys verifier ∧
        out.1 = .ok verdicts := by
  rcases processArrival_cases h with ⟨d, -, hnot, -, -⟩ | ⟨ext', packet', hadm',
    ⟨d, b, inner', herr, -, -⟩ | ⟨g', plain', inner', -, hbad, rfl, -⟩ |
    ⟨g', plain', inner', keys, verifier, verdicts, r₁, -, hkeys, -, rfl, -⟩⟩
  · exact absurd hadm (hnot ext packet)
  all_goals obtain ⟨rfl, rfl⟩ := hadm.unique hadm'
  · cases hinner.symm.trans herr
  · exact .inl ⟨rfl, hbad⟩
  · exact .inr ⟨keys, verifier, verdicts, ⟨hadm, ⟨g, plain, inner, hinner⟩, hkeys⟩, rfl⟩

def verdictsOf : Except TeslaDrop (List Verdict) → List Verdict
  | .ok verdicts => verdicts
  | .error _ => []

def Waits (r : TeslaReceiver ι) (interval : ℕ) (entry : DrawerEntry) : Prop :=
  ∃ entries, r.drawers.lookup interval = some entries ∧ entry ∈ entries

theorem waits_iff_of_drawers {label : ℕ} {entry : DrawerEntry}
    (h : r'.drawers = (eraseAll r.drawers keys).insert label
      (((eraseAll r.drawers keys).lookup label).getD [] ++ [entry])) (i : ℕ) (e : DrawerEntry) :
    r'.Waits i e ↔ (r.Waits i e ∧ i ∉ keys.map Prod.fst) ∨ (i = label ∧ e = entry) := by
  have herased : (∃ entries, (eraseAll r.drawers keys).lookup i = some entries ∧ e ∈ entries) ↔
      r.Waits i e ∧ i ∉ keys.map Prod.fst := by
    rw [lookup_eraseAll]
    split_ifs with hi
    · simp [hi]
    · simp only [Waits, hi, not_false_eq_true, and_true]
  rw [← herased, Waits, h]
  by_cases hi : i = label
  · subst hi
    rw [AList.lookup_insert]
    cases hl : (eraseAll r.drawers keys).lookup i <;> simp
  · rw [AList.lookup_insert_ne hi]
    simp [hi]

theorem exists_verdict_iff {i : ℕ} {e : DrawerEntry} :
    (∃ v ∈ verdictsFor c r.alg r.drawers keys, v.interval = i ∧ v.entry = e) ↔
      r.Waits i e ∧ i ∈ keys.map Prod.fst := by
  constructor
  · rintro ⟨v, hv, rfl, rfl⟩
    obtain ⟨key, entries, hkey, hl, he, -⟩ := mem_verdictsFor hv
    exact ⟨⟨entries, hl, he⟩, List.mem_map_of_mem hkey⟩
  · rintro ⟨⟨entries, hl, he⟩, hi⟩
    obtain ⟨key, -, hv⟩ := exists_mem_verdictsFor hi hl he
    exact ⟨_, hv, rfl, rfl⟩

/-- What a call does to the chain state and the drawers: nothing, unless the datagram
passes; then the keys it hands out empty their drawers and the packet joins its own. -/
theorem processArrival_drawers {out : Except TeslaDrop (List Verdict) × Bytes}
    (h : r.processArrival ops c buf arrivalNs = .ok (out, r')) :
    r'.params = r.params ∧ r'.alg = r.alg ∧
      ((r'.verifier = r.verifier ∧ (∀ i e, r'.Waits i e ↔ r.Waits i e) ∧ verdictsOf out.1 = [] ∧
          ∀ ext packet keys verifier, ¬ r.Passes ops c buf arrivalNs ext packet keys verifier) ∨
        ∃ ext packet keys verifier, r.Passes ops c buf arrivalNs ext packet keys verifier ∧
          r'.verifier = verifier ∧
          (∀ i e, r'.Waits i e ↔ (r.Waits i e ∧ i ∉ keys.map Prod.fst) ∨
            (i = ext.interval ∧ e = r.entryOf arrivalNs ext packet)) ∧
          verdictsOf out.1 = verdictsFor c r.alg r.drawers keys) := by
  rcases processArrival_cases h with ⟨d, -, hnot, hout, rfl⟩ | ⟨ext, packet, hadm,
    ⟨d, b, inner, hinner, rfl, rfl⟩ | ⟨g, plain, inner, hinner, hbad, rfl, rfl⟩ |
    ⟨g, plain, inner, keys, verifier, verdicts, r₁, hinner, hkeys, hsettle, rfl, rfl⟩⟩
  · refine ⟨rfl, rfl, .inl ⟨rfl, fun _ _ => Iff.rfl, by rw [hout]; rfl, ?_⟩⟩
    intro ext packet keys verifier hp
    exact hnot ext packet hp.admitted
  · refine ⟨rfl, rfl, .inl ⟨rfl, fun _ _ => Iff.rfl, rfl, ?_⟩⟩
    intro ext' packet' keys verifier hp
    obtain ⟨rfl, rfl⟩ := hadm.unique hp.admitted
    obtain ⟨g, plain, inner', hok⟩ := hp.authentic
    rw [hinner] at hok
    cases hok
  · refine ⟨rfl, rfl, .inl ⟨rfl, fun _ _ => Iff.rfl, rfl, ?_⟩⟩
    intro ext' packet' keys verifier hp
    obtain ⟨rfl, rfl⟩ := hadm.unique hp.admitted
    exact hbad keys verifier hp.key
  · obtain ⟨rfl, pending, stats, rfl⟩ := settle_ok hsettle
    exact ⟨rfl, rfl, .inr ⟨ext, packet, keys, verifier, ⟨hadm, ⟨g, plain, inner, hinner⟩, hkeys⟩,
      rfl, waits_iff_of_drawers rfl, rfl⟩⟩

/-- What a call does to the SRTP layer and the recovery: nothing, or the layer processes a
packet; the recovery records the packet when it is accepted, also if the datagram is then
dropped. -/
theorem processArrival_inner {out : Except TeslaDrop (List Verdict) × Bytes}
    (h : r.processArrival ops c buf arrivalNs = .ok (out, r')) :
    (r'.inner = r.inner ∧ r'.recovery = r.recovery) ∨
      (∃ packet d b, ops.unprotect r.inner packet = .ok ((.error d, b), r'.inner) ∧
        r'.recovery = r.recovery) ∨
      ∃ packet g plain, ops.unprotect r.inner packet = .ok ((.ok g, plain), r'.inner) ∧
        r'.recovery = r.recovery.update (r.recovery.recover (seqOf packet)) := by
  rcases processArrival_cases h with ⟨d, -, -, -, rfl⟩ | ⟨ext, packet, -,
    ⟨d, b, inner, hinner, -, rfl⟩ | ⟨g, plain, inner, hinner, -, -, rfl⟩ |
    ⟨g, plain, inner, keys, verifier, verdicts, r₁, hinner, -, hsettle, -, rfl⟩⟩
  · exact .inl ⟨rfl, rfl⟩
  · exact .inr (.inl ⟨packet, d, b, hinner, rfl⟩)
  · exact .inr (.inr ⟨packet, g, plain, hinner, rfl⟩)
  · obtain ⟨-, pending, stats, rfl⟩ := settle_ok hsettle
    exact .inr (.inr ⟨packet, g, plain, hinner, rfl⟩)

theorem HandsOut.indices {ext : Extension} {verifier : ChainVerifier}
    (h : r.HandsOut c ext keys verifier) :
    r.verifier.trustedIndex ≤ verifier.trustedIndex ∧
      (verifier.trustedIndex = r.verifier.trustedIndex ∨
        verifier.trustedIndex = r.params.disclosedIndex ext.interval) ∧
      ∀ i, i ∈ keys.map Prod.fst ↔ r.verifier.trustedIndex < i ∧ i ≤ verifier.trustedIndex := by
  rcases h with hnew | ⟨-, rfl, rfl⟩
  · obtain ⟨hlt, -, -, -, rfl, rfl⟩ := ChainVerifier.check_new_iff.mp hnew
    refine ⟨hlt.le, .inr rfl, ?_⟩
    intro i
    simp only [List.map_map, Function.comp_def, List.map_id', List.mem_range'_1]
    omega
  · refine ⟨le_rfl, .inl rfl, ?_⟩
    intro i
    simp

theorem HandsOut.caps {ext : Extension} {verifier : ChainVerifier}
    (h : r.HandsOut c ext keys verifier) :
    verifier.nChain = r.verifier.nChain ∧ verifier.gMax = r.verifier.gMax := by
  rcases h with hnew | ⟨-, -, rfl⟩
  · obtain ⟨-, -, -, -, -, rfl⟩ := ChainVerifier.check_new_iff.mp hnew
    exact ⟨rfl, rfl⟩
  · exact ⟨rfl, rfl⟩

end TeslaReceiver

def ReceiverKeyManager.innerOps {σ : Type*} (ops : SrtpOps σ) (c : Crypto) :
    InnerOps (ReceiverKeyManager σ) where
  unprotect := ReceiverKeyManager.unprotect ops c

end SafeCast
