import SafeCast.Library.Buckets
import SafeCast.Library.Ledger
import SafeCast.Receiver.WorkLedger
import SafeCast.Tesla.Authenticity

/-! # The TESLA receiver's ledger

Every delivered packet is verified, forged or pending, and the pending ones are the entries
of the drawers. So the subtractions of a settlement do not underflow, as long as arrival
times do not go back. What can still abort a call is the receiver's own clock arithmetic.
-/

namespace SafeCast

open Runs

namespace TeslaReceiver

variable {ι : Type*} {ops : InnerOps ι} {c : Crypto} {r r' r'' : TeslaReceiver ι} {nowNs : ℕ}

/-! ## What a settlement counts -/

structure Settles (n : ℕ) (r r' : TeslaReceiver ι) : Prop where
  pending : r'.pending + n = r.pending
  verdicts : r'.stats.verified + r'.stats.forged = r.stats.verified + r.stats.forged + n
  latencies : r'.stats.latenciesNs.length + r.stats.verified =
    r.stats.latenciesNs.length + r'.stats.verified
  rest : ∃ verified forged latenciesNs, r'.stats = { r.stats with
    verified := verified, forged := forged, latenciesNs := latenciesNs }

theorem Settles.refl (r : TeslaReceiver ι) : Settles 0 r r :=
  ⟨rfl, rfl, rfl, _, _, _, rfl⟩

theorem Settles.trans {m n : ℕ} (h : Settles m r r') (h' : Settles n r' r'') :
    Settles (m + n) r r'' := by
  obtain ⟨hp, hv, hl, _, _, _, hr⟩ := h
  obtain ⟨hp', hv', hl', v, f, l, hr'⟩ := h'
  refine ⟨by omega, by omega, by omega, v, f, l, ?_⟩
  rw [hr', hr]

theorem settleEntry_settles {prepared : PreparedMac} {interval : ℕ} {entry : DrawerEntry}
    {v : Verdict} (h : settleEntry c prepared interval nowNs r entry = .ok (v, r')) :
    Settles 1 r r' := by
  unfold settleEntry at h
  split_ifs at h with htag htime hzero hzero
  · cases h
    refine ⟨Nat.sub_add_cancel (Nat.pos_of_ne_zero hzero), ?_, ?_, _, _, _, rfl⟩
    · dsimp only
      omega
    · simp only [List.length_append, List.length_singleton]
      omega
  · cases h
    exact ⟨Nat.sub_add_cancel (Nat.pos_of_ne_zero hzero), rfl, rfl, _, _, _, rfl⟩

theorem settleEntries_settles {prepared : PreparedMac} {interval : ℕ} {entries : List DrawerEntry}
    {verdicts : List Verdict}
    (h : run (settleEntry c prepared interval nowNs) r entries = .ok (verdicts, r')) :
    Settles verdicts.length r r' := by
  induction entries generalizing r verdicts with
  | nil =>
    cases h
    exact .refl _
  | cons entry entries ih =>
    obtain ⟨v, r₁, vs, hstep, hrun, rfl⟩ := run_cons_ok_iff.mp h
    rw [List.length_cons, Nat.add_comm]
    exact (settleEntry_settles hstep).trans (ih hrun)

theorem settleInterval_settles {k : ℕ × ChainKey} {verdicts : List Verdict}
    (h : settleInterval c nowNs r k = .ok (verdicts, r')) : Settles verdicts.length r r' := by
  unfold settleInterval at h
  split at h
  · cases h
    exact .refl r
  · have hs := settleEntries_settles h
    exact ⟨hs.pending, hs.verdicts, hs.latencies, hs.rest⟩

/-- The number `settle` returns in the source is the number of verdicts. -/
theorem settle_settles {keys : List (ℕ × ChainKey)} {verdicts : List Verdict}
    (h : settle c r keys nowNs = .ok (verdicts, r')) : Settles verdicts.length r r' := by
  unfold settle at h
  rcases hrun : run (settleInterval c nowNs) r keys with p | ⟨vss, r₁⟩
  · rw [hrun] at h
    cases h
  rw [hrun] at h
  cases h
  induction keys generalizing r vss with
  | nil =>
    cases hrun
    exact .refl _
  | cons k keys ih =>
    obtain ⟨vs, r₂, vss', hstep, hrest, rfl⟩ := run_cons_ok_iff.mp hrun
    simp only [List.flatten_cons, List.length_append]
    exact (settleInterval_settles hstep).trans (ih vss' hrest)

/-! ## A settlement returns -/

/-- The pending count is the number of entries, none of which arrived after `nowNs`. -/
structure Balanced (nowNs : ℕ) (r : TeslaReceiver ι) : Prop where
  pending : r.pending = Buckets.total r.drawers
  arrived : ∀ i e, r.Waits i e → e.arrivalNs ≤ nowNs

theorem exists_settleEntries {prepared : PreparedMac} {interval : ℕ} {entries : List DrawerEntry}
    (hlen : entries.length ≤ r.pending) (harrived : ∀ e ∈ entries, e.arrivalNs ≤ nowNs) :
    ∃ verdicts r', run (settleEntry c prepared interval nowNs) r entries = .ok (verdicts, r') := by
  induction entries generalizing r with
  | nil => exact ⟨[], r, rfl⟩
  | cons entry entries ih =>
    have hpos : r.pending ≠ 0 := by
      rintro hzero
      simp [hzero] at hlen
    have htime : ¬ nowNs < entry.arrivalNs := not_lt.mpr (harrived entry List.mem_cons_self)
    obtain ⟨v, r₁, hstep⟩ :
        ∃ v r₁, settleEntry c prepared interval nowNs r entry = .ok (v, r₁) := by
      unfold settleEntry
      simp only [htime, hpos, if_false]
      split_ifs <;> exact ⟨_, _, rfl⟩
    have hpending := (settleEntry_settles hstep).pending
    rw [List.length_cons] at hlen
    obtain ⟨vs, r', hrun⟩ := ih (r := r₁) (by omega) fun e he =>
      harrived e (List.mem_cons_of_mem _ he)
    exact ⟨v :: vs, r', run_cons_ok_iff.mpr ⟨v, r₁, vs, hstep, hrun, rfl⟩⟩

theorem Balanced.settleInterval (h : r.Balanced nowNs) (k : ℕ × ChainKey) :
    ∃ verdicts r', settleInterval c nowNs r k = .ok (verdicts, r') ∧ r'.Balanced nowNs := by
  obtain ⟨verdicts, r', hok⟩ : ∃ verdicts r',
      TeslaReceiver.settleInterval c nowNs r k = .ok (verdicts, r') := by
    unfold TeslaReceiver.settleInterval
    split
    · exact ⟨[], r, rfl⟩
    · rename_i entries hl
      apply exists_settleEntries
      · exact (Buckets.length_le_total hl).trans h.pending.ge
      · exact fun e he => h.arrived k.1 e ⟨entries, hl, he⟩
  have hpending := (settleInterval_settles hok).pending
  obtain ⟨rfl, pending, stats, rfl⟩ := settleInterval_ok hok
  refine ⟨_, _, hok, ⟨?_, ?_⟩⟩
  · have htotal := Buckets.total_erase r.drawers k.1
    rw [h.pending, List.length_map] at hpending
    dsimp only at hpending ⊢
    omega
  · rintro i e ⟨entries, hl, he⟩
    by_cases hk : i = k.1
    · rw [hk, AList.lookup_erase] at hl
      cases hl
    · rw [AList.lookup_erase_ne hk] at hl
      exact h.arrived i e ⟨entries, hl, he⟩

theorem Balanced.exists_settle (h : r.Balanced nowNs) (keys : List (ℕ × ChainKey)) :
    ∃ verdicts r', settle c r keys nowNs = .ok (verdicts, r') := by
  suffices hrun : ∃ vss r', run (TeslaReceiver.settleInterval c nowNs) r keys = .ok (vss, r') by
    obtain ⟨vss, r', hrun⟩ := hrun
    exact ⟨vss.flatten, r', by rw [settle, hrun]; rfl⟩
  induction keys generalizing r with
  | nil => exact ⟨[], r, rfl⟩
  | cons k keys ih =>
    obtain ⟨vs, r₁, hstep, hbalanced⟩ := h.settleInterval (c := c) k
    obtain ⟨vss, r', hrun⟩ := ih hbalanced
    exact ⟨vs :: vss, r', run_cons_ok_iff.mpr ⟨vs, r₁, vss, hstep, hrun, rfl⟩⟩

theorem Balanced.exists_disclose (h : r.Balanced nowNs) (ext : Extension) :
    ∃ res r', r.disclose c ext nowNs = .ok (res, r') := by
  unfold disclose
  split
  · rename_i keys verifier hcheck
    obtain ⟨verdicts, r', hsettle⟩ := Balanced.exists_settle (c := c)
      (r := { r with verifier := verifier }) ⟨h.pending, h.arrived⟩ keys
    rw [hsettle]
    exact ⟨_, _, rfl⟩
  all_goals exact ⟨_, _, rfl⟩

theorem Balanced.processArrival_iff (h : r.Balanced nowNs) (buf : Bytes) :
    (∃ out r', r.processArrival ops c buf nowNs = .ok (out, r')) ↔
      ∀ ext packet, splitExtension buf = some (ext, packet) → rtpHeaderLen ≤ packet.length →
        (∃ check, r.params.accepts nowNs ext.interval = .ok check) ∧
          (r.params.accepts nowNs ext.interval = .ok .safe →
            ∃ x, ops.unprotect r.inner packet = .ok x) := by
  unfold processArrival
  split
  · rename_i hsplit
    simp [hsplit]
  rename_i ext packet hsplit
  have hiff : ∀ Q : Extension → Bytes → Prop, (∀ ext' packet',
      splitExtension buf = some (ext', packet') → Q ext' packet') ↔ Q ext packet := by
    intro Q
    simp [hsplit]
  rw [hiff]
  split_ifs with hlen
  · simp [not_le.mpr hlen]
  simp only [not_lt.mp hlen, forall_const]
  rcases haccepts : r.params.accepts nowNs ext.interval with p | check
  · simp
  cases check with
  | unsafeLate => simp
  | safe =>
    rcases hinner : ops.unprotect r.inner packet with p | ⟨⟨d | g, b⟩, inner⟩
    · simp
    · simp
    · obtain ⟨res, r₁, hdisclose⟩ := Balanced.exists_disclose (c := c)
        (r := r.authenticated inner packet) ⟨h.pending, h.arrived⟩ ext
      unfold authenticated at hdisclose
      simp only [hdisclose]
      rcases res with d | verdicts <;> simp

/-! ## What a call counts -/

theorem total_eraseAll (alg : TeslaMacAlg) (drawers : Drawers) (keys : List (ℕ × ChainKey)) :
    Buckets.total drawers =
      (verdictsFor c alg drawers keys).length + Buckets.total (eraseAll drawers keys) := by
  induction keys generalizing drawers with
  | nil => simp [verdictsFor, eraseAll]
  | cons k keys ih =>
    rw [Buckets.total_erase drawers k.1, ih (drawers.erase k.1), verdictsFor, List.length_append,
      List.length_map, Nat.add_assoc]
    rfl

theorem countDrop_eq (stats : TeslaStats) (d : TeslaDrop) :
    ∃ malformed late badDisclosure srtp,
      malformed + late + badDisclosure + srtp = stats.dropsMalformed + stats.dropsUnsafe +
        stats.dropsBadDisclosure + stats.dropsSrtp + 1 ∧
      (d ≠ .badDisclosure → badDisclosure = stats.dropsBadDisclosure) ∧
      stats.countDrop d = { stats with
        dropsMalformed := malformed, dropsUnsafe := late, dropsBadDisclosure := badDisclosure,
        dropsSrtp := srtp } := by
  cases d with
  | malformed => exact ⟨_, _, _, _, by omega, fun _ => rfl, rfl⟩
  | unsafeLate => exact ⟨_, _, _, _, by omega, fun _ => rfl, rfl⟩
  | badDisclosure => exact ⟨_, _, _, _, by omega, fun h => absurd rfl h, rfl⟩
  | srtp d => exact ⟨_, _, _, _, by omega, fun _ => rfl, rfl⟩

theorem processArrival_books {buf : Bytes} {out : Except TeslaDrop (List Verdict) × Bytes}
    (h : r.processArrival ops c buf nowNs = .ok (out, r')) :
    (∃ d, out.1 = .error d ∧ r'.pending = r.pending ∧ r'.drawers = r.drawers ∧
        r'.stats = r.stats.countDrop d) ∨
      ∃ interval entry verdicts r₁, out.1 = .ok verdicts ∧ entry.arrivalNs = nowNs ∧
        Settles verdicts.length r r₁ ∧ r' = r₁.deliver interval entry ∧
        ∃ keys, r₁.drawers = eraseAll r.drawers keys ∧
          Buckets.total r.drawers = verdicts.length + Buckets.total r₁.drawers := by
  rcases processArrival_cases h with ⟨d, -, -, hout, rfl⟩ | ⟨ext, packet, -,
    ⟨d, b, inner, -, rfl, rfl⟩ | ⟨g, plain, inner, -, -, rfl, rfl⟩ |
    ⟨g, plain, inner, keys, verifier, verdicts, r₁, -, -, hsettle, rfl, rfl⟩⟩
  · exact .inl ⟨d, hout, rfl, rfl, rfl⟩
  · exact .inl ⟨_, rfl, rfl, rfl, rfl⟩
  · exact .inl ⟨_, rfl, rfl, rfl, rfl⟩
  · have hs := settle_settles hsettle
    obtain ⟨rfl, pending, stats, rfl⟩ := settle_ok hsettle
    exact .inr ⟨_, _, _, _, rfl, rfl, ⟨hs.pending, hs.verdicts, hs.latencies, hs.rest⟩, rfl, keys,
      rfl, total_eraseAll r.alg r.drawers keys⟩

/-! ## The ledger of a run -/

structure Ledger
    (ts : List (Transition (TeslaReceiver ι) (Bytes × ℕ)
      (Except TeslaDrop (List Verdict) × Bytes))) (r : TeslaReceiver ι) : Prop where
  delivered : r.stats.delivered = r.stats.verified + r.stats.forged + r.pending
  pending : r.pending = Buckets.total r.drawers
  nonempty : ∀ i entries, r.drawers.lookup i = some entries → entries ≠ []
  calls : ts.length = r.stats.delivered + r.stats.dropsMalformed + r.stats.dropsUnsafe +
    r.stats.dropsBadDisclosure + r.stats.dropsSrtp
  latencies : r.stats.latenciesNs.length = r.stats.verified
  peakPending : r.stats.peakPending = (ts.map fun t => t.after.pending).foldl max 0
  settled : ∀ t ∈ ts, ∀ verdicts, t.output.1 = .ok verdicts →
    t.after.stats.verified + t.after.stats.forged =
      t.before.stats.verified + t.before.stats.forged + verdicts.length
  pending_le : r.pending ≤ r.stats.peakPending
  /-- Waiting packets arrived with an earlier call. -/
  arrived : ∀ i e, r.Waits i e → ∃ t ∈ ts, e.arrivalNs = t.input.2

variable {ts : List (Transition (TeslaReceiver ι) (Bytes × ℕ)
  (Except TeslaDrop (List Verdict) × Bytes))}

theorem Ledger.balanced (h : Ledger ts r) (hnow : ∀ t ∈ ts, t.input.2 ≤ nowNs) :
    r.Balanced nowNs := by
  refine ⟨h.pending, ?_⟩
  intro i e he
  obtain ⟨t, ht, heq⟩ := h.arrived i e he
  exact heq.trans_le (hnow t ht)

variable {buf : Bytes} {out : Except TeslaDrop (List Verdict) × Bytes}

theorem Ledger.drop (h : Ledger ts r) {d : TeslaDrop} (hout : out.1 = .error d)
    (hpending : r'.pending = r.pending) (hdrawers : r'.drawers = r.drawers)
    (hstats : r'.stats = r.stats.countDrop d) :
    Ledger (ts ++ [⟨r, (buf, nowNs), out, r'⟩]) r' := by
  obtain ⟨malformed, late, badDisclosure, srtp, hsum, -, hdrop⟩ := countDrop_eq r.stats d
  rw [hdrop] at hstats
  constructor
  case delivered => simp only [hstats, hpending, h.delivered]
  case pending => rw [hpending, hdrawers, h.pending]
  case nonempty => simpa only [hdrawers] using h.nonempty
  case calls =>
    simp only [List.length_append, List.length_singleton, hstats, h.calls]
    omega
  case latencies => simp only [hstats, h.latencies]
  case peakPending => simp [← h.peakPending, hstats, hpending, h.pending_le]
  case settled =>
    intro t ht vs hvs
    rcases List.mem_append.mp ht with ht | ht
    · exact h.settled t ht vs hvs
    · obtain rfl := List.mem_singleton.mp ht
      cases hout.symm.trans hvs
  case pending_le => simpa only [hstats, hpending] using h.pending_le
  case arrived =>
    simp only [Waits, hdrawers]
    intro i e he
    obtain ⟨t, ht, heq⟩ := h.arrived i e he
    exact ⟨t, List.mem_append_left _ ht, heq⟩

theorem Ledger.deliver (h : Ledger ts r) {interval : ℕ} {entry : DrawerEntry}
    {verdicts : List Verdict} {keys : List (ℕ × ChainKey)} (hout : out.1 = .ok verdicts)
    (hentry : entry.arrivalNs = nowNs) (hs : Settles verdicts.length r r')
    (hdrawers : r'.drawers = eraseAll r.drawers keys)
    (htotal : Buckets.total r.drawers = verdicts.length + Buckets.total r'.drawers) :
    Ledger (ts ++ [⟨r, (buf, nowNs), out, r'.deliver interval entry⟩])
      (r'.deliver interval entry) := by
  obtain ⟨hpending, hverdicts, hlat, verified, forged, latenciesNs, hstats⟩ := hs
  simp only [hstats] at hverdicts hlat
  have hinsert : (r'.deliver interval entry).drawers = (eraseAll r.drawers keys).insert interval
      (((eraseAll r.drawers keys).lookup interval).getD [] ++ [entry]) := by
    simp only [TeslaReceiver.deliver, hdrawers]
  constructor
  case delivered =>
    have := h.delivered
    simp only [TeslaReceiver.deliver, hstats]
    omega
  case pending =>
    have := h.pending
    -- the drawers have lost the packets with a verdict and gained this one
    rw [hinsert, Buckets.total_insert_append, ← hdrawers]
    simp only [TeslaReceiver.deliver, List.length_singleton]
    omega
  case nonempty =>
    intro i entries hl
    rw [hinsert] at hl
    by_cases hi : i = interval
    · rw [hi, AList.lookup_insert] at hl
      simp [← Option.some.inj hl]
    · rw [AList.lookup_insert_ne hi, lookup_eraseAll] at hl
      split_ifs at hl
      exact h.nonempty i entries hl
  case calls =>
    simp only [List.length_append, List.length_singleton, TeslaReceiver.deliver, hstats, h.calls]
    omega
  case latencies =>
    have := h.latencies
    simp only [TeslaReceiver.deliver, hstats]
    omega
  case peakPending => simp [← h.peakPending, TeslaReceiver.deliver, hstats]
  case settled =>
    intro t ht vs hvs
    rcases List.mem_append.mp ht with ht | ht
    · exact h.settled t ht vs hvs
    · obtain rfl := List.mem_singleton.mp ht
      obtain rfl := Except.ok.inj (hout.symm.trans hvs)
      simpa only [TeslaReceiver.deliver, hstats] using hverdicts
  case pending_le => exact le_max_right _ _
  case arrived =>
    intro i e he
    rcases (waits_iff_of_drawers hinsert i e).mp he with ⟨he, -⟩ | ⟨-, rfl⟩
    · obtain ⟨t, ht, heq⟩ := h.arrived i e he
      exact ⟨t, List.mem_append_left _ ht, heq⟩
    · exact ⟨_, List.mem_append_right _ (List.mem_singleton_self _), hentry⟩

theorem Ledger.step (h : Ledger ts r)
    (hproc : r.processArrival ops c buf nowNs = .ok (out, r')) :
    Ledger (ts ++ [⟨r, (buf, nowNs), out, r'⟩]) r' := by
  rcases processArrival_books hproc with ⟨d, hout, hpending, hdrawers, hstats⟩ |
    ⟨interval, entry, verdicts, r₁, hout, hentry, hs, rfl, keys, hdrawers, htotal⟩
  · exact h.drop hout hpending hdrawers hstats
  · exact h.deliver hout hentry hs hdrawers htotal

variable {commitment : TeslaCommitment} {signature senderPublicKey : Bytes} {dTNs : UInt64}
  {gMax : UInt32} {inner : ι} {r₀ : TeslaReceiver ι} {inputs : List (Bytes × ℕ)}
  {outs : List (Except TeslaDrop (List Verdict) × Bytes)}

theorem ledger_accept
    (h : accept c commitment signature senderPublicKey dTNs gMax inner = .ok (some r)) :
    Ledger [] r := by
  obtain ⟨params, -, rfl⟩ := accept_ok h
  refine ⟨rfl, rfl, by simp, rfl, rfl, rfl, by simp, le_rfl, ?_⟩
  rintro i e ⟨entries, hl, -⟩
  simp at hl

theorem ledger_of_run
    (haccept : accept c commitment signature senderPublicKey dTNs gMax inner = .ok (some r₀))
    (hrun : run (arrival ops c) r₀ inputs = .ok (outs, r)) :
    Ledger (calls (arrival ops c) r₀ inputs) r := by
  apply run_ledger Ledger (ledger_accept haccept) _ hrun
  intro ts r i out r' hledger hstep
  exact hledger.step hstep

theorem exists_processArrival_iff_of_run
    (haccept : accept c commitment signature senderPublicKey dTNs gMax inner = .ok (some r₀))
    (hrun : run (arrival ops c) r₀ inputs = .ok (outs, r))
    (hnow : ∀ i ∈ inputs, i.2 ≤ nowNs) (buf : Bytes) :
    (∃ out r', r.processArrival ops c buf nowNs = .ok (out, r')) ↔
      ∀ ext packet, splitExtension buf = some (ext, packet) → rtpHeaderLen ≤ packet.length →
        (∃ check, r.params.accepts nowNs ext.interval = .ok check) ∧
          (r.params.accepts nowNs ext.interval = .ok .safe →
            ∃ x, ops.unprotect r.inner packet = .ok x) := by
  apply ((ledger_of_run haccept hrun).balanced _).processArrival_iff
  intro t ht
  apply hnow t.input
  rw [← map_input_calls hrun]
  exact List.mem_map_of_mem ht

section Decrypted

variable {σ : Type*} {srtp : SrtpOps σ} {r r' : TeslaReceiver (ReceiverKeyManager σ)}

theorem decrypted_processArrival
    (h : r.processArrival (ReceiverKeyManager.innerOps srtp c) c buf nowNs = .ok (out, r'))
    (hr : r.inner.stats.decrypted = r.stats.delivered + r.stats.dropsBadDisclosure) :
    r'.inner.stats.decrypted = r'.stats.delivered + r'.stats.dropsBadDisclosure := by
  rcases processArrival_cases h with ⟨d, rfl | rfl, -, -, rfl⟩ | ⟨ext, packet, -,
    ⟨d, b, inner, hinner, -, rfl⟩ | ⟨g, plain, inner, hinner, -, -, rfl⟩ |
    ⟨g, plain, inner, keys, verifier, verdicts, r₁, hinner, -, hsettle, -, rfl⟩⟩
  · exact hr
  · exact hr
  · rcases ReceiverKeyManager.decrypted_unprotect hinner with ⟨_, herr, -⟩ | ⟨_, -, hsame⟩
    · cases herr
    · exact hsame.trans hr
  all_goals
    obtain ⟨-, -, hmore⟩ | ⟨_, herr, -⟩ := ReceiverKeyManager.decrypted_unprotect hinner
    swap
    · cases herr
  · simp only [countDrop, TeslaStats.countDrop, authenticated, hmore, hr]
    rfl
  · obtain ⟨-, -, -, verified, forged, latenciesNs, hstats⟩ := settle_settles hsettle
    obtain ⟨-, pending, stats, rfl⟩ := settle_ok hsettle
    simp only at hstats
    simp only [TeslaReceiver.deliver, authenticated, hstats, hmore, hr]
    omega

/-- The books of a receiver over a fresh key manager, after every run that returns; and no
subtraction of the next call underflows, as long as arrival times do not go back. -/
theorem books_of_run (srtp : SrtpOps σ) (c : Crypto) (stream : Except SrtpError σ)
    (scheme : GenerationScheme) (ratchet : StreamRatchet) (k seekCap : ℕ)
    {manager : ReceiverKeyManager σ}
    (hnew : ReceiverKeyManager.new srtp stream scheme ratchet k seekCap = .ok manager)
    {commitment : TeslaCommitment} {signature senderPublicKey : Bytes} {dTNs : UInt64}
    {gMax : UInt32} {r₀ : TeslaReceiver (ReceiverKeyManager σ)}
    (haccept : accept c commitment signature senderPublicKey dTNs gMax manager = .ok (some r₀))
    {inputs : List (Bytes × ℕ)} {outs : List (Except TeslaDrop (List Verdict) × Bytes)}
    (hrun : run (arrival (ReceiverKeyManager.innerOps srtp c) c) r₀ inputs = .ok (outs, r)) :
    (calls (arrival (ReceiverKeyManager.innerOps srtp c) c) r₀ inputs).length = inputs.length ∧
      Ledger (calls (arrival (ReceiverKeyManager.innerOps srtp c) c) r₀ inputs) r ∧
      r.inner.stats.decrypted = r.stats.delivered + r.stats.dropsBadDisclosure ∧
      ∀ buf nowNs, (∀ i ∈ inputs, i.2 ≤ nowNs) →
        ((∃ out r', r.processArrival (ReceiverKeyManager.innerOps srtp c) c buf nowNs =
            .ok (out, r')) ↔
          ∀ ext packet, splitExtension buf = some (ext, packet) → rtpHeaderLen ≤ packet.length →
            (∃ check, r.params.accepts nowNs ext.interval = .ok check) ∧
              (r.params.accepts nowNs ext.interval = .ok .safe →
                ∃ x, r.inner.unprotect srtp c packet = .ok x)) := by
  refine ⟨length_calls hrun, ledger_of_run haccept hrun, ?_, ?_⟩
  · apply run_invariant
      (fun r => r.inner.stats.decrypted = r.stats.delivered + r.stats.dropsBadDisclosure) _ _ hrun
    · obtain ⟨params, -, rfl⟩ := accept_ok haccept
      obtain ⟨_, _, -, -, rfl⟩ := ReceiverKeyManager.new_ok hnew
      rfl
    · intro r i out r' hr h
      exact decrypted_processArrival h hr
  · intro buf nowNs hnow
    exact exists_processArrival_iff_of_run haccept hrun hnow buf

def toyArrivals : List (Bytes × ℕ) :=
  [(toyDatagram (toyPacket 3 1) 3 1 1, 1), (toyDatagram (toyPacket 4 1) 4 3 3, 20)]

theorem books_after_two_packets :
    ∃ manager r₀ outs r,
      ReceiverKeyManager.new ReceiverKeyManager.acceptAll (.ok ()) (.packet 0)
        ⟨ByteArr.replicate _ 0, 0⟩ 2 10 = .ok manager ∧
      accept Crypto.toy toyCommitment [] [] 0 8 manager = .ok (some r₀) ∧
      run (arrival (ReceiverKeyManager.innerOps ReceiverKeyManager.acceptAll Crypto.toy) Crypto.toy)
        r₀ toyArrivals = .ok (outs, r) ∧
      r.stats.delivered = 2 ∧ r.stats.verified = 1 ∧ r.pending = 1 ∧
      r.inner.stats.decrypted = r.stats.delivered + r.stats.dropsBadDisclosure := by
  obtain ⟨manager, hnew⟩ : ∃ manager, ReceiverKeyManager.new ReceiverKeyManager.acceptAll (.ok ())
    (.packet 0) ⟨ByteArr.replicate _ 0, 0⟩ 2 10 = .ok manager := ⟨_, rfl⟩
  obtain ⟨r₀, haccept⟩ : ∃ r₀, accept Crypto.toy toyCommitment [] [] 0 8 manager =
    .ok (some r₀) := ⟨_, rfl⟩
  obtain ⟨outs, r, hrun, hstats⟩ := exists_of_returns
    (x := run (arrival (ReceiverKeyManager.innerOps ReceiverKeyManager.acceptAll Crypto.toy)
      Crypto.toy) r₀ toyArrivals)
    (q := fun _ r => r.stats.delivered = 2 ∧ r.stats.verified = 1 ∧ r.pending = 1)
    (by cases hnew; cases haccept; decide +kernel)
  obtain ⟨hdelivered, hverified, hpending⟩ := of_decide_eq_true hstats
  exact ⟨manager, r₀, outs, r, hnew, haccept, hrun, hdelivered, hverified, hpending,
    (books_of_run _ Crypto.toy (.ok ()) (.packet 0) _ 2 10 hnew haccept hrun).2.2.1⟩

end Decrypted

/-! ## When the receiver aborts -/

/-- The clock reading on which the accept test overflows: the last one, under a schedule that
counts every nanosecond from zero. -/
def ClockOverflows (commitment : TeslaCommitment) (dTNs : UInt64) (arrivalNs : ℕ) : Prop :=
  commitment.t0Ns = 0 ∧ commitment.tIntNs = 1 ∧ u64Max ≤ arrivalNs + dTNs.toNat

instance (commitment : TeslaCommitment) (dTNs : UInt64) (arrivalNs : ℕ) :
    Decidable (ClockOverflows commitment dTNs arrivalNs) := by
  unfold ClockOverflows
  infer_instance

/-- A signed commitment is taken without a look at its numbers, which the schedule asserts. -/
theorem exists_accept_iff (hsig : commitment.verify c signature senderPublicKey = true)
    (hg : 1 ≤ gMax.toNat) :
    (∃ r, accept c commitment signature senderPublicKey dTNs gMax inner = .ok r) ↔
      0 < commitment.tIntNs.toNat ∧ 2 ≤ commitment.d.toNat ∧ 1 ≤ commitment.nChain.toNat := by
  have hiff := TeslaSchedule.exists_new_iff commitment.t0Ns commitment.tIntNs dTNs commitment.d
    commitment.nChain gMax
  simp only [hg, and_true] at hiff
  rw [← hiff, accept, hsig, TeslaCommitment.schedule]
  rcases TeslaSchedule.new commitment.t0Ns commitment.tIntNs commitment.d commitment.nChain dTNs
    gMax with p | params <;> simp

theorem params_of_run
    (haccept : accept c commitment signature senderPublicKey dTNs gMax inner = .ok (some r₀))
    (hrun : run (arrival ops c) r₀ inputs = .ok (outs, r)) :
    r.params.t0Ns = commitment.t0Ns.toNat ∧ r.params.tIntNs = commitment.tIntNs.toNat ∧
      r.params.dTNs = dTNs.toNat := by
  apply run_invariant (fun r => r.params.t0Ns = commitment.t0Ns.toNat ∧
    r.params.tIntNs = commitment.tIntNs.toNat ∧ r.params.dTNs = dTNs.toNat) _ _ hrun
  · obtain ⟨params, hnew, rfl⟩ := accept_ok haccept
    obtain ⟨ht0, htInt, -, -, hdT, -⟩ := TeslaSchedule.new_ok hnew
    exact ⟨ht0, htInt, hdT⟩
  · intro r i out r' hr h
    rwa [(processArrival_drawers h).1]

theorem exists_accepts_iff_of_run
    (haccept : accept c commitment signature senderPublicKey dTNs gMax inner = .ok (some r₀))
    (hrun : run (arrival ops c) r₀ inputs = .ok (outs, r)) (arrivalNs interval : ℕ) :
    (∃ check, r.params.accepts arrivalNs interval = .ok check) ↔
      ¬ ClockOverflows commitment dTNs arrivalNs := by
  obtain ⟨ht0, htInt, hdT⟩ := params_of_run haccept hrun
  rw [TeslaSchedule.exists_accepts_iff, ht0, htInt, hdT]
  simp only [ClockOverflows, ← UInt64.toNat_inj]
  rfl

theorem exists_arrival_iff_of_run
    (haccept : accept c commitment signature senderPublicKey dTNs gMax inner = .ok (some r₀))
    (hrun : run (arrival ops c) r₀ inputs = .ok (outs, r)) {i : Bytes × ℕ}
    (hnow : ∀ j ∈ inputs, j.2 ≤ i.2)
    (hinner : ∀ ext packet, r.Admitted i.1 i.2 ext packet →
      ∃ x, ops.unprotect r.inner packet = .ok x) :
    (∃ out r', arrival ops c r i = .ok (out, r')) ↔
      (teslaExtLen + rtpHeaderLen ≤ i.1.length → ¬ ClockOverflows commitment dTNs i.2) := by
  apply (exists_processArrival_iff_of_run haccept hrun hnow i.1).trans
  constructor
  · intro h hlen
    have hheader : 0 < rtpHeaderLen := by decide
    obtain ⟨ext, packet, hsplit⟩ := exists_splitExtension (hlen.trans_lt' (by omega))
    have hlength := length_of_splitExtension hsplit
    exact (exists_accepts_iff_of_run haccept hrun _ _).mp (h ext packet hsplit (by omega)).1
  · intro h ext packet hsplit hheader
    have hlength := length_of_splitExtension hsplit
    refine ⟨(exists_accepts_iff_of_run haccept hrun _ _).mpr (h (by omega)), ?_⟩
    intro hsafe
    exact hinner ext packet ⟨hsplit, hheader, hsafe⟩

/-- A signed commitment is taken exactly if its numbers pass the asserts of the schedule; from
then on, while the SRTP layer returns and arrival times do not go back, every call returns
exactly if no datagram long enough for the accept test meets the clock's overflow. -/
theorem receive_returns_iff (ops : InnerOps ι) (c : Crypto) (commitment : TeslaCommitment)
    (signature senderPublicKey : Bytes)
    (hsig : commitment.verify c signature senderPublicKey = true) (dTNs : UInt64) (gMax : UInt32)
    (hg : 1 ≤ gMax.toNat) (inner : ι) :
    ((∃ r, accept c commitment signature senderPublicKey dTNs gMax inner = .ok r) ↔
        0 < commitment.tIntNs.toNat ∧ 2 ≤ commitment.d.toNat ∧ 1 ≤ commitment.nChain.toNat) ∧
      ∀ r₀, accept c commitment signature senderPublicKey dTNs gMax inner = .ok (some r₀) →
        ∀ inputs : List (Bytes × ℕ), inputs.Pairwise (fun i j => i.2 ≤ j.2) →
          (∀ pre i, pre ++ [i] <+: inputs → ∀ outs r, run (arrival ops c) r₀ pre = .ok (outs, r) →
            ∀ ext packet, r.Admitted i.1 i.2 ext packet →
              ∃ x, ops.unprotect r.inner packet = .ok x) →
          ((∃ outs r, run (arrival ops c) r₀ inputs = .ok (outs, r)) ↔
            ∀ i ∈ inputs, teslaExtLen + rtpHeaderLen ≤ i.1.length →
              ¬ ClockOverflows commitment dTNs i.2) := by
  refine ⟨exists_accept_iff hsig hg, ?_⟩
  intro r₀ haccept inputs hsorted hinner
  have hcall : ∀ pre i, pre ++ [i] <+: inputs → ∀ outs r,
      run (arrival ops c) r₀ pre = .ok (outs, r) → _ := fun pre i hpre outs r hrun =>
    exists_arrival_iff_of_run haccept hrun
      (fun j hj => (List.pairwise_append.mp (hsorted.sublist hpre.sublist)).2.2 j hj i (by simp))
      (hinner pre i hpre outs r hrun)
  constructor
  · rintro ⟨outs, r, hrun⟩ i hi
    obtain ⟨pre, post, rfl⟩ := List.append_of_mem hi
    have hpre : pre ++ [i] <+: pre ++ i :: post := by simp
    obtain ⟨outs₁, r₁, hrun₁⟩ := exists_run_prefix hrun (List.prefix_append pre (i :: post))
    exact (hcall pre i hpre outs₁ r₁ hrun₁).mp
      (exists_run_iff.mp ⟨outs, r, hrun⟩ pre i hpre outs₁ r₁ hrun₁)
  · intro h
    apply exists_run_iff.mpr
    intro pre i hpre outs r hrun
    exact (hcall pre i hpre outs r hrun).mpr (h i (hpre.subset (by simp)))

theorem receive_returns_toy :
    ∃ r₀, accept Crypto.toy toyCommitment [] [] 0 8 () = .ok (some r₀) ∧
      ∃ outs r, run (arrival InnerOps.acceptAll Crypto.toy) r₀ toyArrivals = .ok (outs, r) := by
  obtain ⟨r₀, haccept⟩ : ∃ r₀, accept Crypto.toy toyCommitment [] [] 0 8 () = .ok (some r₀) :=
    ⟨_, rfl⟩
  refine ⟨r₀, haccept, ?_⟩
  apply ((receive_returns_iff InnerOps.acceptAll Crypto.toy toyCommitment [] [] rfl 0 8 (by decide)
    ()).2 r₀ haccept toyArrivals (by decide +kernel) _).mpr
  · decide +kernel
  · intro pre i hpre outs r hrun ext packet hadm
    exact ⟨_, rfl⟩

/-- A member signs commitments that no schedule allows, and one whose intervals are single
nanoseconds counted from zero. -/
theorem signed_commitment_aborts :
    accept Crypto.toy { toyCommitment with tIntNs := 0 } [] [] 0 8 () = .error .zeroInterval ∧
      accept Crypto.toy { toyCommitment with d := 1 } [] [] 0 8 () = .error .delayBelowTwo ∧
      accept Crypto.toy { toyCommitment with nChain := 0 } [] [] 0 8 () = .error .emptyChain ∧
      ∃ r₀, accept Crypto.toy { toyCommitment with tIntNs := 1 } [] [] 0 8 () = .ok (some r₀) ∧
        r₀.processArrival InnerOps.acceptAll Crypto.toy (toyDatagram (toyPacket 3 1) 3 1 1) u64Max =
          .error .overflow := by
  refine ⟨rfl, rfl, rfl, _, rfl, ?_⟩
  apply abort?_eq_some.mp
  decide +kernel

end TeslaReceiver

end SafeCast
